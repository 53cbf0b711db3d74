import PowerManage.Firewall.Rule
import PowerManage.Lib.Interaction
import PowerManage.Exec.Capture

/-!
# The firewalld backend

`ApplyRule`, `RemoveRule` and `List` of the firewalld manager, as programs that ask for
`firewall-cmd` commands and for files to be written, read and removed.  A rule is a service of its
own, `<namespace>-<id>`: a definition under `firewalldServicesDir`, and its name among the permanent
services of the default zone.

`FirewalldHost` is the other side: the permanent configuration, as far as these commands see it.
-/

namespace PowerManage.Firewall

open PathName Text Interaction

/-- What only succeeds or fails: `--add-service`, `--remove-service` and `--reload` of
`firewall-cmd`, and what is done to the files. -/
inductive FirewalldAct
  | addService (zone svc : Str)
  | removeService (zone svc : Str)
  | reload
  | writeFile (path : Path) (body : Str)
  | removeFile (path : Path)
deriving DecidableEq

/-- `--get-default-zone`, `--permanent --zone=<zone> --list-services`, the reading of a file, and
the rest. -/
inductive FirewalldQuery
  | getDefaultZone
  | listServices (zone : Str)
  | readFile (path : Path)
  | act (a : FirewalldAct)
deriving DecidableEq

abbrev FirewalldAnswer : FirewalldQuery → Type
  | .act _ => Except CommandError Unit
  | _ => Except CommandError Str

abbrev FirewalldOp (α : Type) := Prog FirewalldQuery FirewalldAnswer (Except FirewallError α)

def firewalldServicesDir : Str := "/etc/firewalld/services"

def firewalldServiceName (ns id : Str) : Str := ns ++ "-" ++ id

/-- `filepath.Join(firewalldServicesDir, svc+".xml")` -/
def servicePath (svc : Str) : Path :=
  cleanAbs (firewalldServicesDir ++ '/' :: (svc ++ ".xml"))

/-! ## Definitions -/

def firewalldValidateRule (rule : Rule) : Except FirewallError Unit :=
  if !rule.allow then
    .error (errInvalidRule
      "deny rules not supported by firewalld backend in v1 (use nftables)")
  else if rule.source ≠ [] then
    .error (errInvalidRule
      "source scoping not supported by firewalld backend in v1 (use nftables)")
  else if rule.dest ≠ [] then
    .error (errInvalidRule
      "destination scoping not supported by firewalld backend in v1 (use nftables)")
  else if rule.protocol ≠ .tcp ∧ rule.protocol ≠ .udp then
    .error (errInvalidRule
      "firewalld backend requires a concrete protocol (tcp or udp)")
  else if rule.port ≤ 0 then
    .error (errInvalidRule "firewalld backend requires Port > 0")
  else .ok ()

def firewalldServiceXML (ns : Str) (rule : Rule) : Str :=
  ['\n'].intercalate
    ["<?xml version=\"1.0\" encoding=\"utf-8\"?>",
      "<service>",
      "  <short>" ++ firewalldServiceName ns rule.id ++ "</short>",
      "  <description>" ++ ns ++ " managed rule</description>",
      "  <port port=\"" ++ decimalInt rule.port ++ "\" protocol=\"" ++
        rule.protocol.word ++ "\"/>",
      "</service>",
      []]

def after (s sub : Str) : Option Str :=
  s.tails.findSome? fun t => if hasPrefix t sub then some (t.drop sub.length) else none

/-- What is behind a key and in front of the next quote, unless that is nothing. -/
def attributeOf (body key : Str) : Option Str :=
  (after body key).bind fun rest =>
    (cut '"' rest).bind fun r => if r.1 = [] then none else some r.1

/-- `firewalldReadServiceRule`, once the definition has been read. -/
def parseServiceRule (id body : Str) : Option Rule :=
  let port := ((attributeOf body "port port=\"").bind atoi).getD 0
  let protocol := ((attributeOf body "protocol=\"").map protocolOf).getD .any
  if port = 0 ∨ protocol = .any then none else some ⟨id, true, protocol, port, [], []⟩

/-- The identifiers of the namespace in the output of `--list-services`. -/
def firewalldFilterNamespaceServices (out ns : Str) : List Str :=
  (fields out).filterMap fun f =>
    let pre := ns ++ "-"
    if hasPrefix f pre then some (f.drop pre.length) else none

/-! ## The operations -/

def firewalldRun (a : FirewalldAct) (text : Str) (next : FirewalldOp Unit) :
    FirewalldOp Unit :=
  .ask (.act a) fun
    | .ok () => next
    | .error e => .ret (.error (.command text e))

def firewalldDefaultZone {α : Type} (next : Str → FirewalldOp α) : FirewalldOp α :=
  .ask .getDefaultZone fun
    | .error e => .ret (.error (.command "firewall-cmd --get-default-zone: " e))
    | .ok out =>
      let zone := trimSpace out
      if zone = [] then
        .ret (.error (.emptyOutput
          "firewall-cmd --get-default-zone returned empty output"))
      else next zone

/-- The service is written, loaded, and added to the zone. -/
def firewalldApplyRule (net : Net) (M : Manager) (rule : Rule) : FirewalldOp Unit :=
  match validateRule net rule with
  | .error e => .ret (.error e)
  | .ok () =>
    match firewalldValidateRule rule with
    | .error e => .ret (.error e)
    | .ok () =>
      firewalldDefaultZone fun zone =>
        let svc := firewalldServiceName M.ns rule.id
        let path := servicePath svc
        firewalldRun (.writeFile path (firewalldServiceXML M.ns rule))
          ("write service xml " ++ spell path ++ ": ") <|
        firewalldRun .reload "firewall-cmd --reload: " <|
        firewalldRun (.addService zone svc) "firewall-cmd add-service: " <|
        firewalldRun .reload "firewall-cmd --reload (post-enable): " <|
        .ret (.ok ())

/-- The end of `RemoveRule`: the definition. -/
def firewalldRemoveFile (svc : Str) : FirewalldOp Unit :=
  firewalldRun (.removeFile (servicePath svc))
    ("remove " ++ spell (servicePath svc) ++ ": ") <|
  firewalldRun .reload "firewall-cmd --reload: " <|
  .ret (.ok ())

/-- The service is taken out of the zone if that lists it, and its file goes. -/
def firewalldRemoveRule (M : Manager) (id : Str) : FirewalldOp Unit :=
  match validateRuleID id with
  | .error e => .ret (.error e)
  | .ok () =>
    firewalldDefaultZone fun zone =>
      let svc := firewalldServiceName M.ns id
      .ask (.listServices zone) fun
        | .error e => .ret (.error (.command "firewall-cmd list-services: " e))
        | .ok out =>
          if svc ∈ fields out then
            firewalldRun (.removeService zone svc) "firewall-cmd --remove-service: " <|
            firewalldRemoveFile svc
          else firewalldRemoveFile svc

/-- The loop of `List`: a service whose definition is not there, or says nothing, is skipped. -/
def firewalldReadRules (ns : Str) : List Str → List Rule → FirewalldOp (List Rule)
  | [], rules => .ret (.ok rules)
  | id :: ids, rules =>
    .ask (.readFile (servicePath (firewalldServiceName ns id))) fun
      | .ok body => firewalldReadRules ns ids (rules ++ (parseServiceRule id body).toList)
      | .error _ => firewalldReadRules ns ids rules

/-- The services of this namespace in the default zone. -/
def firewalldListRules (M : Manager) : FirewalldOp (List Rule) :=
  firewalldDefaultZone fun zone =>
    .ask (.listServices zone) fun
      | .error e => .ret (.error (.command "firewall-cmd list-services: " e))
      | .ok out => firewalldReadRules M.ns (firewalldFilterNamespaceServices out M.ns) []

/-! ## firewalld -/

/-- The permanent configuration: the services of each zone, and the definitions. -/
structure FirewalldHost where
  defaultZone : Str
  zones : Str → Option (List Str)
  files : Path → Option Str
  isWord_defaultZone : IsWord defaultZone
  isWord_service : ∀ z svcs, zones z = some svcs → ∀ s ∈ svcs, IsWord s

namespace FirewalldHost

variable (st : FirewalldHost)

def setZone (zone : Str) (svcs : List Str)
    (h : ∀ s ∈ svcs, IsWord s) : FirewalldHost where
  defaultZone := st.defaultZone
  zones := Function.update st.zones zone (some svcs)
  files := st.files
  isWord_defaultZone := st.isWord_defaultZone
  isWord_service z svcs' hz := by
    by_cases hzone : z = zone
    · rw [hzone, Function.update_self, Option.some_inj] at hz
      rw [← hz]
      exact h
    · rw [Function.update_of_ne hzone] at hz
      exact st.isWord_service z svcs' hz

def setFile (path : Path) (body : Option Str) : FirewalldHost :=
  { st with files := Function.update st.files path body }

def addService (zone svc : Str) : Option FirewalldHost :=
  match hzone : st.zones zone with
  | none => none
  | some svcs =>
    if h : IsWord svc ∧ (st.files (servicePath svc)).isSome then
      if svc ∈ svcs then some st
      else
        some (st.setZone zone (svcs ++ [svc]) (List.forall_mem_append.mpr
          ⟨st.isWord_service zone svcs hzone, List.forall_mem_singleton.mpr h.1⟩))
    else none

def removeService (zone svc : Str) : Option FirewalldHost :=
  match hzone : st.zones zone with
  | none => none
  | some svcs =>
    some (st.setZone zone (svcs.filter (· ≠ svc)) fun s hs =>
      st.isWord_service zone svcs hzone s (List.mem_filter.mp hs).1)

def act : FirewalldAct → Option FirewalldHost
  | .addService zone svc => st.addService zone svc
  | .removeService zone svc => st.removeService zone svc
  | .reload => some st
  | .writeFile path body => some (st.setFile path (some body))
  | .removeFile path => some (st.setFile path none)

def answer :
    (q : FirewalldQuery) → Option (FirewalldAnswer q × FirewalldHost)
  | .getDefaultZone => some (.ok (st.defaultZone ++ ['\n']), st)
  | .listServices zone =>
    (st.zones zone).map fun svcs => (.ok (Exec.stdout ([' '].intercalate svcs ++ ['\n'])), st)
  | .readFile path =>
    match st.files path with
    | some body => some (.ok body, st)
    | none => some (.error .notRun, st)
  | .act a => (st.act a).map fun st' => (.ok (), st')

end FirewalldHost

/-! ## The services of a zone

They are printed in one line, of which the runner keeps all or nothing. -/

/-- The services of a zone can be listed. -/
def Listable (svcs : List Str) : Prop :=
  Sections.byteCount ([' '].intercalate svcs) + 1 ≤ Exec.maxOutputBytes

instance decidableListable (svcs : List Str) : Decidable (Listable svcs) :=
  inferInstanceAs (Decidable (_ ≤ _))

theorem dash_mem_serviceName (ns id : Str) : '-' ∈ firewalldServiceName ns id := by
  simp [firewalldServiceName]

theorem mem_fields_services {svcs : List Str} {svc : Str} (hwords : ∀ s ∈ svcs, IsWord s)
    (hdash : '-' ∈ svc) :
    svc ∈ fields (Exec.stdout ([' '].intercalate svcs ++ ['\n'])) ↔ Listable svcs ∧ svc ∈ svcs := by
  rw [Exec.stdout_line (newline_notMem_intercalate hwords), Listable]
  split
  · rename_i h
    rw [fields_line hwords, and_iff_right h]
  · -- No word of the note has a dash.
    rename_i h
    have hnote : ∀ w ∈ fields ('\n' :: Exec.truncated), '-' ∉ w := by decide +kernel
    exact iff_of_false (fun hmem => hnote svc hmem hdash) fun hmem => h hmem.1

end PowerManage.Firewall
