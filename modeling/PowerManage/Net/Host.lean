import PowerManage.Exec.Runner
import PowerManage.Fs.Manager
import PowerManage.Lib.Assign
import PowerManage.Lib.Getopt
import PowerManage.Lib.Transition

/-!
# The network tools of a host

The managers of name servers and of interfaces start `nmcli`, `resolvectl` and `networkctl` through
the runner, and write files through the file manager.  `Host` is a host on which all of that
succeeds:

* A connection of NetworkManager has a text for each property, the empty one where it is not set.
  `nmcli connection modify` sets the properties that it is given and no others, and
  `nmcli connection up` puts the connection as it is in force.  The connection of an interface is the
  one that `nmcli device show` names.
* `resolvectl` reads its arguments as `getopt_long` does.  `dns` and `domain` with an interface and
  nothing else print what is set; with a list after it they set the list, where a single empty text
  is the empty list.

A list is a property with commas between its elements.  `filled` is the update that sets those of a
table of lists that are not empty, which is how both managers make their arguments.
-/

namespace PowerManage.Net

open Interaction Exec PathName Assign List Function

/-- What a backend asks of the host. -/
inductive Ask
  | run (c : Command)
  | mkdir (path : Str) (opts : Fs.MkdirOptions)
  | writeFile (path data : Str) (opts : Fs.WriteOptions)

/-- What is answered: a result or the text of an error, or the text of an error if there is one. -/
abbrev Reply : Ask → Type
  | .run _ => Except Str Result
  | .mkdir _ _ | .writeFile _ _ _ => Option Str

abbrev Program := Prog Ask Reply

abbrev Task := Program (Option Str)

def failure (name : Str) : Except Str Result → Option Str
  | .error err => some err
  | .ok res => if res.exitCode ≠ 0 then some (commandError name res) else none

def runPriv (name : Str) (args : List Str) : Task :=
  .ask (.run ⟨name, args, [], true⟩) fun res => .ret (failure name res)

def output (name : Str) : Except Str Result → Except Str Str
  | .error err => .error err
  | .ok res => if res.exitCode ≠ 0 then .error (commandError name res) else .ok res.stdout

def runRead (name : Str) (args : List Str) : Program (Except Str Str) :=
  .ask (.run ⟨name, args, [], false⟩) fun res => .ret (output name res)

/-- An error of the first task is reported after this text. -/
def andThen (first : Task) (what : Str) (next : Task) : Task :=
  first.bind fun
    | some err => .ret (some (what ++ err))
    | none => next

/-- The connection in what `nmcli` prints, for a package that lets only some names pass. -/
def connectionIn (invalid : Str) (check : Str → Option Str) (iface : Str) :
    Except Str Str → Except Str Str
  | .error err => .error ("resolve connection for " ++ iface ++ ": " ++ err)
  | .ok out =>
    if trimSpace out = [] ∨ trimSpace out = "--" then
      .error (invalid ++ ": interface " ++ Text.quote iface ++
        " has no active NetworkManager connection to configure")
    else
      match check (trimSpace out) with
      | some err => .error err
      | none => .ok (trimSpace out)

def activeConnectionWith (invalid : Str) (check : Str → Option Str)
    (iface : Str) : Program (Except Str Str) :=
  (runRead "nmcli"
    ["-g", "GENERAL.CONNECTION", "device", "show", iface]).bind fun out =>
    .ret (connectionIn invalid check iface out)

def validInterface (name : Str) : Bool :=
  name.head?.any Char.isAlphanum &&
    name.all (fun c => c.isAlphanum || c = '.' || c = '_' || c = '@' || c = '-') &&
    name.length ≤ 15

/-! ## The host -/

abbrev Properties := Str → Str

def unset : Properties := fun _ => []

/-- The settings of `systemd-resolved` for a link. -/
structure Link where
  servers : List Str
  domains : List Str
deriving DecidableEq

/-- Connections, links and files, as far as the backends touch them. -/
structure Host where
  /-- What `nmcli device show` prints as the connection of an interface. -/
  shown : Str → Str
  profiles : Str → Properties
  applied : Str → Properties
  links : Str → Link
  files : Str → Option Str

variable (h : Host)

def Host.connOf (iface : Str) : Str := trimSpace (h.shown iface)

/-- What the arguments of `nmcli` come to. -/
inductive NmcliRequest
  | show (iface : Str)
  | modify (conn : Str) (props : List (Str × Str))
  | up (conn : Str)
deriving DecidableEq

def pairs : List Str → Option (List (Str × Str))
  | [] => some []
  | k :: v :: rest => (pairs rest).map ((k, v) :: ·)
  | [_] => none

/-- The arguments as nmcli reads them. -/
def readNmcli : List Str → Option NmcliRequest
  | first :: second :: third :: rest =>
    if first = "connection".toList ∧ second = "modify".toList then
      (pairs rest).map (.modify third)
    else if first = "connection".toList ∧ second = "up".toList ∧ rest = [] then some (.up third)
    else if [first, second, third] = ["-g".toList, "GENERAL.CONNECTION".toList, "device".toList] ∧
        rest.head? = some "show".toList then
      rest.tail.head?.map .show
    else none
  | _ => none

/-- What `nmcli` prints, and the host after it. -/
def Host.nmcli : NmcliRequest → Str × Host
  | .show iface => (h.shown iface, h)
  | .modify conn props =>
    ([], { h with profiles := Function.update h.profiles conn (assign (h.profiles conn) props) })
  | .up conn => ([], { h with applied := Function.update h.applied conn (h.profiles conn) })

def resolvectlSpec : Getopt.Spec where
  short c := c ∈ ['i', 'p', 't', 'c']
  long w := w = "interface" ∨ w = "protocol" ∨ w = "type" ∨ w = "class"

def listed (values : List Str) : List Str := if values = [[]] then [] else values

def Link.setServers (l : Link) (values : List Str) : Link :=
  if values = [] then l else { l with servers := listed values }

def Link.setDomains (l : Link) (values : List Str) : Link :=
  if values = [] then l else { l with domains := listed values }

def Host.setLink (iface : Str) (l : Link) : Host :=
  { h with links := Function.update h.links iface l }

/-- The host after `resolvectl` with these operands. -/
def Host.resolvectl : List Str → Option Host
  | verb :: iface :: values =>
    if verb = "dns" then some (h.setLink iface ((h.links iface).setServers values))
    else if verb = "domain" then some (h.setLink iface ((h.links iface).setDomains values))
    else none
  | _ => none

def done (stdout : Str) : Result := ⟨0, stdout, []⟩

/-- The commands that the backends run. -/
inductive Tool
  | nmcli
  | resolvectl
  | networkctl
  | systemctl
deriving DecidableEq

def toolOf (name : Str) : Option Tool :=
  if name = "nmcli" then some .nmcli
  else if name = "resolvectl" then some .resolvectl
  else if name = "networkctl" then some .networkctl
  else if name = "systemctl" then some .systemctl
  else none

/-- What a command comes to on this host. -/
def Host.use (args : List Str) : Tool → Option (Str × Host)
  | .nmcli => (readNmcli args).map h.nmcli
  | .resolvectl =>
    (h.resolvectl (Getopt.parse resolvectlSpec args).operands).map fun h' => ([], h')
  | .networkctl | .systemctl => some ([], h)

def Host.start (c : Command) : Option (Except Str Result × Host) :=
  ((toolOf c.name).bind (h.use c.args)).map fun p => (.ok (done p.1), p.2)

def Host.answer : (q : Ask) → Option (Reply q × Host)
  | .run c => h.start c
  | .mkdir _ _ => some (none, h)
  | .writeFile path data _ =>
    some (none, { h with files := Function.update h.files path (some data) })

def Host.after (task : Task) : Option Host :=
  (task.run Host.answer h).bind fun r => if r.1 = none then some r.2 else none

def testHost : Host where
  shown _ := "wired\n"
  profiles _ := unset
  applied _ := unset
  links _ := ⟨[], []⟩
  files _ := none

/-! ## Commands on the host -/

variable {h : Host} {conn iface : Str} {α : Type}

variable {h' : Host} {values : List Str}

theorem after_bind {p : Program α} {f : α → Task} {a : α}
    (hp : p.run Host.answer h = some (a, h')) : h.after (p.bind f) = h'.after (f a) := by
  have hrun : (p.bind f).run Host.answer h = (f a).run Host.answer h' := by
    refine Option.ext fun r => ?_
    rw [Prog.run_bind_eq_some, hp]
    simp
  rw [Host.after, hrun, Host.after]

theorem after_andThen {first next : Task} {what : Str}
    (hfirst : first.run Host.answer h = some (none, h')) :
    h.after (andThen first what next) = h'.after next :=
  after_bind hfirst

theorem pairs_flatMap (props : List (Str × Str)) :
    pairs (props.flatMap fun p => [p.1, p.2]) = some props := by
  induction props with
  | nil => rfl
  | cons p props ih =>
    rw [flatMap_cons, cons_append, singleton_append, pairs, ih]
    rfl

def Host.configure (h : Host) (conn : Str) (props : List (Str × Str)) : Host :=
  ((h.nmcli (.modify conn props)).2.nmcli (.up conn)).2

@[simp] theorem connOf_configure (h : Host) (conn : Str)
    (props : List (Str × Str)) :
    (h.configure conn props).connOf iface = h.connOf iface := rfl

theorem profiles_configure (h : Host) (conn : Str) (props : List (Str × Str)) :
    (h.configure conn props).profiles conn = assign (h.profiles conn) props :=
  update_self ..

theorem applied_configure (h : Host) (conn : Str) (props : List (Str × Str)) :
    (h.configure conn props).applied conn = (h.configure conn props).profiles conn :=
  update_self ..

theorem run_runPriv {name : Str} {args : List Str} {tool : Tool} {stdout : Str}
    (htool : toolOf name = some tool) (huse : h.use args tool = some (stdout, h')) :
    (runPriv name args).run Host.answer h = some (none, h') := by
  have hstart : h.start ⟨name, args, [], true⟩ = some (.ok (done stdout), h') := by
    rw [Host.start, htool, Option.bind_some, huse]
    rfl
  exact Prog.run_ask_eq_some.mpr ⟨.ok (done stdout), h', hstart, rfl⟩

theorem readNmcli_modify (conn : Str) (props : List (Str × Str)) :
    readNmcli (["connection".toList, "modify", conn] ++
      props.flatMap fun p => [p.1, p.2]) = some (.modify conn props) := by
  rw [cons_append, cons_append, cons_append, nil_append, readNmcli,
    if_pos ⟨rfl, rfl⟩, pairs_flatMap]
  rfl

theorem run_modify (props : List (Str × Str)) :
    (runPriv "nmcli" (["connection".toList, "modify", conn] ++
      props.flatMap fun p => [p.1, p.2])).run Host.answer h =
        some (none, (h.nmcli (.modify conn props)).2) := by
  have htool : toolOf "nmcli" = some .nmcli := by decide
  have huse : h.use (["connection".toList, "modify", conn] ++
      props.flatMap fun p => [p.1, p.2]) .nmcli = some ([], (h.nmcli (.modify conn props)).2) := by
    rw [Host.use, readNmcli_modify]
    rfl
  exact run_runPriv htool huse

theorem run_resolvectl {args : List Str}
    (hread : h.resolvectl (Getopt.parse resolvectlSpec args).operands = some h') :
    (runPriv "resolvectl" args).run Host.answer h = some (none, h') := by
  have htool : toolOf "resolvectl" = some .resolvectl := by decide
  have huse : h.use args .resolvectl = some ([], h') := by
    rw [Host.use, hread]
    rfl
  exact run_runPriv htool huse

theorem run_activeConnectionWith (invalid : Str) (check : Str → Option Str) :
    (activeConnectionWith invalid check iface).run Host.answer h =
      some (connectionIn invalid check iface (.ok (h.shown iface)), h) := by
  rw [activeConnectionWith, Prog.run_bind_eq_some]
  exact ⟨.ok (h.shown iface), h, rfl, rfl⟩

theorem eq_of_connectionIn {invalid out : Str} {check : Str → Option Str}
    (heq : connectionIn invalid check iface (.ok out) = .ok conn) : conn = trimSpace out := by
  rw [connectionIn] at heq
  split at heq
  · cases heq
  cases hcheck : check (trimSpace out) with
  | some err =>
    rw [hcheck] at heq
    cases heq
  | none =>
    rw [hcheck] at heq
    cases heq
    rfl

/-! ## Lists in properties -/

def elements (s : Str) : List Str := if s = [] then [] else s.splitOn ','

def joined (values : List Str) : Str := [','].intercalate values

theorem joined_elements (s : Str) : joined (elements s) = s := by
  unfold elements
  split
  · simp_all [joined]
  · exact intercalate_splitOn ','

theorem elements_inj {s t : Str} : elements s = elements t ↔ s = t := by
  refine ⟨fun heq => ?_, fun heq => heq ▸ rfl⟩
  rw [← joined_elements s, heq, joined_elements]

theorem joined_ne_nil (hne : values ≠ []) (hvalues : ∀ v ∈ values, v ≠ []) : joined values ≠ [] := by
  obtain ⟨v, vs, rfl⟩ := exists_cons_of_ne_nil hne
  have hv := hvalues v (mem_cons_self ..)
  cases vs with
  | nil => simpa [joined] using hv
  | cons w ws => simp [joined]

theorem elements_joined (hvalues : ∀ v ∈ values, v ≠ [] ∧ ',' ∉ v) :
    elements (joined values) = values := by
  by_cases hne : values = []
  · rw [hne]
    rfl
  · rw [elements, if_neg (joined_ne_nil hne fun v hv => (hvalues v hv).1)]
    exact splitOn_intercalate ',' (fun v hv => (hvalues v hv).2) hne

variable (table : List (Str × List Str))

def filled : List (Str × Str) :=
  table.filterMap fun p => if p.2 = [] then none else some (p.1, joined p.2)

def given : List (Str × List Str) :=
  table.filter fun p => p.2 ≠ []

theorem given_singleton {k : Str} (hne : values ≠ []) : given [(k, values)] = [(k, values)] :=
  filter_cons_of_pos (decide_eq_true hne)

theorem given_append (t t' : List (Str × List Str)) :
    given (t ++ t') = given t ++ given t' :=
  filter_append ..

theorem named_given_sublist :
    (named (given table)).Sublist (table.map Prod.fst) :=
  filter_sublist.map _

theorem mem_named_given {table : List (Str × List Str)} {k : Str} :
    k ∈ named (given table) ↔ ∃ values, (k, values) ∈ table ∧ values ≠ [] := by
  simp [named, given]

theorem elements_assign_filled {table : List (Str × List Str)} (s : Properties)
    (h : ∀ p ∈ table, ∀ v ∈ p.2, v ≠ [] ∧ ',' ∉ v) :
    elements ∘ assign s (filled table) = assign (elements ∘ s) (given table) := by
  have hmap : (filled table).map (Prod.map id elements) = given table := by
    induction table with
    | nil => rfl
    | cons p table ih =>
      rw [forall_mem_cons] at h
      rw [filled, filterMap_cons, given]
      by_cases hp : p.2 = []
      · rw [if_pos hp, filter_cons_of_neg (by simpa using hp)]
        exact ih h.2
      · rw [if_neg hp, filter_cons_of_pos (by simpa using hp), map_cons, Prod.map_apply,
          elements_joined h.1]
        exact congrArg _ (ih h.2)
  rw [assign_map, hmap]

end PowerManage.Net
