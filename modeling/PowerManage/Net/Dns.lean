import PowerManage.Lib.IpAddress
import PowerManage.Lib.Sections
import PowerManage.Net.Host

/-!
# Name servers

`Apply` of `sys/dns`, for its two backends.  NetworkManager is given the name servers of each family
and the search domains as properties of the interface's connection, systemd-resolved is given both
as lists of the link, or of the whole host in a file of its own.

Each backend leaves out a list that is empty, so `Apply` is a partial update.  **What an interface
shows after a sequence of calls is the last configuration exactly if every list that this one leaves
empty has never been set before** (`last_wins_iff`).
-/

namespace PowerManage.Dns

open Interaction Exec PathName Text Assign IpAddress Net List Function

/-- Who manages name resolution. -/
inductive Backend
  | resolved
  | networkManager
deriving DecidableEq

/-- What `Apply` is given. -/
structure Config where
  nameservers : List Str
  searchDomains : List Str
  iface : Str
deriving DecidableEq

/-! ## Checks -/

def errInvalidConfig : Str := "dns: invalid config"

def validateNameserver (ns : Str) : Option Str :=
  match parseIP ns with
  | none =>
    some (errInvalidConfig ++ ": nameserver " ++ quote ns ++
      " is not a valid IP address")
  | some ip =>
    if ip.isUnspecified then
      some (errInvalidConfig ++ ": nameserver " ++ quote ns ++
        " is the unspecified address and cannot be a resolver")
    else none

def validDomainLabel (l : Str) : Bool :=
  l.head?.any Char.isAlphanum && l.getLast?.any Char.isAlphanum &&
    l.all (fun c => c.isAlphanum || c = '-') && l.length ≤ 63

def validateDomain (d : Str) : Option Str :=
  if d = [] then some (errInvalidConfig ++ ": empty search domain")
  else if 253 < Sections.byteCount d then
    some (errInvalidConfig ++ ": search domain " ++ quote d ++
      " exceeds 253 characters")
  else if d.any fun c => c = ' ' || c = '\t' || c = '\n' || c = '\r' || c = '\x00' then
    some (errInvalidConfig ++ ": search domain " ++ quote d ++
      " contains whitespace or control characters")
  else
    (((trimSuffix d ['.']).splitOn '.').find? fun l => !validDomainLabel l).map fun l =>
      errInvalidConfig ++ ": search domain " ++ quote d ++ " has an invalid label " ++
        quote l

def validateInterface (iface : Str) : Option Str :=
  if iface ≠ [] ∧ !validInterface iface then
    some (errInvalidConfig ++ ": interface " ++ quote iface ++
      " is not a valid interface name")
  else none

variable (cfg : Config)

def validateConfig : Option Str :=
  ((cfg.nameservers.findSome? validateNameserver).or
    (cfg.searchDomains.findSome? validateDomain)).or (validateInterface cfg.iface)

def partitionByFamily (nameservers : List Str) : List Str × List Str :=
  (nameservers.filter fun ns => (parseIP ns).any fun ip => ip.to4,
    nameservers.filter fun ns => (parseIP ns).any fun ip => !ip.to4)

/-! ## NetworkManager -/

namespace NmManager

def errInterfaceRequired : Str :=
  errInvalidConfig ++ (": the NetworkManager backend is connection-scoped and requires " ++
    "Config.Interface (use the Resolved backend for host-global DNS)").toList

def isControl (c : Char) : Bool := c.toNat < 0x20 || c.toNat = 0x7f

def validateConnName (name : Str) : Option Str :=
  if name.any isControl then
    some (errInvalidConfig ++ ": connection name " ++ quote name ++
      " from host output contains a control character")
  else if hasPrefix name ['-'] then
    some (errInvalidConfig ++ ": connection name " ++ quote name ++
      " from host output is flag-shaped (leading '-')")
  else none

def activeConnection (iface : Str) : Net.Program (Except Str Str) :=
  activeConnectionWith errInvalidConfig validateConnName iface

/-- What is not given is not touched. -/
def modifyArgs : List Str :=
  let v4 := (partitionByFamily cfg.nameservers).1
  let v6 := (partitionByFamily cfg.nameservers).2
  let domains := joined cfg.searchDomains
  (if v4 ≠ [] then ["ipv4.dns".toList, joined v4] else []) ++
    (if v6 ≠ [] then ["ipv6.dns".toList, joined v6] else []) ++
    if cfg.searchDomains ≠ [] then
      ["ipv4.dns-search".toList, domains, "ipv6.dns-search".toList, domains]
    else []

def rollbackArgs : List Str :=
  ["ipv4.dns", [], "ipv6.dns", [], "ipv4.dns-search", [],
    "ipv6.dns-search", []]

/-- Putting the connection in force; what was staged is taken back if that fails. -/
def activate (conn : Str) : Task :=
  (runPriv "nmcli" ["connection", "up", conn]).bind fun
    | none => .ret none
    | some err =>
      (runPriv "nmcli".toList (["connection".toList, "modify".toList, conn] ++ rollbackArgs)).bind
        fun _ => .ret (some ("nmcli connection up ".toList ++ conn ++ ": ".toList ++ err))

def apply : Task :=
  match validateConfig cfg with
  | some err => .ret (some err)
  | none =>
    if cfg.iface = [] then .ret (some errInterfaceRequired)
    else
      (activeConnection cfg.iface).bind fun
        | .error err => .ret (some err)
        | .ok conn =>
          andThen
            (runPriv "nmcli"
              (["connection".toList, "modify".toList, conn] ++ modifyArgs cfg))
            ("nmcli connection modify ".toList ++ conn ++ ": ".toList) (activate conn)

end NmManager

/-! ## systemd-resolved -/

namespace ResolvedManager

def resolvedDropInDir : Str := "/etc/systemd/resolved.conf.d"

def resolvedDropInPath : Str := resolvedDropInDir ++ "/10-power-manage.conf"

def resolvectlDNSArgs (iface : Str) (nameservers : List Str) : List Str :=
  ["dns".toList, iface] ++ separatePositionals [] nameservers

def resolvectlDomainArgs (iface : Str) (domains : List Str) : List Str :=
  ["domain".toList, iface] ++ separatePositionals [] domains

/-- A setting of the file, unless its list is empty: the error is for a value that would not stay on
its line. -/
def renderSetting (name : Str) (values : List Str) (what : Str) :
    Except Str Str :=
  let v := [' '].intercalate values
  if values = [] then .ok []
  else if '\n' ∈ v ∨ '\r' ∈ v then
    .error (errInvalidConfig ++ ": " ++ what ++ " list contains a newline")
  else .ok (name ++ '=' :: (v ++ ['\n']))

def renderResolvedDropIn : Except Str Str := do
  let dns ← renderSetting "DNS" cfg.nameservers "nameserver"
  let domains ← renderSetting "Domains" cfg.searchDomains "search-domain"
  return "# Managed by power-manage-agent — do not edit by hand.\n[Resolve]\n" ++ dns ++
    domains

/-- Through `resolvectl`, for one interface. -/
def applyLink : Task :=
  andThen (runPriv "resolvectl" (resolvectlDNSArgs cfg.iface cfg.nameservers))
    ("resolvectl dns " ++ cfg.iface ++ ": ")
    (if cfg.searchDomains ≠ [] then
      andThen (runPriv "resolvectl" (resolvectlDomainArgs cfg.iface cfg.searchDomains))
        ("resolvectl domain " ++ cfg.iface ++ ": ") (.ret none)
    else .ret none)

def mkdir (path : Str) (opts : Fs.MkdirOptions) : Task := .ask (.mkdir path opts) .ret

def writeFile (path data : Str) (opts : Fs.WriteOptions) : Task :=
  .ask (.writeFile path data opts) .ret

/-- A file for all interfaces, and a restart. -/
def applyGlobal : Task :=
  match renderResolvedDropIn cfg with
  | .error err => .ret (some err)
  | .ok body =>
    andThen
      (mkdir resolvedDropInDir ⟨0o755, "root", "root", true⟩)
      ("create " ++ resolvedDropInDir ++ ": ")
      (andThen
        (writeFile resolvedDropInPath body ⟨0o644, "root", "root", []⟩)
        ("write " ++ resolvedDropInPath ++ ": ")
        (andThen (runPriv "systemctl" ["restart", "systemd-resolved"])
          "restart systemd-resolved: " (.ret none)))

def apply : Task :=
  match validateConfig cfg with
  | some err => .ret (some err)
  | none => if cfg.iface ≠ [] then applyLink cfg else applyGlobal cfg

end ResolvedManager

def apply : Backend → Config → Task
  | .resolved => ResolvedManager.apply
  | .networkManager => NmManager.apply

/-! ## What an interface shows -/

variable (b : Backend)

/-- Where each setting goes, and with which values. -/
def table (cfg : Config) : List (Str × List Str) :=
  match b with
  | .resolved => [("dns", cfg.nameservers), ("domain", cfg.searchDomains)]
  | .networkManager =>
    [("ipv4.dns", (partitionByFamily cfg.nameservers).1),
      ("ipv6.dns", (partitionByFamily cfg.nameservers).2),
      ("ipv4.dns-search", cfg.searchDomains), ("ipv6.dns-search", cfg.searchDomains)]

def places : Backend → List Str
  | .resolved => ["dns", "domain"]
  | .networkManager =>
    ["ipv4.dns", "ipv6.dns", "ipv4.dns-search", "ipv6.dns-search"]

def listOf (l : Link) (place : Str) : List Str :=
  if place = "dns" then l.servers else if place = "domain" then l.domains else []

def configured (h : Host) (iface : Str) : Str → List Str :=
  match b with
  | .resolved => listOf (h.links iface)
  | .networkManager => elements ∘ h.profiles (h.connOf iface)

def inForce (h : Host) (iface : Str) : Str → List Str :=
  match b with
  | .resolved => listOf (h.links iface)
  | .networkManager => elements ∘ h.applied (h.connOf iface)

/-- The name servers and search domains of the interface are those of the configuration. -/
def Shows (h : Host) (cfg : Config) : Prop :=
  ∀ p ∈ table b cfg, inForce b h cfg.iface p.1 = p.2

/-- The configuration has values for this place. -/
def Sets (cfg : Config) (place : Str) : Prop :=
  ∃ values, (place, values) ∈ table b cfg ∧ values ≠ []

instance (b : Backend) (cfg : Config) (place : Str) : Decidable (Sets b cfg place) :=
  decidable_of_iff _ mem_named_given

def applyAll (h : Host) (cfgs : List Config) : Option Host :=
  Transition.exec (fun h cfg => h.after (apply b cfg)) h cfgs

theorem fst_table (cfg : Config) : (table b cfg).map Prod.fst = places b := by
  cases b <;> rfl

theorem nodup_places : (places b).Nodup := by
  cases b <;> decide

/-! ## What is accepted -/

theorem validateConfig_eq_none {cfg : Config} (h : validateConfig cfg = none) :
    (∀ ns ∈ cfg.nameservers, validateNameserver ns = none) ∧
      (∀ d ∈ cfg.searchDomains, validateDomain d = none) ∧ validateInterface cfg.iface = none := by
  rw [validateConfig, Option.or_eq_none_iff, Option.or_eq_none_iff, findSome?_eq_none_iff,
    findSome?_eq_none_iff] at h
  exact ⟨h.1.1, h.1.2, h.2⟩

theorem exists_parseIP {ns : Str} (h : validateNameserver ns = none) :
    ∃ ip, parseIP ns = some ip := by
  unfold validateNameserver at h
  split at h
  · cases h
  · next ip hip => exact ⟨ip, hip⟩

theorem plain_nameserver {ns : Str} (h : validateNameserver ns = none) :
    ns ≠ [] ∧ ',' ∉ ns := by
  obtain ⟨ip, hip⟩ := exists_parseIP h
  refine ⟨ne_nil_of_parseIP hip, fun hcomma => ?_⟩
  exact absurd (isAddrChar_of_parseIP hip _ hcomma) (by decide)

theorem mem_trimSuffix_of_mem {c : Char} {s : Str} (h : c ∈ s) (hc : c ≠ '.') :
    c ∈ trimSuffix s ['.'] := by
  by_cases hsuf : ['.'] <:+ s
  · obtain ⟨t, rfl⟩ := hsuf
    rw [trimSuffix_append]
    exact (mem_append.mp h).resolve_right fun hmem => hc (mem_singleton.mp hmem)
  · rw [trimSuffix, if_neg (by rwa [isSuffixOf_iff_suffix])]
    exact h

theorem plain_domain {d : Str} (h : validateDomain d = none) : d ≠ [] ∧ ',' ∉ d := by
  unfold validateDomain at h
  split at h
  · cases h
  next hne =>
  split at h
  · cases h
  split at h
  · cases h
  refine ⟨hne, fun hcomma => ?_⟩
  rw [Option.map_eq_none_iff, find?_eq_none] at h
  have hmem := mem_trimSuffix_of_mem hcomma (by decide)
  have hlabels : ['.'].intercalate ((trimSuffix d ['.']).splitOn '.') = trimSuffix d ['.'] :=
    intercalate_splitOn '.'
  rw [← hlabels] at hmem
  rcases mem_intercalate hmem with hdot | ⟨l, hl, hcl⟩
  · exact absurd hdot (by decide)
  have hlabel := h l hl
  simp only [Bool.not_eq_true, Bool.not_eq_false', validDomainLabel, Bool.and_eq_true,
    all_eq_true] at hlabel
  exact absurd (hlabel.1.2 _ hcl) (by decide)

theorem plain_table {b : Backend} {cfg : Config} (h : validateConfig cfg = none) :
    ∀ p ∈ table b cfg, ∀ v ∈ p.2, v ≠ [] ∧ ',' ∉ v := by
  obtain ⟨hns, hdomains, -⟩ := validateConfig_eq_none h
  have hservers : ∀ v ∈ cfg.nameservers, v ≠ [] ∧ ',' ∉ v := fun v hv => plain_nameserver (hns v hv)
  have hsearch : ∀ v ∈ cfg.searchDomains, v ≠ [] ∧ ',' ∉ v := fun v hv => plain_domain (hdomains v hv)
  cases b with
  | resolved =>
    simp only [table, forall_mem_cons]
    exact ⟨hservers, hsearch, by simp⟩
  | networkManager =>
    simp only [table, forall_mem_cons]
    exact ⟨fun v hv => hservers v (mem_filter.mp hv).1,
      fun v hv => hservers v (mem_filter.mp hv).1, hsearch, hsearch, by simp⟩

/-! ## One call -/

theorem modifyArgs_eq :
    NmManager.modifyArgs cfg = (filled (table .networkManager cfg)).flatMap fun p => [p.1, p.2] := by
  unfold NmManager.modifyArgs filled table
  by_cases h4 : (partitionByFamily cfg.nameservers).1 = [] <;>
    by_cases h6 : (partitionByFamily cfg.nameservers).2 = [] <;>
      by_cases hd : cfg.searchDomains = [] <;> simp [h4, h6, hd]

variable {h h' : Host} {cfg : Config}

theorem after_nmApply (hafter : h.after (NmManager.apply cfg) = some h') :
    validateConfig cfg = none ∧
      h' = h.configure (h.connOf cfg.iface) (filled (table .networkManager cfg)) := by
  unfold NmManager.apply at hafter
  cases hvalid : validateConfig cfg with
  | some err =>
    rw [hvalid] at hafter
    cases hafter
  | none =>
    refine ⟨rfl, ?_⟩
    rw [hvalid] at hafter
    dsimp only at hafter
    split at hafter
    · cases hafter
    rw [NmManager.activeConnection, after_bind (run_activeConnectionWith _ _)] at hafter
    split at hafter
    · cases hafter
    next conn hconn =>
    rw [modifyArgs_eq, after_andThen (run_modify _)] at hafter
    cases hafter
    rw [eq_of_connectionIn hconn]
    rfl

theorem isOption_of_validInterface {iface : Str} (hvalid : validInterface iface = true) :
    Getopt.isOption iface = false := by
  unfold Getopt.isOption
  split
  · simp [validInterface] at hvalid
  · rfl

variable {values : List Str}

theorem parse_positionals {verb iface : Str} (hverb : Getopt.isOption verb = false)
    (hiface : Getopt.isOption iface = false) :
    (Getopt.parse resolvectlSpec ([verb, iface] ++ separatePositionals [] values)).operands =
      verb :: iface :: values := by
  rw [cons_append, cons_append, nil_append, Getopt.parse_operand hverb,
    Getopt.parse_operand hiface]
  exact congrArg (verb :: iface :: ·) (congrArg Getopt.Parsed.operands Getopt.parse_end)

theorem listed_of_forall (hvalues : ∀ v ∈ values, v ≠ []) : listed values = values := by
  refine if_neg ?_
  rintro rfl
  exact hvalues [] (mem_singleton_self _) rfl

theorem listOf_setServers (hvalues : ∀ v ∈ values, v ≠ []) (l : Link) :
    listOf (l.setServers values) = assign (listOf l) (given [("dns", values)]) := by
  by_cases hne : values = []
  · rw [hne]
    rfl
  funext place
  rw [Link.setServers, if_neg hne, listed_of_forall hvalues, given_singleton hne, assign,
    assign_nil, update_apply, listOf, listOf]
  by_cases hplace : place = "dns"
  · rw [if_pos hplace, if_pos hplace]
  · rw [if_neg hplace, if_neg hplace, if_neg hplace]

theorem listOf_setDomains (hvalues : ∀ v ∈ values, v ≠ []) (l : Link) :
    listOf (l.setDomains values) = assign (listOf l) (given [("domain", values)]) := by
  by_cases hne : values = []
  · rw [hne]
    rfl
  funext place
  rw [Link.setDomains, if_neg hne, listed_of_forall hvalues, given_singleton hne, assign,
    assign_nil, update_apply, listOf, listOf]
  by_cases hplace : place = "domain"
  · rw [hplace]
    rfl
  · rw [if_neg hplace, if_neg hplace, if_neg hplace]

def linkAfter (l : Link) (cfg : Config) : Link :=
  (l.setServers cfg.nameservers).setDomains cfg.searchDomains

theorem after_applyLink (hvalid : validInterface cfg.iface = true)
    (hafter : h.after (ResolvedManager.applyLink cfg) = some h') :
    h'.shown = h.shown ∧ h'.links cfg.iface = linkAfter (h.links cfg.iface) cfg := by
  have hiface := isOption_of_validInterface hvalid
  have hdns : h.resolvectl (Getopt.parse resolvectlSpec
      (ResolvedManager.resolvectlDNSArgs cfg.iface cfg.nameservers)).operands =
        some (h.setLink cfg.iface ((h.links cfg.iface).setServers cfg.nameservers)) := by
    rw [ResolvedManager.resolvectlDNSArgs, parse_positionals (by decide) hiface]
    rfl
  have hdomain : ∀ h₁ : Host, h₁.resolvectl (Getopt.parse resolvectlSpec
      (ResolvedManager.resolvectlDomainArgs cfg.iface cfg.searchDomains)).operands =
        some (h₁.setLink cfg.iface ((h₁.links cfg.iface).setDomains cfg.searchDomains)) := by
    intro h₁
    rw [ResolvedManager.resolvectlDomainArgs, parse_positionals (by decide) hiface]
    rfl
  rw [ResolvedManager.applyLink, after_andThen (run_resolvectl hdns)] at hafter
  split at hafter
  · rw [after_andThen (run_resolvectl (hdomain _))] at hafter
    cases hafter
    refine ⟨rfl, ?_⟩
    simp only [Host.setLink, update_self, linkAfter]
  next hnil =>
  cases hafter
  refine ⟨rfl, ?_⟩
  rw [not_not] at hnil
  simp only [Host.setLink, update_self, linkAfter, hnil, Link.setDomains, if_true]

/-- **A call updates what is configured with the lists that it has**, and that is then in force. -/
theorem configured_after {b : Backend} (hiface : cfg.iface ≠ [])
    (hafter : h.after (apply b cfg) = some h') :
    h'.shown = h.shown ∧
      configured b h' cfg.iface = assign (configured b h cfg.iface) (given (table b cfg)) ∧
      inForce b h' cfg.iface = configured b h' cfg.iface := by
  cases b with
  | networkManager =>
    obtain ⟨hvalid, rfl⟩ := after_nmApply hafter
    refine ⟨rfl, ?_, ?_⟩
    · rw [configured, connOf_configure, profiles_configure,
        elements_assign_filled _ (plain_table hvalid)]
      rfl
    · rw [inForce, configured, connOf_configure, applied_configure]
  | resolved =>
    rw [apply, ResolvedManager.apply] at hafter
    cases hvalid : validateConfig cfg with
    | some err =>
      rw [hvalid] at hafter
      cases hafter
    | none =>
      rw [hvalid] at hafter
      rw [if_pos hiface] at hafter
      obtain ⟨hns, hdomains, hname⟩ := validateConfig_eq_none hvalid
      have hok : validInterface cfg.iface = true := by
        simpa [validateInterface, hiface] using hname
      obtain ⟨hshown, hlink⟩ := after_applyLink hok hafter
      refine ⟨hshown, ?_, rfl⟩
      rw [configured, configured, hlink, linkAfter,
        listOf_setDomains fun v hv => (plain_domain (hdomains v hv)).1,
        listOf_setServers fun v hv => (plain_nameserver (hns v hv)).1, ← assign_append,
        ← given_append]
      rfl

/-! ## Sequences of calls -/

variable {b : Backend} {cfgs : List Config} {last : Config} {iface : Str}

/-- **A sequence of calls is a sequence of updates.** -/
theorem configured_applyAll (hiface : iface ≠ []) (hcfgs : ∀ c ∈ cfgs, c.iface = iface)
    (hrun : applyAll b h cfgs = some h') :
    configured b h' iface =
      assignAll (configured b h iface) (cfgs.map fun c => given (table b c)) := by
  induction cfgs generalizing h with
  | nil =>
    cases hrun
    rfl
  | cons c cfgs ih =>
    obtain ⟨h₁, hfirst, hrest⟩ := Transition.exec_cons_eq_some.mp hrun
    rw [forall_mem_cons] at hcfgs
    obtain ⟨rfl, hcfgs⟩ := hcfgs
    rw [ih hcfgs hrest, (configured_after hiface hfirst).2.1]
    rfl

theorem not_sets_iff {place : Str} :
    place ∉ named (given (table b cfg)) ↔ ¬Sets b cfg place := by
  rw [mem_named_given, Sets]

/-- After any number of configurations the last one is in force, exactly if it sets all that an
earlier one has set. -/
theorem last_wins_iff (hiface : last.iface ≠ []) (hcfgs : ∀ c ∈ cfgs, c.iface = last.iface)
    (hrun : applyAll b h (cfgs ++ [last]) = some h') :
    Shows b h' last ↔
      ∀ place ∈ places b, Sets b last place ∨
        (configured b h last.iface place = [] ∧ ∀ c ∈ cfgs, ¬Sets b c place) := by
  obtain ⟨h₁, hearlier, hlast⟩ := Transition.exec_concat_eq_some.mp hrun
  obtain ⟨-, hassign, hforce⟩ := configured_after hiface hlast
  have hbefore := configured_applyAll hiface hcfgs hearlier
  have hkeys : ((table b last).map Prod.fst).Nodup := fst_table b last ▸ nodup_places b
  rw [← fst_table b last, forall_mem_map]
  refine forall₂_congr fun p hp => ?_
  rw [hforce, hassign]
  by_cases hne : p.2 = []
  · -- A list that is left out: what was there before is still there.
    have hnot : ¬Sets b last p.1 := by
      rintro ⟨values, hmem, hvalues⟩
      have heq := inj_on_of_nodup_map hkeys hmem hp rfl
      exact hvalues ((congrArg Prod.snd heq).trans hne)
    have hgiven : ∀ u ∈ cfgs.map (fun c => given (table b c)), (p.1, []) ∉ u := by
      simp [given]
    rw [assign_of_notMem (not_sets_iff.mpr hnot), hbefore, hne, assignAll_eq_iff hgiven,
      forall_mem_map, or_iff_right hnot]
    simp only [not_sets_iff]
  · have hmem : (p.1, p.2) ∈ given (table b last) :=
      mem_filter.mpr ⟨hp, decide_eq_true hne⟩
    have hnodup := hkeys.sublist (named_given_sublist (table b last))
    exact iff_of_true (assign_of_mem hnodup hmem) (.inl ⟨p.2, hp, hne⟩)

def officeDns : Config :=
  ⟨["192.0.2.1", "2001:db8::1"], ["corp.example"], "eth0"⟩

def plainDns : Config := ⟨["192.0.2.2"], [], "eth0"⟩

/-- The search domain of the first configuration stays, on both backends, and NetworkManager keeps
its IPv6 server too. -/
theorem old_search_domain :
    (∃ h', applyAll .networkManager testHost [officeDns, plainDns] = some h' ∧
      ¬Shows .networkManager h' plainDns) ∧
    ∃ h', applyAll .resolved testHost [officeDns, plainDns] = some h' ∧
      ¬Shows .resolved h' plainDns := by
  obtain ⟨h₁, hrun₁, hne₁⟩ : ∃ h, applyAll .networkManager testHost [officeDns, plainDns] = some h ∧
      inForce .networkManager h "eth0" "ipv6.dns" ≠ [] := by decide +kernel
  obtain ⟨h₂, hrun₂, hne₂⟩ : ∃ h, applyAll .resolved testHost [officeDns, plainDns] = some h ∧
      inForce .resolved h "eth0" "domain" ≠ [] := by decide +kernel
  exact ⟨⟨h₁, hrun₁, fun hshows => hne₁ (hshows ("ipv6.dns", []) (by decide +kernel))⟩,
    h₂, hrun₂, fun hshows => hne₂ (hshows ("domain", []) (by decide +kernel))⟩

/-- A configuration that has a list for every place. -/
theorem replaced_dns : ∃ h', applyAll .networkManager testHost [plainDns, officeDns] = some h' ∧
    Shows .networkManager h' officeDns := by
  have hsome : (applyAll .networkManager testHost [plainDns, officeDns]).isSome = true := by
    decide +kernel
  obtain ⟨h', hrun⟩ := Option.isSome_iff_exists.mp hsome
  have hcfgs : ∀ c ∈ [plainDns], c.iface = officeDns.iface := by decide
  refine ⟨h', hrun, (last_wins_iff (by decide) hcfgs hrun).mpr ?_⟩
  decide +kernel

end PowerManage.Dns
