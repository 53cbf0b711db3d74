import PowerManage.Lib.IpAddress
import PowerManage.Lib.Stanzas
import PowerManage.Net.Host
import PowerManage.Service.UnitContent

/-!
# The configuration of interfaces

`Apply` of `sys/netconfig`, for its two backends.  systemd-networkd is given a whole unit file, which
says everything about the interface; NetworkManager is given properties of the interface's
connection, and only those that the configuration has something for.

`Settings` is what either of them makes of a configuration: the gateway, the name servers and the
routes of each family, and the MTU.  On a connection with nothing set, both backends agree
(`unitSettings_eq`); after another configuration, under the condition of `declared_settings_iff`.
-/

namespace PowerManage.NetConfig

open Interaction Exec PathName Text Assign IpAddress Stanzas Net List Function

/-- How an interface gets its addresses. -/
inductive AddressMode
  | dhcp
  | static
  | other (n : Int)
deriving DecidableEq

def AddressMode.toInt : AddressMode → Int
  | dhcp => 1
  | static => 2
  | other n => n

/-- A static route. -/
structure Route where
  destination : Str
  gateway : Str
  metric : Int
deriving DecidableEq

structure InterfaceConfig where
  name : Str
  mode : AddressMode
  addresses : List Str
  gateway : Str
  dns : List Str
  mtu : Int
  routes : List Route
deriving DecidableEq

/-! ## Checks -/

def errInvalidConfig : Str := "netconfig: invalid config"

def isV4 (s : Str) : Bool := (parseIP s).any Addr.to4

/-- An address with a mask that is of the first family, or of the other. -/
def cidrV4 (a : Str) : Bool := (parseCIDR a).any Addr.to4

def cidrV6 (a : Str) : Bool := (parseCIDR a).any fun ip => !ip.to4

def validateInterfaceName (name : Str) : Option Str :=
  if !validInterface name then
    some (errInvalidConfig ++ ": interface " ++ quote name ++
      " is not a valid interface name")
  else none

variable (cfg : InterfaceConfig)

def validateMode : Option Str :=
  if cfg.mode ≠ .dhcp ∧ cfg.mode ≠ .static then
    some (errInvalidConfig ++ ": address mode must be DHCP or Static (got " ++
      decimalInt cfg.mode.toInt ++ [')'])
  else if cfg.mode = .static ∧ cfg.addresses = [] then
    some (errInvalidConfig ++ ": static mode requires at least one address")
  else none

def validateAddress (a : Str) : Option Str :=
  if parseCIDR a = none then
    some (errInvalidConfig ++ ": address " ++ quote a ++ " is not valid CIDR")
  else none

def validateGateway : Option Str :=
  if cfg.gateway = [] then none
  else if parseIP cfg.gateway = none then
    some (errInvalidConfig ++ ": gateway " ++ quote cfg.gateway ++
      " is not a valid IP address")
  else if cfg.mode = .static ∧ ((isV4 cfg.gateway ∧ !cfg.addresses.any cidrV4) ∨
      (!isV4 cfg.gateway ∧ !cfg.addresses.any cidrV6)) then
    some (errInvalidConfig ++ ": gateway " ++ quote cfg.gateway ++
      " family does not match any configured address")
  else none

def validateDns (d : Str) : Option Str :=
  if parseIP d = none then
    some (errInvalidConfig ++ ": DNS " ++ quote d ++ " is not a valid IP address")
  else none

def validateMtu (mtu : Int) : Option Str :=
  if mtu ≠ 0 ∧ (mtu < 68 ∨ mtu > 65535) then
    some (errInvalidConfig ++ ": MTU " ++ decimalInt mtu ++
      " out of range (68..65535, or 0 for default)")
  else none

def validateRoute (rt : Route) : Option Str :=
  if rt.destination ≠ "default" ∧ parseCIDR rt.destination = none then
    some (errInvalidConfig ++ ": route destination " ++ quote rt.destination ++
      " must be CIDR or \"default\"")
  else if parseIP rt.gateway = none then
    some (errInvalidConfig ++ ": route to " ++ quote rt.destination ++
      " has invalid gateway " ++ quote rt.gateway)
  else if rt.metric < 0 then
    some (errInvalidConfig ++ ": route to " ++ quote rt.destination ++
      " has negative metric " ++ decimalInt rt.metric)
  else none

def validateInterfaceConfig : Option Str :=
  (validateInterfaceName cfg.name).or <| (validateMode cfg).or <|
    (cfg.addresses.findSome? validateAddress).or <| (validateGateway cfg).or <|
    (cfg.dns.findSome? validateDns).or <| (validateMtu cfg.mtu).or <|
    cfg.routes.findSome? validateRoute

def partitionAddrsByFamily (addrs : List Str) : List Str × List Str :=
  (addrs.filter cidrV4, addrs.filter cidrV6)

def partitionIPsByFamily (ips : List Str) : List Str × List Str :=
  (ips.filter isV4, ips.filter fun s => (parseIP s).any fun ip => !ip.to4)

/-! ## NetworkManager -/

/-- The destination of a route, with the network of all addresses for the default. -/
def destinationOf (rt : Route) : Str :=
  if rt.destination = "default" then
    if isV4 rt.gateway then "0.0.0.0/0" else "::/0"
  else rt.destination

def nmRoute (rt : Route) : Str :=
  destinationOf rt ++ ' ' :: rt.gateway ++
    if rt.metric ≠ 0 then ' ' :: decimalInt rt.metric else []

def nmRoutesByFamily (routes : List Route) : List Str × List Str :=
  ((routes.filter fun rt => isV4 rt.gateway).map nmRoute,
    (routes.filter fun rt => !isV4 rt.gateway).map nmRoute)

def gwV4 : Str :=
  if cfg.gateway ≠ [] ∧ isV4 cfg.gateway then cfg.gateway else []

def gwV6 : Str :=
  if cfg.gateway ≠ [] ∧ !isV4 cfg.gateway then cfg.gateway else []

/-- With DHCP addresses and gateways are cleared; otherwise only what is given is set. -/
def nmModifyArgs : List Str :=
  let v4addr := (partitionAddrsByFamily cfg.addresses).1
  let v6addr := (partitionAddrsByFamily cfg.addresses).2
  let v4dns := (partitionIPsByFamily cfg.dns).1
  let v6dns := (partitionIPsByFamily cfg.dns).2
  let v4r := (nmRoutesByFamily cfg.routes).1
  let v6r := (nmRoutesByFamily cfg.routes).2
  (if cfg.mode = .dhcp then
    ["ipv4.method".toList, "auto".toList, "ipv4.addresses".toList, [], "ipv4.gateway".toList, [],
      "ipv6.method".toList, "auto".toList, "ipv6.addresses".toList, [], "ipv6.gateway".toList, []]
  else
    (if v4addr ≠ [] then
      ["ipv4.method".toList, "manual".toList, "ipv4.addresses".toList, joined v4addr] ++
        (if gwV4 cfg ≠ [] then ["ipv4.gateway".toList, gwV4 cfg] else [])
    else []) ++
    if v6addr ≠ [] then
      ["ipv6.method".toList, "manual".toList, "ipv6.addresses".toList, joined v6addr] ++
        (if gwV6 cfg ≠ [] then ["ipv6.gateway".toList, gwV6 cfg] else [])
    else []) ++
  (if v4dns ≠ [] ∨ v6dns ≠ [] then
    (if v4dns ≠ [] then ["ipv4.dns".toList, joined v4dns] else []) ++
      if v6dns ≠ [] then ["ipv6.dns".toList, joined v6dns] else []
  else []) ++
  (if cfg.mtu ≠ 0 then ["802-3-ethernet.mtu".toList, decimalInt cfg.mtu] else []) ++
  if v4r ≠ [] ∨ v6r ≠ [] then
    (if v4r ≠ [] then ["ipv4.routes".toList, joined v4r] else []) ++
      if v6r ≠ [] then ["ipv6.routes".toList, joined v6r] else []
  else []

namespace NmBackend

def activeConnection (iface : Str) : Net.Program (Except Str Str) :=
  activeConnectionWith errInvalidConfig (fun _ => none) iface

def apply : Task :=
  match validateInterfaceConfig cfg with
  | some err => .ret (some err)
  | none =>
    (activeConnection cfg.name).bind fun
      | .error err => .ret (some err)
      | .ok conn =>
        andThen
          (runPriv "nmcli"
            (["connection".toList, "modify".toList, conn] ++ nmModifyArgs cfg))
          ("nmcli connection modify ".toList ++ conn ++ ": ".toList)
          (andThen (runPriv "nmcli" ["connection", "up", conn])
            ("nmcli connection up " ++ conn ++ ": ") (.ret none))

end NmBackend

/-! ## systemd-networkd -/

def networkDir : Str := "/etc/systemd/network"

def renderRoute (rt : Route) : Str :=
  "\n[Route]\n" ++
    (if rt.destination ≠ "default" then
      "Destination=" ++ rt.destination ++ "\n"
    else []) ++
    ("Gateway=" ++ rt.gateway ++ "\n") ++
    if rt.metric ≠ 0 then "Metric=" ++ decimalInt rt.metric ++ "\n" else []

/-- The whole unit is written each time. -/
def renderNetworkUnit : Str :=
  "# Managed by power-manage-agent — do not edit by hand.\n".toList ++
    ("[Match]\nName=".toList ++ cfg.name ++ "\n\n".toList) ++
    "[Network]\n".toList ++
    (if cfg.mode = .dhcp then "DHCP=yes\n".toList
    else
      (cfg.addresses.flatMap fun a => "Address=".toList ++ a ++ "\n".toList) ++
        if cfg.gateway ≠ [] then "Gateway=".toList ++ cfg.gateway ++ "\n".toList else []) ++
    (cfg.dns.flatMap fun d => "DNS=".toList ++ d ++ "\n".toList) ++
    (if cfg.mtu ≠ 0 then "\n[Link]\nMTUBytes=".toList ++ decimalInt cfg.mtu ++ "\n".toList
    else []) ++
    cfg.routes.flatMap renderRoute

namespace NetworkdBackend

def path : Str :=
  networkDir ++ '/' :: cfg.name ++ ".network"

def apply : Task :=
  match validateInterfaceConfig cfg with
  | some err => .ret (some err)
  | none =>
    andThen
      (.ask (.writeFile (path cfg) (renderNetworkUnit cfg)
        ⟨0o644, "root", "root", []⟩) .ret)
      ("write " ++ path cfg ++ ": ")
      (andThen (runPriv "networkctl" ["reload"]) "networkctl reload: "
        (.ret none))

end NetworkdBackend

/-! ## What an interface is given -/

/-- A route as a backend has it. -/
structure RouteEntry where
  destination : Str
  gateway : Str
  metric : Str
deriving DecidableEq

/-- A text is empty where there is nothing. -/
structure Settings where
  gateway4 : Str
  gateway6 : Str
  dns4 : List Str
  dns6 : List Str
  mtu : Str
  routes4 : List RouteEntry
  routes6 : List RouteEntry
deriving DecidableEq

def readRoute (s : Str) : RouteEntry :=
  match fields s with
  | [destination, gateway] => ⟨destination, gateway, []⟩
  | [destination, gateway, metric] => ⟨destination, gateway, metric⟩
  | _ => ⟨s, [], []⟩

/-- The settings that a profile stands for. -/
def nmSettings (p : Properties) : Settings where
  gateway4 := p "ipv4.gateway"
  gateway6 := p "ipv6.gateway"
  dns4 := elements (p "ipv4.dns")
  dns6 := elements (p "ipv6.dns")
  mtu := p "802-3-ethernet.mtu"
  routes4 := (elements (p "ipv4.routes")).map readRoute
  routes6 := (elements (p "ipv6.routes")).map readRoute

def compared : List Str :=
  ["ipv4.gateway", "ipv6.gateway", "ipv4.dns", "ipv6.dns",
    "802-3-ethernet.mtu", "ipv4.routes", "ipv6.routes"]

variable (sts : List Stanza)

def sections (name : Str) : List Stanza :=
  sts.filter fun st => st.name = some name

def valuesIn (name key : Str) : List Str :=
  (sections sts name).flatMap fun st => st.get key

/-- The route of a section: without a destination it is the default of its gateway's family. -/
def routeIn (st : Stanza) : RouteEntry :=
  let gateway := (st.get "Gateway").getLastD []
  ⟨(st.get "Destination").getLastD
      (if isV4 gateway then "0.0.0.0/0" else "::/0"),
    gateway, (st.get "Metric").getLastD []⟩

def routesIn : List RouteEntry := (sections sts "Route").map routeIn

/-- The settings that a unit stands for. -/
def settingsIn : Settings where
  gateway4 := ((valuesIn sts "Network" "Gateway").filter isV4).getLastD []
  gateway6 := ((valuesIn sts "Network" "Gateway").filter (!isV4 ·)).getLastD []
  dns4 := (valuesIn sts "Network" "DNS").filter isV4
  dns6 := (valuesIn sts "Network" "DNS").filter (!isV4 ·)
  mtu := (valuesIn sts "Link" "MTUBytes").getLastD []
  routes4 := (routesIn sts).filter fun r => isV4 r.gateway
  routes6 := (routesIn sts).filter fun r => !isV4 r.gateway

def unitSettings (text : Str) : Option Settings :=
  (read none ((Service.systemdLines text).map confItem)).map settingsIn

def inForce (h : Host) (name : Str) : Settings := nmSettings (h.applied (h.connOf name))

def fresh (h : Host) (name : Str) : Host :=
  { h with profiles := Function.update h.profiles (h.connOf name) unset }

/-! ## What is accepted -/

def isPlain (c : Char) : Bool :=
  isCIDRChar c || c.isAlphanum || c = '_' || c = '@' || c = '-'

/-- A text of letters, digits and the characters of addresses. -/
structure Plain (s : Str) : Prop where
  ne_nil : s ≠ []
  all : ∀ c ∈ s, isPlain c = true

variable {s : Str} {rt : Route}

theorem plain_of_all (h : s ≠ [] ∧ s.all isPlain = true) : Plain s :=
  ⟨h.1, all_eq_true.mp h.2⟩

theorem plain_of_parseIP (h : parseIP s ≠ none) : Plain s := by
  obtain ⟨ip, hip⟩ := Option.ne_none_iff_exists'.mp h
  refine ⟨ne_nil_of_parseIP hip, fun c hc => ?_⟩
  simp [isPlain, isCIDRChar, isAddrChar_of_parseIP hip c hc]

theorem plain_of_parseCIDR (h : parseCIDR s ≠ none) : Plain s := by
  obtain ⟨ip, hip⟩ := Option.ne_none_iff_exists'.mp h
  refine ⟨ne_nil_of_parseCIDR hip, fun c hc => ?_⟩
  simp [isPlain, isCIDRChar_of_parseCIDR hip c hc]

theorem plain_of_validInterface (h : validInterface s = true) : Plain s := by
  simp only [validInterface, Bool.and_eq_true, all_eq_true] at h
  refine ⟨?_, fun c hc => ?_⟩
  · rintro rfl
    simp at h
  · have hall := h.1.2 c hc
    simp only [Bool.or_eq_true, decide_eq_true_eq] at hall
    rcases hall with (((halnum | rfl) | rfl) | rfl) | rfl
    · simp [isPlain, halnum]
    all_goals decide

theorem plain_decimal (n : Nat) : Plain (decimal n) := by
  refine ⟨Nat.toDigits_ne_nil, fun c hc => ?_⟩
  simp [isPlain, isCIDRChar, isAddrChar_of_isDigit (isDigit_of_mem_decimal hc)]

theorem plain_decimalInt {n : Int} (h : 0 ≤ n) : Plain (decimalInt n) := by
  rw [decimalInt, if_neg (by omega)]
  exact plain_decimal _

theorem Plain.notMem (h : Plain s) {c : Char} (hc : isPlain c = false) : c ∉ s :=
  fun hmem => Bool.false_ne_true (hc.symm.trans (h.all c hmem))

theorem toNat_of_isPlain {c : Char} (h : isPlain c = true) : 32 < c.toNat ∧ c.toNat < 127 := by
  simp only [isPlain, isCIDRChar, isAddrChar, Bool.or_eq_true, decide_eq_true_eq] at h
  rcases h with (((((((hhex | rfl) | rfl) | rfl) | halnum) | rfl) | rfl) | rfl)
  · have := toNat_of_isHex hhex
    omega
  · decide
  · decide
  · decide
  · have := toNat_of_isAlphanum halnum
    omega
  all_goals decide

theorem Plain.isBlank_eq_false (h : Plain s) : ∀ c ∈ s, isBlank c = false :=
  fun c hc => isBlank_of_lt (toNat_of_isPlain (h.all c hc)).1

theorem Plain.isWord (h : Plain s) : IsWord s := by
  refine ⟨h.ne_nil, fun c hc => Bool.eq_false_iff.mpr fun hspace => ?_⟩
  have hfar := toNat_of_isSpace hspace
  have hnear := toNat_of_isPlain (h.all c hc)
  omega

/-- What `validate` lets through. -/
structure Accepted (cfg : InterfaceConfig) : Prop where
  name : Plain cfg.name
  addresses : ∀ a ∈ cfg.addresses, Plain a
  gateway : cfg.gateway ≠ [] → Plain cfg.gateway
  gateway4 : cfg.mode ≠ .dhcp → gwV4 cfg ≠ [] → (partitionAddrsByFamily cfg.addresses).1 ≠ []
  gateway6 : cfg.mode ≠ .dhcp → gwV6 cfg ≠ [] → (partitionAddrsByFamily cfg.addresses).2 ≠ []
  dns : ∀ d ∈ cfg.dns, parseIP d ≠ none
  mtu : cfg.mtu ≠ 0 → Plain (decimalInt cfg.mtu)
  destination : ∀ rt ∈ cfg.routes, Plain rt.destination
  routeGateway : ∀ rt ∈ cfg.routes, Plain rt.gateway
  metric : ∀ rt ∈ cfg.routes, Plain (decimalInt rt.metric)

theorem filter_ne_nil_of_any {p : Str → Bool} {l : List Str} (h : l.any p = true) :
    l.filter p ≠ [] := by
  obtain ⟨a, ha, hp⟩ := any_eq_true.mp h
  exact ne_nil_of_mem (mem_filter.mpr ⟨ha, hp⟩)

theorem validateGateway_eq_none {cfg : InterfaceConfig} (h : validateGateway cfg = none) :
    (cfg.gateway ≠ [] → parseIP cfg.gateway ≠ none) ∧
      (cfg.mode = .static → gwV4 cfg ≠ [] → cfg.addresses.any cidrV4 = true) ∧
      (cfg.mode = .static → gwV6 cfg ≠ [] → cfg.addresses.any cidrV6 = true) := by
  unfold validateGateway at h
  unfold gwV4 gwV6
  by_cases hne : cfg.gateway = []
  · simp [hne]
  · by_cases hip : parseIP cfg.gateway = none
    · simp [hne, hip] at h
    · cases hv4 : isV4 cfg.gateway <;> simp_all

theorem validateRoute_eq_none (h : validateRoute rt = none) :
    (rt.destination = "default" ∨ parseCIDR rt.destination ≠ none) ∧
      parseIP rt.gateway ≠ none ∧ 0 ≤ rt.metric := by
  unfold validateRoute at h
  split at h
  · cases h
  split at h
  · cases h
  next hgw =>
  split at h
  · cases h
  refine ⟨?_, hgw, by omega⟩
  tauto

theorem accepted_of_validate {cfg : InterfaceConfig} (h : validateInterfaceConfig cfg = none) :
    Accepted cfg := by
  simp only [validateInterfaceConfig, Option.or_eq_none_iff, findSome?_eq_none_iff] at h
  obtain ⟨hname, hmode, haddrs, hgateway, hdns, hmtu, hroutes⟩ := h
  obtain ⟨hgw, hgw4, hgw6⟩ := validateGateway_eq_none hgateway
  have hstatic : cfg.mode ≠ .dhcp → cfg.mode = .static := by
    intro hdhcp
    by_contra hstatic
    simp [validateMode, hdhcp, hstatic] at hmode
  have hok : validInterface cfg.name = true := by simpa [validateInterfaceName] using hname
  have hmtu' : 0 ≤ cfg.mtu := by
    simp only [validateMtu, ite_eq_right_iff, reduceCtorEq, imp_false] at hmtu
    omega
  have hdefault : Plain "default" := plain_of_all (by decide)
  exact {
    name := plain_of_validInterface hok
    addresses := fun a ha => plain_of_parseCIDR (by simpa [validateAddress] using haddrs a ha)
    gateway := fun hne => plain_of_parseIP (hgw hne)
    gateway4 := fun hdhcp hne => filter_ne_nil_of_any (hgw4 (hstatic hdhcp) hne)
    gateway6 := fun hdhcp hne => filter_ne_nil_of_any (hgw6 (hstatic hdhcp) hne)
    dns := fun d hd => by simpa [validateDns] using hdns d hd
    mtu := fun _ => plain_decimalInt hmtu'
    destination := fun rt hrt => (validateRoute_eq_none (hroutes rt hrt)).1.elim
      (fun heq => heq ▸ hdefault) plain_of_parseCIDR
    routeGateway := fun rt hrt => plain_of_parseIP (validateRoute_eq_none (hroutes rt hrt)).2.1
    metric := fun rt hrt => plain_decimalInt (validateRoute_eq_none (hroutes rt hrt)).2.2 }

/-! ## The properties that are given -/

def listSlot (values : List Str) : Option Str :=
  if values = [] then none else some (joined values)

def familySlots (method addresses gateway : Str)
    (addrs : List Str) (gw : Str) : List (Str × Option Str) :=
  [(method, if cfg.mode = .dhcp then some "auto"
      else if addrs = [] then none else some "manual"),
    (addresses, if cfg.mode = .dhcp then some [] else listSlot addrs),
    (gateway, if cfg.mode = .dhcp then some []
      else if addrs = [] ∨ gw = [] then none else some gw)]

/-- The properties that an `Apply` assigns. -/
def slots : List (Str × Option Str) :=
  familySlots cfg "ipv4.method".toList "ipv4.addresses".toList "ipv4.gateway".toList
      (partitionAddrsByFamily cfg.addresses).1 (gwV4 cfg) ++
    familySlots cfg "ipv6.method".toList "ipv6.addresses".toList "ipv6.gateway".toList
      (partitionAddrsByFamily cfg.addresses).2 (gwV6 cfg) ++
    [("ipv4.dns".toList, listSlot (partitionIPsByFamily cfg.dns).1),
      ("ipv6.dns".toList, listSlot (partitionIPsByFamily cfg.dns).2)] ++
    [("802-3-ethernet.mtu".toList, if cfg.mtu = 0 then none else some (decimalInt cfg.mtu))] ++
    [("ipv4.routes".toList, listSlot (nmRoutesByFamily cfg.routes).1),
      ("ipv6.routes".toList, listSlot (nmRoutesByFamily cfg.routes).2)]

def given (k : Str) : Option Str := slot (slots cfg) k

theorem nodup_slots : ((slots cfg).map Prod.fst).Nodup := by
  have hkeys : (slots cfg).map Prod.fst =
      ["ipv4.method", "ipv4.addresses", "ipv4.gateway",
        "ipv6.method", "ipv6.addresses", "ipv6.gateway", "ipv4.dns",
        "ipv6.dns", "802-3-ethernet.mtu", "ipv4.routes",
        "ipv6.routes"] := rfl
  rw [hkeys]
  decide

def spelled (slots : List (Str × Option Str)) : List Str :=
  (ofSlots slots).flatMap fun p => [p.1, p.2]

theorem spelled_append (s t : List (Str × Option Str)) :
    spelled (s ++ t) = spelled s ++ spelled t := by
  rw [spelled, ofSlots_append, flatMap_append, spelled, spelled]

theorem spelled_familySlots_static {cfg : InterfaceConfig} (h : cfg.mode ≠ .dhcp)
    (method addresses gateway : Str) (addrs : List Str) (gw : Str) :
    spelled (familySlots cfg method addresses gateway addrs gw) =
      if addrs ≠ [] then
        [method, "manual", addresses, joined addrs] ++
          (if gw ≠ [] then [gateway, gw] else [])
      else [] := by
  unfold spelled familySlots listSlot ofSlots
  by_cases haddrs : addrs = []
  · simp only [if_neg h, haddrs]
    rfl
  by_cases hgw : gw = []
  · simp only [if_neg h, hgw, or_true, if_true, ne_eq, haddrs, not_false_eq_true,
      not_true_eq_false, if_false]
    rfl
  · simp only [if_neg h, ne_eq, haddrs, hgw]
    rfl

theorem spelled_familySlots_dhcp {cfg : InterfaceConfig} (h : cfg.mode = .dhcp)
    (method addresses gateway : Str) (addrs : List Str) (gw : Str) :
    spelled (familySlots cfg method addresses gateway addrs gw) =
      [method, "auto", addresses, [], gateway, []] := by
  unfold spelled familySlots
  simp only [if_pos h]
  rfl

theorem spelled_lists (k k' : Str) (values values' : List Str) :
    spelled [(k, listSlot values), (k', listSlot values')] =
      if values ≠ [] ∨ values' ≠ [] then
        (if values ≠ [] then [k, joined values] else []) ++
          if values' ≠ [] then [k', joined values'] else []
      else [] := by
  unfold spelled listSlot ofSlots
  by_cases hv : values = [] <;> by_cases hv' : values' = [] <;> simp [hv, hv']

theorem nmModifyArgs_eq : nmModifyArgs cfg = spelled (slots cfg) := by
  have hmtu : spelled [("802-3-ethernet.mtu",
      if cfg.mtu = 0 then none else some (decimalInt cfg.mtu))] =
        if cfg.mtu ≠ 0 then ["802-3-ethernet.mtu".toList, decimalInt cfg.mtu] else [] := by
    by_cases h : cfg.mtu = 0
    · rw [if_pos h, if_neg (not_not.mpr h)]
      rfl
    · rw [if_neg h, if_pos h]
      rfl
  unfold nmModifyArgs slots
  dsimp only
  rw [spelled_append, spelled_append, spelled_append, spelled_append, spelled_lists, spelled_lists,
    hmtu]
  by_cases hmode : cfg.mode = .dhcp
  · rw [if_pos hmode, spelled_familySlots_dhcp hmode, spelled_familySlots_dhcp hmode]
    rfl
  · rw [if_neg hmode, spelled_familySlots_static hmode, spelled_familySlots_static hmode]

theorem given_of_mem {cfg : InterfaceConfig} {k : Str} {o : Option Str}
    (h : (k, o) ∈ slots cfg) : given cfg k = o :=
  slot_of_mem (nodup_slots cfg) h

theorem assign_slots (s : Properties) (k : Str) :
    assign s (ofSlots (slots cfg)) k = (given cfg k).getD (s k) :=
  assign_ofSlots (nodup_slots cfg)

/-! ## What a configuration asks for -/

def routeEntry (rt : Route) : RouteEntry :=
  ⟨destinationOf rt, rt.gateway, if rt.metric = 0 then [] else decimalInt rt.metric⟩

def settings : Settings where
  gateway4 := if cfg.mode = .dhcp then [] else gwV4 cfg
  gateway6 := if cfg.mode = .dhcp then [] else gwV6 cfg
  dns4 := cfg.dns.filter isV4
  dns6 := cfg.dns.filter (!isV4 ·)
  mtu := if cfg.mtu = 0 then [] else decimalInt cfg.mtu
  routes4 := (cfg.routes.filter fun rt => isV4 rt.gateway).map routeEntry
  routes6 := (cfg.routes.filter fun rt => !isV4 rt.gateway).map routeEntry

theorem Plain.destinationOf (h : Plain rt.destination) : Plain (destinationOf rt) := by
  unfold NetConfig.destinationOf
  split
  · split
    · exact plain_of_all (by decide)
    · exact plain_of_all (by decide)
  · exact h

def routeWords (rt : Route) : List Str :=
  [destinationOf rt, rt.gateway] ++ if rt.metric ≠ 0 then [decimalInt rt.metric] else []

theorem nmRoute_eq (rt : Route) : nmRoute rt = [' '].intercalate (routeWords rt) := by
  unfold nmRoute routeWords
  by_cases h : rt.metric = 0 <;> simp [h]

theorem plain_routeWords {cfg : InterfaceConfig} (h : Accepted cfg) (hrt : rt ∈ cfg.routes) :
    ∀ w ∈ routeWords rt, Plain w := by
  unfold routeWords
  intro w hw
  rw [mem_append, mem_cons, mem_singleton] at hw
  rcases hw with (rfl | rfl) | hw
  · exact (h.destination rt hrt).destinationOf
  · exact h.routeGateway rt hrt
  · rw [mem_ite_nil_right, mem_singleton] at hw
    exact hw.2 ▸ h.metric rt hrt

theorem readRoute_nmRoute {cfg : InterfaceConfig} (h : Accepted cfg) (hrt : rt ∈ cfg.routes) :
    readRoute (nmRoute rt) = routeEntry rt := by
  have hfields : fields (nmRoute rt) = routeWords rt := by
    rw [nmRoute_eq, fields_intercalate fun w hw => (plain_routeWords h hrt w hw).isWord]
  rw [readRoute, hfields, routeWords, routeEntry]
  by_cases hm : rt.metric = 0
  · rw [if_neg (not_not.mpr hm), if_pos hm]
    rfl
  · rw [if_pos hm, if_neg hm]
    rfl

theorem listed_nmRoute {cfg : InterfaceConfig} (h : Accepted cfg) (hrt : rt ∈ cfg.routes) :
    nmRoute rt ≠ [] ∧ ',' ∉ nmRoute rt := by
  have hplain := plain_routeWords h hrt
  rw [nmRoute_eq]
  refine ⟨intercalate_ne_nil (by simp [routeWords]) fun w hw => (hplain w hw).isWord, fun hc => ?_⟩
  rcases mem_intercalate hc with heq | ⟨w, hw, hmem⟩
  · exact absurd heq (by decide)
  · exact (hplain w hw).notMem (by decide) hmem

theorem elements_listSlot {values : List Str} (h : ∀ v ∈ values, v ≠ [] ∧ ',' ∉ v) :
    elements ((listSlot values).getD []) = values := by
  unfold listSlot
  split
  · next hnil =>
    rw [hnil]
    rfl
  · exact elements_joined h

theorem elements_routes {cfg : InterfaceConfig} (h : Accepted cfg) (p : Route → Bool) :
    (elements ((listSlot ((cfg.routes.filter p).map nmRoute)).getD [])).map readRoute =
      (cfg.routes.filter p).map routeEntry := by
  rw [elements_listSlot, map_map]
  · exact map_congr_left fun rt hrt => readRoute_nmRoute h (mem_filter.mp hrt).1
  · rw [forall_mem_map]
    exact fun rt hrt => listed_nmRoute h (mem_filter.mp hrt).1

theorem gatewaySlot_getD {cfg : InterfaceConfig} {addrs : List Str} {gw : Str}
    (h : cfg.mode ≠ .dhcp → gw ≠ [] → addrs ≠ []) :
    Option.getD (if cfg.mode = .dhcp then some []
      else if addrs = [] ∨ gw = [] then none else some gw) [] =
        if cfg.mode = .dhcp then [] else gw := by
  by_cases hmode : cfg.mode = .dhcp
  · rw [if_pos hmode, if_pos hmode]
    rfl
  rw [if_neg hmode, if_neg hmode]
  by_cases hgw : gw = []
  · rw [if_pos (.inr hgw), hgw]
    rfl
  · rw [if_neg (not_or.mpr ⟨h hmode hgw, hgw⟩)]
    rfl

theorem dns6_eq {cfg : InterfaceConfig} (h : Accepted cfg) :
    (partitionIPsByFamily cfg.dns).2 = cfg.dns.filter (!isV4 ·) := by
  refine filter_congr fun d hd => ?_
  obtain ⟨ip, hip⟩ := Option.ne_none_iff_exists'.mp (h.dns d hd)
  simp [isV4, hip]

/-- **On a connection with nothing set, NetworkManager has what the configuration asks for.** -/
theorem nmSettings_unset {cfg : InterfaceConfig} (h : Accepted cfg) :
    nmSettings (assign unset (ofSlots (slots cfg))) = settings cfg := by
  have hdns : ∀ d ∈ cfg.dns, d ≠ [] ∧ ',' ∉ d := fun d hd =>
    ⟨(plain_of_parseIP (h.dns d hd)).ne_nil, (plain_of_parseIP (h.dns d hd)).notMem (by decide)⟩
  have hgateway4 : given cfg "ipv4.gateway" = if cfg.mode = .dhcp then some []
      else if (partitionAddrsByFamily cfg.addresses).1 = [] ∨ gwV4 cfg = [] then none
      else some (gwV4 cfg) := given_of_mem (mem_of_getElem? (i := 2) rfl)
  have hgateway6 : given cfg "ipv6.gateway" = if cfg.mode = .dhcp then some []
      else if (partitionAddrsByFamily cfg.addresses).2 = [] ∨ gwV6 cfg = [] then none
      else some (gwV6 cfg) := given_of_mem (mem_of_getElem? (i := 5) rfl)
  have hdns4 : given cfg "ipv4.dns" = listSlot (cfg.dns.filter isV4) :=
    given_of_mem (mem_of_getElem? (i := 6) rfl)
  have hdns6 : given cfg "ipv6.dns" = listSlot (partitionIPsByFamily cfg.dns).2 :=
    given_of_mem (mem_of_getElem? (i := 7) rfl)
  have hmtu : given cfg "802-3-ethernet.mtu" =
      if cfg.mtu = 0 then none else some (decimalInt cfg.mtu) :=
    given_of_mem (mem_of_getElem? (i := 8) rfl)
  have hroutes4 : given cfg "ipv4.routes" = listSlot (nmRoutesByFamily cfg.routes).1 :=
    given_of_mem (mem_of_getElem? (i := 9) rfl)
  have hroutes6 : given cfg "ipv6.routes" = listSlot (nmRoutesByFamily cfg.routes).2 :=
    given_of_mem (mem_of_getElem? (i := 10) rfl)
  have hmtu' : (given cfg "802-3-ethernet.mtu").getD [] =
      if cfg.mtu = 0 then [] else decimalInt cfg.mtu := by
    rw [hmtu]
    split <;> rfl
  have hlist : ∀ p : Str → Bool, ∀ d ∈ cfg.dns.filter p, d ≠ [] ∧ ',' ∉ d :=
    fun p d hd => hdns d (mem_filter.mp hd).1
  unfold nmSettings settings
  simp only [assign_slots, unset]
  rw [hgateway4, hgateway6, gatewaySlot_getD h.gateway4, gatewaySlot_getD h.gateway6, hdns4,
    elements_listSlot (hlist _), hdns6, dns6_eq h, elements_listSlot (hlist _), hmtu', hroutes4,
    hroutes6]
  exact congrArg₂ _ (elements_routes h _) (elements_routes h _)

/-! ## What the unit says -/

def unitLine (f : Field) : Sections.Line := f.1 ++ '=' :: f.2

def matchStanza : Stanza :=
  ⟨some "Match", [("Name", cfg.name)]⟩

def networkStanza : Stanza :=
  ⟨some "Network".toList,
    (if cfg.mode = .dhcp then [("DHCP".toList, "yes".toList)]
    else
      (cfg.addresses.map fun a => ("Address".toList, a)) ++
        if cfg.gateway ≠ [] then [("Gateway".toList, cfg.gateway)] else []) ++
      cfg.dns.map fun d => ("DNS".toList, d)⟩

def linkStanzas : List Stanza :=
  if cfg.mtu ≠ 0 then [⟨some "Link", [("MTUBytes", decimalInt cfg.mtu)]⟩] else []

def routeStanza (rt : Route) : Stanza :=
  ⟨some "Route".toList,
    (if rt.destination ≠ "default".toList then [("Destination".toList, rt.destination)] else []) ++
      [("Gateway".toList, rt.gateway)] ++
      if rt.metric ≠ 0 then [("Metric".toList, decimalInt rt.metric)] else []⟩

def laterStanzas : List Stanza :=
  networkStanza cfg :: linkStanzas cfg ++ cfg.routes.map routeStanza

def unitLines : List Sections.Line :=
  stanzaLines unitLine (matchStanza cfg) ++
    (laterStanzas cfg).flatMap fun st => [] :: stanzaLines unitLine st

open Sections (unlines unlines_append unlines_cons unlines_nil)

theorem unlines_unitLine {lit key : Str} (hlit : lit = key ++ ['=']) (value : Str) :
    lit ++ value ++ "\n" = unlines [unitLine (key, value)] := by
  have hend : "\n" = ['\n'] := rfl
  rw [hlit, unitLine]
  simp

theorem unlines_lines {lit key : Str} (hlit : lit = key ++ ['='])
    (values : List Str) :
    (values.flatMap fun v => lit ++ v ++ "\n".toList) =
      unlines ((values.map fun v => (key, v)).map unitLine) := by
  induction values with
  | nil => rfl
  | cons v vs ih =>
    rw [flatMap_cons, ih, unlines_unitLine hlit, map_cons, map_cons, ← unlines_append,
      singleton_append]

theorem unlines_stanzaLines (name : Str) (fs : List Field) :
    unlines (stanzaLines unitLine ⟨some name, fs⟩) =
      Sections.header name ++ '\n' :: unlines (fs.map unitLine) := by
  simp [stanzaLines]

theorem unlines_spaced (name : Str) (fs : List Field) :
    unlines ([] :: stanzaLines unitLine ⟨some name, fs⟩) =
      '\n' :: (Sections.header name ++ '\n' :: unlines (fs.map unitLine)) := by
  rw [unlines_cons, unlines_stanzaLines, nil_append]

theorem renderRoute_eq (rt : Route) :
    renderRoute rt = unlines ([] :: stanzaLines unitLine (routeStanza rt)) := by
  have hheader : "\n[Route]\n" =
      '\n' :: (Sections.header "Route" ++ ['\n']) := by decide
  unfold renderRoute routeStanza
  rw [hheader, unlines_unitLine (by decide : "Destination=" = "Destination" ++ ['=']),
    unlines_unitLine (by decide : "Gateway=" = "Gateway" ++ ['=']),
    unlines_unitLine (by decide : "Metric=" = "Metric" ++ ['=']), unlines_spaced]
  simp only [map_append, unlines_append, apply_ite (map unitLine), apply_ite unlines,
    map_cons, map_nil, unlines_cons, unlines_nil, append_assoc, cons_append,
    nil_append]

theorem linkText_eq :
    (if cfg.mtu ≠ 0 then "\n[Link]\nMTUBytes=" ++ decimalInt cfg.mtu ++ "\n"
      else []) = unlines ((linkStanzas cfg).flatMap fun st => [] :: stanzaLines unitLine st) := by
  have hheader : "\n[Link]\nMTUBytes=" =
      '\n' :: (Sections.header "Link" ++ ('\n' :: "MTUBytes=")) := by decide
  unfold linkStanzas
  split
  · have hline := unlines_unitLine
      (by decide : "MTUBytes=" = "MTUBytes" ++ ['=']) (decimalInt cfg.mtu)
    rw [flatMap_singleton, unlines_spaced, map_singleton, ← hline, hheader]
    simp
  · rfl

theorem networkText_eq :
    '\n' :: ("[Network]\n" ++
        (if cfg.mode = .dhcp then "DHCP=yes\n".toList
        else
          (cfg.addresses.flatMap fun a => "Address=".toList ++ a ++ "\n".toList) ++
            if cfg.gateway ≠ [] then "Gateway=" ++ cfg.gateway ++ "\n" else []) ++
        cfg.dns.flatMap fun d => "DNS=".toList ++ d ++ "\n".toList) =
      unlines ([] :: stanzaLines unitLine (networkStanza cfg)) := by
  have hheader : "[Network]\n" = Sections.header "Network" ++ ['\n'] := by decide
  have hdhcp : "DHCP=yes\n" = unlines [unitLine ("DHCP", "yes")] := by decide
  unfold networkStanza
  rw [hheader, hdhcp, unlines_lines (by decide : "Address=" = "Address" ++ ['=']),
    unlines_lines (by decide : "DNS=" = "DNS" ++ ['=']),
    unlines_unitLine (by decide : "Gateway=" = "Gateway" ++ ['=']), unlines_spaced]
  simp only [map_append, unlines_append, apply_ite (map unitLine), apply_ite unlines,
    map_cons, map_nil, unlines_cons, unlines_nil, append_assoc, cons_append,
    nil_append]

theorem renderNetworkUnit_eq :
    renderNetworkUnit cfg =
      unlines ("# Managed by power-manage-agent — do not edit by hand." ::
        unitLines cfg) := by
  have hcomment : "# Managed by power-manage-agent — do not edit by hand.\n" =
      "# Managed by power-manage-agent — do not edit by hand." ++ ['\n'] := by decide
  have hmatch : "[Match]\nName=" =
      Sections.header "Match" ++ ('\n' :: ("Name" ++ ['='])) := by decide
  have hend : "\n\n" = ['\n', '\n'] := rfl
  have hroutes : cfg.routes.flatMap renderRoute =
      unlines ((cfg.routes.map routeStanza).flatMap fun st => [] :: stanzaLines unitLine st) := by
    induction cfg.routes with
    | nil => rfl
    | cons rt rts ih =>
      rw [flatMap_cons, ih, renderRoute_eq, map_cons, flatMap_cons, unlines_append]
  have hmatchLines : unlines (stanzaLines unitLine (matchStanza cfg)) =
      Sections.header "Match" ++
        ('\n' :: ("Name" ++ '=' :: (cfg.name ++ ['\n']))) := by
    rw [matchStanza, unlines_stanzaLines, map_singleton, unitLine]
    simp
  unfold renderNetworkUnit unitLines laterStanzas
  rw [unlines_cons, unlines_append, cons_append, flatMap_cons, flatMap_append,
    unlines_append, unlines_append, ← hroutes, ← linkText_eq, ← networkText_eq, hmatchLines,
    hcomment, hmatch, hend]
  simp only [append_assoc, cons_append, nil_append]

/-- A section that is read as it was written. -/
structure PlainStanza (st : Stanza) : Prop where
  name : ∃ name, st.name = some name ∧ Plain name
  fields : ∀ f ∈ st.fields, Plain f.1 ∧ Plain f.2

/-- A line that neither hides nor goes on. -/
structure PlainLine (l : Sections.Line) : Prop where
  newline : '\n' ∉ l
  comment : Service.isComment l = false
  last : l.getLast? ≠ some '\\'

theorem plainLine_header {name : Str} (h : Plain name) :
    PlainLine (Sections.header name) := by
  refine ⟨?_, ?_, ?_⟩
  · simp [Sections.header, h.notMem (show isPlain '\n' = false by decide)]
  · rfl
  · rw [Sections.header, ← cons_append, getLast?_concat]
    decide

theorem plainLine_unitLine {f : Field} (h : Plain f.1 ∧ Plain f.2) : PlainLine (unitLine f) := by
  obtain ⟨c, s, hkey⟩ := exists_cons_of_ne_nil h.1.ne_nil
  have hc : isPlain c = true := h.1.all c (hkey ▸ mem_cons_self ..)
  refine ⟨?_, ?_, ?_⟩
  · have hnot : isPlain '\n' = false := by decide
    simp [unitLine, h.1.notMem hnot, h.2.notMem hnot]
  · have hspace : isSpace c = false := h.1.isWord.2 c (hkey ▸ mem_cons_self ..)
    have hhash : c ≠ '#' := by
      rintro rfl
      exact absurd hc (by decide)
    have hsemi : c ≠ ';' := by
      rintro rfl
      exact absurd hc (by decide)
    simp [unitLine, hkey, Service.isComment, hspace, hhash, hsemi]
  · obtain ⟨t, d, hvalue⟩ := (eq_nil_or_concat' f.2).resolve_left h.2.ne_nil
    have hline : unitLine f = (f.1 ++ '=' :: t) ++ [d] := by simp [unitLine, hvalue]
    have hd : isPlain d = true := h.2.all d (by simp [hvalue])
    rw [hline, getLast?_concat]
    intro heq
    cases heq
    exact absurd hd (by decide)

theorem PlainStanza.lines {st : Stanza} (h : PlainStanza st) :
    ∀ l ∈ stanzaLines unitLine st, PlainLine l := by
  obtain ⟨name, hname, hplain⟩ := h.name
  intro l hl
  rw [stanzaLines, hname, Option.map_some, Option.toList_some, singleton_append,
    mem_cons] at hl
  rcases hl with rfl | hl
  · exact plainLine_header hplain
  · obtain ⟨f, hf, rfl⟩ := mem_map.mp hl
    exact plainLine_unitLine (h.fields f hf)

theorem confItem_unitLine {f : Field} (h : Plain f.1 ∧ Plain f.2) :
    confItem (unitLine f) = .field f.1 f.2 := by
  obtain ⟨c, s, hkey⟩ := exists_cons_of_ne_nil h.1.ne_nil
  have hc : isPlain c = true := h.1.all c (hkey ▸ mem_cons_self ..)
  have hname : isName '=' ['#', '['] f.1 = true := by
    refine isName_iff.mpr ⟨⟨c, s, hkey, ?_, fun hmem => ?_⟩, h.1.notMem (by decide)⟩
    · exact isBlank_of_lt (toNat_of_isPlain hc).1
    · rw [mem_cons, mem_singleton] at hmem
      rcases hmem with rfl | rfl
      · exact absurd hc (by decide)
      · exact absurd hc (by decide)
  rw [unitLine, confItem_field hname, strip_of_forall h.1.isBlank_eq_false,
    strip_of_forall h.2.isBlank_eq_false]

theorem PlainStanza.legible {st : Stanza} (h : PlainStanza st) : Legible confItem unitLine st := by
  obtain ⟨name, hname, -⟩ := h.name
  exact ⟨⟨name, hname, confItem_header name⟩, fun f hf => confItem_unitLine (h.fields f hf)⟩

theorem systemdFrom_of_plain {ls : List Sections.Line} (h : ∀ l ∈ ls, PlainLine l) :
    Service.systemdFrom none ls = ls := by
  induction ls with
  | nil => rfl
  | cons l ls ih =>
    rw [forall_mem_cons] at h
    rw [Service.systemdFrom, h.1.comment, if_neg h.1.last, ih h.2]
    rfl

/-! ## The sections of an accepted configuration -/

theorem plain_field {key value : Str} (hkey : key ≠ [] ∧ key.all isPlain = true)
    (hvalue : Plain value) : ∀ f ∈ [(key, value)], Plain f.1 ∧ Plain f.2 :=
  forall_mem_singleton.mpr ⟨plain_of_all hkey, hvalue⟩

theorem plain_matchStanza {cfg : InterfaceConfig} (h : Accepted cfg) :
    PlainStanza (matchStanza cfg) :=
  ⟨⟨_, rfl, plain_of_all (by decide)⟩, plain_field (by decide) h.name⟩

theorem plain_networkStanza {cfg : InterfaceConfig} (h : Accepted cfg) :
    PlainStanza (networkStanza cfg) := by
  have hkey : ∀ {key : Str} {values : List Str}, Plain key →
      (∀ v ∈ values, Plain v) → ∀ f ∈ values.map fun v => (key, v), Plain f.1 ∧ Plain f.2 := by
    intro key values hkey hvalues
    rw [forall_mem_map]
    exact fun v hv => ⟨hkey, hvalues v hv⟩
  refine ⟨⟨_, rfl, plain_of_all (by decide)⟩, forall_mem_append.mpr ⟨?_, ?_⟩⟩
  · split
    · exact plain_field (by decide) (plain_of_all (by decide))
    · refine forall_mem_append.mpr ⟨hkey (plain_of_all (by decide)) h.addresses, ?_⟩
      split
      · next hne => exact plain_field (by decide) (h.gateway hne)
      · simp
  · exact hkey (plain_of_all (by decide)) fun d hd => plain_of_parseIP (h.dns d hd)

theorem plain_routeStanza {cfg : InterfaceConfig} (h : Accepted cfg) (hrt : rt ∈ cfg.routes) :
    PlainStanza (routeStanza rt) := by
  refine ⟨⟨_, rfl, plain_of_all (by decide)⟩,
    forall_mem_append.mpr ⟨forall_mem_append.mpr ⟨?_, ?_⟩, ?_⟩⟩
  · split
    · exact plain_field (by decide) (h.destination rt hrt)
    · simp
  · exact plain_field (by decide) (h.routeGateway rt hrt)
  · split
    · exact plain_field (by decide) (h.metric rt hrt)
    · simp

theorem plain_laterStanzas {cfg : InterfaceConfig} (h : Accepted cfg) :
    ∀ st ∈ laterStanzas cfg, PlainStanza st := by
  refine forall_mem_append.mpr ⟨forall_mem_cons.mpr ⟨plain_networkStanza h, ?_⟩, ?_⟩
  · unfold linkStanzas
    split
    · next hne =>
      exact forall_mem_singleton.mpr ⟨⟨_, rfl, plain_of_all (by decide)⟩,
        plain_field (by decide) (h.mtu hne)⟩
    · simp
  · rw [forall_mem_map]
    exact fun rt hrt => plain_routeStanza h hrt

theorem plain_unitLines {cfg : InterfaceConfig} (h : Accepted cfg) :
    ∀ l ∈ unitLines cfg, PlainLine l := by
  have hempty : PlainLine [] := ⟨by simp, rfl, by simp⟩
  refine forall_mem_append.mpr ⟨(plain_matchStanza h).lines, ?_⟩
  intro l hl
  obtain ⟨st, hst, hl⟩ := mem_flatMap.mp hl
  rcases mem_cons.mp hl with rfl | hl
  · exact hempty
  · exact (plain_laterStanzas h st hst).lines l hl

/-- **The unit is read as its sections.** -/
theorem read_renderNetworkUnit {cfg : InterfaceConfig} (h : Accepted cfg) :
    read none ((Service.systemdLines (renderNetworkUnit cfg)).map confItem) =
      some (matchStanza cfg :: laterStanzas cfg) := by
  have hlines := plain_unitLines h
  have hcomment : '\n' ∉ "# Managed by power-manage-agent — do not edit by hand.".toList ∧
      Service.isComment "# Managed by power-manage-agent — do not edit by hand." = true := by
    decide
  have hphysical : Service.physicalLines (renderNetworkUnit cfg) =
      ("# Managed by power-manage-agent — do not edit by hand.".toList :: unitLines cfg) ++ [[]] := by
    rw [renderNetworkUnit_eq]
    exact Sections.lines_unlines
      (forall_mem_cons.mpr ⟨hcomment.1, fun l hl => (hlines l hl).newline⟩)
  have hempty : ∀ l ∈ ([[]] : List Sections.Line), PlainLine l :=
    forall_mem_singleton.mpr ⟨by simp, rfl, by simp⟩
  rw [Service.systemdLines, hphysical, cons_append, Service.systemdFrom, hcomment.2, if_pos rfl,
    systemdFrom_of_plain (forall_mem_append.mpr ⟨hlines, hempty⟩), unitLines, append_assoc,
    map_append, read_stanzaLines (plain_matchStanza h).legible,
    read_spaced (fun st hst => (plain_laterStanzas h st hst).legible) rfl]
  rfl

/-! ## What the sections say -/

variable {name key k : Str} {sts sts' : List Stanza}

theorem sections_append : sections (sts ++ sts') name = sections sts name ++ sections sts' name :=
  filter_append ..

theorem sections_named (h : ∀ st ∈ sts, st.name = some key) :
    sections sts name = if key = name then sts else [] := by
  split
  · next heq => exact filter_eq_self.mpr fun st hst => decide_eq_true (heq ▸ h st hst)
  · next hne =>
    refine filter_eq_nil_iff.mpr fun st hst => ?_
    rw [h st hst]
    simpa using hne

theorem get_append (n : Option Str) (fs gs : List Field) :
    Stanza.get ⟨n, fs ++ gs⟩ k = Stanza.get ⟨n, fs⟩ k ++ Stanza.get ⟨n, gs⟩ k :=
  filterMap_append

theorem get_map (n : Option Str) (values : List Str) :
    Stanza.get ⟨n, values.map fun v => (key, v)⟩ k = if key = k then values else [] := by
  rw [Stanza.get]
  split
  · next heq => simp [heq]
  · next hne => simp [hne]

theorem get_ite (n : Option Str) {p : Prop} [Decidable p] (value : Str) :
    Stanza.get ⟨n, if p then [(key, value)] else []⟩ k =
      if key = k then if p then [value] else [] else [] := by
  have hmap : (if p then [(key, value)] else []) = (if p then [value] else []).map (key, ·) := by
    split <;> rfl
  rw [hmap]
  exact get_map n _

theorem name_linkStanzas :
    ∀ st ∈ linkStanzas cfg, st.name = some "Link" := by
  unfold linkStanzas
  split
  · exact forall_mem_singleton.mpr rfl
  · simp

theorem sections_unit (name : Str) :
    sections (matchStanza cfg :: laterStanzas cfg) name =
      (if "Match" = name then [matchStanza cfg] else []) ++
        (if "Network" = name then [networkStanza cfg] else []) ++
        (if "Link" = name then linkStanzas cfg else []) ++
        if "Route" = name then cfg.routes.map routeStanza else [] := by
  rw [← sections_named (forall_mem_singleton.mpr rfl),
    ← sections_named (forall_mem_singleton.mpr rfl), ← sections_named (name_linkStanzas cfg),
    ← sections_named (forall_mem_map.mpr fun _ _ => rfl), ← sections_append,
    ← sections_append, ← sections_append]
  rfl

theorem get_gateway :
    (networkStanza cfg).get "Gateway" =
      if cfg.mode = .dhcp then [] else if cfg.gateway ≠ [] then [cfg.gateway] else [] := by
  unfold networkStanza
  rw [get_append, get_map, if_neg (by decide : "DNS".toList ≠ "Gateway"), append_nil]
  split
  · decide
  · rw [get_append, get_map, if_neg (by decide), get_ite, if_pos rfl, nil_append]

theorem get_dns : (networkStanza cfg).get "DNS" = cfg.dns := by
  unfold networkStanza
  rw [get_append, get_map]
  refine append_left_eq_self.mpr ?_
  split
  · decide
  · rw [get_append, get_map, get_ite]
    rfl

theorem values_mtu :
    ((linkStanzas cfg).flatMap fun st => st.get "MTUBytes").getLastD [] =
      if cfg.mtu = 0 then [] else decimalInt cfg.mtu := by
  unfold linkStanzas
  by_cases h : cfg.mtu = 0
  · rw [if_neg (not_not.mpr h), if_pos h]
    rfl
  · rw [if_pos h, if_neg h]
    rfl

theorem routeIn_routeStanza (rt : Route) : routeIn (routeStanza rt) = routeEntry rt := by
  have hone : ∀ key value k : Str, Stanza.get ⟨some "Route", [(key, value)]⟩ k =
      if key = k then [value] else [] := fun key value k => get_map _ [value]
  have hgateway : (routeStanza rt).get "Gateway" = [rt.gateway] := by
    rw [routeStanza, get_append, get_append, get_ite, get_ite, hone, if_pos rfl, if_neg (by decide),
      if_neg (by decide)]
    rfl
  have hdestination : (routeStanza rt).get "Destination" =
      if rt.destination ≠ "default" then [rt.destination] else [] := by
    rw [routeStanza, get_append, get_append, get_ite, get_ite, hone, if_pos rfl,
      if_neg (by decide : "Gateway".toList ≠ "Destination"),
      if_neg (by decide : "Metric".toList ≠ "Destination"), append_nil, append_nil]
  have hmetric : (routeStanza rt).get "Metric" =
      if rt.metric ≠ 0 then [decimalInt rt.metric] else [] := by
    rw [routeStanza, get_append, get_append, get_ite, get_ite, hone, if_neg (by decide),
      if_neg (by decide), if_pos rfl, nil_append, nil_append]
  unfold routeIn routeEntry destinationOf
  rw [hgateway, hdestination, hmetric]
  by_cases hd : rt.destination = "default"
  · by_cases hm : rt.metric = 0 <;> simp only [hd, hm, ne_eq, not_true_eq_false, if_false, if_true,
      not_false_eq_true] <;> rfl
  · by_cases hm : rt.metric = 0 <;> simp only [hd, hm, ne_eq, not_true_eq_false, if_false, if_true,
      not_false_eq_true] <;> rfl

theorem routesIn_unit :
    routesIn (matchStanza cfg :: laterStanzas cfg) = cfg.routes.map routeEntry := by
  rw [routesIn, sections_unit, if_neg (by decide), if_neg (by decide), if_neg (by decide),
    if_pos rfl, nil_append, nil_append, nil_append, map_map]
  exact map_congr_left fun rt _ => routeIn_routeStanza rt

theorem gateway_of_get {cfg : InterfaceConfig} (p : Str → Bool) :
    getLastD ((if cfg.mode = .dhcp then [] else
      if cfg.gateway ≠ [] then [cfg.gateway] else []).filter p) [] =
        if cfg.mode = .dhcp then [] else
          if cfg.gateway ≠ [] ∧ p cfg.gateway then cfg.gateway else [] := by
  by_cases hmode : cfg.mode = .dhcp
  · rw [if_pos hmode, if_pos hmode]
    rfl
  rw [if_neg hmode, if_neg hmode]
  by_cases hgw : cfg.gateway = []
  · simp [hgw]
  · cases hp : p cfg.gateway <;> simp [hgw, hp]

/-- **The unit says what the configuration asks for.** -/
theorem unitSettings_eq {cfg : InterfaceConfig} (h : Accepted cfg) :
    unitSettings (renderNetworkUnit cfg) = some (settings cfg) := by
  have hnetwork : ∀ key, valuesIn (matchStanza cfg :: laterStanzas cfg) "Network" key =
      (networkStanza cfg).get key := by
    intro key
    rw [valuesIn, sections_unit, if_neg (by decide), if_pos rfl, if_neg (by decide),
      if_neg (by decide)]
    exact flatMap_singleton ..
  have hlink : valuesIn (matchStanza cfg :: laterStanzas cfg) "Link" "MTUBytes" =
      (linkStanzas cfg).flatMap fun st => st.get "MTUBytes" := by
    rw [valuesIn, sections_unit, if_neg (by decide), if_neg (by decide), if_pos rfl,
      if_neg (by decide), append_nil]
    rfl
  rw [unitSettings, read_renderNetworkUnit h, Option.map_some]
  unfold settingsIn settings
  rw [hnetwork, hnetwork, hlink, get_gateway, gateway_of_get, gateway_of_get, get_dns, values_mtu,
    routesIn_unit, filter_map, filter_map]
  rfl

/-! ## Runs -/

variable {h h' : Host} {cfg : InterfaceConfig}

theorem after_nmApply (hafter : h.after (NmBackend.apply cfg) = some h') :
    Accepted cfg ∧ h' = h.configure (h.connOf cfg.name) (ofSlots (slots cfg)) := by
  unfold NmBackend.apply at hafter
  cases hvalid : validateInterfaceConfig cfg with
  | some err =>
    rw [hvalid] at hafter
    cases hafter
  | none =>
    refine ⟨accepted_of_validate hvalid, ?_⟩
    rw [hvalid] at hafter
    rw [NmBackend.activeConnection, after_bind (run_activeConnectionWith _ _)] at hafter
    split at hafter
    · cases hafter
    next conn hconn =>
    rw [nmModifyArgs_eq, spelled, after_andThen (run_modify _)] at hafter
    cases hafter
    rw [eq_of_connectionIn hconn]
    rfl

theorem after_networkdApply (hafter : h.after (NetworkdBackend.apply cfg) = some h') :
    Accepted cfg ∧ h'.files (NetworkdBackend.path cfg) = some (renderNetworkUnit cfg) := by
  unfold NetworkdBackend.apply at hafter
  cases hvalid : validateInterfaceConfig cfg with
  | some err =>
    rw [hvalid] at hafter
    cases hafter
  | none =>
    refine ⟨accepted_of_validate hvalid, ?_⟩
    rw [hvalid] at hafter
    cases hafter
    exact update_self ..

theorem inForce_configure (h : Host) (cfg : InterfaceConfig) :
    inForce (h.configure (h.connOf cfg.name) (ofSlots (slots cfg))) cfg.name =
      nmSettings fun k => (given cfg k).getD (h.profiles (h.connOf cfg.name) k) := by
  rw [inForce, connOf_configure, applied_configure, profiles_configure]
  exact congrArg nmSettings (funext fun k => assign_slots cfg _ k)

theorem inForce_fresh (hafter : (fresh h cfg.name).after (NmBackend.apply cfg) = some h') :
    inForce h' cfg.name = settings cfg := by
  obtain ⟨haccepted, rfl⟩ := after_nmApply hafter
  have hprofile : (fresh h cfg.name).profiles ((fresh h cfg.name).connOf cfg.name) = unset :=
    update_self ..
  rw [inForce_configure, hprofile, ← nmSettings_unset haccepted]
  exact congrArg nmSettings (funext fun k => (assign_slots cfg _ k).symm)

theorem getD_eq_iff {β : Type} {f : Str → β} (hf : ∀ t, f t = f [] ↔ t = [])
    (o : Option Str) (t : Str) :
    f (o.getD t) = f (o.getD []) ↔ o.isSome = true ∨ t = [] := by
  cases o with
  | none => simp [hf]
  | some v => simp

theorem elements_eq_nil_iff (t : Str) : elements t = elements [] ↔ t = [] := elements_inj

theorem routes_eq_nil_iff (t : Str) :
    (elements t).map readRoute = (elements []).map readRoute ↔ t = [] := by
  have hnil : elements [] = [] := rfl
  rw [hnil, map_nil, map_eq_nil_iff, ← hnil, elements_inj]

/-- What was configured before does not show exactly if each property is given a value or held
nothing. -/
theorem nmSettings_eq_iff (g : Str → Option Str) (p : Properties) :
    (nmSettings fun k => (g k).getD (p k)) = (nmSettings fun k => (g k).getD []) ↔
      ∀ k ∈ compared, (g k).isSome = true ∨ p k = [] := by
  have htext := fun k => getD_eq_iff (f := id) (fun _ => Iff.rfl) (g k) (p k)
  have hlist := fun k => getD_eq_iff elements_eq_nil_iff (g k) (p k)
  have hroutes := fun k => getD_eq_iff routes_eq_nil_iff (g k) (p k)
  unfold nmSettings compared
  simp only [id_eq] at htext
  simp only [Settings.mk.injEq, htext, hlist, hroutes]
  simp

def applyAll (h : Host) (cfgs : List InterfaceConfig) : Option Host :=
  Transition.exec (fun h cfg => h.after (NmBackend.apply cfg)) h cfgs

/-- **After two configurations an interface has the settings of the second one, as on a new
connection and as in the unit for networkd, exactly if each of the properties that the second one
does not give was left empty by the first one.** -/
theorem declared_settings_iff {A B : InterfaceConfig} {h h' hfresh hunit : Host}
    (hname : A.name = B.name)
    (hrun : applyAll h [A, B] = some h')
    (hrunFresh : applyAll (fresh h B.name) [B] = some hfresh)
    (hrunUnit : h.after (NetworkdBackend.apply B) = some hunit) :
    (inForce h' B.name = inForce hfresh B.name ∧
      (hunit.files (NetworkdBackend.path B)).bind unitSettings = some (inForce h' B.name)) ↔
      ∀ k ∈ compared, (given B k).isSome = true ∨
        (given A k).getD (h.profiles (h.connOf B.name) k) = [] := by
  obtain ⟨h₁, hfirst, hrest⟩ := Transition.exec_cons_eq_some.mp hrun
  obtain ⟨h₂, hsecond, hlast⟩ := Transition.exec_cons_eq_some.mp hrest
  obtain ⟨h₃, hthird, hlast'⟩ := Transition.exec_cons_eq_some.mp hrunFresh
  cases hlast
  cases hlast'
  obtain ⟨-, rfl⟩ := after_nmApply hfirst
  obtain ⟨haccepted, rfl⟩ := after_nmApply hsecond
  obtain ⟨-, hfile⟩ := after_networkdApply hrunUnit
  have hsettings : inForce hfresh B.name = nmSettings fun k => (given B k).getD [] := by
    rw [inForce_fresh hthird, ← nmSettings_unset haccepted]
    exact congrArg nmSettings (funext fun k => assign_slots B _ k)
  have hprofile : ∀ k, (h.configure (h.connOf A.name) (ofSlots (slots A))).profiles
      ((h.configure (h.connOf A.name) (ofSlots (slots A))).connOf B.name) k =
        (given A k).getD (h.profiles (h.connOf B.name) k) := by
    intro k
    rw [connOf_configure, hname, profiles_configure, assign_slots]
  rw [inForce_configure, hfile, Option.bind_some, unitSettings_eq haccepted, Option.some_inj,
    ← inForce_fresh hthird, hsettings, and_iff_left_of_imp Eq.symm]
  simp only [hprofile]
  exact nmSettings_eq_iff (given B) _

def routed : InterfaceConfig where
  name := "eth0"
  mode := .static
  addresses := ["192.0.2.10/24"]
  gateway := "192.0.2.1"
  dns := []
  mtu := 0
  routes := []

def isolated : InterfaceConfig := { routed with gateway := [] }

def dynamic : InterfaceConfig := { isolated with mode := .dhcp, addresses := [] }

/-- The gateway of the first configuration stays where the second one has none. -/
theorem old_gateway : ∃ h' hfresh : Host, applyAll testHost [routed, isolated] = some h' ∧
    applyAll (fresh testHost isolated.name) [isolated] = some hfresh ∧
    inForce h' isolated.name ≠ inForce hfresh isolated.name := by
  obtain ⟨h', hrun, heq⟩ : ∃ h, applyAll testHost [routed, isolated] = some h ∧
      (inForce h isolated.name).gateway4 = "192.0.2.1" := by decide +kernel
  obtain ⟨hfresh, hrunFresh, heqFresh⟩ : ∃ h,
      applyAll (fresh testHost isolated.name) [isolated] = some h ∧
      (inForce h isolated.name).gateway4 = [] := by decide +kernel
  refine ⟨h', hfresh, hrun, hrunFresh, fun hsame => ?_⟩
  rw [hsame, heqFresh] at heq
  exact absurd heq (by decide)

/-- With DHCP the gateways are cleared. -/
theorem cleared_gateway : ∃ h' hfresh : Host, applyAll testHost [routed, dynamic] = some h' ∧
    applyAll (fresh testHost dynamic.name) [dynamic] = some hfresh ∧
    inForce h' dynamic.name = inForce hfresh dynamic.name := by
  have hrun : (applyAll testHost [routed, dynamic]).isSome = true := by decide +kernel
  have hfresh : (applyAll (fresh testHost dynamic.name) [dynamic]).isSome = true := by
    decide +kernel
  have hunit : (testHost.after (NetworkdBackend.apply dynamic)).isSome = true := by decide +kernel
  obtain ⟨h', hrun⟩ := Option.isSome_iff_exists.mp hrun
  obtain ⟨h₁, hfresh⟩ := Option.isSome_iff_exists.mp hfresh
  obtain ⟨h₂, hunit⟩ := Option.isSome_iff_exists.mp hunit
  have hname : routed.name = dynamic.name := rfl
  have hgiven : ∀ k ∈ compared, (given dynamic k).isSome = true ∨
      (given routed k).getD (testHost.profiles (testHost.connOf dynamic.name) k) = [] := by
    decide +kernel
  exact ⟨h', h₁, hrun, hfresh, ((declared_settings_iff hname hrun hfresh hunit).mpr hgiven).1⟩

end PowerManage.NetConfig
