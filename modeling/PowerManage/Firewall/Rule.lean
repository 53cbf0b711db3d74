import PowerManage.Lib.Text

/-!
# Firewall rules

`Rule`, the checks every backend makes before it looks at one (`validateRule`), and the namespace a
manager is built for (`validateNamespace`).  Parsing of addresses is the standard library's: a `Net`
says what `net.ParseCIDR` and `net.ParseIP` accept, and which family it is.  All that is taken for
granted is that what they accept is a word, which is what keeps an address from running into the
rest of a command line.
-/

namespace PowerManage.Firewall

open PathName Text

/-- The family of an address, as `To4` tells it. -/
inductive Family
  | ip
  | ip6
deriving DecidableEq

/-- `net.ParseCIDR` and `net.ParseIP`. -/
structure Net where
  parseCIDR : Str → Option Family
  parseIP : Str → Option Family
  isWord_of_parseCIDR : ∀ {a f}, parseCIDR a = some f → IsWord a
  isWord_of_parseIP : ∀ {a f}, parseIP a = some f → IsWord a

/-- The protocols of a rule; others are refused. -/
inductive Protocol
  | tcp
  | udp
  | any
  | other (name : Str)
deriving DecidableEq

def Protocol.word : Protocol → Str
  | .tcp => "tcp"
  | .udp => "udp"
  | .any => []
  | .other p => p

def protocolOf (name : Str) : Protocol :=
  if name = "tcp" then .tcp
  else if name = "udp" then .udp
  else if name = [] then .any
  else .other name

/-- A rule as a caller gives it. -/
@[ext] structure Rule where
  id : Str
  allow : Bool
  protocol : Protocol
  port : Int
  source : Str
  dest : Str
deriving DecidableEq

/-- A protocol that has ports. -/
inductive Transport
  | tcp
  | udp
deriving DecidableEq

def Transport.word : Transport → Str
  | .tcp => "tcp"
  | .udp => "udp"

def readTransport (w : Str) : Option Transport :=
  if w = "tcp" then some .tcp else if w = "udp" then some .udp else none

/-- How a command fails: it is not run at all, or it exits with a code other than zero. -/
inductive CommandError
  | notRun
  | exit (code : Int) (stderr : Str)
deriving DecidableEq

/-- The sentinel with the whole text, or the command that failed with what stands in front of it. -/
inductive FirewallError
  | invalidNamespace (text : Str)
  | invalidRule (text : Str)
  | notExist (text : Str)
  | unmarshal (text : Str)
  | emptyOutput (text : Str)
  | command (text : Str) (e : CommandError)
deriving DecidableEq

def FirewallError.wrap (text : Str) : FirewallError → FirewallError
  | .invalidNamespace t => .invalidNamespace (text ++ t)
  | .invalidRule t => .invalidRule (text ++ t)
  | .notExist t => .notExist (text ++ t)
  | .unmarshal t => .unmarshal (text ++ t)
  | .emptyOutput t => .emptyOutput (text ++ t)
  | .command t e => .command (text ++ t) e

def errInvalidRule (text : Str) : FirewallError :=
  .invalidRule ("invalid firewall rule: " ++ text)

def errInvalidNamespace (text : Str) : FirewallError :=
  .invalidNamespace ("invalid firewall namespace: " ++ text)

def isNoTable : CommandError → Bool
  | .notRun => false
  | .exit _ stderr => contains stderr "No such file or directory"

/-! ## Checks -/

def isLower (c : Char) : Bool := 'a'.toNat ≤ c.toNat && c.toNat ≤ 'z'.toNat

def isLowerDigit (c : Char) : Bool := isLower c || c.isDigit

def namespaceRE : Str → Bool
  | [] => false
  | c :: cs => isLower c && cs.length ≤ 30 && cs.all fun x => isLowerDigit x || x = '_'

def ruleIDRE : Str → Bool
  | [] => false
  | c :: cs =>
    isLowerDigit c && cs.length ≤ 62 && cs.all fun x => isLowerDigit x || x = '_' || x = '-'

def validateNamespace (ns : Str) : Except FirewallError Unit :=
  if ns = [] then .error (errInvalidNamespace "namespace is empty")
  else if !namespaceRE ns then
    .error (errInvalidNamespace
      (quote ns ++ " must match ^[a-z][a-z0-9_]\x7b0,30\x7d$"))
  else .ok ()

/-- A text that may be part of names and comments. -/
def validateRuleID (id : Str) : Except FirewallError Unit :=
  if id = [] then .error (errInvalidRule "rule ID is empty")
  else if !ruleIDRE id then
    .error (errInvalidRule
      ("ID " ++ quote id ++ " must match ^[a-z0-9][a-z0-9_-]\x7b0,62\x7d$"))
  else .ok ()

def validatePort (port : Int) : Except FirewallError Unit :=
  if port < 0 ∨ port > 65535 then
    .error (errInvalidRule
      ("port " ++ decimalInt port ++ " outside valid TCP/UDP range 0..65535"))
  else .ok ()

def validateProtocol : Protocol → Except FirewallError Unit
  | .other p =>
    .error (errInvalidRule
      ("protocol " ++ quote p ++ " must be one of \"tcp\" / \"udp\" / \"\" (any)"))
  | _ => .ok ()

def validateAddr (net : Net) (field addr : Str) : Except FirewallError Unit :=
  if addr = [] then .ok ()
  else if (net.parseCIDR addr).isSome then .ok ()
  else if (net.parseIP addr).isSome then .ok ()
  else
    .error (errInvalidRule
      (field ++ [' '] ++ quote addr ++ " is not a valid IP address or CIDR"))

/-- An allow rule without any constraint is refused. -/
def validateAllowScope (rule : Rule) : Except FirewallError Unit :=
  if rule.allow && rule.protocol = .any && rule.port = 0 && rule.source = [] && rule.dest = [] then
    .error (errInvalidRule
      ("rule " ++ quote rule.id ++
        (" allows all ingress (no protocol, port, source, or dest constraint); an unconstrained " ++
          "allow opens the host and is refused").toList))
  else .ok ()

/-- The checks in their order; the first that fails counts. -/
def validateRule (net : Net) (rule : Rule) : Except FirewallError Unit := do
  validateRuleID rule.id
  validatePort rule.port
  validateProtocol rule.protocol
  validateAddr net "source" rule.source
  validateAddr net "dest" rule.dest
  validateAllowScope rule

/-- A manager: `New` builds none for a namespace that fails validation. -/
structure Manager where
  ns : Str
  valid : validateNamespace ns = .ok ()

/-! ## What the checks leave -/

def isNameChar (c : Char) : Bool := isLowerDigit c || c = '_' || c = '-'

theorem isNameChar_of_isLowerDigit {c : Char} (h : isLowerDigit c = true) : isNameChar c = true := by
  rw [isNameChar, h]
  rfl

theorem toNat_of_isNameChar {c : Char} (h : isNameChar c = true) :
    45 ≤ c.toNat ∧ c.toNat ≤ 122 := by
  simp only [isNameChar, isLowerDigit, isLower, Char.isDigit, Bool.or_eq_true, Bool.and_eq_true,
    decide_eq_true_eq] at h
  rcases h with (((⟨h₁, h₂⟩ | ⟨h₁, h₂⟩) | rfl) | rfl)
  · exact ⟨le_trans (by decide) h₁, h₂⟩
  · exact ⟨le_trans (by decide) h₁, le_trans h₂ (by decide)⟩
  · decide
  · decide

theorem isWord_of_isNameChar {w : Str} (hne : w ≠ []) (h : ∀ c ∈ w, isNameChar c = true) :
    IsWord w := by
  refine ⟨hne, fun c hc => Bool.eq_false_iff.mpr fun hspace => ?_⟩
  have hname := toNat_of_isNameChar (h c hc)
  have hfar := toNat_of_isSpace hspace
  omega

theorem isNameChar_of_validateRuleID {id : Str} (h : validateRuleID id = .ok ()) :
    id ≠ [] ∧ ∀ c ∈ id, isNameChar c = true := by
  unfold validateRuleID at h
  split at h
  · cases h
  rename_i hne
  split at h
  · cases h
  rename_i hre
  rw [Bool.not_eq_true', Bool.not_eq_false] at hre
  refine ⟨hne, ?_⟩
  cases id with
  | nil => exact absurd rfl hne
  | cons c cs =>
    simp only [ruleIDRE, Bool.and_eq_true, List.all_eq_true] at hre
    exact List.forall_mem_cons.mpr ⟨isNameChar_of_isLowerDigit hre.1.1, hre.2⟩

theorem isWord_of_validateRuleID {id : Str} (h : validateRuleID id = .ok ()) : IsWord id :=
  isWord_of_isNameChar (isNameChar_of_validateRuleID h).1 (isNameChar_of_validateRuleID h).2

theorem Manager.ns_chars (M : Manager) :
    M.ns ≠ [] ∧ ∀ c ∈ M.ns, (isLowerDigit c || c = '_') = true := by
  have h := M.valid
  unfold validateNamespace at h
  split at h
  · cases h
  rename_i hne
  split at h
  · cases h
  rename_i hre
  rw [Bool.not_eq_true', Bool.not_eq_false] at hre
  refine ⟨hne, ?_⟩
  cases hns : M.ns with
  | nil => exact absurd hns hne
  | cons c cs =>
    rw [hns] at hre
    simp only [namespaceRE, Bool.and_eq_true, List.all_eq_true] at hre
    refine List.forall_mem_cons.mpr ⟨?_, hre.2⟩
    rw [isLowerDigit, hre.1.1, Bool.true_or, Bool.true_or]

theorem Manager.isNameChar_ns (M : Manager) : ∀ c ∈ M.ns, isNameChar c = true := by
  intro c hc
  rw [isNameChar, M.ns_chars.2 c hc, Bool.true_or]

theorem Manager.isWord_ns (M : Manager) : IsWord M.ns :=
  isWord_of_isNameChar M.ns_chars.1 M.isNameChar_ns

variable {net : Net}

theorem isWord_of_validateAddr {field addr : Str} (hne : addr ≠ [])
    (h : validateAddr net field addr = .ok ()) : IsWord addr := by
  rw [validateAddr, if_neg hne] at h
  split at h
  · rename_i hcidr
    obtain ⟨f, hf⟩ := Option.isSome_iff_exists.mp hcidr
    exact net.isWord_of_parseCIDR hf
  split at h
  · rename_i hip
    obtain ⟨f, hf⟩ := Option.isSome_iff_exists.mp hip
    exact net.isWord_of_parseIP hf
  · cases h

/-- What `validateRule` has checked when a backend goes on. -/
structure Checked (net : Net) (rule : Rule) : Prop where
  id : validateRuleID rule.id = .ok ()
  port : 0 ≤ rule.port
  protocol : ∀ p, rule.protocol ≠ .other p
  source : validateAddr net "source" rule.source = .ok ()
  dest : validateAddr net "dest" rule.dest = .ok ()

theorem validatePort_ok {port : Int} (h : validatePort port = .ok ()) : 0 ≤ port := by
  unfold validatePort at h
  split at h
  · cases h
  · omega

theorem seq_eq_ok {ε : Type} {x y : Except ε Unit} (h : (x >>= fun _ => y) = .ok ()) :
    x = .ok () ∧ y = .ok () := by
  cases x with
  | error e => cases h
  | ok u => exact ⟨rfl, h⟩

theorem checked_of_validateRule {rule : Rule} (h : validateRule net rule = .ok ()) :
    Checked net rule := by
  obtain ⟨hid, h⟩ := seq_eq_ok h
  obtain ⟨hport, h⟩ := seq_eq_ok h
  obtain ⟨hprotocol, h⟩ := seq_eq_ok h
  obtain ⟨hsource, h⟩ := seq_eq_ok h
  obtain ⟨hdest, -⟩ := seq_eq_ok h
  refine ⟨hid, validatePort_ok hport, fun p hp => ?_, hsource, hdest⟩
  rw [hp] at hprotocol
  cases hprotocol

/-! ## A namespace and its rules

What the backends are run on. -/

def testNet : Net where
  parseCIDR a := if IsWord a ∧ '.' ∈ a ∧ '/' ∈ a then some .ip else none
  parseIP a := if IsWord a ∧ '.' ∈ a ∧ '/' ∉ a then some .ip else none
  isWord_of_parseCIDR h := (Option.ite_none_right_eq_some.mp h).1.1
  isWord_of_parseIP h := (Option.ite_none_right_eq_some.mp h).1.1

def testManager : Manager := ⟨"acme", by decide⟩

def webRule (port : Int) : Rule :=
  ⟨"web", true, .tcp, port, "10.0.0.0/8", []⟩

def sshRule : Rule := ⟨"ssh-admin", false, .tcp, 22, [], "192.168.0.1"⟩

end PowerManage.Firewall
