import PowerManage.Firewall.UfwStatus
import PowerManage.Firewall.Address

/-!
# ufw

The other side of the ufw backend: how `ufw` reads the arguments of a rule, which entries it makes of
it, and what its commands do to the entries.  As for `nft`, this is what is assumed.

* An address is kept as bits and listed in the spelling of an `AddrFormat`; one that covers a whole
  family is listed as `Anywhere`.
* A rule with an address is for the family of that address.  One without is for both, and so two
  entries, where IPv6 is enabled.
* The To column has the destination and behind it the port, the From column the source.  A protocol
  without a port is shown behind the address, or behind `Anywhere` if neither side has one.
* For IPv6 an `Anywhere` has `(v6)` behind it, and so has a port if there is no address at all.
* The entries for IPv4 come before those for IPv6.  A new entry goes to the end of its family, unless
  there is one that differs at most in the action, the logging or the comment: it takes that one's
  place.
-/

namespace PowerManage.Firewall

open PathName Text Interaction Regex List Option

/-! ## Columns -/

/-- An address as `ufw` keeps it. -/
structure UfwAddr where
  family : Family
  kept : Kept family.width
deriving DecidableEq

/-- A rule as `ufw` reads it in its arguments. -/
structure UfwRequest where
  allow : Bool
  source : Option UfwAddr
  dest : Option UfwAddr
  port : Option Nat
  proto : Option Transport
  comment : Str
  comment_ok : comment = [] ∨ IsComment comment

/-- The text of an address in a column, which one that covers a whole family does not have. -/
def AddrFormat.ufwText (F : AddrFormat) : UfwAddr → Option Str
  | ⟨_, .subnet _ 0⟩ => none
  | ⟨f, k⟩ => some (F.spell f k)

def protoSuffix : Option Transport → Str
  | none => []
  | some t => '/' :: t.word

def portText (port : Nat) (proto : Option Transport) : Str := decimal port ++ protoSuffix proto

/-- What tells a column for IPv6 from the same one for IPv4. -/
def v6Mark : Family → List Str
  | .ip => []
  | .ip6 => ["(v6)"]

def anywhere : Str := "Anywhere"

/-- The To column of a rule with these addresses, in the family `f`. -/
def ufwToCells (f : Family) (source dest : Option Str) (port : Option Nat)
    (proto : Option Transport) : List Str :=
  match dest, port with
  | some d, some p => [d, portText p proto]
  | some d, none => [d ++ protoSuffix proto]
  | none, some p => portText p proto :: if source = none then v6Mark f else []
  | none, none => (anywhere ++ if source = none then protoSuffix proto else []) :: v6Mark f

/-- The From column of a rule with these addresses, in the family `f`. -/
def ufwFromCells (f : Family) (source dest : Option Str) (port : Option Nat)
    (proto : Option Transport) : List Str :=
  match source with
  | some s => [s ++ if port = none then protoSuffix proto else []]
  | none => (anywhere ++ if port = none ∧ dest = none then protoSuffix proto else []) :: v6Mark f

variable {c : Char} {u w : Str} {F : AddrFormat} {rule : Rule}

theorem toNat_of_isAddrChar (h : isAddrChar c = true) : 46 ≤ c.toNat ∧ c.toNat ≤ 102 := by
  simp only [isAddrChar, Char.isDigit, Bool.or_eq_true, Bool.and_eq_true, decide_eq_true_eq] at h
  rcases h with ((((⟨h₁, h₂⟩ | ⟨h₁, h₂⟩) | ⟨h₁, h₂⟩) | rfl) | rfl) | rfl
  · exact ⟨le_trans (by decide) h₁, le_trans h₂ (by decide)⟩
  · exact ⟨le_trans (by decide) h₁, h₂⟩
  · exact ⟨le_trans (by decide) h₁, le_trans h₂ (by decide)⟩
  · decide
  · decide
  · decide

/-- The characters that `ufw` itself puts in a column. -/
def isColumnChar (c : Char) : Bool := isAddrChar c || "Anywherv(6)tcpud".toList.contains c

/-- A text that stands in one column. -/
def IsColumn (w : Str) : Prop := w ≠ [] ∧ w.all isColumnChar = true

instance decidableIsColumn (w : Str) : Decidable (IsColumn w) :=
  inferInstanceAs (Decidable (_ ∧ _))

theorem toNat_of_isColumnChar (h : isColumnChar c = true) : 40 ≤ c.toNat ∧ c.toNat ≤ 121 := by
  rw [isColumnChar, Bool.or_eq_true] at h
  rcases h with h | h
  · have hrange := toNat_of_isAddrChar h
    omega
  · have hall : "Anywherv(6)tcpud".toList.all
        (fun x => decide (40 ≤ x.toNat ∧ x.toNat ≤ 121)) = true := by decide
    exact of_decide_eq_true (all_eq_true.mp hall c (contains_iff_mem.mp h))

theorem IsColumn.notMem (h : IsColumn w) (hc : isColumnChar c = false) : c ∉ w := by
  intro hmem
  rw [all_eq_true.mp h.2 c hmem] at hc
  cases hc

theorem IsColumn.isCell (h : IsColumn w) : IsCell w := by
  refine ⟨⟨h.1, fun c hc => Bool.eq_false_iff.mpr fun hspace => ?_⟩, h.notMem (by decide)⟩
  have hrange := toNat_of_isColumnChar (all_eq_true.mp h.2 c hc)
  have hfar := toNat_of_isSpace hspace
  omega

theorem IsColumn.append (hw : IsColumn w) (hu : u = [] ∨ IsColumn u) : IsColumn (w ++ u) := by
  rcases hu with rfl | hu
  · rwa [append_nil]
  · refine ⟨append_ne_nil_of_left_ne_nil hw.1 u, ?_⟩
    rw [all_append, hw.2, hu.2]
    rfl

theorem isColumn_of_isAddrChar (hne : w ≠ []) (h : ∀ c ∈ w, isAddrChar c = true) : IsColumn w := by
  refine ⟨hne, all_eq_true.mpr fun c hc => ?_⟩
  rw [isColumnChar, h c hc, Bool.true_or]

theorem AddrFormat.text_ne_nil (F : AddrFormat) (f : Family) (a : BitVec f.width) :
    F.text f a ≠ [] := by
  intro hnil
  have hsep := F.separated f a
  rw [hnil] at hsep
  rcases hsep with h | h <;> cases h

theorem AddrFormat.isColumn_text (F : AddrFormat) (f : Family) (a : BitVec f.width) :
    IsColumn (F.text f a) :=
  isColumn_of_isAddrChar (F.text_ne_nil f a) (F.isAddrChar_of_read (F.read_text f a))

theorem isColumn_decimal (n : Nat) : IsColumn (decimal n) :=
  isColumn_of_isAddrChar (isWord_decimal n).1 fun _ hc => isAddrChar_decimal hc

theorem isColumn_protoSuffix (proto : Option Transport) :
    protoSuffix proto = [] ∨ IsColumn (protoSuffix proto) := by
  cases proto with
  | none => exact .inl rfl
  | some t => cases t <;> exact .inr (by decide)

theorem AddrFormat.isColumn_spell (F : AddrFormat) (f : Family) (k : Kept f.width) :
    IsColumn (F.spell f k) := by
  cases k with
  | host a => exact F.isColumn_text f a
  | subnet a n =>
    have hslash : IsColumn ['/'] := by decide
    exact (F.isColumn_text f a).append (.inr (hslash.append (.inr (isColumn_decimal n))))

theorem AddrFormat.isColumn_ufwText {a : Option UfwAddr} {t : Str} (h : a.bind F.ufwText = some t) :
    IsColumn t := by
  obtain ⟨x, -, h⟩ := bind_eq_some_iff.mp h
  unfold ufwText at h
  split at h
  · cases h
  · cases h
    exact F.isColumn_spell _ _

theorem isColumn_portText (port : Nat) (proto : Option Transport) : IsColumn (portText port proto) :=
  (isColumn_decimal port).append (isColumn_protoSuffix proto)

theorem isColumn_anywhere (h : u = [] ∨ IsColumn u) : IsColumn (anywhere ++ u) :=
  IsColumn.append (by decide) h

theorem isColumn_v6Mark (f : Family) : ∀ w ∈ v6Mark f, IsColumn w := by
  cases f with
  | ip => exact forall_mem_nil _
  | ip6 =>
    decide

theorem isColumn_ite_v6Mark {p : Prop} [Decidable p] (f : Family) :
    ∀ w ∈ if p then v6Mark f else [], IsColumn w := by
  split
  · exact isColumn_v6Mark f
  · exact forall_mem_nil _

theorem isColumn_ite_protoSuffix {p : Prop} [Decidable p] (proto : Option Transport) :
    (if p then protoSuffix proto else []) = [] ∨ IsColumn (if p then protoSuffix proto else []) := by
  split
  · exact isColumn_protoSuffix proto
  · exact .inl rfl

section
variable (f : Family) {source dest : Option Str} (port : Option Nat)
  (proto : Option Transport)

theorem isColumn_ufwToCells (hdest : ∀ d, dest = some d → IsColumn d) :
    ∀ w ∈ ufwToCells f source dest port proto, IsColumn w := by
  unfold ufwToCells
  split
  · rename_i d p
    rw [forall_mem_cons, forall_mem_singleton]
    exact ⟨hdest d rfl, isColumn_portText p proto⟩
  · rename_i d
    rw [forall_mem_singleton]
    exact (hdest d rfl).append (isColumn_protoSuffix proto)
  · rename_i p
    exact forall_mem_cons.mpr ⟨isColumn_portText p proto, isColumn_ite_v6Mark f⟩
  · exact forall_mem_cons.mpr ⟨isColumn_anywhere (isColumn_ite_protoSuffix proto), isColumn_v6Mark f⟩

theorem isColumn_ufwFromCells (hsource : ∀ s, source = some s → IsColumn s) :
    ∀ w ∈ ufwFromCells f source dest port proto, IsColumn w := by
  unfold ufwFromCells
  split
  · rename_i s
    rw [forall_mem_singleton]
    exact (hsource s rfl).append (isColumn_ite_protoSuffix proto)
  · exact forall_mem_cons.mpr ⟨isColumn_anywhere (isColumn_ite_protoSuffix proto), isColumn_v6Mark f⟩

theorem not_verb_ufwToCells :
    ∀ w ∈ (ufwToCells f source dest port proto).tail, ∀ v : UfwVerb, ¬ v.word <+: w := by
  have hport : ∀ (p : Nat) (v : UfwVerb), ¬ v.word <+: portText p proto := by
    intro p v
    have hne := (isWord_decimal p).1
    refine not_prefix_append hne (by cases v <;> decide) (fun heq => ?_) _
    cases v <;> exact absurd (isDigit_of_mem_decimal (mem_of_head? heq.symm)) (by decide)
  have hmark : ∀ w ∈ v6Mark f, ∀ v : UfwVerb, ¬ v.word <+: w := by
    cases f with
    | ip => exact forall_mem_nil _
    | ip6 =>
      rw [v6Mark, forall_mem_singleton]
      intro v
      cases v <;> decide
  unfold ufwToCells
  split
  · rename_i d p
    rw [tail_cons, forall_mem_singleton]
    exact hport p
  · exact forall_mem_nil _
  · rw [tail_cons]
    split
    · exact hmark
    · exact forall_mem_nil _
  · exact hmark

end

/-- The entry of a rule in a family. -/
def UfwRequest.entry (F : AddrFormat) (req : UfwRequest) (f : Family) : UfwEntry where
  toCells := ufwToCells f (req.source.bind F.ufwText) (req.dest.bind F.ufwText) req.port req.proto
  verb := if req.allow then .allow else .deny
  direction := .incoming
  fromCells :=
    ufwFromCells f (req.source.bind F.ufwText) (req.dest.bind F.ufwText) req.port req.proto
  log := none
  comment := req.comment
  to_ne := by
    unfold ufwToCells
    split <;> exact List.cons_ne_nil _ _
  to_cell w hw :=
    (isColumn_ufwToCells f req.port req.proto (fun _ h => AddrFormat.isColumn_ufwText h) w hw).isCell
  to_tail := not_verb_ufwToCells f req.port req.proto
  from_ne := by
    unfold ufwFromCells
    split <;> exact List.cons_ne_nil _ _
  from_cell w hw :=
    (isColumn_ufwFromCells f req.port req.proto (fun _ h => AddrFormat.isColumn_ufwText h) w
      hw).isCell
  comment_ok := req.comment_ok

/-- The families a rule is for; one that needs IPv6 where it is off, or both, is refused. -/
def UfwRequest.families (req : UfwRequest) (ipv6 : Bool) : Option (List Family) :=
  match req.source, req.dest with
  | none, none => some (if ipv6 then [.ip, .ip6] else [.ip])
  | some s, none => if s.family = .ip ∨ ipv6 then some [s.family] else none
  | none, some d => if d.family = .ip ∨ ipv6 then some [d.family] else none
  | some s, some d =>
    if s.family = d.family ∧ (s.family = .ip ∨ ipv6) then some [s.family] else none

/-! ## Arguments -/

def readUfwAddr (F : AddrFormat) (w : Str) : Option (Option UfwAddr) :=
  if w = "any" then some none
  else
    match F.kept .ip w with
    | some k => some (some ⟨.ip, k⟩)
    | none => (F.kept .ip6 w).map fun k => some ⟨.ip6, k⟩

def readOption (key : Str) (ws : List Str) :
    Option Str × List Str :=
  match ws with
  | k :: v :: rest => if k = key then (some v, rest) else (none, ws)
  | _ => (none, ws)

def readComment (ws : List Str) : Option Str :=
  match readOption "comment" ws with
  | (some c, []) => some c
  | (none, []) => some []
  | _ => none

/-- `from <addr> to <addr> [port <port>] [proto <proto>]`, and the comment. -/
def readLong (F : AddrFormat) (allow : Bool) (ws : List Str) : Option UfwRequest := do
  let (source, ws) := readOption "from" ws
  let (dest, ws) := readOption "to" ws
  let (port, ws) := readOption "port" ws
  let (proto, ws) := readOption "proto" ws
  let source ← readUfwAddr F (source.getD "any")
  let dest ← readUfwAddr F (dest.getD "any")
  let port ← port.elim (some none) fun p => (readDecimal p).map some
  let proto ← proto.elim (some none) fun p => (readTransport p).map some
  let comment ← readComment ws
  if h : comment = [] ∨ IsComment comment then some ⟨allow, source, dest, port, proto, comment, h⟩
  else none

/-- `<port>/<proto>`, and the comment. -/
def readShort (allow : Bool) (w : Str) (ws : List Str) : Option UfwRequest := do
  let (port, proto) ← cut '/' w
  let port ← readDecimal port
  let proto ← readTransport proto
  let comment ← readComment ws
  if h : comment = [] ∨ IsComment comment then
    some ⟨allow, none, none, some port, some proto, comment, h⟩
  else none

/-- The arguments as ufw reads them. -/
def readUfwArgs (F : AddrFormat) : List Str → Option UfwRequest
  | verdict :: w :: ws =>
    if verdict = "allow" ∨ verdict = "deny" then
      if w = "from" then readLong F (verdict = "allow") (w :: ws)
      else readShort (verdict = "allow") w ws
    else none
  | _ => none

/-! ## Running -/

/-- The configuration of `ufw`, which it keeps whether it is active or not. -/
structure UfwHost where
  active : Bool
  ipv6 : Bool
  v4 : List UfwEntry
  v6 : List UfwEntry

/-- Entries that differ at most in the action, the logging and the comment. -/
def UfwEntry.SameMatch (e e' : UfwEntry) : Prop :=
  e.toCells = e'.toCells ∧ e.direction = e'.direction ∧ e.fromCells = e'.fromCells

instance decidableSameMatch (e e' : UfwEntry) : Decidable (e.SameMatch e') :=
  inferInstanceAs (Decidable (_ ∧ _ ∧ _))

namespace UfwHost

/-- The entries in the order in which they are numbered. -/
def entries (st : UfwHost) : List UfwEntry := st.v4 ++ st.v6

/-- What the backend gets of `ufw status numbered`. -/
def status (st : UfwHost) : Str :=
  if st.active then Exec.stdout (statusText st.entries) else "Status: inactive\n"

def delete (st : UfwHost) (num : Int) : Option UfwHost :=
  let i := num.toNat - 1
  if 1 ≤ num ∧ num ≤ st.entries.length then
    if i < st.v4.length then some { st with v4 := st.v4.eraseIdx i }
    else some { st with v6 := st.v6.eraseIdx (i - st.v4.length) }
  else none

def insert (es : List UfwEntry) (e : UfwEntry) : List UfwEntry :=
  if es.any (·.SameMatch e) then es.map fun x => if x.SameMatch e then e else x else es ++ [e]

/-- An entry is added to those of its family. -/
def put (st : UfwHost) (e : UfwEntry) : Family → UfwHost
  | .ip => { st with v4 := insert st.v4 e }
  | .ip6 => { st with v6 := insert st.v6 e }

def add (F : AddrFormat) (st : UfwHost) (args : List Str) : Option UfwHost :=
  (readUfwArgs F args).bind fun req => (req.families st.ipv6).map fun fs =>
    fs.foldl (fun st f => st.put (req.entry F f) f) st

/-- A command that is run; one that `ufw` refuses has no answer. -/
def answer (F : AddrFormat) (st : UfwHost) : (q : UfwQuery) → Option (UfwAnswer q × UfwHost)
  | .status => some (.ok st.status, st)
  | .delete num => (st.delete num).map fun st' => (.ok (), st')
  | .add args => (st.add F args).map fun st' => (.ok (), st')

end UfwHost

end PowerManage.Firewall
