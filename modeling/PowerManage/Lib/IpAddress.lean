import PowerManage.Lib.Text

/-!
# IP addresses as text

`parseIP` and `parseCIDR` read what Go's `net.ParseIP` and `net.ParseCIDR` read: four decimal
numbers with dots between them, or up to eight hexadecimal groups with colons between them, where
`::` stands for at least one group of zeros and the last two groups may be written as an IPv4
address.  There are no zones.

Every character of an address is a hexadecimal digit, a dot or a colon (`isAddrChar_of_parseIP`), so
an address can stand in a line, in a list with commas or in a list with blanks.
-/

namespace IpAddress

open Text List Option

inductive Addr
  | v4 (bytes : List Nat)
  | v6 (bytes : List Nat)
deriving DecidableEq

def mapped (bytes : List Nat) : List Nat := List.replicate 10 0 ++ [255, 255] ++ bytes

def Addr.to4 : Addr → Bool
  | v4 _ => true
  | v6 bytes => mapped (bytes.drop 12) = bytes

def Addr.isUnspecified : Addr → Bool
  | v4 bytes => bytes = List.replicate 4 0
  | v6 bytes => bytes = List.replicate 16 0 ∨ bytes = mapped (List.replicate 4 0)

def Addr.bitLen : Addr → Nat
  | v4 _ => 32
  | v6 _ => 128

def octet (w : Str) : Option Nat :=
  if w.head? = some '0' ∧ w ≠ ['0'] then none
  else (readDecimal w).bind fun n => if n ≤ 255 then some n else none

def isHex (c : Char) : Bool :=
  c.isDigit || ('a'.toNat ≤ c.toNat && c.toNat ≤ 'f'.toNat) ||
    ('A'.toNat ≤ c.toNat && c.toNat ≤ 'F'.toNat)

def hexValue (c : Char) : Nat :=
  if c.isDigit then c.toNat - '0'.toNat else (c.toNat - 'A'.toNat) % 32 + 10

def group (w : Str) : Option (List Nat) :=
  if w ≠ [] ∧ w.length ≤ 4 ∧ w.all isHex then
    let n := w.foldl (fun n c => 16 * n + hexValue c) 0
    some [n / 256, n % 256]
  else none

def pieces {β : Type} (read : Str → Option β) (ws : List Str) : Option (List β) :=
  if ws.all fun w => (read w).isSome then some (ws.filterMap read) else none

def parseIPv4 (s : Str) : Option (List Nat) :=
  (pieces octet (s.splitOn '.')).filter fun bytes => bytes.length = 4

def groups (s : Str) : Option (List Nat) :=
  if s = [] then some [] else (pieces group (s.splitOn ':')).map List.flatten

/-- The bytes of groups with colons between them, the last of which may be an IPv4 address. -/
def lastGroups (s : Str) : Option (List Nat) :=
  match parseIPv4 (s.splitOn ':').getLast! with
  | some bytes =>
    (pieces group (s.splitOn ':').dropLast).map fun bs => bs.flatten ++ bytes
  | none => groups s

/-- What is before and after the first `::`. -/
def cutEllipsis : Str → Option (Str × Str)
  | ':' :: ':' :: s => some ([], s)
  | c :: s => (cutEllipsis s).map fun p => (c :: p.1, p.2)
  | [] => none

/-- Groups, with at most one gap, and perhaps an IPv4 tail. -/
def parseIPv6 (s : Str) : Option (List Nat) :=
  match cutEllipsis s with
  | none => (lastGroups s).filter fun bytes => bytes.length = 16
  | some (left, right) =>
    (groups left).bind fun l => (lastGroups right).bind fun r =>
      if l.length + r.length < 16 then
        some (l ++ List.replicate (16 - l.length - r.length) 0 ++ r)
      else none

def parseIP (s : Str) : Option Addr :=
  if ':' ∈ s then (parseIPv6 s).map .v6 else (parseIPv4 s).map .v4

def parseCIDR (s : Str) : Option Addr :=
  (cut '/' s).bind fun p => (parseIP p.1).bind fun a => (readDecimal p.2).bind fun n =>
    if n ≤ a.bitLen then some a else none

/-! ## The characters of an address -/

def isAddrChar (c : Char) : Bool := isHex c || c = '.' || c = ':'

def isCIDRChar (c : Char) : Bool := isAddrChar c || c = '/'

theorem toNat_of_isHex {c : Char} (h : isHex c = true) : 48 ≤ c.toNat ∧ c.toNat ≤ 102 := by
  simp only [isHex, Bool.or_eq_true, Bool.and_eq_true, decide_eq_true_eq,
    Char.isDigit_iff_toNat] at h
  have hA : 'A'.toNat = 65 := rfl
  have hF : 'F'.toNat = 70 := rfl
  have ha : 'a'.toNat = 97 := rfl
  have hf : 'f'.toNat = 102 := rfl
  have hzero : '0'.toNat = 48 := rfl
  have hnine : '9'.toNat = 57 := rfl
  omega

theorem isAddrChar_of_isDigit {c : Char} (h : c.isDigit = true) : isAddrChar c = true := by
  simp [isAddrChar, isHex, h]

variable {s w : Str} {bytes : List Nat} {a : Addr}

theorem isDigit_of_readDecimal {n : Nat} (h : readDecimal w = some n) :
    ∀ c ∈ w, c.isDigit = true := by
  rw [readDecimal, ite_none_right_eq_some] at h
  exact all_eq_true.mp h.1.2

theorem isAddrChar_of_octet (h : (octet w).isSome = true) : ∀ c ∈ w, isAddrChar c = true := by
  intro c hc
  obtain ⟨n, hn⟩ := isSome_iff_exists.mp h
  rw [octet, ite_none_left_eq_some, bind_eq_some_iff] at hn
  obtain ⟨-, m, hm, -⟩ := hn
  exact isAddrChar_of_isDigit (isDigit_of_readDecimal hm c hc)

theorem isAddrChar_of_group (h : (group w).isSome = true) : ∀ c ∈ w, isAddrChar c = true := by
  intro c hc
  obtain ⟨bytes, hbytes⟩ := isSome_iff_exists.mp h
  rw [group, ite_none_right_eq_some] at hbytes
  have hhex : isHex c = true := all_eq_true.mp hbytes.1.2.2 c hc
  simp [isAddrChar, hhex]

theorem isAddrChar_of_pieces {β : Type} {read : Str → Option β} {ws : List Str}
    {bs : List β} (hread : ∀ w, (read w).isSome = true → ∀ c ∈ w, isAddrChar c = true)
    (h : pieces read ws = some bs) : ∀ w ∈ ws, ∀ c ∈ w, isAddrChar c = true := by
  rw [pieces, ite_none_right_eq_some] at h
  exact fun w hw => hread w (all_eq_true.mp h.1 w hw)

theorem isAddrChar_of_splitOn {sep : Char} (hsep : isAddrChar sep = true)
    (h : ∀ w ∈ s.splitOn sep, ∀ c ∈ w, isAddrChar c = true) : ∀ c ∈ s, isAddrChar c = true := by
  intro c hc
  have hs : [sep].intercalate (s.splitOn sep) = s := intercalate_splitOn sep
  rw [← hs] at hc
  rcases mem_intercalate hc with rfl | ⟨w, hw, hcw⟩
  · exact hsep
  · exact h w hw c hcw

theorem isAddrChar_of_parseIPv4 (h : parseIPv4 s = some bytes) : ∀ c ∈ s, isAddrChar c = true := by
  rw [parseIPv4, filter_eq_some_iff] at h
  exact isAddrChar_of_splitOn (by decide) (isAddrChar_of_pieces (fun _ => isAddrChar_of_octet) h.1)

theorem isAddrChar_of_groups (h : groups s = some bytes) : ∀ c ∈ s, isAddrChar c = true := by
  unfold groups at h
  split at h
  · simp_all
  · obtain ⟨bs, hbs, -⟩ := map_eq_some_iff.mp h
    exact isAddrChar_of_splitOn (by decide)
      (isAddrChar_of_pieces (fun _ => isAddrChar_of_group) hbs)

theorem isAddrChar_of_lastGroups (h : lastGroups s = some bytes) : ∀ c ∈ s, isAddrChar c = true := by
  unfold lastGroups at h
  split at h
  · next ip hip =>
    obtain ⟨bs, hbs, -⟩ := map_eq_some_iff.mp h
    have hne : s.splitOn ':' ≠ [] := splitOn_ne_nil ':' s
    rw [getLast!_of_getLast? (getLast?_eq_some_getLast hne)] at hip
    refine isAddrChar_of_splitOn (show isAddrChar ':' = true by decide) ?_
    rw [← dropLast_append_getLast hne]
    intro w hw
    rcases mem_append.mp hw with hw | hw
    · exact isAddrChar_of_pieces (fun _ => isAddrChar_of_group) hbs w hw
    · rw [mem_singleton.mp hw]
      exact isAddrChar_of_parseIPv4 hip
  · exact isAddrChar_of_groups h

theorem append_of_cutEllipsis {left right : Str} (h : cutEllipsis s = some (left, right)) :
    s = left ++ ':' :: ':' :: right := by
  fun_induction cutEllipsis s generalizing left right with
  | case1 s =>
    cases h
    rfl
  | case2 c s _ ih =>
    obtain ⟨⟨l, r⟩, hp, heq⟩ := map_eq_some_iff.mp h
    cases heq
    rw [ih hp]
    rfl
  | case3 => cases h

theorem isAddrChar_of_parseIPv6 (h : parseIPv6 s = some bytes) : ∀ c ∈ s, isAddrChar c = true := by
  unfold parseIPv6 at h
  split at h
  · rw [filter_eq_some_iff] at h
    exact isAddrChar_of_lastGroups h.1
  next left right hcut =>
  obtain ⟨l, hl, h⟩ := bind_eq_some_iff.mp h
  obtain ⟨r, hr, -⟩ := bind_eq_some_iff.mp h
  rw [append_of_cutEllipsis hcut]
  simp only [forall_mem_append, forall_mem_cons]
  exact ⟨isAddrChar_of_groups hl, by decide, by decide, isAddrChar_of_lastGroups hr⟩

theorem isAddrChar_of_parseIP (h : parseIP s = some a) : ∀ c ∈ s, isAddrChar c = true := by
  unfold parseIP at h
  split at h
  · obtain ⟨bytes, hbytes, -⟩ := map_eq_some_iff.mp h
    exact isAddrChar_of_parseIPv6 hbytes
  · obtain ⟨bytes, hbytes, -⟩ := map_eq_some_iff.mp h
    exact isAddrChar_of_parseIPv4 hbytes

theorem isCIDRChar_of_parseCIDR (h : parseCIDR s = some a) : ∀ c ∈ s, isCIDRChar c = true := by
  obtain ⟨⟨addr, mask⟩, hcut, h⟩ := bind_eq_some_iff.mp h
  obtain ⟨a', ha', h⟩ := bind_eq_some_iff.mp h
  obtain ⟨n, hn, -⟩ := bind_eq_some_iff.mp h
  rw [append_of_cut hcut]
  simp only [forall_mem_append, forall_mem_cons]
  refine ⟨fun c hc => ?_, by decide, fun c hc => ?_⟩
  · simp [isCIDRChar, isAddrChar_of_parseIP ha' c hc]
  · simp [isCIDRChar, isAddrChar_of_isDigit (isDigit_of_readDecimal hn c hc)]

theorem ne_nil_of_parseIP (h : parseIP s = some a) : s ≠ [] := by
  rintro rfl
  cases h

theorem ne_nil_of_parseCIDR (h : parseCIDR s = some a) : s ≠ [] := by
  rintro rfl
  cases h

end IpAddress
