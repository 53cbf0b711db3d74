import PowerManage.Firewall.Rule
import PowerManage.Lib.Radix

/-!
# Addresses and how they are spelled

The tools behind the backends take an address or a subnet as text, keep the bits, and print them
again in a spelling of their own.  `AddrFormat` is what is assumed of that spelling: which texts it
reads, the text it writes for an address, and that it reads what it writes.  A subnet loses the bits
behind its prefix, and one as long as an address is printed as that address.

`Canonical` are the texts that are printed as they were given (`shown_eq_self_iff`).
-/

namespace PowerManage.Firewall

open PathName Text Radix Option

def Family.width : Family → Nat
  | .ip => 32
  | .ip6 => 128

def mask {w : Nat} (n : Nat) (a : BitVec w) : BitVec w := (a >>> (w - n)) <<< (w - n)

def isAddrChar (c : Char) : Bool :=
  c.isDigit || ('a'.toNat ≤ c.toNat && c.toNat ≤ 'f'.toNat) ||
    ('A'.toNat ≤ c.toNat && c.toNat ≤ 'F'.toNat) || c = '.' || c = ':' || c = '/'

/-- Which texts are read as an address, with the length of a prefix or without, and the text an
address is printed as. -/
structure AddrFormat where
  read : (f : Family) → Str → Option (BitVec f.width × Option Nat)
  text : (f : Family) → BitVec f.width → Str
  read_text : ∀ f a, read f (text f a) = some (a, none)
  read_subnet : ∀ f a n, n ≤ f.width → read f (text f a ++ '/' :: decimal n) = some (a, some n)
  len_le : ∀ {f w a n}, read f w = some (a, some n) → n ≤ f.width
  slash_notMem : ∀ {f w a}, read f w = some (a, none) → '/' ∉ w
  isAddrChar_of_read : ∀ {f w r}, read f w = some r → ∀ c ∈ w, isAddrChar c = true
  separated : ∀ f a, '.' ∈ text f a ∨ ':' ∈ text f a

/-- What nft keeps of an address: a host, or a network. -/
inductive Kept (w : Nat)
  | host (a : BitVec w)
  | subnet (a : BitVec w) (n : Nat)
deriving DecidableEq

namespace AddrFormat

variable (F : AddrFormat)

def kept (f : Family) (w : Str) : Option (Kept f.width) :=
  (F.read f w).map fun
    | (a, none) => .host a
    | (a, some n) => if n = f.width then .host a else .subnet (mask n a) n

def spell (f : Family) : Kept f.width → Str
  | .host a => F.text f a
  | .subnet a n => F.text f a ++ '/' :: decimal n

/-- The spelling of an address, or of a subnet that is shorter than one and has no bits behind its
prefix. -/
def Canonical (f : Family) (w : Str) : Prop :=
  (∃ a, w = F.text f a) ∨
    ∃ a n, n < f.width ∧ mask n a = a ∧ w = F.text f a ++ '/' :: decimal n

theorem spell_kept_iff (f : Family) (w : Str) :
    (∃ k, F.kept f w = some k ∧ F.spell f k = w) ↔ F.Canonical f w := by
  constructor
  · rintro ⟨k, hk, hspell⟩
    obtain ⟨⟨a, len⟩, hread, hkept⟩ := map_eq_some_iff.mp hk
    cases len with
    | none =>
      subst hkept
      exact .inl ⟨a, hspell.symm⟩
    | some n =>
      dsimp only at hkept
      split at hkept
      · -- The text of an address is not read as a subnet.
        subst hkept
        rw [← hspell, spell, F.read_text] at hread
        cases hread
      rename_i hne
      subst hkept
      have hle := F.len_le hread
      have hagain : F.read f w = some (mask n a, some n) := by
        rw [← hspell]
        exact F.read_subnet f (mask n a) n hle
      rw [hread, some_inj, Prod.mk.injEq] at hagain
      refine .inr ⟨a, n, lt_of_le_of_ne hle hne, hagain.1.symm, ?_⟩
      rw [← hspell, spell, ← hagain.1]
  · rintro (⟨a, rfl⟩ | ⟨a, n, hlt, hmask, rfl⟩)
    · exact ⟨.host a, by rw [kept, F.read_text]; rfl, rfl⟩
    · refine ⟨.subnet a n, ?_, rfl⟩
      rw [kept, F.read_subnet f a n hlt.le, map_some]
      dsimp only
      rw [if_neg hlt.ne, hmask]

end AddrFormat

/-! ## A format

Dotted quads, and eight groups of four hexadecimal digits. -/

/-- Four decimal numbers. -/
def dottedQuad : Scheme where
  base := 256
  count := 4
  sep := '.'
  write := decimal
  read := readDecimal
  base_pos := by decide
  count_pos := by decide
  read_write n _ := readDecimal_decimal n
  sep_notMem _ _ h := absurd (isDigit_of_mem_decimal h) (by decide)

def hexDigits : Str := "0123456789abcdef"

def writeGroup (n : Nat) : Str := (digits 16 4 n).map fun d => hexDigits.getD d '0'

def readGroup (w : Str) : Option Nat :=
  if w.length = 4 then (w.mapM fun c => hexDigits.idxOf? c).map (value 16) else none

variable {n : Nat} {c : Char} {f : Family}

theorem readGroup_writeGroup (h : n < 16 ^ 4) : readGroup (writeGroup n) = some n := by
  have hdigit : ∀ d < 16, hexDigits.idxOf? (hexDigits.getD d '0') = some d := by decide
  have hread : (writeGroup n).mapM (fun c => hexDigits.idxOf? c) = some (digits 16 4 n) :=
    mapM_map_eq_some fun d hd => hdigit d (lt_of_mem_digits (by decide) hd)
  have hlength : (writeGroup n).length = 4 := by rw [writeGroup, List.length_map, length_digits]
  rw [readGroup, if_pos hlength, hread, map_some, value_digits, Nat.mod_eq_of_lt h]

theorem mem_hexDigits_of_mem_writeGroup (h : c ∈ writeGroup n) : c ∈ hexDigits := by
  have hdigit : ∀ d < 16, hexDigits.getD d '0' ∈ hexDigits := by decide
  obtain ⟨d, hd, rfl⟩ := List.mem_map.mp h
  exact hdigit d (lt_of_mem_digits (by decide) hd)

/-- Eight groups of hexadecimal digits. -/
def hexGroups : Scheme where
  base := 16 ^ 4
  count := 8
  sep := ':'
  write := writeGroup
  read := readGroup
  base_pos := by decide
  count_pos := by decide
  read_write _ h := readGroup_writeGroup h
  sep_notMem _ _ h := absurd (mem_hexDigits_of_mem_writeGroup h) (by decide)

def scheme : Family → Scheme
  | .ip => dottedQuad
  | .ip6 => hexGroups

def testText (f : Family) (a : BitVec f.width) : Str := (scheme f).text a.toNat

def parseBits (f : Family) (w : Str) : Option (BitVec f.width) :=
  ((scheme f).parse w).map (BitVec.ofNat f.width)

def testRead (f : Family) (w : Str) : Option (BitVec f.width × Option Nat) :=
  if w.all isAddrChar then
    match cut '/' w with
    | none => (parseBits f w).map (·, none)
    | some (addr, len) =>
      (parseBits f addr).bind fun a =>
        (readDecimal len).bind fun n => if n ≤ f.width then some (a, some n) else none
  else none

theorem toNat_lt_scheme (a : BitVec f.width) : a.toNat < (scheme f).base ^ (scheme f).count := by
  have h := a.isLt
  cases f <;> exact h

theorem isAddrChar_of_isDigit (h : c.isDigit = true) : isAddrChar c = true := by
  simp [isAddrChar, h]

theorem isAddrChar_decimal (h : c ∈ decimal n) : isAddrChar c = true :=
  isAddrChar_of_isDigit (isDigit_of_mem_decimal h)

theorem isAddrChar_of_mem_hexDigits (h : c ∈ hexDigits) : isAddrChar c = true ∧ c ≠ '/' := by
  have hall : hexDigits.all (fun x => isAddrChar x && x != '/') = true := by decide +kernel
  have hc := List.all_eq_true.mp hall c h
  rw [Bool.and_eq_true, bne_iff_ne] at hc
  exact hc

theorem isAddrChar_testText {a : BitVec f.width} (h : c ∈ testText f a) :
    isAddrChar c = true ∧ c ≠ '/' := by
  cases f with
  | ip =>
    rcases Scheme.mem_text dottedQuad h with rfl | ⟨d, -, hd⟩
    · decide
    · refine ⟨isAddrChar_decimal hd, ?_⟩
      rintro rfl
      exact absurd (isDigit_of_mem_decimal hd) (by decide)
  | ip6 =>
    rcases Scheme.mem_text hexGroups h with rfl | ⟨d, -, hd⟩
    · decide
    · exact isAddrChar_of_mem_hexDigits (mem_hexDigits_of_mem_writeGroup hd)

theorem parseBits_testText (f : Family) (a : BitVec f.width) :
    parseBits f (testText f a) = some a := by
  rw [parseBits, testText, Scheme.parse_text _ (toNat_lt_scheme a), map_some,
    BitVec.ofNat_toNat, BitVec.setWidth_eq]

theorem slash_notMem_testText (f : Family) (a : BitVec f.width) : '/' ∉ testText f a :=
  fun h => (isAddrChar_testText h).2 rfl

theorem testRead_text (f : Family) (a : BitVec f.width) :
    testRead f (testText f a) = some (a, none) := by
  have hchars : (testText f a).all isAddrChar = true :=
    List.all_eq_true.mpr fun c hc => (isAddrChar_testText hc).1
  rw [testRead, if_pos hchars, cut_of_notMem (slash_notMem_testText f a)]
  rw [parseBits_testText, map_some]

theorem testRead_subnet (f : Family) (a : BitVec f.width) (h : n ≤ f.width) :
    testRead f (testText f a ++ '/' :: decimal n) = some (a, some n) := by
  have hchars : (testText f a ++ '/' :: decimal n).all isAddrChar = true := by
    rw [List.all_append, List.all_cons, Bool.and_eq_true, Bool.and_eq_true]
    exact ⟨List.all_eq_true.mpr fun c hc => (isAddrChar_testText hc).1, by decide,
      List.all_eq_true.mpr fun c hc => isAddrChar_decimal hc⟩
  rw [testRead, if_pos hchars, cut_append (slash_notMem_testText f a)]
  dsimp only
  rw [parseBits_testText, bind_some, readDecimal_decimal, bind_some, if_pos h]

theorem testRead_eq_some {w : Str} {r : BitVec f.width × Option Nat} (h : testRead f w = some r) :
    (∀ c ∈ w, isAddrChar c = true) ∧ (r.2 = none → '/' ∉ w) ∧ ∀ n, r.2 = some n → n ≤ f.width := by
  unfold testRead at h
  split at h
  · rename_i hchars
    refine ⟨List.all_eq_true.mp hchars, ?_⟩
    split at h
    · rename_i hcut
      obtain ⟨a, -, rfl⟩ := map_eq_some_iff.mp h
      exact ⟨fun _ => notMem_of_cut hcut, by rintro n ⟨⟩⟩
    obtain ⟨a, -, h⟩ := bind_eq_some_iff.mp h
    obtain ⟨n, -, h⟩ := bind_eq_some_iff.mp h
    obtain ⟨hle, heq⟩ := ite_none_right_eq_some.mp h
    cases heq
    refine ⟨by rintro ⟨⟩, fun n hn => ?_⟩
    cases hn
    exact hle
  · cases h

def testFormat : AddrFormat where
  read := testRead
  text := testText
  read_text := testRead_text
  read_subnet f a _ h := testRead_subnet f a h
  len_le h := (testRead_eq_some h).2.2 _ rfl
  slash_notMem h := (testRead_eq_some h).2.1 rfl
  isAddrChar_of_read h := (testRead_eq_some h).1
  separated f a := by
    cases f with
    | ip => exact .inl (Scheme.sep_mem_text dottedQuad (by decide) _)
    | ip6 => exact .inr (Scheme.sep_mem_text hexGroups (by decide) _)

end PowerManage.Firewall
