import PowerManage.Lib.Text

/-!
# File modes

Go keeps the permission bits of a file mode where Unix has them, and the set-uid, set-gid and sticky
bits elsewhere.  `syscallMode` is what a mode means to the kernel, and `octal` the text of it that
`chmod` takes.
-/

namespace FileMode

abbrev Mode := BitVec 32

def modeSetuid : Mode := 0x800000#32

def modeSetgid : Mode := 0x400000#32

def modeSticky : Mode := 0x100000#32

def perm (m : Mode) : Mode := m &&& 0o777#32

abbrev UnixMode := BitVec 32

def syscallMode (m : Mode) : UnixMode :=
  perm m ||| (if m &&& modeSetuid ≠ 0 then 0o4000#32 else 0) |||
    (if m &&& modeSetgid ≠ 0 then 0o2000#32 else 0) |||
    if m &&& modeSticky ≠ 0 then 0o1000#32 else 0

def octal (m : UnixMode) : Str :=
  let ds := Nat.toDigits 8 m.toNat
  List.replicate (4 - ds.length) '0' ++ ds

/-- The mode that `chmod` reads in a text of octal digits. -/
def ofOctal (w : Str) : Option UnixMode :=
  if w ≠ [] ∧ w.all (fun c => '0' ≤ c && c ≤ '7') then some (BitVec.ofNat 32 (Nat.ofDigitChars 8 w 0))
  else none

theorem ofDigitChars_zeros (n : Nat) (w : Str) :
    Nat.ofDigitChars 8 (List.replicate n '0' ++ w) 0 = Nat.ofDigitChars 8 w 0 := by
  induction n with
  | zero => rfl
  | succ n ih =>
    exact ih

theorem octalDigit_of_mem {n : Nat} {c : Char} (h : c ∈ Nat.toDigits 8 n) :
    ('0' ≤ c && c ≤ '7') = true := by
  have hdigit : ∀ d < 8, ('0' ≤ Nat.digitChar d && Nat.digitChar d ≤ '7') = true := by decide
  induction n using Nat.strongRecOn with
  | ind n ih =>
    by_cases hlt : n < 8
    · rw [Nat.toDigits_of_lt_base hlt, List.mem_singleton] at h
      rw [h]
      exact hdigit n hlt
    rw [Nat.toDigits_of_base_le (by decide) (not_lt.mp hlt), List.mem_append,
      List.mem_singleton] at h
    rcases h with h | h
    · exact ih (n / 8) (by omega) h
    · rw [h]
      exact hdigit (n % 8) (by omega)

theorem ofOctal_octal (m : UnixMode) : ofOctal (octal m) = some m := by
  have hall : (octal m).all (fun c => '0' ≤ c && c ≤ '7') = true := by
    refine List.all_eq_true.mpr fun c hc => ?_
    rcases List.mem_append.mp hc with hc | hc
    · rw [List.eq_of_mem_replicate hc]
      rfl
    · exact octalDigit_of_mem hc
  have hne : octal m ≠ [] := List.append_ne_nil_of_right_ne_nil _ Nat.toDigits_ne_nil
  rw [ofOctal, if_pos ⟨hne, hall⟩, octal, ofDigitChars_zeros,
    Nat.ofDigitChars_toDigits (by decide) (by decide), BitVec.ofNat_toNat, BitVec.setWidth_eq]

end FileMode
