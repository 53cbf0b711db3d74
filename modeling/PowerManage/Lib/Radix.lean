import PowerManage.Lib.Text

/-!
# Numbers in groups

A number of a fixed size can be written as a fixed number of digits in some base, and each digit as
a group of characters, with a separator between the groups: dotted quads are one such scheme, hours
and minutes another.  `Scheme.parse_text` says that such a text is read back.
-/

namespace Radix

open Text List

/-- The last `k` digits of a number in base `b`, the most significant one first. -/
def digits (b : Nat) : Nat → Nat → List Nat
  | 0, _ => []
  | k + 1, n => n / b ^ k % b :: digits b k n

def value (b : Nat) (ds : List Nat) : Nat := ds.foldl (fun acc d => acc * b + d) 0

@[simp] theorem length_digits (b k n : Nat) : (digits b k n).length = k := by
  induction k with
  | zero => rfl
  | succ k ih => rw [digits, length_cons, ih]

theorem lt_of_mem_digits {b k n d : Nat} (hb : 0 < b) (h : d ∈ digits b k n) : d < b := by
  induction k with
  | zero => cases h
  | succ k ih =>
    rcases mem_cons.mp h with rfl | h
    · exact Nat.mod_lt _ hb
    · exact ih h

theorem foldl_digits (b k n acc : Nat) :
    (digits b k n).foldl (fun acc d => acc * b + d) acc = acc * b ^ k + n % b ^ k := by
  induction k generalizing acc with
  | zero => rw [pow_zero, Nat.mod_one]; simp [digits]
  | succ k ih =>
    rw [digits, foldl_cons, ih, Nat.mod_pow_succ]
    ring

theorem value_digits (b k n : Nat) : value b (digits b k n) = n % b ^ k := by
  rw [value, foldl_digits, zero_mul, zero_add]

/-- What is written element by element is read back element by element. -/
theorem mapM_map_eq_some {α β : Type} {write : α → β} {read : β → Option α} {l : List α}
    (h : ∀ x ∈ l, read (write x) = some x) : (l.map write).mapM read = some l := by
  induction l with
  | nil => rfl
  | cons x l ih =>
    obtain ⟨hx, hl⟩ := forall_mem_cons.mp h
    rw [map_cons, mapM_cons, hx, ih hl]
    rfl

/-- How numbers below `base ^ count` are written. -/
structure Scheme where
  base : Nat
  count : Nat
  sep : Char
  write : Nat → Str
  read : Str → Option Nat
  base_pos : 0 < base
  count_pos : 0 < count
  read_write : ∀ n < base, read (write n) = some n
  sep_notMem : ∀ n < base, sep ∉ write n

namespace Scheme

variable (S : Scheme)

def text (n : Nat) : Str := [S.sep].intercalate ((digits S.base S.count n).map S.write)

def parse (w : Str) : Option Nat :=
  let groups := w.splitOn S.sep
  if groups.length = S.count then (groups.mapM S.read).map (value S.base) else none

theorem splitOn_text (n : Nat) :
    (S.text n).splitOn S.sep = (digits S.base S.count n).map S.write := by
  rw [text, splitOn_intercalate]
  · intro l hl
    obtain ⟨d, hd, rfl⟩ := mem_map.mp hl
    exact S.sep_notMem d (lt_of_mem_digits S.base_pos hd)
  · intro hnil
    have hlength := congrArg length hnil
    rw [length_map, length_digits] at hlength
    exact absurd hlength (ne_of_gt S.count_pos)

theorem parse_text {n : Nat} (h : n < S.base ^ S.count) : S.parse (S.text n) = some n := by
  have hread : ((digits S.base S.count n).map S.write).mapM S.read =
      some (digits S.base S.count n) :=
    mapM_map_eq_some fun d hd => S.read_write d (lt_of_mem_digits S.base_pos hd)
  rw [parse, splitOn_text, length_map, length_digits, if_pos rfl, hread, Option.map_some,
    value_digits, Nat.mod_eq_of_lt h]

theorem mem_text {n : Nat} {c : Char} (h : c ∈ S.text n) :
    c = S.sep ∨ ∃ d < S.base, c ∈ S.write d := by
  rcases mem_intercalate h with h | ⟨l, hl, hc⟩
  · exact .inl h
  · obtain ⟨d, hd, rfl⟩ := mem_map.mp hl
    exact .inr ⟨d, lt_of_mem_digits S.base_pos hd, hc⟩

theorem sep_mem_text (h : 2 ≤ S.count) (n : Nat) : S.sep ∈ S.text n := by
  obtain ⟨k, hk⟩ := Nat.exists_eq_add_of_le h
  rw [text, hk, add_comm, digits, digits, map_cons, map_cons,
    intercalate_cons_cons]
  simp

end Scheme

end Radix
