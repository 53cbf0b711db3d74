import PowerManage.Lib.Text

/-!
# Length-prefixed texts

A list of texts can be written as one text by putting the length of each in front of it, with a
separator after the number.  Nothing is asked of the texts themselves: they may be empty, hold the
separator or look like frames.  `Numerals.frames_injective` says that nothing is lost, because a
frame can be split off whatever follows it.
-/

/-- A way of writing numbers, with a separator that no number contains. -/
structure Numerals (α : Type) where
  write : Nat → List α
  sep : α
  write_injective : Function.Injective write
  sep_notMem : ∀ n, sep ∉ write n

namespace Numerals

open List

variable {α : Type} (N : Numerals α)

def frame (s : List α) : List α := N.write s.length ++ N.sep :: s

def frames (ss : List (List α)) : List α := ss.flatMap N.frame

@[simp] theorem frames_nil : N.frames [] = [] := rfl

@[simp] theorem frames_cons (s : List α) (ss : List (List α)) :
    N.frames (s :: ss) = N.frame s ++ N.frames ss := rfl

theorem frame_ne_nil (s : List α) : N.frame s ≠ [] := by
  intro h
  have hsep := (append_eq_nil_iff.mp h).2
  cases hsep

theorem write_append_sep_inj {m n : Nat} {u v : List α}
    (h : N.write m ++ N.sep :: u = N.write n ++ N.sep :: v) : m = n ∧ u = v := by
  rcases append_eq_append_iff.mp h with ⟨w, hn, hw⟩ | ⟨w, hm, hw⟩
  · cases w with
    | nil =>
      rw [append_nil] at hn
      exact ⟨N.write_injective hn.symm, (cons.inj hw).2⟩
    | cons c w =>
      -- the separator after the first number would stand inside the second
      obtain ⟨rfl, -⟩ := cons.inj hw
      exact absurd (hn ▸ mem_append_right _ mem_cons_self) (N.sep_notMem n)
  · cases w with
    | nil =>
      rw [append_nil] at hm
      exact ⟨N.write_injective hm, (cons.inj hw).2.symm⟩
    | cons c w =>
      obtain ⟨rfl, -⟩ := cons.inj hw
      exact absurd (hm ▸ mem_append_right _ mem_cons_self) (N.sep_notMem m)

theorem frame_append_inj {s t u v : List α} (h : N.frame s ++ u = N.frame t ++ v) :
    s = t ∧ u = v := by
  rw [frame, frame, append_assoc, append_assoc] at h
  obtain ⟨hlength, hrest⟩ := N.write_append_sep_inj h
  exact append_inj hrest hlength

theorem frames_injective : Function.Injective N.frames := by
  intro ss
  induction ss with
  | nil =>
    intro ts h
    cases ts with
    | nil => rfl
    | cons t ts =>
      exact absurd (append_eq_nil_iff.mp h.symm).1 (N.frame_ne_nil t)
  | cons s ss ih =>
    intro ts h
    cases ts with
    | nil => exact absurd (append_eq_nil_iff.mp h).1 (N.frame_ne_nil s)
    | cons t ts =>
      obtain ⟨rfl, hrest⟩ := N.frame_append_inj h
      rw [ih hrest]

end Numerals
