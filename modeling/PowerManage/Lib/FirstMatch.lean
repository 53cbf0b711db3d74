import Mathlib

/-!
# Lists of which the first match decides

An ordered list of rules, a test of which of them hit, and a policy for what none of them hits.
`verdict` is what the list decides.  What happens to such a list here is that a rule is put at the
end.  Where it stays in its old place as well nobody notices (`verdict_append_repeated`); where it
is taken out (`verdict_moved`) that is noticed by whatever hits it first and is then decided
otherwise by the rules that came after it.
-/

namespace FirstMatch

variable {α β : Type} {hits : α → Bool} {decides : α → β} {policy : β}

def verdict (hits : α → Bool) (decides : α → β) (policy : β) (l : List α) : β :=
  ((l.find? hits).map decides).getD policy

theorem verdict_cons_of_hit {x : α} {l : List α} (h : hits x = true) :
    verdict hits decides policy (x :: l) = decides x := by
  rw [verdict, List.find?_cons_of_pos h]
  rfl

theorem verdict_cons_of_miss {x : α} {l : List α} (h : hits x = false) :
    verdict hits decides policy (x :: l) = verdict hits decides policy l := by
  rw [verdict, List.find?_cons_of_neg (Bool.eq_false_iff.mp h)]
  rfl

theorem verdict_append_of_miss {l l' : List α} (h : ∀ x ∈ l, hits x = false) :
    verdict hits decides policy (l ++ l') = verdict hits decides policy l' := by
  induction l with
  | nil => rfl
  | cons x l ih =>
    obtain ⟨hx, hl⟩ := List.forall_mem_cons.mp h
    rw [List.cons_append, verdict_cons_of_miss hx, ih hl]

theorem verdict_append_of_hit {l : List α} (l' : List α) {x : α} (h : l.find? hits = some x) :
    verdict hits decides policy (l ++ l') = decides x := by
  rw [verdict, List.find?_append, h]
  rfl

/-- A rule that hits what one in front of it hits decides nothing. -/
theorem verdict_append_repeated {x x' : α} {l : List α} (hhits : hits x' = hits x) (hx : x ∈ l) :
    verdict hits decides policy (l ++ [x']) = verdict hits decides policy l := by
  cases hfind : l.find? hits with
  | some y => rw [verdict_append_of_hit _ hfind, verdict, hfind]; rfl
  | none =>
    have hmiss : hits x' = false := by
      rw [hhits]
      exact Bool.eq_false_iff.mpr (List.find?_eq_none.mp hfind x hx)
    rw [verdict, verdict, List.find?_append, hfind, List.find?_singleton, if_neg (by simp [hmiss])]
    rfl

/-- A rule, or one that does the same, put to the end decides as it did in its old place exactly
when whatever hits it first meets no rule behind it, or one that decides the same. -/
theorem verdict_moved {x x' : α} (hhits : hits x' = hits x) (hdecides : decides x' = decides x)
    (before after : List α) :
    verdict hits decides policy (before ++ after ++ [x']) =
        verdict hits decides policy (before ++ x :: after) ↔
      (hits x = true → (∀ y ∈ before, hits y = false) →
        ∀ y, after.find? hits = some y → decides y = decides x) := by
  cases hbefore : before.find? hits with
  | some y =>
    rw [List.append_assoc, verdict_append_of_hit _ hbefore, verdict_append_of_hit _ hbefore]
    refine iff_of_true rfl fun _ hmiss => ?_
    have hhit := hmiss y (List.mem_of_find?_eq_some hbefore)
    rw [List.find?_some hbefore] at hhit
    cases hhit
  | none =>
    have hmiss : ∀ y ∈ before, hits y = false := fun y hy =>
      Bool.eq_false_iff.mpr (List.find?_eq_none.mp hbefore y hy)
    rw [List.append_assoc, verdict_append_of_miss hmiss, verdict_append_of_miss hmiss]
    cases hx : hits x with
    | false =>
      rw [verdict_cons_of_miss hx]
      refine iff_of_true ?_ (by rintro ⟨⟩)
      rw [← hhits] at hx
      rw [verdict, verdict, List.find?_append, List.find?_cons_of_neg (Bool.eq_false_iff.mp hx),
        List.find?_nil, Option.or_none]
    | true =>
      rw [verdict_cons_of_hit hx]
      cases hafter : after.find? hits with
      | some y =>
        rw [verdict_append_of_hit _ hafter]
        constructor
        · rintro heq - - z hz
          cases hz
          exact heq
        · intro h
          exact h rfl hmiss y rfl
      | none =>
        refine iff_of_true ?_ fun _ _ y hy => by cases hy
        rw [verdict, List.find?_append, hafter, Option.none_or,
          List.find?_cons_of_pos (hhits.trans hx)]
        exact hdecides

theorem split_unique {l before after before' after' : List α} {x : α} (hl : l.Nodup)
    (h : l = before ++ x :: after) (h' : l = before' ++ x :: after') :
    before' = before ∧ after' = after := by
  have hnot : ∀ {b a}, l = b ++ x :: a → x ∉ b ∧ x ∉ a := by
    intro b a hb
    rw [hb, List.nodup_middle, List.nodup_cons, List.mem_append, not_or] at hl
    exact hl.1
  obtain ⟨rfl, -, rfl⟩ :=
    (List.append_cons_inj_of_notMem (hnot h').1 (hnot h').2).mp (h'.symm.trans h)
  exact ⟨rfl, rfl⟩

end FirstMatch
