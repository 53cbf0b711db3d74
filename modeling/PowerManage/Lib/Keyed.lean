import Mathlib

/-!
# Lists that hold a finite map

A list of entries, each with a key of its own, holds a finite map: `Holds key l m` says that the
entries of `l` are those of `m` and that no key occurs twice.  Taking the entries of a key out of
the list is erasing it from the map, and adding an entry after that is inserting it.
-/

namespace Keyed

open List

variable {α κ : Type} [DecidableEq κ]

abbrev Store (κ α : Type) := Finmap fun _ : κ => α

/-- The entries of the list are those of the map, and each key occurs at most once. -/
structure Holds (key : α → κ) (l : List α) (m : Store κ α) : Prop where
  nodup : (l.map key).Nodup
  mem_iff : ∀ a, a ∈ l ↔ m.lookup (key a) = some a
  key_eq : ∀ k a, m.lookup k = some a → key a = k

variable {key : α → κ} {l : List α} {m : Store κ α}

theorem holds_empty (key : α → κ) : Holds key [] ∅ where
  nodup := nodup_nil
  mem_iff a := by simp
  key_eq k a h := by simp at h

theorem Holds.erase (h : Holds key l m) (k : κ) :
    Holds key (l.filter fun a => key a ≠ k) (m.erase k) where
  nodup := h.nodup.sublist (filter_sublist.map key)
  mem_iff a := by
    rw [mem_filter, decide_eq_true_eq, h.mem_iff]
    by_cases ha : key a = k
    · rw [ha, Finmap.lookup_erase]
      exact ⟨fun h => absurd rfl h.2, nofun⟩
    · rw [Finmap.lookup_erase_ne ha]
      exact and_iff_left ha
  key_eq k' a ha := by
    by_cases hk : k' = k
    · rw [hk, Finmap.lookup_erase] at ha
      cases ha
    · exact h.key_eq k' a (by rwa [Finmap.lookup_erase_ne hk] at ha)

theorem Holds.erase_of_forall_ne (h : Holds key l m) {k : κ} (hk : ∀ a ∈ l, key a ≠ k) :
    Holds key l (m.erase k) := by
  have hl : l.filter (fun a => key a ≠ k) = l :=
    filter_eq_self.mpr fun a ha => decide_eq_true (hk a ha)
  exact hl ▸ h.erase k

theorem Holds.insert (h : Holds key l m) (a : α) :
    Holds key ((l.filter fun b => key b ≠ key a) ++ [a]) (m.insert (key a) a) where
  nodup := by
    rw [map_append, nodup_append]
    refine ⟨(h.erase (key a)).nodup, nodup_singleton _, ?_⟩
    intro k hk k' hk'
    obtain ⟨b, hb, rfl⟩ := mem_map.mp hk
    rw [map_singleton, mem_singleton] at hk'
    exact hk' ▸ of_decide_eq_true (mem_filter.mp hb).2
  mem_iff b := by
    rw [mem_append, mem_singleton, (h.erase (key a)).mem_iff]
    by_cases hb : key b = key a
    · rw [hb, Finmap.lookup_erase, Finmap.lookup_insert, Option.some_inj]
      exact ⟨fun h => (h.resolve_left nofun).symm, fun h => .inr h.symm⟩
    · rw [Finmap.lookup_erase_ne hb, Finmap.lookup_insert_of_ne _ hb]
      exact or_iff_left fun h => hb (h ▸ rfl)
  key_eq k b hb := by
    by_cases hk : k = key a
    · rw [hk, Finmap.lookup_insert, Option.some_inj] at hb
      rw [hk, hb]
    · exact h.key_eq k b (by rwa [Finmap.lookup_insert_of_ne _ hk] at hb)

end Keyed
