import PowerManage.Lib.Radix

/-!
# Codes that can be split off

A way of writing values is *self-delimiting* on the values it is meant for when what is written can
be told apart from whatever follows it.  Such codes compose: one after another, a terminator after a
word, a count before it, and then a whole list of values can be read back (`flatMap_injOn`).

`canonical_eq_iff` puts the code behind a sort by distinct keys: two collections are written alike
exactly when they have the same members.
-/

namespace Code

open List

variable {α β γ : Type}

/-- On the values of `ok`, what `enc` writes can be told apart from what follows. -/
def SelfDelimiting (ok : α → Prop) (enc : α → List γ) : Prop :=
  ∀ a b s t, ok a → ok b → enc a ++ s = enc b ++ t → a = b ∧ s = t

theorem selfDelimiting_terminated (sep : γ) :
    SelfDelimiting (fun x : List γ => sep ∉ x) fun x => x ++ [sep] := by
  intro x y s t hx hy h
  induction x generalizing y with
  | nil =>
    cases y with
    | nil => exact ⟨rfl, (cons.inj h).2⟩
    | cons c y => exact absurd ((cons.inj h).1 ▸ mem_cons_self) hy
  | cons b x ih =>
    cases y with
    | nil => exact absurd ((cons.inj h).1 ▸ mem_cons_self) hx
    | cons c y =>
      obtain ⟨rfl, hrest⟩ := cons.inj h
      obtain ⟨rfl, hst⟩ := ih y (fun hm => hx (mem_cons_of_mem _ hm))
        (fun hm => hy (mem_cons_of_mem _ hm)) hrest
      exact ⟨rfl, hst⟩

variable {ok : α → Prop} {enc : α → List γ}

theorem selfDelimiting_width {k : Nat}
    (hwidth : ∀ a, (enc a).length = k) (hinj : ∀ a b, ok a → ok b → enc a = enc b → a = b) :
    SelfDelimiting ok enc := by
  intro a b s t ha hb h
  obtain ⟨henc, hst⟩ := append_inj h ((hwidth a).trans (hwidth b).symm)
  exact ⟨hinj a b ha hb henc, hst⟩

theorem SelfDelimiting.append {f : α → β} {ok' : β → Prop} {enc : β → List γ}
    {more : α → List γ} (henc : SelfDelimiting ok' enc) (hok : ∀ a, ok a → ok' (f a))
    (hmore : ∀ a b s t, ok a → ok b → f a = f b → more a ++ s = more b ++ t → a = b ∧ s = t) :
    SelfDelimiting ok fun a => enc (f a) ++ more a := by
  intro a b s t ha hb h
  simp only [append_assoc] at h
  obtain ⟨hfab, h⟩ := henc _ _ _ _ (hok a ha) (hok b hb) h
  exact hmore a b s t ha hb hfab h

variable {xs ys : List α}

theorem SelfDelimiting.flatMap_injOn (henc : SelfDelimiting ok enc) (hne : ∀ a, enc a ≠ [])
    (hx : ∀ a ∈ xs, ok a) (hy : ∀ a ∈ ys, ok a) (h : xs.flatMap enc = ys.flatMap enc) :
    xs = ys := by
  induction xs generalizing ys with
  | nil =>
    cases ys with
    | nil => rfl
    | cons y ys => exact absurd (append_eq_nil_iff.mp h.symm).1 (hne y)
  | cons x xs ih =>
    cases ys with
    | nil => exact absurd (append_eq_nil_iff.mp h).1 (hne x)
    | cons y ys =>
      obtain ⟨rfl, hrest⟩ := henc x y _ _ (hx x mem_cons_self) (hy y mem_cons_self) h
      rw [ih (fun a ha => hx a (mem_cons_of_mem _ ha))
        (fun a ha => hy a (mem_cons_of_mem _ ha)) hrest]

/-! ## Numbers of one width -/

/-- A number in `k` bytes, the most significant first; what does not fit is cut off. -/
def bigEndian (k n : Nat) : List UInt8 := (Radix.digits 256 k n).map UInt8.ofNat

@[simp] theorem length_bigEndian (k n : Nat) : (bigEndian k n).length = k := by
  rw [bigEndian, length_map, Radix.length_digits]

theorem bigEndian_inj {k m n : Nat} (hm : m < 256 ^ k) (hn : n < 256 ^ k)
    (h : bigEndian k m = bigEndian k n) : m = n := by
  have hread : ∀ n, (bigEndian k n).map UInt8.toNat = Radix.digits 256 k n := by
    intro n
    rw [bigEndian, map_map]
    refine (map_congr_left fun d hd => ?_).trans (map_id _)
    exact Nat.mod_eq_of_lt (Radix.lt_of_mem_digits (by decide) hd)
  rw [← Nat.mod_eq_of_lt hm, ← Nat.mod_eq_of_lt hn, ← Radix.value_digits, ← Radix.value_digits,
    ← hread, ← hread, h]

theorem selfDelimiting_bigEndian (k : Nat) :
    SelfDelimiting (fun n => n < 256 ^ k) (bigEndian k) :=
  selfDelimiting_width (length_bigEndian k) fun _ _ => bigEndian_inj

/-! ## Collections -/

/-- Collections with distinct keys, sorted by their keys, are the same list exactly when they have
the same members. -/
theorem insertionSort_eq_iff {κ : Type} [LinearOrder κ] (key : α → κ) (hx : (xs.map key).Nodup)
    (hy : (ys.map key).Nodup) :
    (xs.insertionSort fun a b => key a ≤ key b) = (ys.insertionSort fun a b => key a ≤ key b) ↔
      ∀ a, a ∈ xs ↔ a ∈ ys := by
  constructor
  · intro h a
    rw [← mem_insertionSort (fun a b => key a ≤ key b), h, mem_insertionSort]
  · intro h
    have hperm : xs.Perm ys := (perm_ext_iff_of_nodup hx.of_map hy.of_map).mpr h
    have hsorted : ∀ l : List α, (l.insertionSort fun a b => key a ≤ key b).Pairwise
        fun a b => key a ≤ key b :=
      fun l => @List.pairwise_insertionSort α (fun a b => key a ≤ key b) _ ⟨fun a b => le_total _ _⟩
        ⟨fun a b c => le_trans⟩ l
    refine Perm.eq_of_pairwise ?_ (hsorted xs) (hsorted ys) ?_
    · intro a b ha hb hab hba
      rw [mem_insertionSort] at ha hb
      exact inj_on_of_nodup_map hx ha ((h b).mpr hb) (le_antisymm hab hba)
    · exact ((perm_insertionSort _ _).trans hperm).trans (perm_insertionSort _ _).symm

/-- Sorted by distinct keys and written with a self-delimiting code, two collections give the same
text exactly when they have the same members. -/
theorem canonical_eq_iff {κ : Type} [LinearOrder κ] (key : α → κ) (henc : SelfDelimiting ok enc)
    (hne : ∀ a, enc a ≠ []) (hx : (xs.map key).Nodup) (hy : (ys.map key).Nodup)
    (hokx : ∀ a ∈ xs, ok a)
    (hoky : ∀ a ∈ ys, ok a) :
    (xs.insertionSort fun a b => key a ≤ key b).flatMap enc =
        (ys.insertionSort fun a b => key a ≤ key b).flatMap enc ↔
      ∀ a, a ∈ xs ↔ a ∈ ys := by
  rw [← insertionSort_eq_iff key hx hy]
  refine ⟨henc.flatMap_injOn hne ?_ ?_, fun h => by rw [h]⟩
  · exact fun a ha => hokx a ((mem_insertionSort _).mp ha)
  · exact fun a ha => hoky a ((mem_insertionSort _).mp ha)

end Code
