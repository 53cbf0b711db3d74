import PowerManage.Lib.Text

/-!
# Cleaned path names

What `clean` makes of a path name, on components.  An absolute name comes out as the spelling of the
path it leads to; a relative one leads from anywhere to where it led before (`foldl_push_clean`).
-/

namespace Text

open PathName List

theorem slash_not_mem_of_mem_components {s : Str} : ∀ c ∈ components s, '/' ∉ c :=
  fun _ hc => notMem_of_mem_splitOn hc

variable {cs s : List Name} {p : Path}

theorem forall_mem_foldl_push {P : Name → Prop} (hcs : ∀ c ∈ cs, P c) (hp : ∀ c ∈ p, P c) :
    ∀ c ∈ cs.foldl push p, P c := by
  induction cs generalizing p with
  | nil => exact hp
  | cons c cs ih =>
    obtain ⟨hc, hcs⟩ := forall_mem_cons.mp hcs
    refine ih hcs fun d hd => ?_
    unfold push at hd
    split_ifs at hd
    · exact hp d hd
    · exact hp d (mem_of_mem_dropLast hd)
    · rcases mem_append.mp hd with hd | hd
      · exact hp d hd
      · rwa [mem_singleton.mp hd]

theorem slash_not_mem_of_mem_cleanAbs {s : Str} : ∀ c ∈ cleanAbs s, '/' ∉ c :=
  forall_mem_foldl_push slash_not_mem_of_mem_components (by simp)

theorem components_append_slash (s t : Str) :
    components (s ++ '/' :: t) = components s ++ components t :=
  splitOn_append_cons_self s t

theorem isAbs_spell (p : Path) : isAbs (spell p) = true := by
  cases p <;> simp [spell, isAbs]

theorem clean_abs {s : Str} (h : isAbs s = true) : clean s = spell (cleanAbs s) :=
  if_pos h

/-! ## Relative names -/

/-- A component as it stands in a clean relative name. -/
def Kept (c : Name) : Prop := c ≠ [] ∧ c ≠ dot ∧ '/' ∉ c

instance (c : Name) : Decidable (Kept c) := inferInstanceAs (Decidable (_ ∧ _))

theorem kept_foldl_pushRel (hcs : ∀ c ∈ cs, '/' ∉ c) (hs : ∀ c ∈ s, Kept c) :
    ∀ c ∈ cs.foldl pushRel s, Kept c := by
  induction cs generalizing s with
  | nil => exact hs
  | cons c cs ih =>
    obtain ⟨hc, hcs⟩ := forall_mem_cons.mp hcs
    refine ih hcs fun d hd => ?_
    have hconcat : ∀ e, Kept e → d ∈ s ++ [e] → Kept d := by
      intro e he hmem
      rcases mem_append.mp hmem with hmem | hmem
      · exact hs d hmem
      · rwa [mem_singleton.mp hmem]
    have hdots : Kept dotDot := by decide
    unfold pushRel at hd
    split_ifs at hd with htriv hup
    · exact hs d hd
    · split at hd
      · exact hconcat dotDot hdots (mem_append_right _ hd)
      · split_ifs at hd
        · exact hconcat dotDot hdots hd
        · exact hs d (mem_of_mem_dropLast hd)
    · exact hconcat c ⟨fun h => htriv (.inl h), fun h => htriv (.inr h), hc⟩ hd

theorem foldl_push_pushRel (hs : ∀ c ∈ s, Kept c) (c : Name) (p : Path) :
    (pushRel s c).foldl push p = push (s.foldl push p) c := by
  unfold pushRel
  split_ifs with htriv hup
  · rw [push_trivial htriv]
  · subst hup
    rcases eq_nil_or_concat' s with rfl | ⟨s, last, rfl⟩
    · rfl
    rw [getLast?_concat]
    dsimp only
    split_ifs with hlast
    · rw [foldl_append, foldl_cons, foldl_nil]
    have hkept := hs last (by simp)
    rw [dropLast_concat, foldl_append, foldl_cons, foldl_nil,
      push_proper ⟨hkept.1, hkept.2.1, hlast⟩, push, if_neg (by decide), if_pos rfl,
      dropLast_concat]
  · rw [foldl_append, foldl_cons, foldl_nil]

theorem foldl_push_foldl_pushRel (hcs : ∀ c ∈ cs, '/' ∉ c) (hs : ∀ c ∈ s, Kept c) (p : Path) :
    (cs.foldl pushRel s).foldl push p = cs.foldl push (s.foldl push p) := by
  induction cs generalizing s with
  | nil => rfl
  | cons c cs ih =>
    obtain ⟨hc, hcs⟩ := forall_mem_cons.mp hcs
    have hone : ∀ d ∈ pushRel s c, Kept d :=
      kept_foldl_pushRel (forall_mem_singleton.mpr hc) hs
    rw [foldl_cons, ih hcs hone, foldl_push_pushRel hs, foldl_cons]

theorem components_clean_rel {s : Str} (h : isAbs s = false) :
    (clean s = ['.'] ∧ (components s).foldl pushRel [] = []) ∨
      ((∀ c ∈ components (clean s), Kept c) ∧
        components (clean s) = (components s).foldl pushRel []) := by
  have hkept : ∀ c ∈ (components s).foldl pushRel [], Kept c :=
    kept_foldl_pushRel slash_not_mem_of_mem_components (by simp)
  unfold clean
  rw [if_neg (by simp [h])]
  cases hcs : (components s).foldl pushRel [] with
  | nil => exact .inl ⟨rfl, rfl⟩
  | cons c cs =>
    rw [hcs] at hkept
    have hsplit : components (['/'].intercalate (c :: cs)) = c :: cs :=
      splitOn_intercalate '/' (fun d hd => (hkept d hd).2.2) (by simp)
    exact .inr ⟨by rw [hsplit]; exact hkept, hsplit⟩

theorem isAbs_clean_rel {s : Str} (h : isAbs s = false) : isAbs (clean s) = false := by
  rcases components_clean_rel h with ⟨hdot, -⟩ | ⟨hkept, -⟩
  · rw [hdot]
    rfl
  -- an absolute name has an empty component first
  by_contra habs
  obtain ⟨rest, hrest⟩ : ∃ rest, clean s = '/' :: rest := by
    cases hc : clean s with
    | nil => simp [hc, isAbs] at habs
    | cons x rest => exact ⟨rest, by simpa [hc, isAbs] using habs⟩
  rw [hrest, show components ('/' :: rest) = [] :: components rest from
    components_append_slash [] rest] at hkept
  exact (hkept [] mem_cons_self).1 rfl

theorem foldl_push_clean {s : Str} (h : isAbs s = false) (p : Path) :
    (components (clean s)).foldl push p = (components s).foldl push p := by
  have hlead : ((components s).foldl pushRel []).foldl push p = (components s).foldl push p :=
    foldl_push_foldl_pushRel slash_not_mem_of_mem_components (by simp) p
  rcases components_clean_rel h with ⟨hdot, hnil⟩ | ⟨-, hcs⟩
  · rw [hnil] at hlead
    rw [hdot]
    exact hlead
  · rw [hcs, hlead]

/-! ## Prefixes of spelled paths -/

theorem components_eq_of_spell_eq (hp : ∀ c ∈ p, c ≠ [] ∧ '/' ∉ c) {s : Str} (h : spell p = s)
    (hs : s ≠ ['/']) : components s = [] :: p := by
  have hne : p ≠ [] := by
    rintro rfl
    exact hs h.symm
  rw [← h, components_spell hne fun c hc => (hp c hc).2]

/-- A spelled path is another one or goes on after a slash from it exactly when its components go
on from the other's. -/
theorem spell_eq_or_hasPrefix_iff {q : Path} (hp : ∀ c ∈ p, c ≠ [] ∧ '/' ∉ c)
    (hq : ∀ c ∈ q, c ≠ [] ∧ '/' ∉ c) (hne : q ≠ []) :
    spell p = spell q ∨ hasPrefix (spell p) (spell q ++ ['/']) = true ↔ q <+: p := by
  have hcq : components (spell q) = [] :: q := components_spell hne fun c hc => (hq c hc).2
  have hslash : spell q ≠ ['/'] := by
    intro h
    rw [h] at hcq
    have : q = [[]] :=
      (cons.inj (hcq.symm.trans (show components ['/'] = [[], []] by decide))).2
    exact (hq [] (by simp [this])).1 rfl
  constructor
  · rintro (h | h)
    · have := components_eq_of_spell_eq hp h hslash
      rw [hcq] at this
      exact (cons.inj this).2 ▸ prefix_refl _
    · obtain ⟨t, ht⟩ := isPrefixOf_iff_prefix.mp h
      rw [append_assoc, singleton_append] at ht
      have hlen : spell q ++ '/' :: t ≠ ['/'] := by
        intro hlen
        have hempty : spell q = [] := by
          have := congrArg length hlen
          simp only [length_append, length_cons, length_nil] at this
          exact eq_nil_of_length_eq_zero (by omega)
        rw [spell] at hempty
        obtain ⟨c, q, rfl⟩ := exists_cons_of_ne_nil hne
        simp at hempty
      have := components_eq_of_spell_eq hp ht.symm hlen
      rw [components_append_slash, hcq] at this
      exact ⟨_, (cons.inj this).2⟩
  · rintro ⟨r, rfl⟩
    by_cases hr : r = []
    · exact .inl (by rw [hr, append_nil])
    refine .inr ( isPrefixOf_iff_prefix.mpr ?_)
    obtain ⟨c, r, rfl⟩ := exists_cons_of_ne_nil hr
    rw [spell, if_neg hne, spell]
    exact ⟨c ++ r.flatMap fun c => '/' :: c, by simp⟩

end Text
