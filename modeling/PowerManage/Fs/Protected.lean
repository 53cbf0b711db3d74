import PowerManage.Lib.Clean
import PowerManage.Remote.Paths

/-!
# The protected prefixes, from the text of a path

`IsUnderProtectedPrefix` cleans a path name, makes it absolute, and compares text: with the two
directories that are refused themselves, with each root of a refused subtree, and with each root
followed by a slash.  `Remote.isUnderProtectedPrefix` is its second half, on a path that is clean
already; here is the whole function, from any string and any working directory.

`isUnderProtectedPrefix_iff` says what the text comparison amounts to on components.
-/

namespace PowerManage.Fs

open PathName Text
open Remote (protectedPrefixRoots protectedExactPaths)

/-- What `os.Getwd` returns: an absolute path name, of any spelling. -/
structure WorkDir where
  name : Str
  abs : isAbs name = true

def filepathAbs (getwd : Option WorkDir) (path : Str) : Option Str :=
  if isAbs path then some (clean path) else getwd.map fun wd => clean (wd.name ++ '/' :: path)

/-- The comparisons of `IsUnderProtectedPrefix`. -/
def refuses (clean : Str) : Bool :=
  (protectedExactPaths.any fun e => clean = e.toList) ||
    protectedPrefixRoots.any fun root =>
      clean = root.toList || hasPrefix clean (root.toList ++ ['/'])

/-- `IsUnderProtectedPrefix`; it errs on the side of caution when there is no working directory. -/
def isUnderProtectedPrefix (getwd : Option WorkDir) (path : Str) : Bool :=
  let cleaned := clean path
  if isAbs cleaned then refuses cleaned
  else
    match filepathAbs getwd cleaned with
    | none => true
    | some abs => refuses abs

/-! ## On components -/

def absolute (wd : WorkDir) (path : Str) : Str :=
  if isAbs path then path else wd.name ++ '/' :: path

def resolved (wd : WorkDir) (path : Str) : Path := cleanAbs (absolute wd path)

theorem isAbs_append {s : Str} (hs : isAbs s = true) (t : Str) :
    isAbs (s ++ t) = true := by
  cases s with
  | nil => simp [isAbs] at hs
  | cons x s => simpa [isAbs] using hs

theorem cleanAbs_append_slash (s t : Str) :
    cleanAbs (s ++ '/' :: t) = (components t).foldl push (cleanAbs s) := by
  rw [cleanAbs, components_append_slash, List.foldl_append]
  rfl

theorem isUnderProtectedPrefix_eq (wd : WorkDir) (path : Str) :
    isUnderProtectedPrefix (some wd) path = refuses (spell (resolved wd path)) := by
  unfold isUnderProtectedPrefix resolved absolute
  cases habs : isAbs path with
  | true =>
    rw [clean_abs habs]
    simp only [isAbs_spell, if_true]
  | false =>
    have hrel := isAbs_clean_rel habs
    -- the working directory, a slash and the cleaned name are cleaned once more
    have hjoin : clean (wd.name ++ '/' :: clean path) =
        spell (cleanAbs (wd.name ++ '/' :: path)) := by
      rw [clean_abs (isAbs_append wd.abs _), cleanAbs_append_slash, foldl_push_clean habs,
        ← cleanAbs_append_slash]
    simp only [hrel, Bool.false_eq_true, if_false, filepathAbs, Option.map_some, hjoin]

theorem isUnderProtectedPrefix_abs {path : Str} (h : isAbs path = true)
    (getwd : Option WorkDir) :
    isUnderProtectedPrefix getwd path = Remote.isUnderProtectedPrefix (cleanAbs path) := by
  unfold isUnderProtectedPrefix
  rw [clean_abs h]
  simp only [isAbs_spell]
  rfl

theorem spell_root : ∀ root ∈ protectedPrefixRoots,
    spell (cleanAbs root.toList) = root.toList ∧ cleanAbs root.toList ≠ [] := by
  decide +kernel

theorem spell_eq_exact_iff {p : Path} (hp : ∀ c ∈ p, c ≠ [] ∧ '/' ∉ c) :
    (protectedExactPaths.any fun e => spell p = e.toList) = true ↔ p = [] ∨ p = ["var".toList] := by
  simp only [protectedExactPaths, List.any_cons, List.any_nil, Bool.or_false, Bool.or_eq_true,
    decide_eq_true_eq]
  refine or_congr ⟨?_, ?_⟩ ⟨?_, ?_⟩
  · intro h
    by_contra hne
    have hcs := components_spell hne fun c hc => (hp c hc).2
    rw [h] at hcs
    have : p = [[]] :=
      (List.cons.inj (hcs.symm.trans (show components "/" = [[], []] by decide))).2
    exact (hp [] (by simp [this])).1 rfl
  · rintro rfl
    rfl
  · intro h
    have hcs := components_eq_of_spell_eq hp h (by decide)
    exact (List.cons.inj (hcs.symm.trans
      (show components "/var" = [[], "var"] by decide))).2
  · rintro rfl
    rfl

theorem refuses_spell_iff {p : Path} (hp : ∀ c ∈ p, c ≠ [] ∧ '/' ∉ c) :
    refuses (spell p) = true ↔
      p = [] ∨ p = ["var".toList] ∨
        ∃ root ∈ protectedPrefixRoots, cleanAbs root.toList <+: p := by
  rw [refuses, Bool.or_eq_true, spell_eq_exact_iff hp, List.any_eq_true, or_assoc]
  refine or_congr Iff.rfl (or_congr Iff.rfl ?_)
  refine exists_congr fun root => and_congr_right fun hroot => ?_
  obtain ⟨htext, hne⟩ := spell_root root hroot
  rw [Bool.or_eq_true, decide_eq_true_eq, ← htext]
  refine (spell_eq_or_hasPrefix_iff hp (fun c hc => ?_) hne).trans ?_
  · exact ⟨(proper_of_mem_cleanAbs c hc).1, slash_not_mem_of_mem_cleanAbs c hc⟩
  · rw [htext]

/-- A name that only starts with the letters of another is no component of the same place. -/
theorem not_prefix_of_sibling {init : Path} {last more : Name} (hmore : more ≠ []) (rest : Path) :
    ¬init ++ [last] <+: init ++ (last ++ more) :: rest := by
  rintro ⟨t, ht⟩
  rw [List.append_assoc, List.append_cancel_left_eq] at ht
  exact hmore (List.self_eq_append_right.mp (List.cons.inj ht).1)

/-- It holds exactly of the root, of `/var`, and of what has the components of a protected root
first: spellings of one path get one answer, and a root does not catch longer names. -/
theorem isUnderProtectedPrefix_iff (wd : WorkDir) (path : Str) :
    (isUnderProtectedPrefix (some wd) path = true ↔
      resolved wd path = [] ∨ resolved wd path = ["var".toList] ∨
        ∃ root ∈ protectedPrefixRoots, cleanAbs root.toList <+: resolved wd path) ∧
    (∀ wd' path', resolved wd' path' = resolved wd path →
      isUnderProtectedPrefix (some wd') path' = isUnderProtectedPrefix (some wd) path) ∧
    (∀ root ∈ protectedPrefixRoots, ∀ init last more rest,
      cleanAbs root.toList = init ++ [last] → more ≠ [] →
      resolved wd path = init ++ (last ++ more) :: rest →
      (isUnderProtectedPrefix (some wd) path = true ↔
        resolved wd path = ["var".toList] ∨
          ∃ other ∈ protectedPrefixRoots, other ≠ root ∧
            cleanAbs other.toList <+: resolved wd path)) := by
  have hiff : isUnderProtectedPrefix (some wd) path = true ↔
      resolved wd path = [] ∨ resolved wd path = ["var"] ∨
        ∃ root ∈ protectedPrefixRoots, cleanAbs root.toList <+: resolved wd path := by
    rw [isUnderProtectedPrefix_eq]
    exact refuses_spell_iff fun c hc =>
      ⟨(proper_of_mem_cleanAbs c hc).1, slash_not_mem_of_mem_cleanAbs c hc⟩
  refine ⟨hiff, fun wd' path' hsame => ?_, fun root hroot init last more rest hlast hmore hpath => ?_⟩
  · rw [isUnderProtectedPrefix_eq, isUnderProtectedPrefix_eq, hsame]
  · have hnil : resolved wd path ≠ [] := by
      rw [hpath]
      simp
    have hsibling : ¬cleanAbs root.toList <+: resolved wd path := by
      rw [hlast, hpath]
      exact not_prefix_of_sibling hmore rest
    rw [hiff]
    constructor
    · rintro (h | h | ⟨other, hother, h⟩)
      · exact absurd h hnil
      · exact .inl h
      · exact .inr ⟨other, hother, fun heq => hsibling (heq ▸ h), h⟩
    · rintro (h | ⟨other, hother, -, h⟩)
      · exact .inr (.inl h)
      · exact .inr (.inr ⟨other, hother, h⟩)

end PowerManage.Fs
