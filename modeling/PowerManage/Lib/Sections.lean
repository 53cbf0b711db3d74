import PowerManage.Lib.Text

/-!
# Texts in sections

A text is lines, and a line that is `[name]`, up to the white space around it, opens the section of
that name.  `labelled` says of each line which section it is in, and `headers` lists the sections in
their order.  `OnlyNamed n` compares two such orders: the sections `n` aside, they are the same, and
of the sections `n` some have come or some have gone, but none has moved.
-/

namespace Sections

open PathName List

abbrev Line := Str

def lines (s : Str) : List Line := s.splitOn '\n'

def join (ls : List Line) : Str := ['\n'].intercalate ls

def header (name : Str) : Line := '[' :: (name ++ [']'])

def bracket (l : Line) : Bool := (trimSpace l).head? = some '['

def headerName (l : Line) : Option Str :=
  match trimSpace l with
  | '[' :: s => if s.getLast? = some ']' then some s.dropLast else none
  | _ => none

def headers (ls : List Line) : List Str := ls.filterMap headerName

/-- The lines with the sections they are in, after a line of the section `cur`. -/
def labelled : Option Str → List Line → List (Option Str × Line)
  | _, [] => []
  | cur, l :: ls => ((headerName l).or cur, l) :: labelled ((headerName l).or cur) ls

def others (name : Str) (cur : Option Str) (ls : List Line) :
    List (Option Str × Line) :=
  (labelled cur ls).filter fun x => x.1 ≠ some name

/-- Only sections of this name have been added, or only some have been removed. -/
def OnlyNamed (name : Str) (h h' : List Str) : Prop :=
  h'.filter (· ≠ name) = h.filter (· ≠ name) ∧ (h.Sublist h' ∨ h'.Sublist h)

variable {name : Str} {l : Line} {ls : List Line} {h : List Str}

/-! ## Lines -/

theorem join_lines (s : Str) : join (lines s) = s := intercalate_splitOn '\n'

theorem lines_join (hls : ∀ l ∈ ls, '\n' ∉ l) (hne : ls ≠ []) : lines (join ls) = ls :=
  splitOn_intercalate '\n' hls hne

variable {s : Str}

theorem notMem_of_mem_lines (h : l ∈ lines s) : '\n' ∉ l :=
  Text.notMem_of_mem_splitOn h

theorem lines_of_notMem (h : '\n' ∉ l) : lines l = [l] := by
  have hjoin := lines_join (forall_mem_singleton.mpr h) (cons_ne_nil _ _)
  rwa [join, intercalate_singleton] at hjoin

theorem lines_append (s t : Str) : lines (s ++ '\n' :: t) = lines s ++ lines t :=
  splitOnP_append_cons s t (by decide)

def unlines (ls : List Line) : Str := ls.flatMap (· ++ ['\n'])

@[simp] theorem unlines_nil : unlines [] = [] := rfl

@[simp] theorem unlines_cons (l : Line) (ls : List Line) :
    unlines (l :: ls) = l ++ '\n' :: unlines ls := by
  simp [unlines]

theorem unlines_append (ls ls' : List Line) : unlines (ls ++ ls') = unlines ls ++ unlines ls' :=
  flatMap_append

theorem join_concat_nil (ls : List Line) : join (ls ++ [[]]) = unlines ls := by
  induction ls with
  | nil => rfl
  | cons l ls ih =>
    rw [unlines_cons, ← ih, join, join]
    cases ls <;> simp [intercalate_cons_cons]

theorem lines_unlines (h : ∀ l ∈ ls, '\n' ∉ l) : lines (unlines ls) = ls ++ [[]] := by
  induction ls with
  | nil => rfl
  | cons l ls ih =>
    rw [forall_mem_cons] at h
    rw [unlines_cons, lines_append, lines_of_notMem h.1, ih h.2, singleton_append,
      cons_append]

/-! ## Lines of a file -/

def fileLines (s : Str) : List Line :=
  if (lines s).getLast? = some [] then (lines s).dropLast else lines s

theorem fileLines_unlines (h : ∀ l ∈ ls, '\n' ∉ l) : fileLines (unlines ls) = ls := by
  rw [fileLines, lines_unlines h, getLast?_concat, if_pos rfl, dropLast_concat]

theorem notMem_of_mem_fileLines (h : l ∈ fileLines s) : '\n' ∉ l := by
  rw [fileLines] at h
  split_ifs at h
  · exact notMem_of_mem_lines (mem_of_mem_dropLast h)
  · exact notMem_of_mem_lines h

def dropCR (l : Line) : Line := if l.getLast? = some '\r' then l.dropLast else l

def byteCount (s : Str) : Nat := (s.map Char.utf8Size).sum

/-- The size of a scanner's buffer, which has to hold a line with its end. -/
def maxScanTokenSize : Nat := 65536

def fits (l : Line) : Bool := byteCount l < maxScanTokenSize

/-- What a scanner reads: the lines before the first one that does not fit its buffer. -/
def scanLines (s : Str) : List Line := ((fileLines s).takeWhile fits).map dropCR

theorem byteCount_dropCR (l : Line) : byteCount (dropCR l) ≤ byteCount l := by
  rw [dropCR]
  split_ifs with hlast
  · obtain ⟨t, rfl⟩ := getLast?_eq_some_iff.mp hlast
    simp [byteCount]
  · exact le_refl _

theorem fits_of_mem_scanLines (h : l ∈ scanLines s) : fits l = true := by
  obtain ⟨x, hx, rfl⟩ := mem_map.mp h
  have hfits : fits x = true := mem_takeWhile_imp hx
  exact decide_eq_true ((byteCount_dropCR x).trans_lt (of_decide_eq_true hfits))

theorem notMem_of_mem_scanLines (h : l ∈ scanLines s) : '\n' ∉ l := by
  obtain ⟨x, hx, rfl⟩ := mem_map.mp h
  have hnot := notMem_of_mem_fileLines ((takeWhile_sublist _).subset hx)
  rw [dropCR]
  split_ifs
  · exact fun hmem => hnot (mem_of_mem_dropLast hmem)
  · exact hnot

/-! ## Headers -/

theorem headerName_eq_some_iff : headerName l = some name ↔ trimSpace l = header name := by
  unfold headerName header
  constructor
  · intro hname
    split at hname
    · rename_i s heq
      split_ifs at hname with hlast
      cases hname
      obtain ⟨t, rfl⟩ := getLast?_eq_some_iff.mp hlast
      rw [heq, dropLast_concat]
    · cases hname
  · intro htrim
    rw [htrim]
    simp

@[simp] theorem headerName_header (name : Str) : headerName (header name) = some name := by
  refine headerName_eq_some_iff.mpr (Text.trimSpace_eq_self_iff.mpr ⟨?_, ?_⟩)
  · intro c hc
    cases hc
    decide
  · intro c hc
    rw [header, ← cons_append, getLast?_concat] at hc
    cases hc
    decide

theorem bracket_of_headerName (h : headerName l = some name) : bracket l = true := by
  rw [bracket, headerName_eq_some_iff.mp h]
  rfl

theorem headerName_of_not_bracket (h : bracket l = false) : headerName l = none := by
  cases hname : headerName l with
  | none => rfl
  | some n =>
    rw [bracket_of_headerName hname] at h
    cases h

theorem isInfix_of_mem_headers (hname : '\n' ∉ name) (h : name ∈ headers (lines s)) :
    header name <:+: s := by
  obtain ⟨l, hl, hheader⟩ := mem_filterMap.mp h
  have hwithin : header name <:+: l := by
    rw [← headerName_eq_some_iff.mp hheader]
    exact ( rdropWhile_prefix ..).isInfix.trans (dropWhile_suffix _).isInfix
  have hnewline : '\n' ∉ header name := by simpa [header] using hname
  have hjoin := (Text.isInfix_intercalate (cons_ne_nil _ _) hnewline).mpr ⟨l, hl, hwithin⟩
  rwa [← join, join_lines] at hjoin

theorem bracket_cons {c : Char} (hc : isSpace c = false) (s : Str) :
    bracket (c :: s) = decide (c = '[') := by
  rw [bracket, trimSpace, dropWhile_cons_of_neg (by simp [hc]), Text.rdropWhile_cons_of_neg hc]
  simp

theorem headers_append (ls ls' : List Line) : headers (ls ++ ls') = headers ls ++ headers ls' :=
  filterMap_append

theorem mem_headers_iff : name ∈ headers ls ↔ ∃ l ∈ ls, headerName l = some name :=
  mem_filterMap

theorem others_cons_none {cur : Option Str} (h : headerName l = none) :
    others name cur (l :: ls) =
      if cur ≠ some name then (cur, l) :: others name cur ls else others name cur ls := by
  rw [others, labelled, h, Option.none_or, filter_cons, others]
  simp

theorem others_append (name : Str) (cur : Option Str) (ls ls' : List Line) :
    (others name cur ls).Sublist (others name cur (ls ++ ls')) := by
  induction ls generalizing cur with
  | nil => exact nil_sublist _
  | cons l ls ih =>
    simp only [others, cons_append, labelled]
    rw [filter_cons, filter_cons]
    split_ifs
    · exact (ih _).cons_cons _
    · exact ih _

/-! ## Orders of sections -/

theorem onlyNamed_filter (name : Str) (h : List Str) :
    OnlyNamed name h (h.filter (· ≠ name)) :=
  ⟨by simp, .inr filter_sublist⟩

/-- A section that is taken out and put at the end has not moved if it was the last one, or if there
was none. -/
theorem onlyNamed_concat_iff :
    OnlyNamed name h (h.filter (· ≠ name) ++ [name]) ↔ name ∉ h ∨ h.getLast? = some name := by
  have hno : name ∉ h.filter (· ≠ name) := by simp
  constructor
  · rintro ⟨-, hsub | hsub⟩
    · by_cases hmem : name ∈ h
      · obtain ⟨h₁, h₂, rfl, hsub₁, hsub₂⟩ := sublist_append_iff.mp hsub
        have hmem₂ : name ∈ h₂ := by
          refine (mem_append.mp hmem).resolve_left fun hmem₁ => ?_
          exact hno (hsub₁.subset hmem₁)
        rcases sublist_singleton.mp hsub₂ with rfl | rfl
        · cases hmem₂
        · exact .inr (by simp)
      · exact .inl hmem
    · -- all that is not `name` stands before some `name`, so nothing else is after it
      obtain ⟨r₁, r₂, rfl, hsub₁, hsub₂⟩ := append_sublist_iff.mp hsub
      have hlength := (hsub₁.filter (· ≠ name)).length_le
      rw [filter_filter, filter_append, length_append] at hlength
      simp only [Bool.and_self] at hlength
      have hnil : r₂.filter (· ≠ name) = [] := length_eq_zero_iff.mp (by omega)
      have hne : r₂ ≠ [] := by
        rintro rfl
        cases hsub₂
      refine .inr ?_
      rw [getLast?_append_of_ne_nil _ hne, getLast?_eq_some_getLast hne]
      have hlast := filter_eq_nil_iff.mp hnil _ (getLast_mem hne)
      simpa using hlast
  · have hsame : (h.filter (· ≠ name) ++ [name]).filter (· ≠ name) = h.filter (· ≠ name) := by
      simp
    rintro (hmem | hlast)
    · have hself : h.filter (· ≠ name) = h :=
        filter_eq_self.mpr fun n hn => decide_eq_true fun heq => hmem (heq ▸ hn)
      refine ⟨hsame, .inl ?_⟩
      rw [hself]
      exact sublist_append_left ..
    · refine ⟨hsame, .inr ?_⟩
      obtain ⟨g, rfl⟩ := getLast?_eq_some_iff.mp hlast
      simp

end Sections
