import PowerManage.Lib.Str

/-!
# Path names

Strings are lists of characters here, and a *clean absolute path* is the list of its components
(`Path`), root first; the root itself is `[]`.  `cleanAbs` takes an absolute path name to its
components the way lexical path cleaning does — empty components and `.` vanish, `..` takes back the
component before it — and `spell` writes a clean path out again.

Also here are the few string functions path handling needs: `trimSpace`, `hasPrefix`, `trimSuffix`.
-/

namespace PathName

open List

/-! ## Strings -/

def isSpace (c : Char) : Bool :=
  c = '\t' || c = '\n' || c = '\x0b' || c = '\x0c' || c = '\r' || c = ' ' || c = '\u0085' ||
    c = '\u00a0' || c = '\u1680' || (0x2000 ≤ c.toNat && c.toNat ≤ 0x200a) || c = '\u2028' ||
    c = '\u2029' || c = '\u202f' || c = '\u205f' || c = '\u3000'

def trimSpace (s : Str) : Str := (s.dropWhile isSpace).rdropWhile isSpace

def hasPrefix (s pre : Str) : Bool := pre.isPrefixOf s

/-- The string without one occurrence of `suf` at its end. -/
def trimSuffix (s suf : Str) : Str :=
  if suf.isSuffixOf s then s.take (s.length - suf.length) else s

/-! ## Components -/

abbrev Name := Str

abbrev Path := List Name

instance : LawfulBEq Name := inferInstance

def dot : Name := ['.']

def dotDot : Name := ['.', '.']

def isAbs (s : Str) : Bool := s.head? = some '/'

/-- The components of a path name, as they stand: empty ones where slashes meet. -/
def components (s : Str) : List Name := s.splitOn '/'

/-- One component of an absolute path name, on top of the clean path so far. -/
def push (p : Path) (c : Name) : Path :=
  if c = [] ∨ c = dot then p else if c = dotDot then p.dropLast else p ++ [c]

def cleanAbs (s : Str) : Path := (components s).foldl push []

def spell (p : Path) : Str := if p = [] then ['/'] else p.flatMap fun c => '/' :: c

/-- A component that names an entry of a directory. -/
def Proper (c : Name) : Prop := c ≠ [] ∧ c ≠ dot ∧ c ≠ dotDot

instance (c : Name) : Decidable (Proper c) := by unfold Proper; infer_instance

theorem push_proper {c : Name} (hc : Proper c) (p : Path) : push p c = p ++ [c] := by
  rw [push, if_neg (not_or.mpr ⟨hc.1, hc.2.1⟩), if_neg hc.2.2]

theorem push_trivial {c : Name} (hc : c = [] ∨ c = dot) (p : Path) : push p c = p := by
  rw [push, if_pos hc]

/-- Without `..`, cleaning is dropping the components that name nothing. -/
theorem foldl_push_of_noDotDot {cs : List Name} (h : dotDot ∉ cs) (p : Path) :
    cs.foldl push p = p ++ cs.filter (fun c => decide (Proper c)) := by
  induction cs generalizing p with
  | nil => simp
  | cons c cs ih =>
    have hcs : dotDot ∉ cs := fun hc => h (mem_cons_of_mem _ hc)
    rw [foldl_cons, ih hcs]
    by_cases hc : Proper c
    · rw [push_proper hc, filter_cons_of_pos (by simpa using hc), append_assoc]
      rfl
    have htriv : c = [] ∨ c = dot := by
      by_contra hne
      rw [not_or] at hne
      exact hc ⟨hne.1, hne.2, fun hd => h (hd ▸ mem_cons_self ..)⟩
    rw [push_trivial htriv, filter_cons_of_neg (by simpa using hc)]

variable {p : Path}

theorem proper_of_mem_foldl_push {cs : List Name} (hp : ∀ c ∈ p, Proper c) :
    ∀ c ∈ cs.foldl push p, Proper c := by
  induction cs generalizing p with
  | nil => exact hp
  | cons c cs ih =>
    refine ih ?_
    intro d hd
    unfold push at hd
    split at hd
    · exact hp d hd
    split at hd
    · exact hp d ((dropLast_sublist p).subset hd)
    rename_i htriv hdot
    rcases mem_append.mp hd with hd | hd
    · exact hp d hd
    · rw [mem_singleton.mp hd]
      rw [not_or] at htriv
      exact ⟨htriv.1, htriv.2, hdot⟩

theorem proper_of_mem_cleanAbs {s : Str} : ∀ c ∈ cleanAbs s, Proper c :=
  proper_of_mem_foldl_push (by simp)

theorem components_spell (hne : p ≠ []) (hslash : ∀ c ∈ p, '/' ∉ c) :
    components (spell p) = [] :: p := by
  have hjoin : spell p = ['/'].intercalate ([] :: p) := by
    rw [spell, if_neg hne]
    obtain ⟨c, cs, rfl⟩ := exists_cons_of_ne_nil hne
    clear hne hslash
    induction cs generalizing c with
    | nil => simp [intercalate]
    | cons d cs ih =>
      rw [flatMap_cons, ih d]
      simp [intercalate]
  rw [hjoin]
  refine splitOn_intercalate '/' ?_ (by simp)
  intro c hc
  rcases mem_cons.mp hc with rfl | hc
  · simp
  · exact hslash c hc

theorem cleanAbs_spell (hp : ∀ c ∈ p, Proper c ∧ '/' ∉ c) : cleanAbs (spell p) = p := by
  by_cases hne : p = []
  · subst hne
    decide
  have hdots : dotDot ∉ ([] : Name) :: p := by
    intro hmem
    rcases mem_cons.mp hmem with h | h
    · cases h
    · exact (hp _ h).1.2.2 rfl
  rw [cleanAbs, components_spell hne fun c hc => (hp c hc).2, foldl_push_of_noDotDot hdots,
    nil_append, filter_cons_of_neg (by simp [Proper]), filter_eq_self]
  intro c hc
  simpa using (hp c hc).1

end PathName
