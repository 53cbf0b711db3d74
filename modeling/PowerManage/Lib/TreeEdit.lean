import PowerManage.Lib.Walk

/-!
# Editing file trees

Writing a file, making directories, removing and moving whole subtrees, each as a function on trees,
and for each the part of the tree it leaves alone: `below t d` is the tree at `d`, and an edit at a
path that is neither above nor below `d` (`Apart`) does not change it.

Paths here are clean and lead through no links: they say where an entry is, not how it is named.
-/

namespace FileTree

open PathName List Function

def below (t : Tree) (p : Path) : Tree := fun q => t (p ++ q)

def put (t : Tree) (p : Path) (n : Node) : Tree := Function.update t p (some n)

/-- The tree without those of the entries at and below `p` that are `gone`. -/
def erase (t : Tree) (p : Path) (gone : Path → Bool) : Tree := fun q =>
  if p <+: q ∧ gone q then none else t q

def graft (t : Tree) (p : Path) (u : Tree) : Tree := fun q =>
  if p <+: q then u (q.drop p.length) else t q

/-- `p` moved to `q`, in place of what was there. -/
def rename (t : Tree) (p q : Path) : Tree := graft (erase t p fun _ => true) q (below t p)

def canBeDir : Option Node → Bool
  | none | some (.dir _) => true
  | _ => false

/-- The tree with a directory at `p` and above it where nothing is, unless something else is in
the way. -/
def mkdirAll (t : Tree) (p : Path) : Option Tree :=
  if ∀ q ∈ p.inits, canBeDir (t q) then
    some fun q => if q <+: p ∧ t q = none then some (.dir true) else t q
  else none

/-! ## Where an edit does not reach -/

/-- Neither path is at or above the other. -/
def Apart (p q : Path) : Prop := ¬p <+: q ∧ ¬q <+: p

theorem Apart.symm {p q : Path} (h : Apart p q) : Apart q p := ⟨h.2, h.1⟩

theorem Apart.ne {p q : Path} (h : Apart p q) : p ≠ q := by
  rintro rfl
  exact h.1 prefix_rfl

theorem Apart.not_prefix_append {p d : Path} (h : Apart p d) (r : Path) : ¬p <+: d ++ r := by
  intro hp
  rcases prefix_or_prefix_of_prefix hp (prefix_append d r) with h' | h'
  · exact h.1 h'
  · exact h.2 h'

/-- What is below `p` is apart from everything `p` is apart from. -/
theorem Apart.of_prefix {p q d : Path} (h : Apart p d) (hq : p <+: q) : Apart q d := by
  refine ⟨fun hqd => h.1 (hq.trans hqd), fun hdq => ?_⟩
  rcases prefix_or_prefix_of_prefix hq hdq with hpd | hdp
  · exact h.1 hpd
  · exact h.2 hdp

theorem Apart.not_prefix_dropLast {p d : Path} (h : Apart p d) : ¬d <+: p.dropLast :=
  fun hd => h.2 (hd.trans ( dropLast_prefix p))

theorem apart_of_ne {dir : Path} {m n : Name} (h : m ≠ n) : Apart (dir ++ [m]) (dir ++ [n]) := by
  have hne : ∀ {a b : Name}, dir ++ [a] <+: dir ++ [b] → a = b := by
    intro a b hab
    have := hab.eq_of_length (by simp)
    simpa using this
  exact ⟨fun hp => h (hne hp), fun hp => h (hne hp).symm⟩

variable {n : Node}

section

variable {t u : Tree} {p q d : Path}

theorem below_put (h : ¬d <+: p) : below (put t p n) d = below t d := by
  funext r
  rw [below, below, put, update_of_ne]
  intro hr
  exact h (hr ▸ prefix_append d r)

theorem below_erase {gone : Path → Bool} (h : Apart p d) : below (erase t p gone) d = below t d := by
  funext r
  rw [below, below, erase, if_neg fun hr => h.not_prefix_append r hr.1]

theorem below_graft (h : Apart p d) : below (graft t p u) d = below t d := by
  funext r
  rw [below, below, graft, if_neg (h.not_prefix_append r)]

theorem below_graft_self : below (graft t p u) p = u := by
  funext r
  rw [below, graft, if_pos (prefix_append p r), drop_left]

theorem below_rename (hp : Apart p d) (hq : Apart q d) : below (rename t p q) d = below t d :=
  (below_graft hq).trans (below_erase hp)

theorem below_rename_self : below (rename t p q) q = below t p := below_graft_self

theorem below_mkdirAll (ht : mkdirAll t p = some u) (h : ¬d <+: p) : below u d = below t d := by
  unfold mkdirAll at ht
  split at ht
  · cases ht
    funext r
    rw [below, below, if_neg]
    rintro ⟨hr, -⟩
    exact h ((prefix_append d r).trans hr)
  · cases ht

/-! ## Directories that are there -/

/-- Every prefix of the path is a directory. -/
def Dirs (t : Tree) (p : Path) : Prop := ∀ q, q <+: p → ∃ w, t q = some (.dir w)

theorem mkdirAll_of_dirs (h : Dirs t p) : mkdirAll t p = some t := by
  rw [mkdirAll, if_pos]
  · congr 1
    funext q
    rw [if_neg]
    rintro ⟨hq, hnone⟩
    obtain ⟨w, hw⟩ := h q hq
    rw [hw] at hnone
    cases hnone
  · intro q hq
    obtain ⟨w, hw⟩ := h q ((mem_inits q p).mp hq)
    rw [hw]
    rfl

theorem mkdirAll_keeps (h : mkdirAll t p = some u) (hq : t q = some n) : u q = some n := by
  unfold mkdirAll at h
  split at h
  · cases h
    dsimp only
    rw [if_neg (by simp [hq]), hq]
  · cases h

theorem dirs_of_mkdirAll (h : mkdirAll t p = some u) : Dirs u p := by
  intro q hq
  unfold mkdirAll at h
  split at h
  · rename_i hcan
    cases h
    have hdir := hcan q ((mem_inits q p).mpr hq)
    dsimp only
    cases hn : t q with
    | none => exact ⟨true, if_pos ⟨hq, rfl⟩⟩
    | some n =>
      rw [hn] at hdir
      cases n with
      | dir w => exact ⟨w, if_neg (by simp)⟩
      | file _ => cases hdir
      | link _ => cases hdir
  · cases h

theorem mkdirAll_concat {n : Name} (h : Dirs t p) (hn : t (p ++ [n]) = none) :
    mkdirAll t (p ++ [n]) = some (put t (p ++ [n]) (.dir true)) := by
  have hdir : ∀ {q}, q <+: p → t q ≠ none := by
    intro q hq hnone
    obtain ⟨w, hw⟩ := h q hq
    rw [hw] at hnone
    cases hnone
  rw [mkdirAll, if_pos]
  · congr 1
    funext q
    by_cases hq : q = p ++ [n]
    · subst hq
      rw [if_pos ⟨prefix_rfl, hn⟩, put, update_self]
    rw [put, update_of_ne hq, if_neg]
    rintro ⟨hpre, hnone⟩
    rcases prefix_concat_iff.mp hpre with heq | hpre
    · exact hq heq
    · exact hdir hpre hnone
  · intro q hq
    rcases prefix_concat_iff.mp ((mem_inits q _).mp hq) with rfl | hpre
    · rw [hn]
      rfl
    · obtain ⟨w, hw⟩ := h q hpre
      rw [hw]
      rfl

theorem Dirs.of_eq (h : Dirs t p) (heq : ∀ q, q <+: p → u q = t q) : Dirs u p := by
  intro q hq
  rw [heq q hq]
  exact h q hq

theorem Dirs.put (h : Dirs t p) (hq : ¬q <+: p) : Dirs (put t q n) p := by
  refine h.of_eq fun r hr => update_of_ne ?_ _ _
  rintro rfl
  exact hq hr

theorem Dirs.graft (h : Dirs t p) (hq : ¬q <+: p) : Dirs (graft t q u) p :=
  h.of_eq fun _ hr => if_neg fun hqr => hq (hqr.trans hr)

theorem Dirs.erase {gone : Path → Bool} (h : Dirs t p) (hq : ¬q <+: p) : Dirs (erase t q gone) p :=
  h.of_eq fun _ hr => if_neg fun hqr => hq (hqr.1.trans hr)

/-! ## Trees whose entries are in directories -/

/-- Whatever is there is in a directory. -/
def Closed (t : Tree) : Prop := ∀ p c, t (p ++ [c]) ≠ none → ∃ w, t p = some (.dir w)

def isDir : Option Node → Bool
  | some (.dir _) => true
  | _ => false

theorem closed_treeOf {entries : List (String × Node)}
    (h : entries.all (fun e => decide (cleanAbs e.1.toList = []) ||
      isDir (treeOf entries (cleanAbs e.1.toList).dropLast)) = true) : Closed (treeOf entries) := by
  intro p c hne
  obtain ⟨n, hn⟩ := Option.ne_none_iff_exists'.mp hne
  obtain ⟨e, he, -⟩ := Option.map_eq_some_iff.mp hn
  have hpath : cleanAbs e.1.toList = p ++ [c] := by
    simpa using find?_some he
  have hdir := all_eq_true.mp h e (mem_of_find?_eq_some he)
  rw [hpath] at hdir
  have hparent : isDir (treeOf entries p) = true := by simpa using hdir
  unfold isDir at hparent
  split at hparent
  · exact ⟨_, by assumption⟩
  · cases hparent

theorem Closed.none_below (h : Closed t) (hp : t p = none) (r : Path) : t (p ++ r) = none := by
  induction r using reverseRecOn with
  | nil => rwa [append_nil]
  | append_singleton r c ih =>
    by_contra hne
    rw [← append_assoc] at hne
    obtain ⟨w, hw⟩ := h _ _ hne
    rw [ih] at hw
    cases hw

theorem Closed.none_of_prefix (h : Closed t) (hp : t p = none) (hq : p <+: q) : t q = none := by
  obtain ⟨r, rfl⟩ := hq
  exact h.none_below hp r

theorem Closed.put {c : Name} {w : Bool} (h : Closed t) (hp : t p = some (.dir w))
    (hc : t (p ++ [c]) = none) : Closed (put t (p ++ [c]) n) := by
  intro q d hne
  have hq : q ≠ p ++ [c] := by
    rintro rfl
    have hself : p ++ [c] ++ [d] ≠ p ++ [c] := by simp
    rw [FileTree.put, update_of_ne hself, h.none_below hc] at hne
    exact hne rfl
  by_cases hqd : q ++ [d] = p ++ [c]
  · obtain ⟨rfl, -⟩ := append_inj' hqd rfl
    exact ⟨w, (update_of_ne hq _ _).trans hp⟩
  · rw [FileTree.put, update_of_ne hqd] at hne
    obtain ⟨w', hw'⟩ := h q d hne
    exact ⟨w', (update_of_ne hq _ _).trans hw'⟩

theorem Closed.erase_of_eq (h : Closed t) (hp : t p = none)
    (heq : ∀ q, ¬p <+: q → u q = t q) : erase u p (fun _ => true) = t := by
  funext q
  by_cases hq : p <+: q
  · rw [erase, if_pos ⟨hq, rfl⟩, h.none_of_prefix hp hq]
  · rw [erase, if_neg fun hpq => hq hpq.1, heq q hq]

end

end FileTree
