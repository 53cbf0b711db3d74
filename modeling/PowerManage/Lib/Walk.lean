import PowerManage.Lib.PathName

/-!
# File trees and path resolution

A file tree is a function from clean paths to the node there.  `walk` resolves a list of components
the way the kernel does: directory by directory, `..` from where it stands, symbolic links expanded
in place up to a budget, relative ones from the directory that holds them.

Where a component is missing the walk reports the gap instead of just failing, because callers that
create missing directories go on from there.  A gap inside the expansion of a link (`inLink`) is a
dangling link, and nothing can be created through that.

* `walk_induction` — the induction that the rest is proved by;
* `walk_append` — a walk goes through its prefixes;
* `walk_found_of_le` — what is found is found when more is there, and with a larger budget;
* `walk_concat_gap` — the first missing component, when no link is dangling;
* `walk_named` — components that name nothing can be left out.
-/

namespace FileTree

open PathName List

/-- What a path may lead to. -/
inductive Node
  | file (content : List UInt8)
  /-- A directory, and whether its entries may be looked up. -/
  | dir (search : Bool)
  | link (target : Str)
deriving DecidableEq

abbrev Tree := Path → Option Node

def treeOf (entries : List (String × Node)) : Tree := fun p =>
  (entries.find? fun e => cleanAbs e.1.toList = p).map Prod.snd

/-- How a walk fails. -/
inductive Errno
  | notDir
  | access
  | loop
deriving DecidableEq

/-- How a walk ends. -/
inductive Walked
  | found (p : Path)
  /-- `p` is the first missing one, with `rest` still to walk. -/
  | gap (p : Path) (rest : List Name) (inLink : Bool)
  | fail (e : Errno)
deriving DecidableEq

/-- What one component comes to. -/
inductive Look
  | go (p : Path)
  | missing
  | follow (target : Str)
  | stop (e : Errno)
deriving DecidableEq

/-- One component, from a directory. -/
def look (t : Tree) (cur : Path) (c : Name) : Look :=
  match t cur with
  | some (.dir search) =>
    if c = [] then .go cur
    else if search = false then .stop .access
    else if c = dot then .go cur
    else if c = dotDot then .go cur.dropLast
    else
      match t (cur ++ [c]) with
      | none => .missing
      | some (.link target) => .follow target
      | some _ => .go (cur ++ [c])
  | _ => .stop .notDir

/-- A walk up to the first link, which is left to `onLink`.  The first `k` components come from the
expansion of a link. -/
def walkSeg (t : Tree) (onLink : Nat → Path → List Name → Walked) :
    Nat → Path → List Name → Walked
  | _, cur, [] => .found cur
  | k, cur, c :: rest =>
    match look t cur c with
    | .go p => walkSeg t onLink (k - 1) p rest
    | .missing => .gap (cur ++ [c]) rest (decide (0 < k))
    | .follow target =>
      onLink (k - 1 + (components target).length) (if isAbs target then [] else cur)
        (components target ++ rest)
    | .stop e => .fail e

def walk (t : Tree) : Nat → Nat → Path → List Name → Walked
  | 0 => walkSeg t fun _ _ _ => .fail .loop
  | b + 1 => walkSeg t (walk t b)

/-! ## One component -/

variable {t u : Tree} {b k : Nat} {cur p q d : Path} {c : Name} {cs ds r rest : List Name}
  {target : Str} {e : Errno} {l : Bool}

theorem walk_nil (b k : Nat) (cur : Path) : walk t b k cur [] = .found cur := by
  cases b <;> rfl

theorem walk_go (h : look t cur c = .go p) :
    walk t b k cur (c :: rest) = walk t b (k - 1) p rest := by
  cases b <;> rw [walk, walkSeg, h]

theorem walk_missing (h : look t cur c = .missing) :
    walk t b k cur (c :: rest) = .gap (cur ++ [c]) rest (decide (0 < k)) := by
  cases b <;> rw [walk, walkSeg, h]

theorem walk_stop (h : look t cur c = .stop e) : walk t b k cur (c :: rest) = .fail e := by
  cases b <;> rw [walk, walkSeg, h]

theorem walk_loop (h : look t cur c = .follow target) :
    walk t 0 k cur (c :: rest) = .fail .loop := by rw [walk, walkSeg, h]

theorem walk_follow (h : look t cur c = .follow target) :
    walk t (b + 1) k cur (c :: rest) =
      walk t b (k - 1 + (components target).length) (if isAbs target then [] else cur)
        (components target ++ rest) := by rw [walk, walkSeg, h]

/-- A walk goes on component by component, and into the links that its budget allows. -/
@[elab_as_elim]
theorem walk_induction {motive : Nat → Nat → Path → List Name → Prop}
    (nil : ∀ b k cur, motive b k cur [])
    (go : ∀ b k cur c rest p, look t cur c = .go p → motive b (k - 1) p rest →
      motive b k cur (c :: rest))
    (missing : ∀ b k cur c rest, look t cur c = .missing → motive b k cur (c :: rest))
    (stop : ∀ b k cur c rest e, look t cur c = .stop e → motive b k cur (c :: rest))
    (loop : ∀ k cur c rest target, look t cur c = .follow target → motive 0 k cur (c :: rest))
    (follow : ∀ b k cur c rest target, look t cur c = .follow target →
      motive b (k - 1 + (components target).length) (if isAbs target then [] else cur)
        (components target ++ rest) → motive (b + 1) k cur (c :: rest))
    (b k : Nat) (cur : Path) (cs : List Name) : motive b k cur cs := by
  have hseg : ∀ b, (∀ k cur c rest target, look t cur c = .follow target →
      motive b k cur (c :: rest)) → ∀ k cur cs, motive b k cur cs := by
    intro b hlink k cur cs
    induction cs generalizing k cur with
    | nil => exact nil ..
    | cons c rest ih =>
      cases hl : look t cur c with
      | go p => exact go _ _ _ _ _ _ hl (ih ..)
      | missing => exact missing _ _ _ _ _ hl
      | follow target => exact hlink _ _ _ _ _ hl
      | stop e => exact stop _ _ _ _ _ _ hl
  induction b generalizing k cur cs with
  | zero => exact hseg 0 loop k cur cs
  | succ b ih =>
    exact hseg (b + 1) (fun _ _ _ _ _ hl => follow _ _ _ _ _ _ hl (ih ..)) k cur cs

/-! ## A walk and a longer one -/

def Walked.Extends (t : Tree) (k : Nat) (longer : List Name → Walked) : Walked → Prop
  | .found q => ∃ b, ∀ ds, longer ds = walk t b k q ds
  | .gap q r l => ∀ ds, longer ds = .gap q (r ++ ds) l
  | .fail e => ∀ ds, longer ds = .fail e

theorem walk_append (t : Tree) (b k : Nat) (cur : Path) (cs : List Name) :
    (walk t b k cur cs).Extends t (k - cs.length) fun ds => walk t b k cur (cs ++ ds) := by
  induction b, k, cur, cs using walk_induction (t := t) with
  | nil b k cur =>
    rw [walk_nil]
    exact ⟨b, fun ds => rfl⟩
  | go b k cur c rest p hl ih =>
    have hlen : k - (c :: rest).length = k - 1 - rest.length := by
      rw [length_cons]
      omega
    simp only [cons_append, walk_go hl, hlen]
    exact ih
  | missing b k cur c rest hl =>
    simp only [cons_append, walk_missing hl]
    exact fun ds => rfl
  | stop b k cur c rest e hl =>
    simp only [cons_append, walk_stop hl]
    exact fun ds => rfl
  | loop k cur c rest target hl =>
    simp only [cons_append, walk_loop hl]
    exact fun ds => rfl
  | follow b k cur c rest target hl ih =>
    have hlen : k - 1 + (components target).length - (components target ++ rest).length =
        k - (c :: rest).length := by
      rw [length_append, length_cons]
      omega
    simp only [cons_append, walk_follow hl]
    simpa only [hlen, append_assoc] using ih

theorem walk_append_fail (ds : List Name) (h : walk t b k cur cs = .fail e) :
    walk t b k cur (cs ++ ds) = .fail e := by
  have hall := walk_append t b k cur cs
  rw [h] at hall
  exact hall ds

theorem walk_append_gap (ds : List Name) (h : walk t b k cur cs = .gap q r l) :
    walk t b k cur (cs ++ ds) = .gap q (r ++ ds) l := by
  have hall := walk_append t b k cur cs
  rw [h] at hall
  exact hall ds

theorem walk_append_found (h : walk t b k cur cs = .found q) :
    ∃ b', ∀ ds, walk t b k cur (cs ++ ds) = walk t b' (k - cs.length) q ds := by
  have hall := walk_append t b k cur cs
  rw [h] at hall
  exact hall

theorem walk_gap_length (h : walk t b k cur cs = .gap q r false) :
    r.length + 1 + k ≤ cs.length := by
  induction b, k, cur, cs using walk_induction (t := t) with
  | nil b k cur => rw [walk_nil] at h; cases h
  | go b k cur c rest p hl ih =>
    rw [walk_go hl] at h
    have := ih h
    rw [length_cons]
    omega
  | missing b k cur c rest hl =>
    rw [walk_missing hl, Walked.gap.injEq, decide_eq_false_iff_not] at h
    rw [length_cons, ← h.2.1]
    omega
  | stop b k cur c rest e hl => rw [walk_stop hl] at h; cases h
  | loop k cur c rest target hl => rw [walk_loop hl] at h; cases h
  | follow b k cur c rest target hl ih =>
    rw [walk_follow hl] at h
    have := ih h
    rw [length_append] at this
    rw [length_cons]
    omega

theorem walk_singleton_gap (h : walk t b 0 cur [c] = .gap q r false) :
    q = cur ++ [c] ∧ r = [] := by
  cases hl : look t cur c with
  | go p => rw [walk_go hl, walk_nil] at h; cases h
  | missing =>
    rw [walk_missing hl] at h
    cases h
    exact ⟨rfl, rfl⟩
  | follow target =>
    cases b with
    | zero => rw [walk_loop hl] at h; cases h
    | succ b =>
      rw [walk_follow hl] at h
      have := walk_gap_length h
      rw [append_nil] at this
      omega
  | stop e => rw [walk_stop hl] at h; cases h

/-- The component after which a walk stops getting through, when it is not a dangling link. -/
theorem walk_concat_gap {q' : Path} (hat : walk t b 0 cur cs = .found q)
    (hgap : walk t b 0 cur (cs ++ [c]) = .gap q' r false) : q' = q ++ [c] ∧ r = [] := by
  obtain ⟨b', hb'⟩ := walk_append_found hat
  rw [hb', Nat.zero_sub] at hgap
  exact walk_singleton_gap hgap

/-! ## Trees that grow -/

theorem look_go_of_extends (hext : ∀ q n, t q = some n → u q = some n)
    (h : look t cur c = .go p) : look u cur c = .go p := by
  unfold look at h ⊢
  split at h
  · rename_i search hcur
    rw [hext _ _ hcur]
    simp only
    split_ifs at h ⊢
    · exact h
    · exact h
    · exact h
    split at h
    · cases h
    · cases h
    rename_i n hlink hn
    rw [hext _ _ hn]
    split
    · rename_i heq; cases heq
    · rename_i target heq
      exact (hlink target (Option.some.inj heq)).elim
    · exact h
  · cases h

theorem look_follow_of_extends (hext : ∀ q n, t q = some n → u q = some n)
    (h : look t cur c = .follow target) : look u cur c = .follow target := by
  unfold look at h ⊢
  split at h
  · rename_i search hcur
    rw [hext _ _ hcur]
    simp only
    split_ifs at h ⊢
    split at h
    · cases h
    · rename_i target' hn
      rw [hext _ _ hn]
      exact h
    · cases h
  · cases h

/-- What a walk finds it still finds when more is there, and with a larger link budget. -/
theorem walk_found_of_le {b' : Nat} (hext : ∀ q n, t q = some n → u q = some n) (hb : b ≤ b')
    (h : walk t b k cur cs = .found q) : walk u b' k cur cs = .found q := by
  induction b, k, cur, cs using walk_induction (t := t) generalizing b' with
  | nil b k cur =>
    rw [walk_nil] at h ⊢
    exact h
  | go b k cur c rest p hl ih =>
    rw [walk_go hl] at h
    rw [walk_go (look_go_of_extends hext hl)]
    exact ih hb h
  | missing b k cur c rest hl => rw [walk_missing hl] at h; cases h
  | stop b k cur c rest e hl => rw [walk_stop hl] at h; cases h
  | loop k cur c rest target hl => rw [walk_loop hl] at h; cases h
  | follow b k cur c rest target hl ih =>
    obtain ⟨d, rfl⟩ : ∃ d, b' = d + 1 := ⟨b' - 1, by omega⟩
    rw [walk_follow hl] at h
    rw [walk_follow (look_follow_of_extends hext hl)]
    exact ih (Nat.le_of_succ_le_succ hb) h

theorem walk_mono {b' : Nat} (hb : b ≤ b') (h : walk t b k cur cs = .found q) :
    walk t b' k cur cs = .found q :=
  walk_found_of_le (fun _ _ hn => hn) hb h

theorem walk_found_of_extends (hext : ∀ q n, t q = some n → u q = some n)
    (h : walk t b k cur cs = .found q) : walk u b k cur cs = .found q :=
  walk_found_of_le hext le_rfl h

/-! ## Where there are no links -/

/-- Strictly below a directory. -/
def Below (d q : Path) : Prop := ∃ rel, rel ≠ [] ∧ q = d ++ rel

/-- There is no link below the directory. -/
def Plain (t : Tree) (d : Path) : Prop := ∀ q, Below d q → ∀ target, t q ≠ some (.link target)

theorem look_of_plain (h : Plain t d) (v : Path) (hc : Proper c) :
    look t (d ++ v) c = .go (d ++ v ++ [c]) ∨
      (look t (d ++ v) c = .missing ∧ t (d ++ v ++ [c]) = none) ∨
      ∃ e, look t (d ++ v) c = .stop e := by
  unfold look
  split
  · rw [if_neg hc.1]
    split_ifs with hsearch hdot hdots
    · exact .inr (.inr ⟨_, rfl⟩)
    · exact absurd hdot hc.2.1
    · exact absurd hdots hc.2.2
    split
    · rename_i hnone
      exact .inr (.inl ⟨rfl, hnone⟩)
    · rename_i target hlink
      rw [append_assoc] at hlink
      exact absurd hlink (h _ ⟨v ++ [c], by simp, rfl⟩ target)
    · exact .inl rfl
  · exact .inr (.inr ⟨_, rfl⟩)

theorem walk_of_plain_append (h : Plain t d) {rel : List Name} (hrel : ∀ c ∈ rel, Proper c)
    (b k : Nat) (v : Path) :
    walk t b k (d ++ v) rel = .found (d ++ v ++ rel) ∨
      (∃ pre post l, pre ≠ [] ∧ rel = pre ++ post ∧ t (d ++ v ++ pre) = none ∧
        walk t b k (d ++ v) rel = .gap (d ++ v ++ pre) post l) ∨
      ∃ e, walk t b k (d ++ v) rel = .fail e := by
  induction rel generalizing k v with
  | nil => exact .inl (by rw [walk_nil, append_nil])
  | cons c rel ih =>
    obtain ⟨hc, hrel⟩ := forall_mem_cons.mp hrel
    rcases look_of_plain h v hc with hl | ⟨hl, hnone⟩ | ⟨e, hl⟩
    · rw [walk_go hl]
      have hcons : ∀ w, d ++ v ++ [c] ++ w = d ++ v ++ c :: w := by simp
      have hrest := ih hrel (k - 1) (v ++ [c])
      simp only [← append_assoc d v [c], hcons] at hrest
      rcases hrest with hfound | ⟨pre, post, l, -, rfl, hnone, hgap⟩ | hfail
      · exact .inl hfound
      · exact .inr (.inl ⟨c :: pre, post, l, by simp, rfl, hnone, hgap⟩)
      · exact .inr (.inr hfail)
    · exact .inr (.inl ⟨[c], rel, decide (0 < k), by simp, rfl, hnone, walk_missing hl⟩)
    · exact .inr (.inr ⟨e, walk_stop hl⟩)

/-- From a directory without links below it, names lead where they say. -/
theorem walk_of_plain (h : Plain t d) {rel : List Name} (hrel : ∀ c ∈ rel, Proper c) (b k : Nat) :
    walk t b k d rel = .found (d ++ rel) ∨
      (∃ pre post l, pre ≠ [] ∧ rel = pre ++ post ∧ t (d ++ pre) = none ∧
        walk t b k d rel = .gap (d ++ pre) post l) ∨
      ∃ e, walk t b k d rel = .fail e := by
  have hall := walk_of_plain_append h hrel b k []
  rwa [append_nil] at hall

theorem exists_found_of_append (h : walk t b k cur (cs ++ ds) = .found q) :
    ∃ p, walk t b k cur cs = .found p := by
  cases hw : walk t b k cur cs with
  | found p => exact ⟨p, rfl⟩
  | gap p r l => rw [walk_append_gap ds hw] at h; cases h
  | fail e => rw [walk_append_fail ds hw] at h; cases h

theorem ne_none_of_found_concat (hp : walk t b k cur cs = .found p)
    (h : walk t b k cur (cs ++ [c]) = .found q) (hc : Proper c) : t (p ++ [c]) ≠ none := by
  intro hnone
  obtain ⟨b', hb'⟩ := walk_append_found hp
  have hlook : look t p c = .missing ∨ ∃ e, look t p c = .stop e := by
    unfold look
    split
    · rw [if_neg hc.1]
      split_ifs with hsearch hdot hdots
      · exact .inr ⟨_, rfl⟩
      · exact absurd hdot hc.2.1
      · exact absurd hdots hc.2.2
      · rw [hnone]
        exact .inl rfl
    · exact .inr ⟨_, rfl⟩
  rcases hlook with hl | ⟨e, hl⟩
  · rw [hb', walk_missing hl] at h; cases h
  · rw [hb', walk_stop hl] at h; cases h

theorem walk_concat_found (hp : walk t b k cur cs = .found p) (hc : look t p c = .go q) :
    walk t b k cur (cs ++ [c]) = .found q := by
  obtain ⟨b', hb'⟩ := walk_append_found hp
  rw [hb', walk_go hc, walk_nil]

theorem look_entry {n : Node} (hp : t p = some (.dir true)) (hc : Proper c)
    (hn : t (p ++ [c]) = some n) (hlink : ∀ target, n ≠ .link target) :
    look t p c = .go (p ++ [c]) := by
  rw [look, hp]
  dsimp only
  rw [if_neg hc.1, if_neg hc.2.1, if_neg hc.2.2, hn]
  cases n with
  | file content => rfl
  | dir search => rfl
  | link target => exact absurd rfl (hlink target)

/-! ## Components that name nothing -/

def named (cs : List Name) : List Name := cs.filter fun c => decide (Proper c)

theorem named_cons (hc : Proper c) : named (c :: cs) = c :: named cs :=
  filter_cons_of_pos (by simpa using hc)

theorem named_cons_trivial (hc : c = [] ∨ c = dot) : named (c :: cs) = named cs := by
  refine filter_cons_of_neg ?_
  rw [decide_eq_true_eq]
  rintro ⟨hnil, hdot, -⟩
  exact hc.elim hnil hdot

/-- What a walk finds with some of its components left out. -/
structure SameWalk (w w' : Walked) : Prop where
  found_eq : ∀ q, w = .found q → w' = .found q
  gap_eq : ∀ q r, w = .gap q r false → w' = .gap q (named r) false

theorem sameWalk_fail (e : Errno) (w : Walked) : SameWalk (.fail e) w := ⟨by simp, by simp⟩

theorem look_trivial (t : Tree) (cur : Path) (hc : c = [] ∨ c = dot) :
    look t cur c = .go cur ∨ ∃ e, look t cur c = .stop e := by
  unfold look
  split
  · split
    · exact .inl rfl
    · split
      · exact .inr ⟨_, rfl⟩
      · rename_i hnil _
        exact .inl (if_pos (hc.resolve_left hnil))
  · exact .inr ⟨_, rfl⟩

theorem named_cons_of_look (hl : look t cur c = .missing ∨ ∃ target, look t cur c = .follow target)
    (hc : dotDot ≠ c) : named (c :: cs) = c :: named cs := by
  have hproper : ¬ (c = [] ∨ c = dot) := by
    intro htriv
    rcases look_trivial t cur htriv with h | ⟨e, h⟩ <;> simp [h] at hl
  rw [not_or] at hproper
  exact named_cons ⟨hproper.1, hproper.2, hc.symm⟩

/-- Empty components and dots can be left out of a walk, but for those of links. -/
theorem walk_take_named (hk : k ≤ cs.length) (h : dotDot ∉ cs.drop k) :
    SameWalk (walk t b k cur cs) (walk t b k cur (cs.take k ++ named (cs.drop k))) := by
  induction b, k, cur, cs using walk_induction (t := t) with
  | nil b k cur =>
    rw [take_nil, drop_nil]
    exact ⟨fun _ h => h, by simp [walk_nil]⟩
  | go b k cur c rest p hl ih =>
    cases k with
    | zero =>
      rw [drop_zero, mem_cons, not_or] at h
      by_cases hc : c = [] ∨ c = dot
      · have hp : p = cur := by
          rcases look_trivial t cur hc with hl' | ⟨e, hl'⟩ <;> rw [hl] at hl' <;> cases hl'
          rfl
        rw [walk_go hl, drop_zero, named_cons_trivial hc]
        exact hp ▸ ih (Nat.zero_le _) h.2
      · rw [not_or] at hc
        rw [walk_go hl, take_zero, nil_append, drop_zero, named_cons ⟨hc.1, hc.2, Ne.symm h.1⟩,
          walk_go hl]
        exact ih (Nat.zero_le _) h.2
    | succ k =>
      rw [walk_go hl, take_succ_cons, cons_append, walk_go hl]
      exact ih (Nat.le_of_succ_le_succ hk) h
  | missing b k cur c rest hl =>
    cases k with
    | zero =>
      rw [drop_zero, mem_cons, not_or] at h
      rw [take_zero, nil_append, drop_zero, named_cons_of_look (.inl hl) h.1,
        walk_missing hl, walk_missing hl]
      exact ⟨by simp, fun q r h => by cases h; rfl⟩
    | succ k =>
      rw [walk_missing hl]
      exact ⟨by simp, by simp⟩
  | stop b k cur c rest e hl =>
    rw [walk_stop hl]
    exact sameWalk_fail ..
  | loop k cur c rest target hl =>
    rw [walk_loop hl]
    exact sameWalk_fail ..
  | follow b k cur c rest target hl ih =>
    cases k with
    | zero =>
      rw [drop_zero, mem_cons, not_or] at h
      rw [take_zero, nil_append, drop_zero, named_cons_of_look (.inr ⟨_, hl⟩) h.1,
        walk_follow hl, walk_follow hl]
      rw [Nat.zero_add] at ih ⊢
      rw [take_left, drop_left] at ih
      exact ih (by simp) h.2
    | succ k =>
      rw [walk_follow hl, take_succ_cons, drop_succ_cons, cons_append, walk_follow hl,
        ← append_assoc]
      rw [add_comm, take_length_add_append, drop_length_add_append] at ih
      rw [add_comm]
      refine ih ?_ h
      rw [length_append]
      exact Nat.add_le_add_left (Nat.le_of_succ_le_succ hk) _

theorem walk_named (h : dotDot ∉ cs) :
    SameWalk (walk t b 0 cur cs) (walk t b 0 cur (named cs)) :=
  walk_take_named (Nat.zero_le _) h

end FileTree
