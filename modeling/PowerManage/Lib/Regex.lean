import PowerManage.Lib.Str

/-!
# Regular expressions with captures

Matching is by backtracking, alternatives in the order they are written and repetition longest
first (`star p true`) or shortest first (`star p false`): the first way through is the match, which
is the leftmost-first rule of Perl and of Go's `regexp`.  `exec r k s` matches `r` at the start of
`s` and goes on with `k`, which gets the captures and what is left; when `k` fails, the next way is
tried.

A match is computed piece by piece.  A repetition before something that cannot start with its
characters (`Avoids`) has one way to go, so `exec_star_seq` and its like are equations; where there
are several ways, `exec_plus_seq_greedy` and `exec_group_plus_seq_lazy` are for the one that is
taken.  `exists_of_exec` cuts a matched text into the pieces.
-/

/-- Expressions with greedy and lazy repetition of characters. -/
inductive Regex
  | word (w : Str)
  | one (p : Char → Bool)
  | star (p : Char → Bool) (greedy : Bool)
  | seq (a b : Regex)
  | alt (a b : Regex)
  | opt (a : Regex)
  | group (a : Regex)

namespace Regex

open List Option

variable {β : Type}

abbrev Cont (β : Type) := List Str → Str → Option β

def repeated (p : Char → Bool) (greedy : Bool) (k : Str → Option β) : Str → Option β
  | [] => k []
  | c :: s =>
    if !p c then k (c :: s)
    else if greedy then (repeated p greedy k s).or (k (c :: s))
    else (k (c :: s)).or (repeated p greedy k s)

/-- Tries the alternatives in their order, each with the rest of the match. -/
def exec : Regex → Cont β → Str → Option β
  | word w, k, s => if w <+: s then k [] (s.drop w.length) else none
  | one _, _, [] => none
  | one p, k, c :: s => if p c then k [] s else none
  | star p greedy, k, s => repeated p greedy (k []) s
  | seq a b, k, s => exec a (fun caps t => exec b (fun caps' u => k (caps ++ caps') u) t) s
  | alt a b, k, s => (exec a k s).or (exec b k s)
  | opt a, k, s => (exec a k s).or (k [] s)
  | group a, k, s => exec a (fun caps t => k (s.take (s.length - t.length) :: caps) t) s

def fullMatch (r : Regex) (s : Str) : Option (List Str) :=
  exec r (fun caps t => if t = [] then some caps else none) s

def oneOf (w : Str) : List Str → Regex
  | [] => word w
  | w' :: ws => alt (word w) (oneOf w' ws)

def plus (p : Char → Bool) (greedy : Bool) : Regex := seq (one p) (star p greedy)

/-! ## Piece by piece -/

variable {ws : List Str}

section
variable {k : Cont β} {p : Char → Bool} {s t u w : Str} {c : Char} {r : β}

theorem repeated_cons {greedy : Bool} {k : Str → Option β} :
    repeated p greedy k (c :: s) =
      if !p c then k (c :: s)
      else if greedy then (repeated p greedy k s).or (k (c :: s))
      else (k (c :: s)).or (repeated p greedy k s) :=
  rfl

theorem exec_word : exec (word w) k s = if w <+: s then k [] (s.drop w.length) else none := rfl

theorem exec_one : exec (one p) k (c :: s) = if p c then k [] s else none := rfl

theorem exec_star {greedy : Bool} : exec (star p greedy) k s = repeated p greedy (k []) s := rfl

theorem exec_alt (a b : Regex) : exec (alt a b) k s = (exec a k s).or (exec b k s) := rfl

theorem exec_opt (a : Regex) : exec (opt a) k s = (exec a k s).or (k [] s) := rfl

theorem exec_group (a : Regex) :
    exec (group a) k s = exec a (fun caps t => k (s.take (s.length - t.length) :: caps) t) s :=
  rfl

theorem exec_word_append : exec (word w) k (w ++ s) = k [] s := by
  rw [exec_word, if_pos (prefix_append w s), drop_left]

theorem exec_word_of_not_start (h : ¬ w <+: s) : exec (word w) k s = none := by
  rw [exec_word, if_neg h]

theorem exec_word_of_ne {d : Char} (h : c ≠ d) : exec (word (c :: w)) k (d :: s) = none :=
  exec_word_of_not_start fun hpre => h (cons_prefix_cons.mp hpre).1

theorem exec_one_of_pos (h : p c = true) : exec (one p) k (c :: s) = k [] s := by
  rw [exec_one, if_pos h]

theorem exec_one_of_neg (h : p c = false) : exec (one p) k (c :: s) = none := by
  rw [exec_one, if_neg (Bool.eq_false_iff.mp h)]

theorem exec_seq (a b : Regex) :
    exec (seq a b) k s = exec a (fun caps t => exec b (fun caps' u => k (caps ++ caps') u) t) s :=
  rfl

theorem exec_alt_of_none {a b : Regex} (h : exec a k s = none) :
    exec (alt a b) k s = exec b k s := by
  rw [exec_alt, h, none_or]

theorem exec_oneOf_of_not_start (h : ∀ x ∈ w :: ws, ¬ x <+: s) : exec (oneOf w ws) k s = none := by
  induction ws generalizing w with
  | nil => exact exec_word_of_not_start (h w (mem_singleton_self w))
  | cons w' ws ih =>
    obtain ⟨hw, hws⟩ := forall_mem_cons.mp h
    rw [oneOf, exec_alt_of_none (exec_word_of_not_start hw), ih hws]

theorem not_prefix_append {x v : Str} (hne : v ≠ []) (hx : x ≠ [])
    (hhead : x.head? ≠ v.head?) (t : Str) : ¬ x <+: v ++ t := by
  cases x with
  | nil => exact absurd rfl hx
  | cons c x =>
    cases v with
    | nil => exact absurd rfl hne
    | cons d v =>
      intro hpre
      exact hhead (congrArg some (cons_prefix_cons.mp hpre).1)

theorem exec_oneOf {v : Str} (hv : v ∈ w :: ws)
    (hhead : ∀ x ∈ w :: ws, x ≠ [] ∧ (x ≠ v → x.head? ≠ v.head?)) :
    exec (oneOf w ws) k (v ++ t) = k [] t := by
  have hne := (hhead v hv).1
  induction ws generalizing w with
  | nil =>
    rw [mem_singleton.mp hv]
    exact exec_word_append
  | cons w' ws ih =>
    obtain ⟨⟨hw, hdiff⟩, hws⟩ := forall_mem_cons.mp hhead
    rw [oneOf]
    by_cases heq : w = v
    · subst heq
      rw [exec_alt, exec_word_append]
      by_cases hmem : w ∈ w' :: ws
      · rw [ih hmem hws, Option.or_self]
      rw [exec_oneOf_of_not_start, or_none]
      intro x hx
      refine not_prefix_append hne (hws x hx).1 ((hws x hx).2 ?_) t
      rintro rfl
      exact hmem hx
    · rw [exec_alt_of_none (exec_word_of_not_start (not_prefix_append hne hw (hdiff heq) t)),
        ih ((mem_cons.mp hv).resolve_left (Ne.symm heq)) hws]

theorem exec_opt_of_some {a : Regex} (h : exec a k s = some r) : exec (opt a) k s = some r := by
  rw [exec_opt, h, some_or]

/-- A text does not start with a character of the class. -/
def Stops (p : Char → Bool) (s : Str) : Prop := ∀ c t, s = c :: t → p c = false

theorem stops_cons (h : p c = false) : Stops p (c :: s) := by
  intro c' t' heq
  cases heq
  exact h

theorem stops_append (hne : u ≠ []) (hu : ∀ c ∈ u, p c = false) (t : Str) :
    Stops p (u ++ t) := by
  cases u with
  | nil => exact absurd rfl hne
  | cons c u => exact stops_cons (hu c (mem_cons_self ..))

theorem repeated_of_stops {greedy : Bool} {k : Str → Option β} (h : Stops p t) :
    repeated p greedy k t = k t := by
  cases t with
  | nil => rfl
  | cons c t => rw [repeated_cons, h c t rfl, Bool.not_false, if_pos rfl]

theorem exec_star_of_stop {greedy : Bool} (hu : ∀ c ∈ u, p c = true) (ht : Stops p t)
    (hk : ∀ c v, p c = true → k [] (c :: v) = none) :
    exec (star p greedy) k (u ++ t) = k [] t := by
  rw [exec_star]
  induction u with
  | nil => exact repeated_of_stops ht
  | cons c u ih =>
    obtain ⟨hc, hu⟩ := forall_mem_cons.mp hu
    rw [cons_append, repeated_cons, hc, Bool.not_true, if_neg Bool.false_ne_true, ih hu,
      hk c _ hc, none_or, or_none, ite_self]

theorem exec_star_greedy (hu : ∀ c ∈ u, p c = true) (ht : Stops p t) (hk : k [] t = some r) :
    exec (star p true) k (u ++ t) = some r := by
  rw [exec_star]
  induction u with
  | nil => exact (repeated_of_stops ht).trans hk
  | cons c u ih =>
    obtain ⟨hc, hu⟩ := forall_mem_cons.mp hu
    rw [cons_append, repeated_cons, hc, Bool.not_true, if_neg Bool.false_ne_true, if_pos rfl,
      ih hu, some_or]

theorem exec_star_lazy (hu : ∀ c ∈ u, p c = true)
    (hfail : ∀ v c v', u = v ++ c :: v' → k [] (c :: v' ++ t) = none) (hk : k [] t = some r) :
    exec (star p false) k (u ++ t) = some r := by
  rw [exec_star]
  induction u with
  | nil =>
    cases t with
    | nil => exact hk
    | cons c t =>
      rw [nil_append, repeated_cons]
      split
      · exact hk
      · rw [if_neg Bool.false_ne_true, hk, some_or]
  | cons c u ih =>
    obtain ⟨hc, hu⟩ := forall_mem_cons.mp hu
    have hfirst := hfail [] c u rfl
    rw [cons_append] at hfirst ⊢
    rw [repeated_cons, hc, Bool.not_true, if_neg Bool.false_ne_true, if_neg Bool.false_ne_true,
      hfirst, none_or]
    refine ih hu fun v d v' hv => hfail (c :: v) d v' ?_
    rw [hv, cons_append]

theorem take_consumed (u t : Str) : (u ++ t).take ((u ++ t).length - t.length) = u := by
  rw [length_append, Nat.add_sub_cancel, take_left]

end

/-! ## What comes next

The rules for the first piece of a sequence, with the rest of it as what follows. -/

/-- No match starts with a character of the class. -/
def Avoids (a : Regex) (p : Char → Bool) : Prop :=
  ∀ (β : Type) (k : Cont β) (c : Char) (v : Str), p c = true → exec a k (c :: v) = none

section
variable {a b : Regex} {p q : Char → Bool}

theorem avoids_word {c : Char} (w : Str) (h : p c = false) : Avoids (word (c :: w)) p := by
  intro β k d v hd
  refine exec_word_of_not_start fun hpre => ?_
  obtain ⟨rfl, -⟩ := cons_prefix_cons.mp hpre
  rw [h] at hd
  cases hd

theorem avoids_one (h : ∀ c, p c = true → q c = false) : Avoids (one q) p :=
  fun _ _ c _ hc => exec_one_of_neg (h c hc)

theorem Avoids.seq (h : Avoids a p) (b : Regex) : Avoids (seq a b) p :=
  fun β _ c v hc => h β _ c v hc

theorem Avoids.group (h : Avoids a p) : Avoids (group a) p :=
  fun β _ c v hc => h β _ c v hc

theorem Avoids.alt (ha : Avoids a p) (hb : Avoids b p) : Avoids (alt a b) p := by
  intro β k c v hc
  rw [exec_alt_of_none (ha β k c v hc), hb β k c v hc]

theorem avoids_oneOf {w : Str} (h : ∀ x ∈ w :: ws, ∃ c u, x = c :: u ∧ p c = false) :
    Avoids (oneOf w ws) p := by
  induction ws generalizing w with
  | nil =>
    obtain ⟨c, u, rfl, hc⟩ := h w (mem_singleton_self w)
    exact avoids_word u hc
  | cons w' ws ih =>
    obtain ⟨⟨c, u, rfl, hc⟩, hws⟩ := forall_mem_cons.mp h
    exact (avoids_word u hc).alt (ih hws)

theorem avoids_plus {greedy : Bool} (h : ∀ c, p c = true → q c = false) :
    Avoids (plus q greedy) p :=
  (avoids_one h).seq _

end

section
variable {a b : Regex} {p : Char → Bool} {k : Cont β} {s t u w : Str} {r : β} {greedy : Bool}

theorem exec_word_seq : exec (seq (word w) b) k (w ++ t) = exec b k t := by
  rw [exec_seq, exec_word_append]
  rfl

theorem exec_star_seq (hb : Avoids b p) (hu : ∀ c ∈ u, p c = true) (ht : Stops p t) :
    exec (seq (star p greedy) b) k (u ++ t) = exec b k t := by
  rw [exec_seq]
  exact exec_star_of_stop hu ht fun c v hc => hb β _ c v hc

theorem exec_plus_seq (hb : Avoids b p) (hne : u ≠ []) (hu : ∀ c ∈ u, p c = true)
    (ht : Stops p t) : exec (seq (plus p greedy) b) k (u ++ t) = exec b k t := by
  cases u with
  | nil => exact absurd rfl hne
  | cons c u =>
    obtain ⟨hc, hu⟩ := forall_mem_cons.mp hu
    rw [exec_seq, plus, exec_seq, cons_append, exec_one_of_pos hc]
    exact exec_star_of_stop hu ht fun d v hd => hb β _ d v hd

theorem exec_plus_seq_greedy (hne : u ≠ []) (hu : ∀ c ∈ u, p c = true) (ht : Stops p t)
    (hb : exec b k t = some r) : exec (seq (plus p true) b) k (u ++ t) = some r := by
  cases u with
  | nil => exact absurd rfl hne
  | cons c u =>
    obtain ⟨hc, hu⟩ := forall_mem_cons.mp hu
    rw [exec_seq, plus, exec_seq, cons_append, exec_one_of_pos hc]
    exact exec_star_greedy hu ht hb

theorem exec_group_plus_seq (hb : Avoids b p) (hne : u ≠ []) (hu : ∀ c ∈ u, p c = true)
    (ht : Stops p t) :
    exec (seq (group (plus p greedy)) b) k (u ++ t) = exec b (fun caps => k (u :: caps)) t := by
  have hconsumed := take_consumed u t
  cases u with
  | nil => exact absurd rfl hne
  | cons c u =>
    obtain ⟨hc, hu⟩ := forall_mem_cons.mp hu
    rw [exec_seq, exec_group, plus, exec_seq]
    rw [cons_append] at hconsumed ⊢
    rw [exec_one_of_pos hc, exec_star_of_stop hu ht fun d v hd => hb β _ d v hd, hconsumed]
    rfl

theorem exec_group_plus_seq_lazy (hne : u ≠ []) (hu : ∀ c ∈ u, p c = true)
    (hfail : ∀ v c v', v ≠ [] → u = v ++ c :: v' →
      exec b (fun caps => k (v :: caps)) (c :: v' ++ t) = none)
    (hb : exec b (fun caps => k (u :: caps)) t = some r) :
    exec (seq (group (plus p false)) b) k (u ++ t) = some r := by
  have hconsumed := take_consumed u t
  cases u with
  | nil => exact absurd rfl hne
  | cons c u =>
    obtain ⟨hc, hu⟩ := forall_mem_cons.mp hu
    rw [exec_seq, exec_group, plus, exec_seq]
    rw [cons_append] at hconsumed ⊢
    rw [exec_one_of_pos hc]
    refine exec_star_lazy hu (fun v d v' hv => ?_) ?_
    · have hcut : c :: (u ++ t) = (c :: v) ++ (d :: v' ++ t) := by
        rw [hv, cons_append, append_assoc]
      rw [hcut, take_consumed]
      exact hfail (c :: v) d v' (cons_ne_nil c v) (by rw [hv, cons_append])
    · rw [hconsumed]
      exact hb

theorem exec_star_seq_greedy (hu : ∀ c ∈ u, p c = true) (ht : Stops p t)
    (hb : exec b k t = some r) : exec (seq (star p true) b) k (u ++ t) = some r := by
  rw [exec_seq]
  exact exec_star_greedy hu ht hb

theorem exec_opt_seq (h : exec (seq a b) k s = some r) : exec (seq (opt a) b) k s = some r :=
  exec_opt_of_some h

end

/-! ## The pieces of a match -/

/-- What a text must be for an expression to match it. -/
def Matches : Regex → Str → List Str → Prop
  | word w, u, caps => u = w ∧ caps = []
  | one p, u, caps => (∃ c, u = [c] ∧ p c = true) ∧ caps = []
  | star p _, u, caps => (∀ c ∈ u, p c = true) ∧ caps = []
  | seq a b, u, caps => ∃ u₁ u₂ caps₁ caps₂, u = u₁ ++ u₂ ∧ caps = caps₁ ++ caps₂ ∧
      Matches a u₁ caps₁ ∧ Matches b u₂ caps₂
  | alt a b, u, caps => Matches a u caps ∨ Matches b u caps
  | opt a, u, caps => Matches a u caps ∨ (u = [] ∧ caps = [])
  | group a, u, caps => ∃ caps', caps = u :: caps' ∧ Matches a u caps'

/-- Every match has this character in it. -/
def Needs (a : Regex) (c : Char) : Prop := ∀ u caps, Matches a u caps → c ∈ u

theorem needs_word {w : Str} {c : Char} (h : c ∈ w) : Needs (word w) c := by
  rintro u caps ⟨rfl, -⟩
  exact h

theorem Needs.seq_left {a : Regex} {c : Char} (h : Needs a c) (b : Regex) : Needs (seq a b) c := by
  rintro u caps ⟨u₁, u₂, caps₁, caps₂, rfl, -, ha, -⟩
  exact mem_append_left _ (h u₁ caps₁ ha)

theorem Needs.seq_right {b : Regex} {c : Char} (h : Needs b c) (a : Regex) : Needs (seq a b) c := by
  rintro u caps ⟨u₁, u₂, caps₁, caps₂, rfl, -, -, hb⟩
  exact mem_append_right _ (h u₂ caps₂ hb)

theorem exists_of_repeated {p : Char → Bool} {greedy : Bool} {k : Str → Option β}
    {s : Str} {r : β} (h : repeated p greedy k s = some r) :
    ∃ u t, s = u ++ t ∧ (∀ c ∈ u, p c = true) ∧ k t = some r := by
  induction s with
  | nil => exact ⟨[], [], rfl, forall_mem_nil _, h⟩
  | cons c s ih =>
    rw [repeated_cons] at h
    have hstop : k (c :: s) = some r →
        ∃ u t, c :: s = u ++ t ∧ (∀ c ∈ u, p c = true) ∧ k t = some r := fun hk =>
      ⟨[], c :: s, rfl, forall_mem_nil _, hk⟩
    split at h
    · exact hstop h
    rename_i hc
    have hmore : repeated p greedy k s = some r →
        ∃ u t, c :: s = u ++ t ∧ (∀ c ∈ u, p c = true) ∧ k t = some r := by
      intro hrep
      obtain ⟨u, t, rfl, hu, hk⟩ := ih hrep
      refine ⟨c :: u, t, rfl, forall_mem_cons.mpr ⟨?_, hu⟩, hk⟩
      rwa [Bool.not_eq_true', Bool.not_eq_false] at hc
    split at h
    · rcases or_eq_some_iff.mp h with h | ⟨-, h⟩
      · exact hmore h
      · exact hstop h
    · rcases or_eq_some_iff.mp h with h | ⟨-, h⟩
      · exact hstop h
      · exact hmore h

theorem exists_of_exec {a : Regex} {k : Cont β} {s : Str} {r : β}
    (h : exec a k s = some r) : ∃ u t caps, s = u ++ t ∧ Matches a u caps ∧ k caps t = some r := by
  induction a generalizing k s with
  | word w =>
    rw [exec_word] at h
    split at h
    · rename_i hpre
      obtain ⟨t, rfl⟩ := hpre
      rw [drop_left] at h
      exact ⟨w, t, [], rfl, ⟨rfl, rfl⟩, h⟩
    · cases h
  | one p =>
    cases s with
    | nil => cases h
    | cons c s =>
      rw [exec_one] at h
      split at h
      · rename_i hc
        exact ⟨[c], s, [], rfl, ⟨⟨c, rfl, hc⟩, rfl⟩, h⟩
      · cases h
  | star p greedy =>
    obtain ⟨u, t, rfl, hu, hk⟩ := exists_of_repeated h
    exact ⟨u, t, [], rfl, ⟨hu, rfl⟩, hk⟩
  | seq a b iha ihb =>
    obtain ⟨u₁, t₁, caps₁, rfl, ha, h⟩ := iha h
    obtain ⟨u₂, t₂, caps₂, rfl, hb, h⟩ := ihb h
    exact ⟨u₁ ++ u₂, t₂, caps₁ ++ caps₂, (append_assoc ..).symm,
      ⟨u₁, u₂, caps₁, caps₂, rfl, rfl, ha, hb⟩, h⟩
  | alt a b iha ihb =>
    rcases or_eq_some_iff.mp h with h | ⟨-, h⟩
    · obtain ⟨u, t, caps, rfl, hm, hk⟩ := iha h
      exact ⟨u, t, caps, rfl, .inl hm, hk⟩
    · obtain ⟨u, t, caps, rfl, hm, hk⟩ := ihb h
      exact ⟨u, t, caps, rfl, .inr hm, hk⟩
  | opt a iha =>
    rcases or_eq_some_iff.mp h with h | ⟨-, h⟩
    · obtain ⟨u, t, caps, rfl, hm, hk⟩ := iha h
      exact ⟨u, t, caps, rfl, .inl hm, hk⟩
    · exact ⟨[], s, [], rfl, .inr ⟨rfl, rfl⟩, h⟩
  | group a iha =>
    obtain ⟨u, t, caps, rfl, hm, hk⟩ := iha h
    rw [take_consumed] at hk
    exact ⟨u, t, u :: caps, rfl, ⟨caps, rfl, hm⟩, hk⟩

theorem Needs.fullMatch_eq_none {a : Regex} {c : Char} (h : Needs a c) {s : Str}
    (hs : c ∉ s) : a.fullMatch s = none := by
  cases hm : a.fullMatch s with
  | none => rfl
  | some caps =>
    obtain ⟨u, t, caps', rfl, hu, -⟩ := exists_of_exec hm
    exact absurd (mem_append_left t (h u caps' hu)) hs

end Regex
