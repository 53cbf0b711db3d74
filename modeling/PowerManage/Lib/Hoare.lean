import PowerManage.Lib.Interaction

/-!
# Pre- and postconditions of programs that ask

Here the surroundings of a program are a relation: `step s q x u` says that in the state `s` the
question `q` may be answered with `x`, leaving the state `u`.  An answer may be one of many, so that
a call which can fail at any time, or a server that says what it likes, need no list of outcomes.

`Runs` is what a program can come to, and `Triple P p R` says that every run of `p` from a state in
`P` that returns `a` ends in a state in `R a`.  The rules are one for each way to build a program,
one to weaken, and two for programs taken from elsewhere: `Asks.triple` for what every question keeps,
and `runs_lift_iff` for a program whose questions are some of the questions here.
-/

namespace Interaction

namespace Prog

variable {Q : Type} {A : Q → Type} {α β σ τ : Type} {step : σ → (q : Q) → A q → σ → Prop}

/-- The program, started in one state, may return a value and leave another state. -/
inductive Runs (step : σ → (q : Q) → A q → σ → Prop) : Prog Q A α → σ → α → σ → Prop
  | ret (a : α) (s : σ) : Runs step (ret a) s a s
  | ask {q : Q} {k : A q → Prog Q A α} {s s' u : σ} {x : A q} {a : α} (hq : step s q x s')
      (hk : Runs step (k x) s' a u) : Runs step (ask q k) s a u

theorem runs_ret_iff {a b : α} {s u : σ} : Runs step (.ret a) s b u ↔ b = a ∧ u = s := by
  constructor
  · intro h
    cases h
    exact ⟨rfl, rfl⟩
  · rintro ⟨rfl, rfl⟩
    exact .ret _ _

theorem runs_ask_iff {q : Q} {k : A q → Prog Q A α} {s u : σ} {a : α} :
    Runs step (.ask q k) s a u ↔ ∃ x s', step s q x s' ∧ Runs step (k x) s' a u := by
  constructor
  · intro h
    cases h with
    | ask hq hk => exact ⟨_, _, hq, hk⟩
  · rintro ⟨x, s', hq, hk⟩
    exact .ask hq hk

variable {p : Prog Q A α} {s u : σ}

theorem runs_bind_iff {f : α → Prog Q A β} {b : β} :
    Runs step (p.bind f) s b u ↔ ∃ a s', Runs step p s a s' ∧ Runs step (f a) s' b u := by
  induction p generalizing s with
  | ret a =>
    constructor
    · intro h
      exact ⟨a, s, .ret a s, h⟩
    · rintro ⟨a', s', h, hf⟩
      obtain ⟨rfl, rfl⟩ := runs_ret_iff.mp h
      exact hf
  | ask q k ih =>
    rw [bind, runs_ask_iff]
    constructor
    · rintro ⟨x, s', hq, h⟩
      obtain ⟨a, s'', hk, hf⟩ := (ih x).mp h
      exact ⟨a, s'', .ask hq hk, hf⟩
    · rintro ⟨a, s'', h, hf⟩
      obtain ⟨x, s', hq, hk⟩ := runs_ask_iff.mp h
      exact ⟨x, s', hq, (ih x).mpr ⟨a, s'', hk, hf⟩⟩

variable {a : α}

/-- A run against a state that answers is one of the runs, if its answers are among the steps. -/
theorem runs_of_run {answer : σ → (q : Q) → Option (A q × σ)}
    (hstep : ∀ s q x u, answer s q = some (x, u) → step s q x u) (h : run answer s p = some (a, u)) :
    Runs step p s a u := by
  induction p generalizing s with
  | ret b =>
    cases h
    exact .ret _ _
  | ask q k ih =>
    obtain ⟨x, s', hanswer, hrun⟩ := run_ask_eq_some.mp h
    exact .ask (hstep _ _ _ _ hanswer) (ih x hrun)

theorem Runs.map {step' : τ → (q : Q) → A q → τ → Prop} {f : σ → τ}
    (hstep : ∀ s q x u, step s q x u → step' (f s) q x (f u)) (h : Runs step p s a u) :
    Runs step' p (f s) a (f u) := by
  induction h with
  | ret a s => exact .ret _ _
  | ask hq _ ih => exact .ask (hstep _ _ _ _ hq) ih

theorem Runs.keeps {f : σ → τ} (hstep : ∀ s q x u, step s q x u → f u = f s)
    (h : Runs step p s a u) : f u = f s := by
  induction h with
  | ret a s => rfl
  | ask hq _ ih => exact ih.trans (hstep _ _ _ _ hq)

/-- Every run of `p` from a state in `P` ends as `R` says. -/
def Triple (step : σ → (q : Q) → A q → σ → Prop) (P : σ → Prop) (p : Prog Q A α)
    (R : α → σ → Prop) : Prop :=
  ∀ s a u, P s → Runs step p s a u → R a u

section

variable {P P' : σ → Prop} {R R' : α → σ → Prop}

theorem Triple.ret (h : ∀ s, P s → R a s) : Triple step P (.ret a) R := by
  intro s b u hs hrun
  obtain ⟨rfl, rfl⟩ := runs_ret_iff.mp hrun
  exact h _ hs

theorem Triple.ask {q : Q} {k : A q → Prog Q A α} (mid : A q → σ → Prop)
    (hq : ∀ s x u, P s → step s q x u → mid x u) (hk : ∀ x, Triple step (mid x) (k x) R) :
    Triple step P (.ask q k) R := by
  intro s a u hs hrun
  obtain ⟨x, s', hstep, hrun⟩ := runs_ask_iff.mp hrun
  exact hk x _ _ _ (hq _ _ _ hs hstep) hrun

theorem Triple.ask_same {q : Q} {k : A q → Prog Q A α} (hq : ∀ s x u, step s q x u → u = s)
    (hk : ∀ x, Triple step P (k x) R) : Triple step P (.ask q k) R := by
  refine Triple.ask (fun _ => P) ?_ hk
  intro s x u hs hstep
  rw [hq s x u hstep]
  exact hs

theorem Triple.bind {f : α → Prog Q A β} {S : β → σ → Prop}
    (hp : Triple step P p R) (hf : ∀ a, Triple step (R a) (f a) S) :
    Triple step P (p.bind f) S := by
  intro s b u hs hrun
  obtain ⟨a, s', hrun, hrest⟩ := runs_bind_iff.mp hrun
  exact hf a _ _ _ (hp _ _ _ hs hrun) hrest

theorem Triple.imp (h : Triple step P p R) (hpre : ∀ s, P' s → P s)
    (hpost : ∀ a u, R a u → R' a u) : Triple step P' p R' :=
  fun s a u hs hrun => hpost a u (h s a u (hpre s hs) hrun)

end

theorem Gives.triple {R : α → Prop} {P : σ → Prop} (hp : Gives R p) :
    Triple step P p fun a _ => R a := by
  intro s a u hs hrun
  clear hs
  induction hrun with
  | ret a s =>
    cases hp with
    | ret ha => exact ha
  | ask _ _ ih =>
    cases hp with
    | ask hk => exact ih (hk _)

theorem Asks.triple {F : Q → Prop} {I : σ → Prop} (hp : Asks F p)
    (hstep : ∀ s q x u, F q → I s → step s q x u → I u) : Triple step I p fun _ => I := by
  intro s a u hs hrun
  induction hrun with
  | ret a s => exact hs
  | ask hq _ ih =>
    obtain ⟨hF, hk⟩ := asks_ask_iff.mp hp
    exact ih (hk _) (hstep _ _ _ _ hF hs hq)

def lift {Q' : Type} (f : Q' → Q) : Prog Q' (fun q => A (f q)) α → Prog Q A α
  | .ret a => .ret a
  | .ask q k => .ask (f q) fun x => lift f (k x)

theorem runs_lift_iff {Q' : Type} {f : Q' → Q} {p : Prog Q' (fun q => A (f q)) α}  :
    Runs step (lift f p) s a u ↔ Runs (fun s q x u => step s (f q) x u) p s a u := by
  induction p generalizing s with
  | ret b => rw [lift, runs_ret_iff, runs_ret_iff]
  | ask q k ih =>
    rw [lift, runs_ask_iff, runs_ask_iff]
    refine exists_congr fun x => exists_congr fun s' => and_congr_right fun _ => ?_
    exact ih x

end Prog

end Interaction
