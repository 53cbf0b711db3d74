import Mathlib

/-!
# Programs that ask

A `Prog Q A α` is a program that puts questions `q : Q` to its surroundings, goes on with an answer
in `A q`, and returns an `α`.  What the surroundings are is left open: `run` lets one program run
alone against a state that answers, and a system of several programs can take the questions of all
of them in any order, since a program between two questions is again a program.
-/

namespace Interaction

variable {Q : Type} {A : Q → Type} {α σ : Type}

/-- A program that asks questions and goes on with the answers. -/
inductive Prog (Q : Type) (A : Q → Type) (α : Type) : Type
  | ret (a : α)
  | ask (q : Q) (k : A q → Prog Q A α)

namespace Prog

def finished : Prog Q A α → Bool
  | ret _ => true
  | ask _ _ => false

/-- The program on its own, against a state that answers its questions or refuses to. -/
def run (answer : σ → (q : Q) → Option (A q × σ)) : σ → Prog Q A α → Option (α × σ)
  | s, ret a => some (a, s)
  | s, ask q k => (answer s q).bind fun r => run answer r.2 (k r.1)

/-- What is said of the state that a program leaves is decided by running it. -/
instance decidableExistsPair [DecidableEq α] {P : σ → Prop} [DecidablePred P] (a : α) :
    ∀ o : Option (α × σ), Decidable (∃ s, o = some (a, s) ∧ P s)
  | none => .isFalse (by simp)
  | some (b, s) => decidable_of_iff (b = a ∧ P s) (by simp)

@[simp] theorem run_ret (answer : σ → (q : Q) → Option (A q × σ)) (s : σ) (a : α) :
    run answer s (ret a : Prog Q A α) = some (a, s) := rfl

theorem run_ask_eq_some {answer : σ → (q : Q) → Option (A q × σ)} {s : σ} {q : Q}
    {k : A q → Prog Q A α} {r : α × σ} :
    run answer s (ask q k) = some r ↔
      ∃ x t, answer s q = some (x, t) ∧ run answer t (k x) = some r := by
  rw [run, Option.bind_eq_some_iff]
  exact ⟨fun ⟨⟨x, t⟩, h⟩ => ⟨x, t, h⟩, fun ⟨x, t, h⟩ => ⟨(x, t), h⟩⟩

def bind {β : Type} : Prog Q A α → (α → Prog Q A β) → Prog Q A β
  | ret a, f => f a
  | ask q k, f => ask q fun x => bind (k x) f

variable {β : Type}

variable {p : Prog Q A α} {f : α → Prog Q A β}

theorem run_bind_eq_some {answer : σ → (q : Q) → Option (A q × σ)} {s : σ}
    {r : β × σ} :
    run answer s (p.bind f) = some r ↔
      ∃ a t, run answer s p = some (a, t) ∧ run answer t (f a) = some r := by
  induction p generalizing s with
  | ret a => simp [bind]
  | ask q k ih =>
    rw [bind, run_ask_eq_some]
    constructor
    · rintro ⟨x, t, hanswer, hrun⟩
      obtain ⟨a, u, hk, hf⟩ := (ih x).mp hrun
      exact ⟨a, u, run_ask_eq_some.mpr ⟨x, t, hanswer, hk⟩, hf⟩
    · rintro ⟨a, u, hk, hf⟩
      obtain ⟨x, t, hanswer, hrun⟩ := run_ask_eq_some.mp hk
      exact ⟨x, t, hanswer, (ih x).mpr ⟨a, u, hrun, hf⟩⟩

/-- Told the right things, the program comes to put this question. -/
inductive Puts (q : Q) : Prog Q A α → Prop
  | here {k : A q → Prog Q A α} : Puts q (ask q k)
  | later {q' : Q} {k : A q' → Prog Q A α} (x : A q') (h : Puts q (k x)) : Puts q (ask q' k)

/-! ## Answers that may fail -/

section
variable {E : Type} (answer : σ → (q : Q) → Option (A q × σ)) (failed : E → (q : Q) → A q)

/-- Each question takes the next of the given outcomes: it fails and leaves the state, or it is
answered. -/
def faulty : σ × List (Option E) → (q : Q) → Option (A q × (σ × List (Option E)))
  | (s, some e :: os), q => some (failed e q, (s, os))
  | (s, none :: os), q => (answer s q).map fun r => (r.1, (r.2, os))
  | (_, []), _ => none

variable {answer failed}

variable {r : α × (σ × List (Option E))}

theorem run_faulty_ask {s : σ} {os : List (Option E)} {q : Q} {k : A q → Prog Q A α}
    (h : run (faulty answer failed) (s, os) (ask q k) = some r) :
    (∃ e os', os = some e :: os' ∧
        run (faulty answer failed) (s, os') (k (failed e q)) = some r) ∨
      ∃ os' x t, os = none :: os' ∧ answer s q = some (x, t) ∧
        run (faulty answer failed) (t, os') (k x) = some r := by
  obtain ⟨x, ⟨t, os'⟩, hanswer, hrun⟩ := run_ask_eq_some.mp h
  cases os with
  | nil => cases hanswer
  | cons o os =>
    cases o with
    | some e =>
      cases hanswer
      exact .inl ⟨e, _, rfl, hrun⟩
    | none =>
      obtain ⟨⟨y, u⟩, hy, heq⟩ := Option.map_eq_some_iff.mp hanswer
      cases heq
      exact .inr ⟨_, _, _, rfl, hy, hrun⟩

/-- Whatever it is told, the program puts questions with a property only. -/
inductive Asks (P : Q → Prop) : Prog Q A α → Prop
  | ret (a : α) : Asks P (ret a)
  | ask {q : Q} {k : A q → Prog Q A α} (hq : P q) (hk : ∀ x, Asks P (k x)) : Asks P (ask q k)

variable {P : Q → Prop}

theorem asks_ask_iff {q : Q} {k : A q → Prog Q A α} :
    Asks P (ask q k) ↔ P q ∧ ∀ x, Asks P (k x) := by
  constructor
  · intro h
    cases h with
    | ask hq hk => exact ⟨hq, hk⟩
  · rintro ⟨hq, hk⟩
    exact .ask hq hk

/-- Whatever it is told, the program returns something with a property. -/
inductive Gives (R : α → Prop) : Prog Q A α → Prop
  | ret {a : α} (ha : R a) : Gives R (ret a)
  | ask {q : Q} {k : A q → Prog Q A α} (hk : ∀ x, Gives R (k x)) : Gives R (ask q k)

theorem Gives.bind {R : α → Prop} {S : β → Prop} (hp : Gives R p) (hf : ∀ a, R a → Gives S (f a)) :
    Gives S (p.bind f) := by
  induction hp with
  | ret ha => exact hf _ ha
  | ask _ ih => exact .ask ih

theorem Asks.bind (hp : Asks P p)
    (hf : ∀ a, Asks P (f a)) : Asks P (p.bind f) := by
  induction hp with
  | ret a => exact hf a
  | ask hq _ ih => exact .ask hq ih

theorem asks_bind_ret_iff {f : α → β} :
    Asks P (p.bind fun a => ret (f a)) ↔ Asks P p := by
  refine ⟨fun h => ?_, fun h => h.bind fun _ => .ret _⟩
  induction p with
  | ret a => exact .ret a
  | ask q k ih =>
    obtain ⟨hq, hk⟩ := asks_ask_iff.mp h
    exact .ask hq fun x => ih x (hk x)

/-- What the answers to such questions keep is kept by a run, however the questions end. -/
theorem Asks.run_faulty {I : σ → Prop}
    (hstep : ∀ s q x t, P q → I s → answer s q = some (x, t) → I t) (hp : Asks P p) {s : σ}
    {os : List (Option E)} (hrun : run (faulty answer failed) (s, os) p = some r) (hs : I s) :
    I r.2.1 := by
  induction hp generalizing s os with
  | ret a =>
    cases hrun
    exact hs
  | ask hq hk ih =>
    obtain ⟨e, os', rfl, hrun⟩ | ⟨os', x, t, rfl, hanswer, hrun⟩ := run_faulty_ask hrun
    · exact ih _ hrun hs
    · exact ih x hrun (hstep _ _ _ _ hq hs hanswer)

end

end Prog

end Interaction
