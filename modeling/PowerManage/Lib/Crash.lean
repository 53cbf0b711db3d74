import PowerManage.Lib.Hoare

/-!
# Programs that may stop anywhere

A machine may go down between any two questions of a program.  `Visits` is what a program has made of
the state by then, and `CrashTriple P p C R` says of a program started in `P` that every such state is
in `C`, and that a run which returns ends as `R` says.  There is a rule for each way to build a
program, and one to weaken.
-/

namespace Interaction

namespace Prog

variable {Q : Type} {A : Q → Type} {α β σ : Type} {step : σ → (q : Q) → A q → σ → Prop}

/-- The program, started in one state, may be stopped in another. -/
inductive Visits (step : σ → (q : Q) → A q → σ → Prop) : Prog Q A α → σ → σ → Prop
  | start (p : Prog Q A α) (s : σ) : Visits step p s s
  | ask {q : Q} {k : A q → Prog Q A α} {s s' u : σ} {x : A q} (hq : step s q x s')
      (hk : Visits step (k x) s' u) : Visits step (ask q k) s u

theorem visits_ret_iff {a : α} {s u : σ} : Visits step (.ret a) s u ↔ u = s := by
  constructor
  · intro h
    cases h
    rfl
  · rintro rfl
    exact .start _ _

theorem visits_ask_iff {q : Q} {k : A q → Prog Q A α} {s u : σ} :
    Visits step (.ask q k) s u ↔ u = s ∨ ∃ x s', step s q x s' ∧ Visits step (k x) s' u := by
  constructor
  · intro h
    cases h with
    | start => exact .inl rfl
    | ask hq hk => exact .inr ⟨_, _, hq, hk⟩
  · rintro (rfl | ⟨x, s', hq, hk⟩)
    · exact .start _ _
    · exact .ask hq hk

variable {p : Prog Q A α}

/-- A program of two parts is stopped in the first of them, or in the second after a run of the
first. -/
theorem visits_bind {f : α → Prog Q A β} {s u : σ}
    (h : Visits step (p.bind f) s u) :
    Visits step p s u ∨ ∃ a s', Runs step p s a s' ∧ Visits step (f a) s' u := by
  induction p generalizing s with
  | ret a => exact .inr ⟨a, s, .ret a s, h⟩
  | ask q k ih =>
    rcases visits_ask_iff.mp h with rfl | ⟨x, s', hq, hk⟩
    · exact .inl (.start _ _)
    · rcases ih x hk with hk | ⟨a, s'', hrun, hf⟩
      · exact .inl (.ask hq hk)
      · exact .inr ⟨a, s'', .ask hq hrun, hf⟩

/-- Started in a state in `P`, the program may be stopped in states in `C` only, and it ends as `R`
says. -/
structure CrashTriple (step : σ → (q : Q) → A q → σ → Prop) (P : σ → Prop) (p : Prog Q A α)
    (C : σ → Prop) (R : α → σ → Prop) : Prop where
  crash : ∀ s u, P s → Visits step p s u → C u
  post : Triple step P p R

namespace CrashTriple

variable {P P' C : σ → Prop} {R R' : α → σ → Prop}

theorem ret {a : α} (hC : ∀ s, P s → C s) (hR : ∀ s, P s → R a s) :
    CrashTriple step P (.ret a) C R where
  crash s u hs h := by
    rw [visits_ret_iff.mp h]
    exact hC s hs
  post := .ret hR

theorem ask {q : Q} {k : A q → Prog Q A α} (mid : A q → σ → Prop) (hC : ∀ s, P s → C s)
    (hq : ∀ s x u, P s → step s q x u → mid x u) (hk : ∀ x, CrashTriple step (mid x) (k x) C R) :
    CrashTriple step P (.ask q k) C R where
  crash s u hs h := by
    rcases visits_ask_iff.mp h with rfl | ⟨x, s', hstep, hvisit⟩
    · exact hC u hs
    · exact (hk x).crash s' u (hq s x s' hs hstep) hvisit
  post := .ask mid hq fun x => (hk x).post

theorem ask_same {q : Q} {k : A q → Prog Q A α} (hC : ∀ s, P s → C s)
    (hq : ∀ s x u, step s q x u → u = s) (hk : ∀ x, CrashTriple step P (k x) C R) :
    CrashTriple step P (.ask q k) C R :=
  .ask (fun _ => P) hC (fun s x u hs hstep => hq s x u hstep ▸ hs) hk

theorem bind {f : α → Prog Q A β} {S : β → σ → Prop}
    (hp : CrashTriple step P p C R) (hf : ∀ a, CrashTriple step (R a) (f a) C S) :
    CrashTriple step P (p.bind f) C S where
  crash s u hs h := by
    rcases visits_bind h with h | ⟨a, s', hrun, h⟩
    · exact hp.crash s u hs h
    · exact (hf a).crash s' u (hp.post s a s' hs hrun) h
  post := hp.post.bind fun a => (hf a).post

theorem imp {C' : σ → Prop} (h : CrashTriple step P p C R) (hpre : ∀ s, P' s → P s)
    (hcrash : ∀ s, C s → C' s) (hpost : ∀ a u, R a u → R' a u) : CrashTriple step P' p C' R' where
  crash s u hs hv := hcrash u (h.crash s u (hpre s hs) hv)
  post := h.post.imp hpre hpost

/-- What is known of the state in which a program starts may be taken out of its precondition. -/
theorem of_forall (h : ∀ s, P s → CrashTriple step (· = s) p C R) :
    CrashTriple step P p C R where
  crash s u hs hv := (h s hs).crash s u rfl hv
  post s a u hs hrun := (h s hs).post s a u rfl hrun

end CrashTriple

end Prog

end Interaction
