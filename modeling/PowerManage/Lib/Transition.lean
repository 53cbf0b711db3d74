import Mathlib

/-!
# Runs of a transition system, and what holds along them

A system is a partial step function `step : σ → α → Option σ`: an action is either refused in a
state (`none`) or leads to one successor.  Nondeterminism — scheduling, the network, the outcome
of a call — lives in the action, so the step function stays computable and a run can be evaluated.

* `exec` performs a list of actions; `exec_append` and `exec_concat` cut a run in two.
* `Along step G` says that every step of a run meets a condition `G`, and `exec_induction_along`
  is the invariant rule for such runs; `exec_induction` is the same with no condition.
* `Historic P` is the trace form of "nothing happens without its reason": every event of the trace
  is justified by the events before it.  `historic_concat` is what makes it an invariant.
* `Run` is an infinite run.  `Run.eventually` is the rule for what must happen along a fair one: as
  long as the goal is not met a process is ready to move, and each of its moves lowers a rank that
  nobody else raises.
-/

namespace Transition

open List

variable {σ α ε : Type}

/-- The state reached by performing the actions one after the other, if none is refused. -/
def exec (step : σ → α → Option σ) : σ → List α → Option σ
  | s, [] => some s
  | s, a :: as => (step s a).bind fun t => exec step t as

@[simp] theorem exec_nil (step : σ → α → Option σ) (s : σ) : exec step s [] = some s := rfl

variable {step : σ → α → Option σ}

variable {as : List α} {s t : σ}

theorem exec_cons_eq_some {a : α} :
    exec step s (a :: as) = some t ↔ ∃ u, step s a = some u ∧ exec step u as = some t := by
  rw [exec, Option.bind_eq_some_iff]

theorem exec_append (s : σ) (as bs : List α) :
    exec step s (as ++ bs) = (exec step s as).bind fun t => exec step t bs := by
  induction as generalizing s with
  | nil => rfl
  | cons a as ih =>
    rw [cons_append, exec, exec, Option.bind_assoc]
    congr 1
    funext u
    exact ih u

theorem exec_concat_eq_some {a : α} :
    exec step s (as ++ [a]) = some t ↔ ∃ u, exec step s as = some u ∧ step u a = some t := by
  rw [exec_append, Option.bind_eq_some_iff]
  refine exists_congr fun u => and_congr_right fun _ => ?_
  rw [exec_cons_eq_some]
  simp

/-- What is said of the end of a run is decided by performing it. -/
instance decidableExistsSome {P : σ → Prop} [DecidablePred P] :
    ∀ o : Option σ, Decidable (∃ s, o = some s ∧ P s)
  | none => .isFalse (by simp)
  | some s => decidable_of_iff (P s) (by simp)

/-- Every step of the run meets the condition `G` in the state it is taken in. -/
def Along (step : σ → α → Option σ) (G : σ → α → Prop) : σ → List α → Prop
  | _, [] => True
  | s, a :: as => G s a ∧ ∀ t, step s a = some t → Along step G t as

instance decidableAlong (step : σ → α → Option σ) (G : σ → α → Prop) [∀ s a, Decidable (G s a)] :
    ∀ (s : σ) (as : List α), Decidable (Along step G s as)
  | _, [] => .isTrue trivial
  | s, a :: as =>
    match h : step s a with
    | none => decidable_of_iff (G s a) ⟨fun hG => ⟨hG, fun t ht => by rw [h] at ht; cases ht⟩,
        fun hG => hG.1⟩
    | some u =>
      have := decidableAlong step G u as
      decidable_of_iff (G s a ∧ Along step G u as)
        ⟨fun hG => ⟨hG.1, fun t ht => by rw [h] at ht; cases ht; exact hG.2⟩,
          fun hG => ⟨hG.1, hG.2 u h⟩⟩

variable {G : σ → α → Prop}

theorem along_of_forall (h : ∀ a ∈ as, ∀ s, G s a) (s : σ) : Along step G s as := by
  induction as generalizing s with
  | nil => trivial
  | cons a as ih =>
    exact ⟨h a (mem_cons_self ..) s,
      fun t _ => ih (fun b hb => h b (mem_cons_of_mem a hb)) t⟩

/-- The condition holds along a run in two parts just if it holds along each of them. -/
theorem along_append {bs : List α} : Along step G s (as ++ bs) ↔
    Along step G s as ∧ ∀ t, exec step s as = some t → Along step G t bs := by
  induction as generalizing s with
  | nil => simp [Along]
  | cons a as ih =>
    simp only [cons_append, Along, ih, exec_cons_eq_some]
    grind

variable {I : σ → Prop}

/-- The invariant rule for runs whose steps all meet a condition. -/
theorem exec_induction_along (hstep : ∀ s a t, step s a = some t → G s a → I s → I t)
    (hG : Along step G s as) (h : exec step s as = some t) (hs : I s) : I t := by
  induction as generalizing s with
  | nil => rw [exec_nil, Option.some_inj] at h; exact h ▸ hs
  | cons a as ih =>
    obtain ⟨u, hu, hrest⟩ := exec_cons_eq_some.mp h
    exact ih (hG.2 u hu) hrest (hstep s a u hu hG.1 hs)

/-- The invariant rule: what holds at the start and is preserved by every step holds at the end
of every run. -/
theorem exec_induction (hstep : ∀ s a t, step s a = some t → I s → I t)
    (h : exec step s as = some t) (hs : I s) : I t := by
  exact exec_induction_along (fun s a t hst _ => hstep s a t hst)
    (along_of_forall (G := fun _ _ => True) (fun _ _ _ => trivial) s) h hs

/-! ## Infinite runs -/

/-- An infinite run. -/
structure Run (step : σ → α → Option σ) where
  state : Nat → σ
  act : Nat → α
  next : ∀ i, step (state i) (act i) = some (state (i + 1))

namespace Run

/-- A finite run that goes on for ever with a step that changes nothing. -/
def ofExec {a : α} (h : exec step s as = some t) (hstay : step t a = some t) : Run step where
  state i := (exec step s (as.take i)).getD t
  act i := as[i]?.getD a
  next i := by
    rcases lt_or_ge i as.length with hi | hi
    · have hcut := take_append_drop (i + 1) as
      rw [← hcut, exec_append, Option.bind_eq_some_iff] at h
      obtain ⟨v, hv, -⟩ := h
      rw [take_succ_eq_append_getElem hi] at hv
      obtain ⟨u, hu, hstep⟩ := exec_concat_eq_some.mp hv
      rw [take_succ_eq_append_getElem hi, hv, hu, getElem?_eq_getElem hi]
      exact hstep
    · rw [take_of_length_le hi, take_of_length_le (by omega), h, getElem?_eq_none hi]
      exact hstay

variable {step : σ → α → Option σ} (ρ : Run step)

theorem invariant (hstep : ∀ s a t, step s a = some t → G s a → I s → I t)
    (hG : ∀ i, G (ρ.state i) (ρ.act i)) (h : I (ρ.state 0)) (i : Nat) : I (ρ.state i) := by
  induction i with
  | zero => exact h
  | succ i ih => exact hstep _ _ _ (ρ.next i) (hG i) ih

/-- A process whose actions are `mine` is not passed over for ever while it is `ready`. -/
def Fair (mine : α → Prop) (ready : σ → Prop) : Prop :=
  ∀ i, ∃ j, i ≤ j ∧ (mine (ρ.act j) ∨ ¬ready (ρ.state j))

/-- Whoever is not ready at the end is not passed over. -/
theorem fair_ofExec {a : α} (h : exec step s as = some t) (hstay : step t a = some t)
    {mine : α → Prop} {ready : σ → Prop} (hend : ¬ready t) : (ofExec h hstay).Fair mine ready := by
  intro i
  refine ⟨max i as.length, le_max_left .., .inr ?_⟩
  simp only [ofExec, take_of_length_le (le_max_right i as.length), h]
  exact hend

theorem goal_or_rank_le {goal : σ → Prop} {rank : σ → Nat} {i : Nat}
    (hle : ∀ j, i ≤ j → ¬goal (ρ.state j) →
      goal (ρ.state (j + 1)) ∨ rank (ρ.state (j + 1)) ≤ rank (ρ.state j)) {j : Nat} (hij : i ≤ j) :
    (∃ k, i ≤ k ∧ goal (ρ.state k)) ∨ rank (ρ.state j) ≤ rank (ρ.state i) := by
  induction j, hij using Nat.le_induction with
  | base => exact .inr (le_refl _)
  | succ j hij ih =>
    rcases ih with hgoal | hrank
    · exact .inl hgoal
    by_cases hj : goal (ρ.state j)
    · exact .inl ⟨j, hij, hj⟩
    · rcases hle j hij hj with hnext | hnext
      · exact .inl ⟨j + 1, by omega, hnext⟩
      · exact .inr (hnext.trans hrank)

theorem eventually {mine : α → Prop} {ready : σ → Prop} (goal : σ → Prop) (rank : σ → Nat) {i : Nat}
    (hfair : ρ.Fair mine ready)
    (hready : ∀ j, i ≤ j → ¬goal (ρ.state j) → ready (ρ.state j))
    (hmine : ∀ j, i ≤ j → ¬goal (ρ.state j) → mine (ρ.act j) →
      goal (ρ.state (j + 1)) ∨ rank (ρ.state (j + 1)) < rank (ρ.state j))
    (hother : ∀ j, i ≤ j → ¬goal (ρ.state j) → ¬mine (ρ.act j) →
      goal (ρ.state (j + 1)) ∨ rank (ρ.state (j + 1)) ≤ rank (ρ.state j)) :
    ∃ j, i ≤ j ∧ goal (ρ.state j) := by
  have hle : ∀ j, i ≤ j → ¬goal (ρ.state j) →
      goal (ρ.state (j + 1)) ∨ rank (ρ.state (j + 1)) ≤ rank (ρ.state j) := by
    intro j hij hj
    by_cases hact : mine (ρ.act j)
    · exact (hmine j hij hj hact).imp_right le_of_lt
    · exact hother j hij hj hact
  -- on the rank at a point after `i`, which is lower after each move of the process
  have hrank : ∀ n k, i ≤ k → rank (ρ.state k) = n → ∃ j, i ≤ j ∧ goal (ρ.state j) := by
    intro n
    induction n using Nat.strong_induction_on with
    | _ n ih =>
      intro k hik hn
      obtain ⟨j, hkj, hmove⟩ := hfair k
      rcases ρ.goal_or_rank_le (fun j hj => hle j (hik.trans hj)) hkj with ⟨m, hkm, hm⟩ | hjk
      · exact ⟨m, hik.trans hkm, hm⟩
      have hij := hik.trans hkj
      by_cases hj : goal (ρ.state j)
      · exact ⟨j, hij, hj⟩
      rcases hmove with hact | hnot
      · rcases hmine j hij hj hact with hgoal | hlt
        · exact ⟨j + 1, by omega, hgoal⟩
        · exact ih _ (by omega) (j + 1) (by omega) rfl
      · exact absurd (hready j hij hj) hnot
  exact hrank _ i (le_refl i) rfl

end Run

/-! ## Traces -/

/-- Every event of the trace is justified, in the sense of `P`, by the events before it. -/
def Historic (P : List ε → ε → Prop) (tr : List ε) : Prop :=
  ∀ pre e post, tr = pre ++ e :: post → P pre e

theorem historic_nil (P : List ε → ε → Prop) : Historic P [] := by
  intro pre e post h
  simp at h

/-- A trace that grows by one event stays historic exactly when the new event is justified by
everything so far. -/
theorem historic_concat {P : List ε → ε → Prop} {tr : List ε} {e : ε} :
    Historic P (tr ++ [e]) ↔ Historic P tr ∧ P tr e := by
  constructor
  · intro h
    exact ⟨fun pre x post hx => h pre x (post ++ [e]) (by rw [hx]; simp), h tr e [] rfl⟩
  · rintro ⟨htr, he⟩ pre x post hx
    rcases eq_nil_or_concat post with rfl | ⟨init, y, rfl⟩
    · obtain ⟨rfl, hxe⟩ := append_inj' hx rfl
      cases hxe
      exact he
    · have hinit : tr ++ [e] = (pre ++ x :: init) ++ [y] := by rw [hx]; simp
      exact htr pre x init (append_inj' hinit rfl).1

/-- If no value is read off the list twice, two entries that read the same are the same. -/
theorem eq_of_nodup_filterMap {β : Type} {f : ε → Option β} {l : List ε}
    (h : (l.filterMap f).Nodup) {a b : ε} (ha : a ∈ l) (hb : b ∈ l) {x : β} (hfa : f a = some x)
    (hfb : f b = some x) : a = b := by
  induction l with
  | nil => cases ha
  | cons c l ih =>
    have hmem : ∀ {d}, d ∈ l → f d = some x → x ∈ l.filterMap f := fun hd hfd =>
      mem_filterMap.mpr ⟨_, hd, hfd⟩
    rcases mem_cons.mp ha with rfl | ha'
    · rcases mem_cons.mp hb with rfl | hb'
      · rfl
      · rw [filterMap_cons_some hfa, nodup_cons] at h
        exact absurd (hmem hb' hfb) h.1
    rcases mem_cons.mp hb with rfl | hb'
    · rw [filterMap_cons_some hfb, nodup_cons] at h
      exact absurd (hmem ha' hfa) h.1
    · refine ih (h.sublist ?_) ha' hb'
      exact (sublist_cons_self c l).filterMap f

end Transition
