import PowerManage.Client.Message

/-!
# The delivery ledger

What the delivery side of the agent client is for, with the goroutines and channels left out.
Deliveries stand in a line, in the order they were received; the first of the line can be handed
to the handler while no other is; a delivery whose handler returned nil is owed a receipt; a
receipt is paid to the one that has been owed longest.  Anywhere on the way a delivery can be
lost, which is always safe: control redelivers what was not receipted.

`Move` is one step of the ledger.  The properties of `Sound` are kept by every move (`Move.sound`),
so they hold of any implementation whose steps are moves.
-/

namespace PowerManage.Client.Delivery

open Transition List

/-- A delivery that was received. -/
structure Item where
  /-- Which receive produced it: the identity of the message object, so that two deliveries of
  one `delivery_id` are two items. -/
  seq : Nat
  msg : ManifestDelivery
deriving DecidableEq

/-- What happens to deliveries, for all to see. -/
inductive Event
  /-- The receive goroutine of the given run took a message off the given stream. -/
  | received (run stream seq : Nat) (m : ServerMessage)
  | refused (d : Item)
  | dropped (d : Item)
  | skipped (d : Item)
  | invoked (run : Nat) (d : Item)
  | returned (run : Nat) (d : Item) (o : Outcome)
  | receipt (d : Item)
deriving DecidableEq

/-! ## Reading a trace -/

def itemOf (seq : Nat) (m : ServerMessage) : Option Item :=
  match m.payload with
  | .manifestDelivery (some d) => some ⟨seq, d⟩
  | _ => none

/-- The deliveries that a run has received, in order. -/
def receivedIn (r : Nat) (tr : List Event) : List Item :=
  tr.filterMap fun e =>
    match e with
    | .received r' _ seq m => if r' = r then itemOf seq m else none
    | _ => none

/-- The deliveries that a run has given to the handler, in order. -/
def invokedIn (r : Nat) (tr : List Event) : List Item :=
  tr.filterMap fun e =>
    match e with
    | .invoked r' d => if r' = r then some d else none
    | _ => none

/-- The deliveries something final happened to: lost on the way, or through the handler. -/
def settled (tr : List Event) : List Item :=
  tr.filterMap fun e =>
    match e with
    | .refused d | .dropped d | .skipped d | .returned _ d _ => some d
    | _ => none

/-- The deliveries whose handler returned without error. -/
def nilReturns (tr : List Event) : List Item :=
  tr.filterMap fun e =>
    match e with
    | .returned _ d .ok => some d
    | _ => none

/-- The deliveries for which a receipt was sent. -/
def receipts (tr : List Event) : List Item :=
  tr.filterMap fun e =>
    match e with
    | .receipt d => some d
    | _ => none

section

variable (r : Nat) (tr tr' : List Event)

@[simp] theorem receivedIn_append :
    receivedIn r (tr ++ tr') = receivedIn r tr ++ receivedIn r tr' := filterMap_append

@[simp] theorem invokedIn_append :
    invokedIn r (tr ++ tr') = invokedIn r tr ++ invokedIn r tr' := filterMap_append

@[simp] theorem settled_append : settled (tr ++ tr') = settled tr ++ settled tr' :=
  filterMap_append

@[simp] theorem nilReturns_append : nilReturns (tr ++ tr') = nilReturns tr ++ nilReturns tr' :=
  filterMap_append

@[simp] theorem receipts_append : receipts (tr ++ tr') = receipts tr ++ receipts tr' :=
  filterMap_append

end

variable {d : Item}

theorem mem_nilReturns {tr : List Event} :
    d ∈ nilReturns tr ↔ ∃ r, Event.returned r d .ok ∈ tr := by
  rw [nilReturns, mem_filterMap]
  constructor
  · rintro ⟨e, he, hd⟩
    split at hd
    · cases hd; exact ⟨_, he⟩
    · cases hd
  · rintro ⟨r, h⟩
    exact ⟨_, h, rfl⟩

theorem mem_receipts {tr : List Event} : d ∈ receipts tr ↔ Event.receipt d ∈ tr := by
  rw [receipts, mem_filterMap]
  constructor
  · rintro ⟨e, he, hd⟩
    split at hd
    · cases hd; exact he
    · cases hd
  · exact fun h => ⟨_, h, rfl⟩

theorem nilReturns_sublist_settled (tr : List Event) : (nilReturns tr).Sublist (settled tr) := by
  induction tr with
  | nil => exact .slnil
  | cons e tr ih =>
    cases e with
    | returned r d o =>
      cases o with
      | ok => exact ih.cons_cons d
      | error => exact ih.cons d
      | panic => exact ih.cons d
    | refused d => exact ih.cons d
    | dropped d => exact ih.cons d
    | skipped d => exact ih.cons d
    | received r st q m => exact ih
    | invoked r d => exact ih
    | receipt d => exact ih

/-! ## The ledger -/

/-- Deliveries without threads and channels: those in line, the one being handled, those that are
owed a receipt. -/
structure Ledger where
  run : Nat
  line : List Item
  active : Option Item
  owed : List Item
  nextSeq : Nat
  trace : List Event

def Ledger.init : Ledger where
  run := 0
  line := []
  active := none
  owed := []
  nextSeq := 0
  trace := []

/-- One step of the ledger, for deliveries that `valid` accepts. -/
inductive Move (valid : ManifestDelivery → Bool) : Ledger → Ledger → Prop
  | lose {L : Ledger} {line owed : List Item} (hline : line.Sublist L.line)
      (howed : owed.Sublist L.owed) : Move valid L { L with line := line, owed := owed }
  | start {L : Ledger} (h : L.active = none) : Move valid L { L with run := L.run + 1, line := [] }
  /-- A message is received; in the current run its delivery joins the line. -/
  | receive {L : Ledger} (r st : Nat) (m : ServerMessage) :
      Move valid L { L with
        line := if r = L.run then L.line ++ (itemOf L.nextSeq m).toList else L.line
        nextSeq := L.nextSeq + 1
        trace := L.trace ++ [.received r st L.nextSeq m] }
  | strike {L : Ledger} {pre post : List Item} {d : Item} {e : Event}
      (hline : L.line = pre ++ d :: post) (he : e = .refused d ∨ e = .dropped d ∨ e = .skipped d) :
      Move valid L { L with line := pre ++ post, trace := L.trace ++ [e] }
  | invoke {L : Ledger} {d : Item} {rest : List Item} (hline : L.line = d :: rest)
      (hv : valid d.msg = true) (h : L.active = none) :
      Move valid L { L with
        line := rest, active := some d, trace := L.trace ++ [.invoked L.run d] }
  /-- The handler comes back; a nil return is owed a receipt. -/
  | finish {L : Ledger} {d : Item} {o : Outcome} (h : L.active = some d) :
      Move valid L { L with
        active := none
        owed := if o = .ok then L.owed ++ [d] else L.owed
        trace := L.trace ++ [.returned L.run d o] }
  | pay {L : Ledger} {d : Item} {rest : List Item} (h : L.owed = d :: rest) :
      Move valid L { L with owed := rest, trace := L.trace ++ [.receipt d] }

/-! ## Soundness -/

/-- A handler is called only when every earlier call has returned. -/
def SerialAt (pre : List Event) (e : Event) : Prop :=
  ∀ r d, e = .invoked r d → ∀ r' d', .invoked r' d' ∈ pre → ∃ o, .returned r' d' o ∈ pre

/-- A receipt follows a handler that returned without error, and once. -/
def EarnedAt (pre : List Event) (e : Event) : Prop :=
  ∀ d, e = .receipt d → (∃ r, .returned r d .ok ∈ pre) ∧ .receipt d ∉ pre

/-- What the trace of a ledger promises, with what the proof needs. -/
structure Sound (valid : ManifestDelivery → Bool) (L : Ledger) : Prop where
  /-- In every run, the deliveries handed to the handler and then those still in line are, in
  order, among the deliveries received. -/
  order : ∀ r, (invokedIn r L.trace ++ if r = L.run then L.line else []).Sublist
    (receivedIn r L.trace)
  invokedValid : ∀ r d, Event.invoked r d ∈ L.trace → valid d.msg = true
  future : ∀ r d, Event.invoked r d ∈ L.trace → r ≤ L.run
  /-- No delivery is in two places, and nothing final happens to one twice. -/
  distinct : (settled L.trace ++ (L.active.toList ++ L.line)).Nodup
  known : ∀ d ∈ settled L.trace ++ (L.active.toList ++ L.line), d.seq < L.nextSeq
  called : ∀ r d, Event.invoked r d ∈ L.trace →
    (∃ o, Event.returned r d o ∈ L.trace) ∨ (r = L.run ∧ L.active = some d)
  serial : Historic SerialAt L.trace
  /-- Receipts paid, and then those owed, are in order among the nil returns. -/
  paid : (receipts L.trace ++ L.owed).Sublist (nilReturns L.trace)
  earned : Historic EarnedAt L.trace

theorem sound_init (valid : ManifestDelivery → Bool) : Sound valid Ledger.init where
  order r := by by_cases h : r = 0 <;> simp [Ledger.init, invokedIn, h]
  invokedValid r d h := by simp [Ledger.init] at h
  future r d h := by simp [Ledger.init] at h
  distinct := by simp [Ledger.init, settled]
  known d h := by simp [Ledger.init, settled] at h
  called r d h := by simp [Ledger.init] at h
  serial := historic_nil _
  paid := by simp [Ledger.init, receipts]
  earned := historic_nil _

section

variable {valid : ManifestDelivery → Bool} {L : Ledger}

theorem Sound.nodup_nilReturns (h : Sound valid L) : (nilReturns L.trace).Nodup :=
  (nodup_append.mp h.distinct).1.sublist (nilReturns_sublist_settled L.trace)

theorem sound_lose (h : Sound valid L) {line owed : List Item} (hline : line.Sublist L.line)
    (howed : owed.Sublist L.owed) : Sound valid { L with line := line, owed := owed } := by
  have hplaces : (settled L.trace ++ (L.active.toList ++ line)).Sublist
      (settled L.trace ++ (L.active.toList ++ L.line)) :=
    (hline.append_left _).append_left _
  refine { h with order := fun r => ?_, distinct := h.distinct.sublist hplaces,
                  known := fun d hd => h.known d (hplaces.subset hd),
                  paid := (howed.append_left _).trans h.paid }
  refine Sublist.trans ?_ (h.order r)
  refine Sublist.append_left ?_ _
  split
  · exact hline
  · exact Sublist.refl _

theorem sound_start (h : Sound valid L) (hact : L.active = none) :
    Sound valid { L with run := L.run + 1, line := [] } := by
  have hplaces : (settled L.trace ++ (L.active.toList ++ [])).Sublist
      (settled L.trace ++ (L.active.toList ++ L.line)) :=
    ((nil_sublist _).append_left _).append_left _
  refine { h with order := fun r => ?_, distinct := h.distinct.sublist hplaces,
                  known := fun d hd => h.known d (hplaces.subset hd),
                  future := fun r d hd => Nat.le_succ_of_le (h.future r d hd),
                  called := fun r d hd => ?_ }
  · rw [ite_self, append_nil]
    exact (sublist_append_left _ _).trans (h.order r)
  · rcases h.called r d hd with hret | ⟨-, hd'⟩
    · exact .inl hret
    · rw [hact] at hd'
      cases hd'

theorem Sound.historic_concat_other (h : Sound valid L) {e : Event}
    (hinv : ∀ r d, e ≠ .invoked r d) (hrec : ∀ d, e ≠ .receipt d) :
    Historic SerialAt (L.trace ++ [e]) ∧ Historic EarnedAt (L.trace ++ [e]) :=
  ⟨historic_concat.mpr ⟨h.serial, fun r d he => absurd he (hinv r d)⟩,
   historic_concat.mpr ⟨h.earned, fun d he => absurd he (hrec d)⟩⟩

theorem sound_receive (h : Sound valid L) {r st : Nat} {m : ServerMessage} :
    Sound valid { L with
      line := if r = L.run then L.line ++ (itemOf L.nextSeq m).toList else L.line
      nextSeq := L.nextSeq + 1
      trace := L.trace ++ [.received r st L.nextSeq m] } := by
  have hnew : ∀ d ∈ (itemOf L.nextSeq m).toList, d.seq = L.nextSeq := by
    intro d hd
    rw [Option.mem_toList, itemOf] at hd
    split at hd
    · cases hd; rfl
    · cases hd
  have hfresh : ∀ d ∈ (itemOf L.nextSeq m).toList,
      d ∉ settled L.trace ++ (L.active.toList ++ L.line) := by
    intro d hd hmem
    exact absurd (h.known d hmem) (by rw [hnew d hd]; exact lt_irrefl _)
  have hhist := h.historic_concat_other (e := .received r st L.nextSeq m) (by simp) (by simp)
  refine ⟨fun r' => ?_, fun r' d hd => ?_, fun r' d hd => ?_, ?_, ?_, fun r' d hd => ?_, hhist.1,
    ?_, hhist.2⟩
  · have hold := h.order r'
    simp only [receivedIn_append, invokedIn_append]
    simp only [receivedIn, invokedIn, filterMap_cons, filterMap_nil, append_nil]
      at hold ⊢
    by_cases hr : r = r'
    · subst hr
      rw [if_pos rfl]
      by_cases hrun : r = L.run
      · rw [if_pos hrun] at hold ⊢
        rw [if_pos hrun, ← append_assoc]
        refine hold.append ?_
        cases itemOf L.nextSeq m with
        | none => exact .slnil
        | some d => exact Sublist.refl _
      · rw [if_neg hrun] at hold ⊢
        exact hold.trans (sublist_append_left _ _)
    · rw [if_neg hr, append_nil]
      by_cases hrun : r' = L.run
      · rw [if_pos hrun] at hold ⊢
        rw [if_neg (fun hr' => hr (hr'.trans hrun.symm))]
        exact hold
      · rw [if_neg hrun] at hold ⊢
        exact hold
  · exact h.invokedValid r' d (by simpa using hd)
  · exact h.future r' d (by simpa using hd)
  · have hset : settled [Event.received r st L.nextSeq m] = [] := rfl
    simp only [settled_append, hset, append_nil]
    split
    · rw [← append_assoc, ← append_assoc, nodup_append, append_assoc]
      refine ⟨h.distinct, by cases itemOf L.nextSeq m <;> simp, fun a ha b hb hab => ?_⟩
      exact hfresh b hb (hab ▸ ha)
    · exact h.distinct
  · intro d hd
    have hset : settled [Event.received r st L.nextSeq m] = [] := rfl
    simp only [settled_append, hset, append_nil] at hd
    split at hd
    · rw [← append_assoc, ← append_assoc, mem_append, append_assoc] at hd
      rcases hd with hd | hd
      · exact Nat.lt_succ_of_lt (h.known d hd)
      · rw [hnew d hd]; exact Nat.lt_succ_self _
    · exact Nat.lt_succ_of_lt (h.known d hd)
  · rcases h.called r' d (by simpa using hd) with ⟨o, ho⟩ | hact
    · exact .inl ⟨o, mem_append_left _ ho⟩
    · exact .inr hact
  · simpa [receipts, nilReturns] using h.paid

theorem sound_strike (h : Sound valid L) {pre post : List Item} {e : Event}
    (hline : L.line = pre ++ d :: post) (he : e = .refused d ∨ e = .dropped d ∨ e = .skipped d) :
    Sound valid { L with line := pre ++ post, trace := L.trace ++ [e] } := by
  have hsettled : settled [e] = [d] := by rcases he with rfl | rfl | rfl <;> rfl
  have hinvoked : ∀ r, invokedIn r [e] = [] := by
    rcases he with rfl | rfl | rfl <;> exact fun _ => rfl
  have hreceived : ∀ r, receivedIn r [e] = [] := by
    rcases he with rfl | rfl | rfl <;> exact fun _ => rfl
  have hpaid : nilReturns [e] = [] ∧ receipts [e] = [] := by
    rcases he with rfl | rfl | rfl <;> exact ⟨rfl, rfl⟩
  have hcall : ∀ r d', e ≠ .invoked r d' := by
    rcases he with rfl | rfl | rfl <;> exact fun _ _ h => by cases h
  have hrec : ∀ d', e ≠ .receipt d' := by
    rcases he with rfl | rfl | rfl <;> exact fun _ h => by cases h
  have hhist := h.historic_concat_other hcall hrec
  have hold : ∀ {r d'}, Event.invoked r d' ∈ L.trace ++ [e] → Event.invoked r d' ∈ L.trace := by
    intro r d' hmem
    rcases mem_append.mp hmem with hmem | hmem
    · exact hmem
    · exact absurd (mem_singleton.mp hmem).symm (hcall r d')
  have hperm : (settled (L.trace ++ [e]) ++ (L.active.toList ++ (pre ++ post))).Perm
      (settled L.trace ++ (L.active.toList ++ L.line)) := by
    rw [settled_append, hsettled, hline, append_assoc]
    refine Perm.append_left _ ?_
    rw [singleton_append, ← append_assoc, ← append_assoc]
    exact perm_middle.symm
  refine ⟨fun r => ?_, fun r d' hd => h.invokedValid r d' (hold hd),
    fun r d' hd => h.future r d' (hold hd), hperm.nodup_iff.mpr h.distinct,
    fun d' hd => h.known d' (hperm.subset hd), fun r d' hd => ?_, hhist.1, ?_, hhist.2⟩
  · rw [invokedIn_append, receivedIn_append, hinvoked, hreceived, append_nil, append_nil]
    refine Sublist.trans (Sublist.append_left ?_ _) (h.order r)
    split
    · rw [hline]
      exact (sublist_cons_self d post).append_left pre
    · exact Sublist.refl _
  · rcases h.called r d' (hold hd) with ⟨o, ho⟩ | hact
    · exact .inl ⟨o, mem_append_left _ ho⟩
    · exact .inr hact
  · simpa [hpaid.1, hpaid.2] using h.paid

theorem sound_invoke (h : Sound valid L) {rest : List Item} (hline : L.line = d :: rest)
    (hv : valid d.msg = true) (hact : L.active = none) :
    Sound valid { L with
      line := rest, active := some d, trace := L.trace ++ [.invoked L.run d] } := by
  have hplaces : settled (L.trace ++ [.invoked L.run d]) ++ ((some d).toList ++ rest)
      = settled L.trace ++ (L.active.toList ++ L.line) := by
    rw [hact, hline]
    simp [settled]
  have hall : ∀ r' d', Event.invoked r' d' ∈ L.trace → ∃ o, Event.returned r' d' o ∈ L.trace := by
    intro r' d' hd
    rcases h.called r' d' hd with hret | ⟨-, hcur⟩
    · exact hret
    · rw [hact] at hcur
      cases hcur
  refine ⟨fun r => ?_, fun r d' hd => ?_, fun r d' hd => ?_, hplaces ▸ h.distinct,
    hplaces ▸ h.known, fun r d' hd => ?_, ?_, ?_, ?_⟩
  · have hold := h.order r
    have hrec : receivedIn r [Event.invoked L.run d] = [] := rfl
    rw [receivedIn_append, hrec]
    by_cases hr : r = L.run
    · rw [hline] at hold
      simpa [invokedIn, hr] using hold
    · rw [if_neg hr] at hold ⊢
      simpa [invokedIn, Ne.symm hr] using hold
  · rcases mem_append.mp hd with hd | hd
    · exact h.invokedValid r d' hd
    · cases mem_singleton.mp hd
      exact hv
  · rcases mem_append.mp hd with hd | hd
    · exact h.future r d' hd
    · cases mem_singleton.mp hd
      exact le_refl _
  · rcases mem_append.mp hd with hd | hd
    · obtain ⟨o, ho⟩ := hall r d' hd
      exact .inl ⟨o, mem_append_left _ ho⟩
    · cases mem_singleton.mp hd
      exact .inr ⟨rfl, rfl⟩
  · exact historic_concat.mpr ⟨h.serial, fun _ _ _ => hall⟩
  · simpa [receipts, nilReturns] using h.paid
  · exact historic_concat.mpr ⟨h.earned, fun _ he => by cases he⟩

theorem sound_finish (h : Sound valid L) {o : Outcome} (hact : L.active = some d) :
    Sound valid { L with
      active := none
      owed := if o = .ok then L.owed ++ [d] else L.owed
      trace := L.trace ++ [.returned L.run d o] } := by
  have hhist := h.historic_concat_other (e := .returned L.run d o) (by simp) (by simp)
  have hplaces : settled (L.trace ++ [.returned L.run d o]) ++ ((none : Option Item).toList ++ L.line)
      = settled L.trace ++ (L.active.toList ++ L.line) := by
    rw [hact]
    simp [settled]
  have hold : ∀ {r d'}, Event.invoked r d' ∈ L.trace ++ [.returned L.run d o] →
      Event.invoked r d' ∈ L.trace := by
    simp
  refine ⟨fun r => ?_, fun r d' hd => h.invokedValid r d' (hold hd),
    fun r d' hd => h.future r d' (hold hd), hplaces ▸ h.distinct, hplaces ▸ h.known,
    fun r d' hd => ?_, hhist.1, ?_, hhist.2⟩
  · simpa [invokedIn, receivedIn] using h.order r
  · rcases h.called r d' (hold hd) with ⟨o', ho⟩ | ⟨hr, hd'⟩
    · exact .inl ⟨o', mem_append_left _ ho⟩
    · rw [hact, Option.some_inj] at hd'
      subst hr hd'
      exact .inl ⟨o, mem_append_right _ (mem_singleton_self _)⟩
  · have hrec : receipts [Event.returned L.run d o] = [] := rfl
    rw [receipts_append, nilReturns_append, hrec, append_nil]
    by_cases ho : o = .ok
    · subst ho
      rw [if_pos rfl, ← append_assoc]
      exact h.paid.append (Sublist.refl [d])
    · rw [if_neg ho]
      exact h.paid.trans (sublist_append_left _ _)

theorem sound_pay (h : Sound valid L) {rest : List Item} (howed : L.owed = d :: rest) :
    Sound valid { L with owed := rest, trace := L.trace ++ [.receipt d] } := by
  have hpaid : (receipts L.trace ++ d :: rest).Sublist (nilReturns L.trace) := howed ▸ h.paid
  have hmem : d ∈ nilReturns L.trace := hpaid.subset (by simp)
  have hfresh : d ∉ receipts L.trace := by
    have hnd := h.nodup_nilReturns.sublist hpaid
    intro hd
    exact (nodup_append.mp hnd).2.2 d hd d (mem_cons_self ..) rfl
  have hold : ∀ {r d'}, Event.invoked r d' ∈ L.trace ++ [.receipt d] →
      Event.invoked r d' ∈ L.trace := by
    simp
  have hset : settled [Event.receipt d] = [] := rfl
  refine ⟨fun r => ?_, fun r d' hd => h.invokedValid r d' (hold hd),
    fun r d' hd => h.future r d' (hold hd), ?_, ?_, fun r d' hd => ?_, ?_, ?_, ?_⟩
  · simpa [invokedIn, receivedIn] using h.order r
  · simpa [hset] using h.distinct
  · intro d' hd
    rw [settled_append, hset, append_nil] at hd
    exact h.known d' hd
  · rcases h.called r d' (hold hd) with ⟨o, ho⟩ | hcur
    · exact .inl ⟨o, mem_append_left _ ho⟩
    · exact .inr hcur
  · exact historic_concat.mpr ⟨h.serial, fun _ _ he => by cases he⟩
  · have hnil : nilReturns [Event.receipt d] = [] := rfl
    have hrec : receipts [Event.receipt d] = [d] := rfl
    rw [receipts_append, nilReturns_append, hnil, append_nil, append_assoc]
    exact hpaid
  · refine historic_concat.mpr ⟨h.earned, fun d' he => ?_⟩
    cases he
    exact ⟨mem_nilReturns.mp hmem, fun hr => hfresh (mem_receipts.mpr hr)⟩

/-- **Every move of the ledger keeps its guarantees.** -/
theorem Move.sound {L' : Ledger} (hm : Move valid L L') (h : Sound valid L) : Sound valid L' := by
  cases hm with
  | lose hline howed => exact sound_lose h hline howed
  | start hact => exact sound_start h hact
  | receive r st m => exact sound_receive h
  | strike hline he => exact sound_strike h hline he
  | invoke hline hv hact => exact sound_invoke h hline hv hact
  | finish hact => exact sound_finish h hact
  | pay howed => exact sound_pay h howed

end

end PowerManage.Client.Delivery
