import PowerManage.Client.Delivery

/-!
# Receipts are earned

Every step of the delivery pipeline is a move of the delivery ledger (`step_move`): the line of
the ledger is what stands in the worker's hand, the delivery queue, the dispatcher, `msgCh` and the
receive goroutine's hand, in that order; a receipt is owed while the send slot or the worker still
has it to send.  What the ledger guarantees therefore holds along every run of the client
(`receipts_earned`).

`Control` is the part of the argument that is about program points: while the loop dispatches, the
delivery channel is published and open, so the dispatcher's inline fallback is never taken; and no
`Run` starts while the worker of an earlier one is alive.
-/

namespace PowerManage.Client.Delivery

open Transition List Function

/-! ## The ledger of a client -/

@[simp] def Received.items : Received → List Item
  | .frame seq m => (itemOf seq m).toList
  | .failed => []

@[simp] def RecvPhase.items : RecvPhase → List Item
  | .holding r => r.items
  | _ => []

def Receiver.items (x : Receiver) : List Item :=
  (x.msgCh.elim [] Received.items) ++ x.phase.items

@[simp] def Main.items : Main → List Item
  | .dispatching seq m => (itemOf seq m).toList
  | _ => []

@[simp] def Worker.items : Worker → List Item
  | .holding d => [d]
  | _ => []

@[simp] def Worker.active : Worker → Option Item
  | .busy (.running d) => some d
  | _ => none

@[simp] def Worker.owed : Worker → List Item
  | .busy (.sending d) | .busy (.queued d) => [d]
  | _ => []

@[simp] def Slot.owed : Slot → List Item
  | .sending d => [d]
  | _ => []

/-- The client without its threads and channels. -/
def State.ledger (s : State) : Ledger where
  run := s.run
  line := s.worker.items ++ (s.queue ++ (s.main.items ++ (s.receivers s.run).items))
  active := s.worker.active
  owed := s.slot.owed ++ s.worker.owed
  nextSeq := s.nextSeq
  trace := s.trace

/-! ## Program points -/

@[simp] def Main.live : Main → Bool
  | .loop | .dispatching _ _ => true
  | _ => false

@[simp] def Main.workerless : Main → Bool
  | .idle | .hello | .close => true
  | _ => false

/-- What the program points of the goroutines say about each other. -/
structure Control (P : Config) (s : State) : Prop where
  notInline : ∀ r, s.main ≠ .inline r
  /-- While the loop runs the delivery channel is published, open and served. -/
  live : s.main.live = true → s.deliveryCh = true ∧ s.closed = false ∧ s.worker ≠ .exited
  workerless : s.main.workerless = true → s.worker = .exited
  drained : s.worker = .exited → s.queue = []
  connected : s.stream = none → s.main = .idle
  future : ∀ r, s.run < r → s.receivers r = ⟨.exited, none⟩
  accepted : ∀ d ∈ s.worker.items ++ s.queue, P.accepts d.msg = true

theorem control_init (P : Config) : Control P init where
  notInline r h := by cases h
  live h := by cases h
  workerless _ := rfl
  drained _ := rfl
  connected _ := rfl
  future _ _ := rfl
  accepted d h := by simp [init] at h

theorem Control.frame {P : Config} {s : State} (hc : Control P s) (c : Nat → Bool) (sl : Slot)
    (tr : List Event) : Control P { s with ctxDone := c, slot := sl, trace := tr } :=
  ⟨hc.notInline, hc.live, hc.workerless, hc.drained, hc.connected, hc.future, hc.accepted⟩

/-! ## Every step is a move -/

variable {valid : ManifestDelivery → Bool} {r : Nat}

section

variable {P : Config} {s t : State}

theorem move_of_sublist {L L' : Ledger} (hrun : L'.run = L.run) (hact : L'.active = L.active)
    (hseq : L'.nextSeq = L.nextSeq) (htr : L'.trace = L.trace) (hline : L'.line.Sublist L.line)
    (howed : L'.owed.Sublist L.owed) : Move valid L L' := by
  obtain ⟨run, line, active, owed, nextSeq, trace⟩ := L'
  subst hrun hact hseq htr
  exact Move.lose hline howed

theorem move_of_eq (h : t.ledger = s.ledger) : Move valid s.ledger t.ledger := by
  rw [h]
  exact Move.lose (Sublist.refl _) (Sublist.refl _)

theorem runCall_move (hc : Control P s) :
    Control P s.runCall ∧ Move P.accepts s.ledger s.runCall.ledger := by
  rw [State.runCall]
  split
  · exact ⟨hc, move_of_eq rfl⟩
  rename_i hstream
  have hidle : s.main = .idle := hc.connected (by simpa using hstream)
  have hexit : s.worker = .exited := hc.workerless (by rw [hidle]; rfl)
  refine ⟨⟨nofun, nofun, fun _ => hexit, hc.drained,
    nofun, fun r hr => hc.future r (Nat.lt_of_succ_lt hr), hc.accepted⟩, ?_⟩
  have hact : s.ledger.active = none := by simp [State.ledger, hexit]
  convert Move.start hact using 1
  simp [State.ledger, hexit, hc.drained hexit, hc.future _ (Nat.lt_succ_self s.run),
    Worker.items, Receiver.items]

theorem setup_move (hc : Control P s) (hm : s.main = .hello) :
    Control P s.setup ∧ Move P.accepts s.ledger s.setup.ledger := by
  have hexit : s.worker = .exited := hc.workerless (by rw [hm]; rfl)
  refine ⟨⟨nofun, fun _ => ⟨rfl, rfl, by simp [State.setup]⟩, nofun,
    nofun, fun h => ?_, fun r hr => ?_, fun d hd => ?_⟩, ?_⟩
  · exact absurd (hc.connected h) (by rw [hm]; simp)
  · exact (update_of_ne (ne_of_gt hr) _ _).trans (hc.future r hr)
  · simp [State.setup] at hd
  · refine move_of_sublist rfl ?_ rfl rfl ?_ ?_
    · simp [State.ledger, State.setup, hexit]
    · simp [State.ledger, State.setup, Receiver.items]
    · simp [State.ledger, State.setup]

theorem leave_move (hc : Control P s) (hm : s.main.live = true) {m : Main}
    (hm' : m = .unpublish ∨ m = .loop) (hempty : s.main.items = []) :
    Control P { s with main := m } ∧ Move P.accepts s.ledger { s with main := m }.ledger := by
  have hstream : s.stream ≠ none := by
    intro h
    rw [hc.connected h] at hm
    cases hm
  refine ⟨⟨?_, fun _ => hc.live hm, ?_, hc.drained, fun h => absurd h hstream, hc.future,
    hc.accepted⟩, move_of_eq ?_⟩
  · rcases hm' with rfl | rfl <;> nofun
  · rcases hm' with rfl | rfl <;> nofun
  · rw [State.ledger, State.ledger, hempty]
    rcases hm' with rfl | rfl <;> rfl

theorem setReceiver_control (hc : Control P s) {x : Receiver} (hr : r ≤ s.run) :
    Control P (s.setReceiver r x) :=
  ⟨hc.notInline, hc.live, hc.workerless, hc.drained, hc.connected,
    fun r' hr' => (update_of_ne (ne_of_gt (lt_of_le_of_lt hr hr')) _ _).trans
      (hc.future r' hr'), hc.accepted⟩

theorem le_run_of_phase (hc : Control P s) (h : (s.receivers r).phase ≠ .exited) : r ≤ s.run := by
  by_contra hlt
  rw [hc.future r (Nat.lt_of_not_le hlt)] at h
  exact h rfl

theorem setReceiver_move (hc : Control P s) {x : Receiver} (hr : r ≤ s.run)
    (hx : x.items.Sublist (s.receivers r).items) :
    Control P (s.setReceiver r x) ∧ Move P.accepts s.ledger (s.setReceiver r x).ledger := by
  refine ⟨setReceiver_control hc hr, move_of_sublist rfl rfl rfl rfl ?_ (Sublist.refl _)⟩
  refine Sublist.append_left (Sublist.append_left (Sublist.append_left ?_ _) _) _
  by_cases hrun : s.run = r
  · subst hrun
    simpa [State.setReceiver] using hx
  · simp [State.setReceiver, update_of_ne hrun]

theorem loopRecv_move (hc : Control P s) (h : step P s .loopRecv = some t) :
    Control P t ∧ Move P.accepts s.ledger t.ledger := by
  simp only [step] at h
  split at h
  · rename_i seq m hm hch
    cases h
    have hlive : s.main.live = true := by rw [hm]; rfl
    have hstream : s.stream ≠ none := fun h => by rw [hc.connected h] at hm; cases hm
    have hrec := setReceiver_control hc (x := ⟨(s.receivers s.run).phase, none⟩) (le_refl s.run)
    refine ⟨⟨nofun, fun _ => hc.live hlive, nofun, hc.drained, fun h => absurd h hstream,
      hrec.future, hc.accepted⟩, move_of_eq ?_⟩
    simp [State.ledger, State.setReceiver, hm, hch, Receiver.items]
  · rename_i hm hch
    cases h
    have hstream : s.stream ≠ none := fun h => by rw [hc.connected h] at hm; cases hm
    have hrec := setReceiver_control hc (x := ⟨(s.receivers s.run).phase, none⟩) (le_refl s.run)
    refine ⟨⟨nofun, nofun, nofun, hc.drained, fun h => absurd h hstream, hrec.future,
      hc.accepted⟩, move_of_eq ?_⟩
    simp [State.ledger, State.setReceiver, hm, hch, Receiver.items]
  · cases h

theorem itemOf_eq_some {seq : Nat} {m : ServerMessage} {d : ManifestDelivery}
    (h : m.payload = .manifestDelivery (some d)) : itemOf seq m = some ⟨seq, d⟩ := by
  rw [itemOf, h]

theorem dispatch_move (hc : Control P s) {o : Outcome} {seq : Nat} {m : ServerMessage}
    (hm : s.main = .dispatching seq m) :
    Control P (s.dispatch P o seq m) ∧ Move P.accepts s.ledger (s.dispatch P o seq m).ledger := by
  have hlive : s.main.live = true := by rw [hm]; rfl
  have hstream : s.stream ≠ none := fun h => by rw [hc.connected h] at hm; cases hm
  obtain ⟨hch, hopen, hserved⟩ := hc.live hlive
  -- leaving the dispatcher forgets whatever delivery the frame carried
  have hleave : ∀ m', m' = .unpublish ∨ m' = .loop →
      Control P { s with main := m' } ∧ Move P.accepts s.ledger { s with main := m' }.ledger := by
    intro m' hm'
    refine ⟨⟨?_, fun _ => hc.live hlive, ?_, hc.drained, fun h => absurd h hstream, hc.future,
      hc.accepted⟩, move_of_sublist rfl rfl rfl rfl ?_ (Sublist.refl _)⟩
    · rcases hm' with rfl | rfl <;> nofun
    · rcases hm' with rfl | rfl <;> nofun
    · refine Sublist.append_left (Sublist.append_left (Sublist.append_right ?_ _) _) _
      rcases hm' with rfl | rfl <;> exact nil_sublist _
  -- a delivery that is struck off the line with its loss on record
  have hstrike : ∀ (d : Item) (e : Event), s.main.items = [d] →
      (e = .refused d ∨ e = .dropped d ∨ e = .skipped d) →
      Control P { s.emit e with main := .loop } ∧
        Move P.accepts s.ledger { s.emit e with main := .loop }.ledger := by
    intro d e hd he
    refine ⟨⟨nofun, fun _ => hc.live hlive, nofun, hc.drained, fun h => absurd h hstream,
      hc.future, hc.accepted⟩, ?_⟩
    have hline : s.ledger.line
        = (s.worker.items ++ s.queue) ++ d :: (s.receivers s.run).items := by
      simp only [State.ledger, hd]
      simp
    convert Move.strike hline he using 1
    simp [State.ledger, State.emit]
  rw [State.dispatch]
  split
  · rename_i d harm
    have hd := dispatchServerMessage_eq_deliver.mp harm
    have hitems : s.main.items = [⟨seq, d⟩] := by rw [hm]; simp [itemOf_eq_some hd.1]
    rw [if_pos hch]
    split
    · refine ⟨⟨nofun, fun _ => hc.live hlive, nofun, fun h => absurd h hserved,
        fun h => absurd h hstream, hc.future, ?_⟩, move_of_eq ?_⟩
      · intro x hx
        rw [← append_assoc, mem_append] at hx
        rcases hx with hx | hx
        · exact hc.accepted x hx
        · cases mem_singleton.mp hx
          exact hd.2
      · simp only [State.ledger, hitems]
        simp
    · exact hstrike _ _ hitems (.inr (.inl rfl))
  · rename_i d harm
    obtain ⟨hpay, -⟩ := dispatchServerMessage_eq_refuse.mp harm
    exact hstrike _ _ (by rw [hm]; simp [itemOf_eq_some hpay]) (.inl rfl)
  · exact hleave _ (by split <;> simp)
  · exact hleave _ (by split <;> simp)
  · exact hleave _ (.inr rfl)
  · exact hleave _ (.inr rfl)
  · exact hleave _ (.inr rfl)
  · exact hleave _ (.inr rfl)

theorem Control.setBusy (hc : Control P s) {w : Worker} {sl : Slot} {tr : List Event} {r : Runner}
    (hw : s.worker = .busy r) (hw' : w = .idle ∨ ∃ r', w = .busy r') :
    Control P { s with worker := w, slot := sl, trace := tr } := by
  have hne : s.worker ≠ .exited := by rw [hw]; nofun
  have hne' : w ≠ .exited := by rcases hw' with rfl | ⟨r', rfl⟩ <;> nofun
  have hitems : w.items = [] := by rcases hw' with rfl | ⟨r', rfl⟩ <;> rfl
  refine ⟨hc.notInline, fun h => ⟨(hc.live h).1, (hc.live h).2.1, hne'⟩,
    fun h => absurd (hc.workerless h) hne, fun h => absurd h hne', hc.connected, hc.future, ?_⟩
  intro d hd
  rw [hitems] at hd
  exact hc.accepted d (mem_append_right _ hd)

theorem runManifestDelivery_move {r : Runner} {a : RunnerAct}
    (hw : s.worker = .busy r) {x : Option Runner × Slot × List Event}
    (h : s.runManifestDelivery s.workerDone r a = some x) :
    Move P.accepts s.ledger
      { s with
        worker := match x.1 with | some r' => .busy r' | none => .idle
        slot := x.2.1
        trace := s.trace ++ x.2.2 }.ledger := by
  cases a with
  | handlerReturns o =>
    cases r with
    | running d =>
      simp only [State.runManifestDelivery, Option.some.injEq] at h
      subst h
      have hact : s.ledger.active = some d := by simp [State.ledger, hw]
      convert Move.finish (o := o) hact using 1
      by_cases ho : o = .ok
      · simp [State.ledger, hw, ho]
      · simp [State.ledger, hw, ho]
    | sending d | queued d | awaiting d => cases h
  | checkSend =>
    cases r with
    | sending d =>
      simp only [State.runManifestDelivery, Option.some.injEq] at h
      subst h
      cases hb : s.stream.isNone || s.workerDone with
      | true =>
        refine move_of_sublist rfl ?_ rfl (append_nil _) ?_ ?_ <;> simp [State.ledger, hw]
      | false =>
        refine move_of_sublist rfl ?_ rfl (append_nil _) ?_ ?_ <;> simp [State.ledger, hw]
    | running d | queued d | awaiting d => cases h
  | acquire =>
    simp only [State.runManifestDelivery] at h
    split at h
    · rename_i d hslot
      cases h
      refine move_of_sublist rfl ?_ rfl (append_nil _) ?_ ?_ <;>
        simp [State.ledger, hw]
    · cases h
  | abandon =>
    have hrest : ∀ d, (r = .queued d ∨ r = .awaiting d) → x = (none, s.slot, []) →
        Move P.accepts s.ledger { s with
          worker := match x.1 with | some r' => .busy r' | none => .idle
          slot := x.2.1
          trace := s.trace ++ x.2.2 }.ledger := by
      rintro d (rfl | rfl) rfl
      · refine move_of_sublist rfl ?_ rfl (append_nil _) ?_ ?_ <;> simp [State.ledger, hw]
      · refine move_of_sublist rfl ?_ rfl (append_nil _) ?_ ?_ <;> simp [State.ledger, hw]
    cases r with
    | queued d | awaiting d =>
      simp only [State.runManifestDelivery] at h
      split at h
      · exact hrest d (by simp) (Option.some.inj h).symm
      · cases h
    | running d | sending d => cases h
  | result =>
    cases r with
    | awaiting d =>
      simp only [State.runManifestDelivery] at h
      split at h
      · cases h
      · cases h
        refine move_of_sublist rfl ?_ rfl (append_nil _) ?_ ?_ <;> simp [State.ledger, hw]
    | running d | sending d | queued d => cases h

theorem runner_move (hc : Control P s) {a : RunnerAct} {th : Thread}
    (h : s.runner a th = some t) : Control P t ∧ Move P.accepts s.ledger t.ledger := by
  cases th with
  | worker =>
    simp only [State.runner] at h
    split at h
    · rename_i r hw
      obtain ⟨x, hx, rfl⟩ := Option.map_eq_some_iff.mp h
      refine ⟨hc.setBusy hw ?_, runManifestDelivery_move hw hx⟩
      split
      · exact .inr ⟨_, rfl⟩
      · exact .inl rfl
    · cases h
  | main =>
    simp only [State.runner] at h
    split at h
    · rename_i r hm
      exact absurd hm (hc.notInline r)
    · cases h

theorem teardown_move (hc : Control P s) (h : s.teardown = some t) :
    Control P t ∧ Move P.accepts s.ledger t.ledger := by
  have hledger : ∀ {m : Main} {s' : State}, s.main.items = [] → m.items = [] →
      s'.ledger = { s.ledger with
        line := s.worker.items ++ (s.queue ++ (m.items ++ (s.receivers s.run).items)) } →
      s'.ledger = s.ledger := by
    intro m s' h1 h2 h3
    rw [h3, h2]
    simp only [State.ledger, h1]
  simp only [State.teardown] at h
  split at h
  · rename_i hm
    cases h
    refine ⟨⟨nofun, nofun, nofun, hc.drained, fun h => ?_, hc.future, hc.accepted⟩,
      move_of_eq (hledger (m := .cancelWorker) (by rw [hm]; rfl) rfl rfl)⟩
    rw [hc.connected h] at hm
    cases hm
  · rename_i hm
    cases h
    refine ⟨⟨nofun, nofun, nofun, hc.drained, fun h => ?_, hc.future, hc.accepted⟩,
      move_of_eq (hledger (m := .closeQueue) (by rw [hm]; rfl) rfl rfl)⟩
    rw [hc.connected h] at hm
    cases hm
  · rename_i hm
    cases h
    refine ⟨⟨nofun, nofun, nofun, hc.drained, fun h => ?_, hc.future, hc.accepted⟩,
      move_of_eq (hledger (m := .wait) (by rw [hm]; rfl) rfl rfl)⟩
    rw [hc.connected h] at hm
    cases hm
  · rename_i hm
    split at h
    · rename_i hw
      cases h
      refine ⟨⟨nofun, nofun, fun _ => hw, hc.drained, fun h => ?_, hc.future, hc.accepted⟩,
        move_of_eq (hledger (m := .close) (by rw [hm]; rfl) rfl rfl)⟩
      rw [hc.connected h] at hm
      cases hm
    · cases h
  · rename_i hm
    cases h
    exact ⟨⟨nofun, nofun, fun _ => hc.workerless (by rw [hm]; rfl), hc.drained, fun _ => rfl,
      hc.future, hc.accepted⟩, move_of_eq (hledger (m := .idle) (by rw [hm]; rfl) rfl rfl)⟩
  · cases h

theorem workerTake_move (hc : Control P s) (h : step P s .workerTake = some t) :
    Control P t ∧ Move P.accepts s.ledger t.ledger := by
  simp only [step] at h
  split at h
  · rename_i d q hw hq
    cases h
    refine ⟨⟨hc.notInline, fun h => ⟨(hc.live h).1, (hc.live h).2.1, nofun⟩, fun h => ?_, nofun,
      hc.connected, hc.future, fun x hx => hc.accepted x ?_⟩, move_of_eq ?_⟩
    · rw [hc.workerless h] at hw
      cases hw
    · rw [hw, hq]
      exact hx
    · simp [State.ledger, hw, hq]
  · cases h

theorem workerCheck_move (hc : Control P s) (h : step P s .workerCheck = some t) :
    Control P t ∧ Move P.accepts s.ledger t.ledger := by
  simp only [step] at h
  split at h
  · rename_i d hw
    have hnot : s.main.workerless ≠ true := by
      intro hm
      rw [hc.workerless hm] at hw
      cases hw
    have hqueue : ∀ x ∈ s.queue, P.accepts x.msg = true := fun x hx =>
      hc.accepted x (mem_append_right _ hx)
    split at h
    · cases h
      refine ⟨⟨hc.notInline, fun h => ⟨(hc.live h).1, (hc.live h).2.1, by rintro ⟨⟩⟩,
        fun h => absurd h hnot, by rintro ⟨⟩, hc.connected, hc.future, fun x hx => hqueue x hx⟩, ?_⟩
      have hline : s.ledger.line
          = [] ++ d :: (s.queue ++ (s.main.items ++ (s.receivers s.run).items)) := by
        simp only [State.ledger, hw]
        rfl
      convert Move.strike hline (.inr (.inr rfl)) using 1
      simp [State.ledger, State.emit, hw]
    · cases h
      refine ⟨⟨hc.notInline, fun h => ⟨(hc.live h).1, (hc.live h).2.1, by rintro ⟨⟩⟩,
        fun h => absurd h hnot, by rintro ⟨⟩, hc.connected, hc.future, fun x hx => hqueue x hx⟩, ?_⟩
      have hline : s.ledger.line
          = d :: (s.queue ++ (s.main.items ++ (s.receivers s.run).items)) := by
        simp only [State.ledger, hw]
        rfl
      have hact : s.ledger.active = none := by simp [State.ledger, hw]
      have hv : P.accepts d.msg = true := hc.accepted d (by rw [hw]; exact mem_cons_self ..)
      convert Move.invoke hline hv hact using 1
      simp [State.ledger, State.emit, hw]
  · cases h

theorem workerExit_move (hc : Control P s) (h : step P s .workerExit = some t) :
    Control P t ∧ Move P.accepts s.ledger t.ledger := by
  simp only [step] at h
  split at h
  · rename_i hw
    obtain ⟨hw, hq, hclosed⟩ := hw
    cases h
    refine ⟨⟨hc.notInline, fun h => ?_, fun _ => rfl, fun _ => hq, hc.connected, hc.future,
      fun x hx => hc.accepted x (mem_append_right _ hx)⟩, move_of_eq ?_⟩
    · rw [(hc.live h).2.1] at hclosed
      cases hclosed
    · simp [State.ledger, hw]
  · cases h

theorem receive_move (hc : Control P s) {st : Nat} {res : Option ServerMessage}
    (hp : (s.receivers r).phase = .receiving st) :
    Control P (s.receive r st res) ∧ Move P.accepts s.ledger (s.receive r st res).ledger := by
  have hr : r ≤ s.run := le_run_of_phase hc (by rw [hp]; nofun)
  cases res with
  | none =>
    refine setReceiver_move hc hr ?_
    simp [Receiver.items]
  | some m =>
    have hrec := setReceiver_control hc
      (x := ⟨.holding (.frame s.nextSeq m), (s.receivers r).msgCh⟩) hr
    refine ⟨⟨hc.notInline, hc.live, hc.workerless, hc.drained, hc.connected, hrec.future,
      hc.accepted⟩, ?_⟩
    convert Move.receive r st m using 1
    by_cases hrun : r = s.run
    · subst hrun
      simp [State.ledger, State.receive, State.setReceiver, State.emit, Receiver.items, hp]
    · simp [State.ledger, State.receive, State.setReceiver, State.emit, hrun,
        update_of_ne (Ne.symm hrun)]

theorem slotSend_move (hc : Control P s) (h : step P s .slotSend = some t) :
    Control P t ∧ Move P.accepts s.ledger t.ledger := by
  simp only [step] at h
  split at h
  · rename_i d hslot
    cases h
    refine ⟨hc.frame _ _ _, ?_⟩
    have howed : s.ledger.owed = d :: s.worker.owed := by
      simp only [State.ledger, hslot]
      rfl
    convert Move.pay howed using 1
    simp [State.ledger, State.emit]
  · cases h

/-- **Every step of the client is a move of its ledger**, and keeps its program points in order. -/
theorem step_move {a : Action} (hc : Control P s) (h : step P s a = some t) :
    Control P t ∧ Move P.accepts s.ledger t.ledger := by
  cases a with
  | runCall => cases h; exact runCall_move hc
  | cancel r =>
    cases h
    exact ⟨hc.frame _ _ _, move_of_eq rfl⟩
  | helloOk =>
    simp only [step] at h
    split at h
    · rename_i hm; cases h; exact setup_move hc hm
    · cases h
  | helloFail =>
    simp only [step] at h
    split at h
    · rename_i hm
      cases h
      refine ⟨⟨by rintro r ⟨⟩, by rintro ⟨⟩, fun _ => hc.workerless (by rw [hm]; rfl), hc.drained, fun h => ?_,
        hc.future, hc.accepted⟩, move_of_eq ?_⟩
      · rw [hc.connected h] at hm
        cases hm
      · simp only [State.ledger, hm]
        rfl
    · cases h
  | loopDone =>
    simp only [step] at h
    split at h
    · rename_i hm
      cases h
      exact leave_move hc (by rw [hm.1]; rfl) (.inl rfl) (by rw [hm.1]; rfl)
    · cases h
  | loopRecv => exact loopRecv_move hc h
  | dispatch o =>
    simp only [step] at h
    split at h
    · rename_i seq m hm; cases h; exact dispatch_move hc hm
    · cases h
  | runner th a => exact runner_move hc h
  | teardown => exact teardown_move hc h
  | workerTake => exact workerTake_move hc h
  | workerCheck => exact workerCheck_move hc h
  | workerExit => exact workerExit_move hc h
  | receiveCall r =>
    simp only [step] at h
    split at h
    · rename_i hp
      cases h
      refine setReceiver_move hc (le_run_of_phase hc (by rw [hp]; rintro ⟨⟩)) ?_
      split <;> simp [Receiver.items]
    · cases h
  | receive r res =>
    simp only [step] at h
    split at h
    · rename_i st hp; cases h; exact receive_move hc hp
    · cases h
  | push r =>
    simp only [step] at h
    split at h
    · rename_i x hp hch
      cases h
      refine setReceiver_move hc (le_run_of_phase hc (by rw [hp]; rintro ⟨⟩)) ?_
      split <;> simp [Receiver.items, hp]
    · cases h
  | quit r =>
    simp only [step] at h
    split at h
    · rename_i x hp
      split at h
      · cases h
        refine setReceiver_move hc (le_run_of_phase hc (by rw [hp]; rintro ⟨⟩)) ?_
        simp [Receiver.items]
      · cases h
    · cases h
  | slotSend => exact slotSend_move hc h
  | slotRelease =>
    simp only [step] at h
    split at h
    · rename_i d hslot
      cases h
      exact ⟨hc.frame _ _ _, move_of_eq (by simp [State.ledger, hslot])⟩
    · rename_i hslot
      cases h
      exact ⟨hc.frame _ _ _, move_of_eq (by simp [State.ledger, hslot])⟩
    · cases h
  | slotOther =>
    simp only [step] at h
    split at h
    · rename_i hslot
      cases h
      exact ⟨hc.frame _ _ _, move_of_eq (by simp [State.ledger, hslot])⟩
    · cases h

/-! ## Whole runs -/

theorem exec_sound {as : List Action} (h : exec (step P) init as = some s) :
    Sound P.accepts s.ledger := by
  have hinv : Control P s ∧ Sound P.accepts s.ledger := by
    refine exec_induction (I := fun s => Control P s ∧ Sound P.accepts s.ledger) ?_ h
      ⟨control_init P, sound_init P.accepts⟩
    rintro s a t hst ⟨hc, hs⟩
    obtain ⟨hc', hmove⟩ := step_move hc hst
    exact ⟨hc', hmove.sound hs⟩
  exact hinv.2

/-- A receipted delivery has come back from the handler with nil, and that is all that became of it.
-/
theorem settled_once {L : Ledger} (h : Sound valid L) {d : Item} (hd : Event.receipt d ∈ L.trace)
    {e : Event} (he : e ∈ L.trace) (hed : d ∈ settled [e]) : ∃ r, e = .returned r d .ok := by
  have hpaid := (sublist_append_left _ _).trans h.paid
  obtain ⟨r, hr⟩ := mem_nilReturns.mp (hpaid.subset (mem_receipts.mpr hd))
  refine ⟨r, ?_⟩
  obtain ⟨e', he', hread⟩ := mem_filterMap.mp hed
  rw [mem_singleton] at he'
  subst he'
  exact eq_of_nodup_filterMap (nodup_append.mp h.distinct).1 he hr hread rfl

/-- **Delivery receipts are never forged, duplicated or reordered.** In every run a receipt comes
after a nil return of the handler for that very delivery, at most once and in the order of those
returns; the handler is called with one delivery at a time, in the order received; and what was
refused, dropped, skipped or failed is never receipted. -/
theorem receipts_earned (P : Config) (as : List Action) (s : State)
    (h : exec (step P) init as = some s) :
    (∀ pre post d, s.trace = pre ++ .receipt d :: post →
      (∃ r, .returned r d .ok ∈ pre) ∧ .receipt d ∉ pre) ∧
    (nilReturns s.trace).Nodup ∧
    (receipts s.trace).Sublist (nilReturns s.trace) ∧
    (∀ pre post r d, s.trace = pre ++ .invoked r d :: post →
      ∀ r' d', .invoked r' d' ∈ pre → ∃ o, .returned r' d' o ∈ pre) ∧
    (∀ r, (invokedIn r s.trace).Sublist
      ((receivedIn r s.trace).filter fun d => P.valid (.manifestDelivery (some d.msg)))) ∧
    (∀ d, (.refused d ∈ s.trace ∨ .dropped d ∈ s.trace ∨ .skipped d ∈ s.trace ∨
        (∃ r, .returned r d .error ∈ s.trace) ∨ (∃ r, .returned r d .panic ∈ s.trace)) →
      .receipt d ∉ s.trace) := by
  have hs := exec_sound h
  refine ⟨fun pre post d htr => hs.earned pre _ post htr d rfl, hs.nodup_nilReturns,
    (sublist_append_left _ _).trans hs.paid,
    fun pre post r d htr => hs.serial pre _ post htr r d rfl, fun r => ?_, ?_⟩
  · have hvalid : (invokedIn r s.trace).filter (fun d => P.accepts d.msg) = invokedIn r s.trace := by
      rw [filter_eq_self]
      intro d hd
      obtain ⟨e, he, hread⟩ := mem_filterMap.mp hd
      split at hread
      · split at hread
        · cases hread; exact hs.invokedValid _ _ he
        · cases hread
      · cases hread
    have hsub := (sublist_append_left (invokedIn r s.trace) _).trans (hs.order r)
    exact hvalid ▸ hsub.filter _
  · rintro d hlost hd
    have honce := fun {e} => settled_once (e := e) hs hd
    rcases hlost with he | he | he | ⟨r, he⟩ | ⟨r, he⟩ <;>
      · obtain ⟨r, hr⟩ := honce he (by simp [settled])
        cases hr

def receiptRun : List Action :=
  [.runCall, .helloOk, .receiveCall 1,
    .receive 1 (some ⟨"m1", .manifestDelivery (some ⟨"d1", "manifest"⟩)⟩), .push 1, .loopRecv,
    .dispatch .ok, .workerTake, .workerCheck, .runner .worker (.handlerReturns .ok),
    .runner .worker .checkSend, .runner .worker .acquire, .slotSend]

theorem receiptRun_trace :
    (exec (step .permissive) init receiptRun).map State.trace =
      some [.received 1 1 0 ⟨"m1", .manifestDelivery (some ⟨"d1", "manifest"⟩)⟩,
        .invoked 1 ⟨0, ⟨"d1", "manifest"⟩⟩, .returned 1 ⟨0, ⟨"d1", "manifest"⟩⟩ .ok,
        .receipt ⟨0, ⟨"d1", "manifest"⟩⟩] := by
  decide +kernel

/-- A delivery that is handled. -/
theorem receipts_earned_run :
    ∃ s, exec (step .permissive) init receiptRun = some s ∧
      receipts s.trace = [⟨0, ⟨"d1", "manifest"⟩⟩] ∧
      (receipts s.trace).Sublist (nilReturns s.trace) := by
  obtain ⟨s, hs, htr⟩ := Option.map_eq_some_iff.mp receiptRun_trace
  exact ⟨s, hs, htr ▸ rfl, (receipts_earned _ receiptRun s hs).2.2.1⟩

end

end PowerManage.Client.Delivery
