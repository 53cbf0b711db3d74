import PowerManage.Client.Ledger

/-!
# The delivery pipeline of the agent client

`Client.Run` is four goroutines around two channels.  The receive goroutine reads the stream and
pushes into `msgCh` (capacity one); the loop takes from `msgCh` and dispatches; a valid manifest
delivery goes into `deliveryCh` (capacity `deliveryQueueDepth`); the single delivery worker takes
from there, calls the handler, and — only on a nil return — sends the receipt through the client's
send slot, whose holder is a goroutine of its own that outlives a send abandoned on its context.

`step` is one atomic step of any of these, for any number of `Run` calls on one client one after
the other.  A `Run` that ends leaves its receive goroutine behind until that notices; the model
keeps the receive goroutine of every `Run` (`receivers`), because a stale one may still be holding
a message.  `Connect` refuses while a stream is set, and the stream is cleared by the last deferred
call of `Run`, so two `Run`s never overlap: a second call is the step that changes nothing.

What the client did is recorded in `trace`; `PowerManage.Client.Receipts` shows that every step is a
move of the delivery ledger.
-/

namespace PowerManage.Client.Delivery

def deliveryQueueDepth : Nat := 256

/-- What the receive goroutine puts into its channel. -/
inductive Received
  | frame (seq : Nat) (m : ServerMessage)
  | failed
deriving DecidableEq

/-- Where the receive goroutine is. -/
inductive RecvPhase
  | idle
  | receiving (stream : Nat)
  | holding (r : Received)
  | exited
deriving DecidableEq

/-- The receive goroutine of a run and its channel of one place. -/
structure Receiver where
  phase : RecvPhase
  msgCh : Option Received
deriving DecidableEq

/-- Where `runManifestDelivery` is with a delivery. -/
inductive Runner
  | running (d : Item)
  | sending (d : Item)
  | queued (d : Item)
  | awaiting (d : Item)
deriving DecidableEq

/-- Where the delivery worker is. -/
inductive Worker
  | idle
  | holding (d : Item)
  | busy (r : Runner)
  | exited
deriving DecidableEq

/-- Where the loop of `Run` is. -/
inductive Main
  | idle
  | hello
  | loop
  | dispatching (seq : Nat) (m : ServerMessage)
  /-- The fallback of the dispatcher: `runManifestDelivery` called on the loop. -/
  | inline (r : Runner)
  /-- Leaving `Run`: about to clear `c.deliveryCh`. -/
  | unpublish
  | cancelWorker
  | closeQueue
  | wait
  | close
deriving DecidableEq

/-- What holds the place of `sendSem`. -/
inductive Slot
  | free
  | sending (d : Item)
  | sent (d : Item)
  | other
deriving DecidableEq

/-- A client over all of its runs. -/
structure State where
  /-- `c.stream`, named by the run whose `Connect` opened it. -/
  stream : Option Nat
  run : Nat
  main : Main
  ctxDone : Nat → Bool
  /-- `cancelWorker` was called in the current run. -/
  workerCancelled : Bool
  deliveryCh : Bool
  /-- The contents of the current run's delivery channel. -/
  queue : List Item
  closed : Bool
  worker : Worker
  receivers : Nat → Receiver
  slot : Slot
  nextSeq : Nat
  trace : List Event

def init : State where
  stream := none
  run := 0
  main := .idle
  ctxDone := fun _ => false
  workerCancelled := false
  deliveryCh := false
  queue := []
  closed := false
  worker := .exited
  receivers := fun _ => ⟨.exited, none⟩
  slot := .free
  nextSeq := 0
  trace := []

/-- Who may be running a delivery. -/
inductive Thread
  | worker
  | main
deriving DecidableEq

/-- The steps of `runManifestDelivery` and of the `send` it ends in. -/
inductive RunnerAct
  | handlerReturns (o : Outcome)
  /-- `send` reads the stream and the context before it queues for the slot. -/
  | checkSend
  | acquire
  /-- The context is done while waiting for the slot or for the result. -/
  | abandon
  | result
deriving DecidableEq

/-- A step of the client, of the server or of a context. -/
inductive Action
  | runCall
  | cancel (run : Nat)
  | helloOk
  | helloFail
  /-- The loop takes its `ctx.Done()` branch. -/
  | loopDone
  | loopRecv
  /-- The dispatcher handles the message; `o` is how a handler call it makes ends. -/
  | dispatch (o : Outcome)
  | runner (t : Thread) (a : RunnerAct)
  /-- The next deferred call of `Run`. -/
  | teardown
  | workerTake
  /-- The worker looks at its context and skips the delivery or calls the handler. -/
  | workerCheck
  | workerExit
  | receiveCall (run : Nat)
  /-- Its `stream.Receive` comes back with a message or an error. -/
  | receive (run : Nat) (res : Option ServerMessage)
  | push (run : Nat)
  | quit (run : Nat)
  | slotSend
  | slotRelease
  | slotOther
deriving DecidableEq

namespace State

variable (s : State)

/-- `workerCtx.Err() != nil`: the run's context is done, or the worker was cancelled. -/
def workerDone : Bool := s.ctxDone s.run || s.workerCancelled

def emit (e : Event) : State := { s with trace := s.trace ++ [e] }

def setReceiver (r : Nat) (x : Receiver) : State :=
  { s with receivers := Function.update s.receivers r x }

/-- `Run` up to the point where the stream is connected. -/
def runCall : State :=
  if s.stream.isSome then s
  else { s with stream := some (s.run + 1), run := s.run + 1, main := .hello }

/-- The hello went out: `Run` publishes its channels and starts its goroutines. -/
def setup : State :=
  { s with
    main := .loop
    workerCancelled := false
    deliveryCh := true
    queue := []
    closed := false
    worker := .idle
    receivers := Function.update s.receivers s.run ⟨.idle, none⟩ }

/-- What the loop does with a message. -/
def dispatch (P : Config) (o : Outcome) (s : State) (seq : Nat) (m : ServerMessage) : State :=
  match dispatchServerMessage P.valid P.handler m with
  | .deliver d =>
    if s.deliveryCh then
      if s.queue.length < deliveryQueueDepth then
        { s with queue := s.queue ++ [⟨seq, d⟩], main := .loop }
      else { s.emit (.dropped ⟨seq, d⟩) with main := .loop }
    else { s.emit (.invoked s.run ⟨seq, d⟩) with main := .inline (.running ⟨seq, d⟩) }
  | .refuse d => { s.emit (.refused ⟨seq, d⟩) with main := .loop }
  | .call | .correlateError =>
    -- a handler error is fatal to the stream, a handler panic is recovered
    { s with main := if o = .error then .unpublish else .loop }
  | .drop | .ignore | .spawn | .correlate => { s with main := .loop }

/-- From phase `r` on goroutine `t`: the next phase (`none` when it returns), the send slot, and
what it did. -/
def runManifestDelivery (done : Bool) (r : Runner) :
    RunnerAct → Option (Option Runner × Slot × List Event)
  | .handlerReturns o =>
    match r with
    | .running d =>
      some (if o = .ok then some (.sending d) else none, s.slot, [.returned s.run d o])
    | _ => none
  | .checkSend =>
    match r with
    | .sending d =>
      some (if s.stream.isNone || done then none else some (.queued d), s.slot, [])
    | _ => none
  | .acquire =>
    match r, s.slot with
    | .queued d, .free => some (some (.awaiting d), .sending d, [])
    | _, _ => none
  | .abandon =>
    match r with
    | .queued _ | .awaiting _ => if done then some (none, s.slot, []) else none
    | _ => none
  | .result =>
    match r with
    | .awaiting d =>
      if s.slot = .sending d ∨ s.slot = .sent d then none else some (none, s.slot, [])
    | _ => none

/-- One step of `runManifestDelivery` on the given goroutine. -/
def runner (a : RunnerAct) : Thread → Option State
  | .worker =>
    match s.worker with
    | .busy r =>
      (s.runManifestDelivery s.workerDone r a).map fun x =>
        { s with
          worker := match x.1 with | some r' => .busy r' | none => .idle
          slot := x.2.1
          trace := s.trace ++ x.2.2 }
    | _ => none
  | .main =>
    match s.main with
    | .inline r =>
      (s.runManifestDelivery (s.ctxDone s.run) r a).map fun x =>
        { s with
          main := match x.1 with | some r' => .inline r' | none => .loop
          slot := x.2.1
          trace := s.trace ++ x.2.2 }
    | _ => none

/-- The deferred calls of `Run`, last one first. -/
def teardown : Option State :=
  match s.main with
  | .unpublish => some { s with deliveryCh := false, main := .cancelWorker }
  | .cancelWorker => some { s with workerCancelled := true, main := .closeQueue }
  | .closeQueue => some { s with closed := true, main := .wait }
  | .wait => if s.worker = .exited then some { s with main := .close } else none
  | .close => some { s with stream := none, main := .idle }
  | _ => none

/-- `Receive` reads whatever stream the client has now. -/
def receiveCall (r : Nat) : State :=
  s.setReceiver r
    ⟨match s.stream with | some st => .receiving st | none => .holding .failed,
      (s.receivers r).msgCh⟩

/-- `stream.Receive` comes back in the receive goroutine of run `r`. -/
def receive (r st : Nat) : Option ServerMessage → State
  | some m =>
    { (s.setReceiver r ⟨.holding (.frame s.nextSeq m), (s.receivers r).msgCh⟩).emit
        (.received r st s.nextSeq m) with nextSeq := s.nextSeq + 1 }
  | none => s.setReceiver r ⟨.holding .failed, (s.receivers r).msgCh⟩

end State

open State in
/-- One action; `none` if it cannot happen now. -/
def step (P : Config) (s : State) : Action → Option State
  | .runCall => some s.runCall
  | .cancel r => some { s with ctxDone := Function.update s.ctxDone r true }
  | .helloOk => if s.main = .hello then some s.setup else none
  | .helloFail => if s.main = .hello then some { s with main := .close } else none
  | .loopDone =>
    if s.main = .loop ∧ s.ctxDone s.run = true then some { s with main := .unpublish } else none
  | .loopRecv =>
    match s.main, (s.receivers s.run).msgCh with
    | .loop, some (.frame seq m) =>
      some { s.setReceiver s.run ⟨(s.receivers s.run).phase, none⟩ with
        main := .dispatching seq m }
    | .loop, some .failed =>
      some { s.setReceiver s.run ⟨(s.receivers s.run).phase, none⟩ with main := .unpublish }
    | _, _ => none
  | .dispatch o =>
    match s.main with
    | .dispatching seq m => some (s.dispatch P o seq m)
    | _ => none
  | .runner t a => s.runner a t
  | .teardown => s.teardown
  | .workerTake =>
    match s.worker, s.queue with
    | .idle, d :: q => some { s with worker := .holding d, queue := q }
    | _, _ => none
  | .workerCheck =>
    match s.worker with
    | .holding d =>
      if s.workerDone then some { s.emit (.skipped d) with worker := .idle }
      else some { s.emit (.invoked s.run d) with worker := .busy (.running d) }
    | _ => none
  | .workerExit =>
    if s.worker = .idle ∧ s.queue = [] ∧ s.closed = true then some { s with worker := .exited }
    else none
  | .receiveCall r => if (s.receivers r).phase = .idle then some (s.receiveCall r) else none
  | .receive r res =>
    match (s.receivers r).phase with
    | .receiving st => some (s.receive r st res)
    | _ => none
  | .push r =>
    match (s.receivers r).phase, (s.receivers r).msgCh with
    | .holding x, none =>
      some (s.setReceiver r ⟨if x = .failed then .exited else .idle, some x⟩)
    | _, _ => none
  | .quit r =>
    match (s.receivers r).phase with
    | .holding _ =>
      if s.ctxDone r then some (s.setReceiver r ⟨.exited, (s.receivers r).msgCh⟩) else none
    | _ => none
  | .slotSend =>
    match s.slot with
    | .sending d => some { s.emit (.receipt d) with slot := .sent d }
    | _ => none
  | .slotRelease =>
    match s.slot with
    | .sent _ | .other => some { s with slot := .free }
    | _ => none
  | .slotOther => if s.slot = .free then some { s with slot := .other } else none

end PowerManage.Client.Delivery
