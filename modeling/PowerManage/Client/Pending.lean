import PowerManage.Client.Message

/-!
# Correlated requests on the agent stream

Five methods of the client put a request on the stream and block until the message with the same
id comes back: `GetLuksKey`, `StoreLuksKey`, `StoreLpsPasswords`, `ValidateLuksToken` and `Sync`.
Each registers a channel of capacity one under a fresh id, sends, waits, and unregisters on the way
out.  Whoever reads the stream — the loop of `Run` or the goroutine of `StartReceiver` — hands a
message to the channel registered under its id (`deliverPending`); `Close` closes every registered
channel and forgets the stream.

The model is at the granularity of the source's synchronisation: taking and releasing `pendingMu`,
sending on, receiving from and closing a channel, and reading or writing `c.stream` under `c.mu`
are steps of their own, in any order between any number of callers, readers of the stream, and
calls of `Close` and `Connect`.  A request is named by its id, ids being unique; how long a `send`
takes and how it ends is up to the schedule.  `PowerManage.Client.Correlation` is about its runs.
-/

namespace PowerManage.Client.Pending

/-! ## What a caller makes of its answer -/

def responseName : ResponseKind → String
  | .syncState => "SyncState"
  | .getLuksKey => "GetLuksKey"
  | .storeLuksKey => "StoreLuksKey"
  | .storeLpsPasswords => "StoreLpsPasswords"
  | .validateLuksToken => "ValidateLuksToken"

def sendErrorText : ResponseKind → String
  | .syncState => "send sync request: "
  | .getLuksKey => "send get luks key request: "
  | .storeLuksKey => "send store luks key request: "
  | .storeLpsPasswords => "send store lps passwords request: "
  | .validateLuksToken => "send validate luks token request: "

/-- What a request returns. -/
inductive Result
  | response (r : Response)
  | failure (err : String)
deriving DecidableEq

variable (P : Config)

/-- The last check of a response: the two store methods read `Success`, the others run the
validator. -/
def accept (k : ResponseKind) (r : Response) : Result :=
  match k with
  | .storeLuksKey => if r.success then .response r else .failure "server rejected key storage"
  | .storeLpsPasswords =>
    if r.success then .response r else .failure "server rejected LPS password storage"
  | .getLuksKey | .validateLuksToken | .syncState =>
    if P.valid (.response k (some r)) then .response r
    else
      .failure ("invalid " ++ responseName k ++ " response: " ++
        P.validateError (.response k (some r)))

/-- What a method makes of what it takes from its channel; `none` is the closed channel. -/
def decode (k : ResponseKind) : Option ServerMessage → Result
  | none => .failure ("stream closed while waiting for " ++ responseName k ++ " response")
  | some m =>
    match m.payload with
    | .error (some e) => .failure ("server error: " ++ e)
    | .response k' (some r) =>
      if k' = k then accept P k r else .failure "unexpected response type"
    | _ => .failure "unexpected response type"

/-! ## The state -/

/-- A message as one read of the stream returned it; `seq` tells two reads apart. -/
structure Frame where
  seq : Nat
  msg : ServerMessage
deriving DecidableEq

/-- The channel of a request, with one place. -/
structure Chan where
  buf : Option Frame
  closed : Bool
deriving DecidableEq

/-- Where the caller of a request is. -/
inductive Phase
  | fresh
  | registering
  | inRegister
  | registered
  | sending (stream : Nat)
  | waiting (stream : Nat)
  | leaving (r : Result)
  | inUnregister (r : Result)
  | returned (r : Result)
deriving DecidableEq

/-- One call of a request method. -/
structure Request where
  method : ResponseKind
  phase : Phase
deriving DecidableEq

/-- Which receive loop has the frame. -/
inductive Source
  | run
  | startReceiver
deriving DecidableEq

/-- Where a receive loop is with a frame. -/
inductive Deliverer
  | idle
  | delivering (src : Source) (f : Frame)
  | lookingUp (src : Source) (f : Frame)
  /-- `pendingMu` is released; `found` is what the map said. -/
  | lookedUp (src : Source) (f : Frame) (found : Bool)
deriving DecidableEq

/-- Where `Close` is. -/
inductive Closer
  | idle
  | entered
  /-- Holds `pendingMu` as well, and is walking the map. -/
  | cancelling
  /-- Released `pendingMu`; about to forget the stream. -/
  | closing
deriving DecidableEq

/-- What becomes of a response frame. -/
inductive Event
  | lookup (f : Frame) (found : Bool)
  /-- Sent into the channel registered under `id`. -/
  | handed (id : String) (f : Frame)
  | dropped (f : Frame)
  | sendOnClosed (src : Source) (f : Frame)
  | onError (f : Frame)
deriving DecidableEq

/-- The map of pending requests, its lock, and all who use it. -/
structure State where
  /-- `c.stream`; streams are numbered in the order `Connect` opens them. -/
  stream : Option Nat
  nextStream : Nat
  closer : Closer
  pendingMu : Bool
  pendingRequests : Finset String
  chan : String → Chan
  requests : String → Request
  deliverers : Nat → Deliverer
  nextSeq : Nat
  crashed : Bool
  trace : List Event

def init : State where
  stream := none
  nextStream := 0
  closer := .idle
  pendingMu := false
  pendingRequests := ∅
  chan := fun _ => ⟨none, false⟩
  requests := fun _ => ⟨.syncState, .fresh⟩
  deliverers := fun _ => .idle
  nextSeq := 0
  crashed := false
  trace := []

/-! ## Steps -/

/-- The steps of a request. -/
inductive CallerAct
  /-- The method is called; `rotations` is the length of the batch of `StoreLpsPasswords`. -/
  | start (k : ResponseKind) (rotations : Nat)
  | lockRegister
  | unlockRegister
  | readStream
  | sent
  | sendFails (err : String)
  /-- The `select` takes its channel branch. -/
  | take
  /-- The `select` takes its context branch. -/
  | ctxDone (err : String)
  | lockUnregister
  | unlockUnregister
deriving DecidableEq

/-- The steps of a receive loop. -/
inductive DelivererAct
  | receive (src : Source) (m : ServerMessage)
  | lock
  | unlock
  | deliver
deriving DecidableEq

/-- The steps of `Close`. -/
inductive CloserAct
  | enter
  | lock
  | cancel (id : String)
  | unlock
  | done
deriving DecidableEq

/-- Whose step it is. -/
inductive Action
  | caller (id : String) (a : CallerAct)
  | deliverer (n : Nat) (a : DelivererAct)
  | closer (a : CloserAct)
  | connect
deriving DecidableEq

namespace State

variable (s : State)

def setPhase (id : String) (p : Phase) : State :=
  { s with requests := Function.update s.requests id ⟨(s.requests id).method, p⟩ }

def setDeliverer (n : Nat) (d : Deliverer) : State :=
  { s with deliverers := Function.update s.deliverers n d }

def setChan (id : String) (c : Chan) : State :=
  { s with chan := Function.update s.chan id c }

def emit (e : Event) : State := { s with trace := s.trace ++ [e] }

/-- A step of the caller of a request. -/
def caller (id : String) (a : CallerAct) : Option State :=
  match a, (s.requests id).phase with
  | .start k rotations, .fresh =>
    some { s with
      requests := Function.update s.requests id ⟨k,
        if k = .storeLpsPasswords ∧ rotations = 0 then
          .returned (.failure "refusing to send an empty LPS rotation batch")
        else .registering⟩ }
  | .lockRegister, .registering =>
    if s.pendingMu then none else some { s.setPhase id .inRegister with pendingMu := true }
  | .unlockRegister, .inRegister =>
    some { s.setPhase id .registered with
      pendingMu := false, pendingRequests := insert id s.pendingRequests }
  | .readStream, .registered =>
    -- `c.mu.RLock` waits for a `Close` in progress
    if s.closer = .idle then
      some (s.setPhase id (match s.stream with
        | some st => .sending st
        | none => .leaving (.failure (sendErrorText (s.requests id).method ++ "not connected"))))
    else none
  | .sent, .sending st => some (s.setPhase id (.waiting st))
  | .sendFails err, .sending _ =>
    some (s.setPhase id (.leaving (.failure (sendErrorText (s.requests id).method ++ err))))
  | .take, .waiting _ =>
    match (s.chan id).buf with
    | some f =>
      some ((s.setPhase id (.leaving (decode P (s.requests id).method (some f.msg)))).setChan id
        ⟨none, (s.chan id).closed⟩)
    | none =>
      if (s.chan id).closed then
        some (s.setPhase id (.leaving (decode P (s.requests id).method none)))
      else none
  | .ctxDone err, .waiting _ => some (s.setPhase id (.leaving (.failure err)))
  | .lockUnregister, .leaving r =>
    if s.pendingMu then none else some { s.setPhase id (.inUnregister r) with pendingMu := true }
  | .unlockUnregister, .inUnregister r =>
    some { s.setPhase id (.returned r) with
      pendingMu := false, pendingRequests := s.pendingRequests.erase id }
  | _, _ => none

/-- `StartReceiver` passes everything on to `deliverPending`, the loop of `Run` only responses and
errors. -/
def correlates (src : Source) (m : ServerMessage) : Bool :=
  match src with
  | .startReceiver => true
  | .run =>
    dispatchServerMessage P.valid P.handler m = .correlate ∨
      dispatchServerMessage P.valid P.handler m = .correlateError

/-- The rest of `deliverPending`, after the lookup, and what its caller does with the result. -/
def deliver (src : Source) (f : Frame) (found : Bool) : State :=
  if found then
    if (s.chan f.msg.id).closed then
      -- the dispatcher of `Run` recovers, the goroutine of `StartReceiver` does not
      { s.emit (.sendOnClosed src f) with crashed := src = .startReceiver }
    else
      match (s.chan f.msg.id).buf with
      | none =>
        (s.setChan f.msg.id ⟨some f, (s.chan f.msg.id).closed⟩).emit (.handed f.msg.id f)
      | some _ => s.emit (.dropped f)
  else if src = .run ∧ dispatchServerMessage P.valid P.handler f.msg = .correlateError then
    s.emit (.onError f)
  else s

/-- A step of a receive loop. -/
def deliverer (n : Nat) (a : DelivererAct) : Option State :=
  match a, s.deliverers n with
  | .receive src m, .idle =>
    some { s.setDeliverer n (if correlates P src m then .delivering src ⟨s.nextSeq, m⟩ else .idle)
      with nextSeq := s.nextSeq + 1 }
  | .lock, .delivering src f =>
    if s.pendingMu then none else some { s.setDeliverer n (.lookingUp src f) with pendingMu := true }
  | .unlock, .lookingUp src f =>
    some { (s.setDeliverer n (.lookedUp src f (f.msg.id ∈ s.pendingRequests))).emit
        (.lookup f (f.msg.id ∈ s.pendingRequests)) with pendingMu := false }
  | .deliver, .lookedUp src f found => some ((s.setDeliverer n .idle).deliver P src f found)
  | _, _ => none

/-- A step of `Close`. -/
def close (a : CloserAct) : Option State :=
  match a, s.closer with
  | .enter, .idle => some (if s.stream.isNone then s else { s with closer := .entered })
  | .lock, .entered =>
    if s.pendingMu then none else some { s with closer := .cancelling, pendingMu := true }
  | .cancel id, .cancelling =>
    if id ∈ s.pendingRequests then
      some { s.setChan id ⟨(s.chan id).buf, true⟩ with
        pendingRequests := s.pendingRequests.erase id }
    else none
  | .unlock, .cancelling =>
    if s.pendingRequests = ∅ then some { s with closer := .closing, pendingMu := false } else none
  | .done, .closing => some { s with closer := .idle, stream := none }
  | _, _ => none

/-- `Connect`; a client that has a stream refuses. -/
def connect : Option State :=
  if s.closer = .idle then
    some (if s.stream.isSome then s
      else { s with stream := some s.nextStream, nextStream := s.nextStream + 1 })
  else none

end State

def step (s : State) (a : Action) : Option State :=
  if s.crashed then none
  else
    match a with
    | .caller id a => s.caller P id a
    | .deliverer n a => s.deliverer P n a
    | .closer a => s.close a
    | .connect => s.connect

end PowerManage.Client.Pending
