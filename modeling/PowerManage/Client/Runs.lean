import PowerManage.Lib.Transition

/-!
# Reconnecting: the runs of one client

Every call of `Run` opens a stream, starts a goroutine that receives from it, takes what that
goroutine hands over through a channel with one slot, and closes the stream on its way out.  The
goroutine does not hold the stream: each call of `Receive` reads `c.stream` again, and nothing but
the context, which outlives the call, ends a send into the slot when nobody takes from it any more.

A run is named by the number of the call of `Run`, and a stream by the run that opened it.  Streams
are open from `Connect` to `Close`, which is while `c.stream` holds them; `Receive` fails on one that
is closed.  The model has a step for each operation on `c.stream`, on a stream or on the channel, so
that the goroutines of all runs interleave in any way.  The heartbeat, inventory and delivery
goroutines have no part in this.

Two things can go wrong after a run whose handler failed: its goroutine finds the slot taken and
stays for ever, or it finds the stream of the next run in `c.stream` and takes a message from it
(`stale_receiver`).  `runs_separate` says that nothing else goes wrong.
-/

namespace PowerManage.Client.Runs

open Transition List Function

/-! ## The model -/

/-- What the receive goroutine sends on. -/
inductive Received (M : Type)
  | message (m : M)
  | failure
deriving DecidableEq

/-- Where a call of `Run` is; `leaving` is between the end of its loop and the deferred `Close`. -/
inductive MainPhase
  | fresh
  | hello
  | waiting
  | dispatching
  | leaving
  | returned
deriving DecidableEq

/-- Where the receive goroutine of a run is. -/
inductive RecvPhase (M : Type)
  | absent
  | idle
  | reading (g : Nat)
  | sending (x : Received M)
  | ended
deriving DecidableEq

/-- One call of `Run`: its loop, its receive goroutine, their channel. -/
structure RunState (M : Type) where
  main : MainPhase
  recv : RecvPhase M
  chan : Option (Received M)

/-- A client whose `Run` is called again and again. -/
structure State (M : Type) where
  stream : Option Nat
  count : Nat
  runs : Nat → RunState M
  /-- What the server has put on a stream and nobody has received. -/
  inbox : Nat → List M
  delivered : Nat → List M
  /-- What a run has called `dispatchServerMessage` with. -/
  dispatched : Nat → List M
  /-- The messages received: by which run, from which stream. -/
  received : List (Nat × Nat × M)

def RunState.fresh {M : Type} : RunState M := ⟨.fresh, .absent, none⟩

def init {M : Type} : State M where
  stream := none
  count := 0
  runs _ := RunState.fresh
  inbox _ := []
  delivered _ := []
  dispatched _ := []
  received := []

/-- A step within one run. -/
inductive RunAct
  | hello (ok : Bool)
  | load
  | receive
  | receiveFails
  | handOver
  | take
  | dispatch (ok : Bool)
  | close
deriving DecidableEq

/-- A run starts, the server sends, or a run makes a step. -/
inductive Action (M : Type)
  | start
  | deliver (g : Nat) (m : M)
  | run (r : Nat) (a : RunAct)
deriving DecidableEq

variable {i : Nat}

section

variable {M : Type}

variable (s : State M)

def State.setRun (r : Nat) (x : RunState M) : State M :=
  { s with runs := Function.update s.runs r x }

def Received.next : Received M → RecvPhase M
  | .message _ => .idle
  | .failure => .ended

def Received.messages : Received M → List M
  | .message m => [m]
  | .failure => []

def runStep (r : Nat) : RunAct → Option (State M)
  | .hello ok =>
    match (s.runs r).main with
    | .hello => some (s.setRun r (if ok then ⟨.waiting, .idle, none⟩ else ⟨.leaving, .absent, none⟩))
    | _ => none
  | .load =>
    match (s.runs r).recv, s.stream with
    | .idle, none => some (s.setRun r { s.runs r with recv := .sending .failure })
    | .idle, some g => some (s.setRun r { s.runs r with recv := .reading g })
    | _, _ => none
  | .receive =>
    match (s.runs r).recv with
    | .reading g =>
      match s.inbox g with
      | [] => none
      | m :: rest =>
        if s.stream = some g then
          some { s.setRun r { s.runs r with recv := .sending (.message m) } with
            inbox := Function.update s.inbox g rest
            received := s.received ++ [(r, g, m)] }
        else none
    | _ => none
  | .receiveFails =>
    match (s.runs r).recv with
    | .reading _ => some (s.setRun r { s.runs r with recv := .sending .failure })
    | _ => none
  | .handOver =>
    match (s.runs r).recv, (s.runs r).chan with
    | .sending x, none => some (s.setRun r { s.runs r with recv := x.next, chan := some x })
    | _, _ => none
  | .take =>
    match (s.runs r).main, (s.runs r).chan with
    | .waiting, some .failure => some (s.setRun r { s.runs r with main := .leaving, chan := none })
    | .waiting, some (.message m) =>
      some { s.setRun r { s.runs r with main := .dispatching, chan := none } with
        dispatched := Function.update s.dispatched r (s.dispatched r ++ [m]) }
    | _, _ => none
  | .dispatch ok =>
    match (s.runs r).main with
    | .dispatching =>
      some (s.setRun r { s.runs r with main := if ok then .waiting else .leaving })
    | _ => none
  | .close =>
    match (s.runs r).main with
    | .leaving => some { s.setRun r { s.runs r with main := .returned } with stream := none }
    | _ => none

def step : Action M → Option (State M)
  | .start =>
    match s.stream with
    -- already connected: the call returns at once and closes nothing
    | some _ => some { s.setRun s.count ⟨.returned, .absent, none⟩ with count := s.count + 1 }
    | none =>
      some { s.setRun s.count ⟨.hello, .absent, none⟩ with
        stream := some s.count
        count := s.count + 1 }
  | .deliver g m =>
    if s.stream = some g then
      some { s with
        inbox := Function.update s.inbox g (s.inbox g ++ [m])
        delivered := Function.update s.delivered g (s.delivered g ++ [m]) }
    else none
  | .run r a => runStep s r a

/-! ## What one step does -/

@[simp] theorem setRun_runs_self (r : Nat) (x : RunState M) :
    (s.setRun r x).runs r = x := update_self ..

@[simp] theorem setRun_runs_of_ne {r q : Nat} (h : q ≠ r) (x : RunState M) :
    (s.setRun r x).runs q = s.runs q := update_of_ne h ..

/-- Everything that the goroutines of a run can do, with what it needs. -/
inductive Moves (s : State M) (r : Nat) : RunAct → State M → Prop
  | greeted (hmain : (s.runs r).main = .hello) : Moves s r (.hello true) (s.setRun r ⟨.waiting, .idle, none⟩)
  | refused (hmain : (s.runs r).main = .hello) : Moves s r (.hello false) (s.setRun r ⟨.leaving, .absent, none⟩)
  | loadNone (hrecv : (s.runs r).recv = .idle) (hstream : s.stream = none) :
    Moves s r .load (s.setRun r { s.runs r with recv := .sending .failure })
  | load (g : Nat) (hrecv : (s.runs r).recv = .idle) (hstream : s.stream = some g) :
    Moves s r .load (s.setRun r { s.runs r with recv := .reading g })
  | receive (g : Nat) (m : M) (rest : List M) (hrecv : (s.runs r).recv = .reading g)
      (hinbox : s.inbox g = m :: rest) (hstream : s.stream = some g) :
    Moves s r .receive { s.setRun r { s.runs r with recv := .sending (.message m) } with
      inbox := Function.update s.inbox g rest
      received := s.received ++ [(r, g, m)] }
  | receiveFails (g : Nat) (hrecv : (s.runs r).recv = .reading g) :
    Moves s r .receiveFails (s.setRun r { s.runs r with recv := .sending .failure })
  | handOver (x : Received M) (hrecv : (s.runs r).recv = .sending x)
      (hchan : (s.runs r).chan = none) :
    Moves s r .handOver (s.setRun r { s.runs r with recv := x.next, chan := some x })
  | takeFailure (hmain : (s.runs r).main = .waiting) (hchan : (s.runs r).chan = some .failure) :
    Moves s r .take (s.setRun r { s.runs r with main := .leaving, chan := none })
  | take (m : M) (hmain : (s.runs r).main = .waiting)
      (hchan : (s.runs r).chan = some (.message m)) :
    Moves s r .take { s.setRun r { s.runs r with main := .dispatching, chan := none } with
      dispatched := Function.update s.dispatched r (s.dispatched r ++ [m]) }
  | handled (hmain : (s.runs r).main = .dispatching) :
    Moves s r (.dispatch true) (s.setRun r { s.runs r with main := .waiting })
  | handlerFails (hmain : (s.runs r).main = .dispatching) :
    Moves s r (.dispatch false) (s.setRun r { s.runs r with main := .leaving })
  | close (hmain : (s.runs r).main = .leaving) :
    Moves s r .close { s.setRun r { s.runs r with main := .returned } with stream := none }

theorem moves_of_runStep {s t : State M} {r : Nat} {a : RunAct} (h : runStep s r a = some t) :
    Moves s r a t := by
  cases a with
  | hello ok =>
    simp only [runStep] at h
    split at h
    · rename_i hmain
      cases ok with
      | false => cases h; exact .refused hmain
      | true => cases h; exact .greeted hmain
    · cases h
  | load =>
    simp only [runStep] at h
    split at h
    · rename_i hrecv hstream; cases h; exact .loadNone hrecv hstream
    · rename_i g hrecv hstream; cases h; exact .load g hrecv hstream
    · cases h
  | receive =>
    simp only [runStep] at h
    split at h
    · rename_i g hrecv
      split at h
      · cases h
      rename_i m rest hinbox
      split_ifs at h with hstream
      cases h
      exact .receive g m rest hrecv hinbox hstream
    · cases h
  | receiveFails =>
    simp only [runStep] at h
    split at h
    · rename_i g hrecv; cases h; exact .receiveFails g hrecv
    · cases h
  | handOver =>
    simp only [runStep] at h
    split at h
    · rename_i x hrecv hchan; cases h; exact .handOver x hrecv hchan
    · cases h
  | take =>
    simp only [runStep] at h
    split at h
    · rename_i hmain hchan; cases h; exact .takeFailure hmain hchan
    · rename_i m hmain hchan; cases h; exact .take m hmain hchan
    · cases h
  | dispatch ok =>
    simp only [runStep] at h
    split at h
    · rename_i hmain
      cases ok with
      | false => cases h; exact .handlerFails hmain
      | true => cases h; exact .handled hmain
    · cases h
  | close =>
    simp only [runStep] at h
    split at h
    · rename_i hmain; cases h; exact .close hmain
    · cases h

theorem Moves.runs_of_ne {s t : State M} {r q : Nat} {a : RunAct} (h : Moves s r a t) (hq : q ≠ r) :
    t.runs q = s.runs q ∧ t.dispatched q = s.dispatched q := by
  cases h with
  | take m hmain hchan => exact ⟨setRun_runs_of_ne s hq _, update_of_ne hq ..⟩
  | _ => exact ⟨setRun_runs_of_ne s hq _, rfl⟩

/-! ## What is kept -/

def MainPhase.active : MainPhase → Bool
  | .hello | .waiting | .dispatching | .leaving => true
  | .fresh | .returned => false

def MainPhase.early : MainPhase → Bool
  | .fresh | .hello => true
  | _ => false

def MainPhase.looping : MainPhase → Bool
  | .waiting | .dispatching => true
  | _ => false

/-- The goroutine has ended, or holds no message and has left nothing in the slot. -/
def RunState.settled (x : RunState M) : Bool :=
  match x.recv with
  | .absent | .ended => true
  | .sending (.message _) => false
  | .sending .failure | .idle | .reading _ => x.chan.isNone

def RecvPhase.messages : RecvPhase M → List M
  | .sending x => x.messages
  | _ => []

def RunState.inHand (x : RunState M) : List M :=
  (x.chan.elim [] Received.messages) ++ x.recv.messages

/-- A run that closes its stream is settled, and when one connects no earlier goroutine is about to
read `c.stream`. -/
def allowed : Action M → Bool
  | .start => s.stream.isSome || (List.range s.count).all fun r =>
      match (s.runs r).recv with
      | .idle => false
      | _ => true
  | .run r .close => (s.runs r).settled
  | _ => true

/-- What holds between `c.stream`, the goroutines of run `r` and the messages of its stream. -/
structure Fits (stream : Option Nat) (r : Nat) (x : RunState M)
    (delivered dispatched inbox : List M) : Prop where
  active : stream = some r ↔ x.main.active = true
  early : x.main.early = true → x.recv = .absent ∧ x.chan = none
  heard : x.main.looping = true →
    x.recv ≠ .absent ∧ (x.recv = .ended → x.chan = some .failure)
  own : ∀ g, x.recv = .reading g → g = r
  near : x.recv = .idle → stream = none ∨ stream = some r
  settled : x.main = .returned → x.settled = true
  account : delivered = dispatched ++ x.inHand ++ inbox

/-- The messages of a run are where its phases say. -/
def Kept (r : Nat) : Prop :=
  Fits s.stream r (s.runs r) (s.delivered r) (s.dispatched r) (s.inbox r)

/-- Every run keeps its messages, and receives from its own stream. -/
structure Inv (s : State M) : Prop where
  fresh : ∀ r, s.count ≤ r → s.runs r = RunState.fresh
  silent : ∀ r, (s.runs r).main = .fresh → s.delivered r = []
  kept : ∀ r, Kept s r
  mine : ∀ e ∈ s.received, e.2.1 = e.1

theorem inv_init : Inv (init : State M) where
  fresh _ _ := rfl
  silent _ _ := rfl
  kept r :=
    { active := by
        constructor
        · intro h; cases h
        · intro h; cases h
      early := fun _ => ⟨rfl, rfl⟩
      heard := by intro h; cases h
      own := by intro g h; cases h
      near := by intro h; cases h
      settled := by intro h; cases h
      account := rfl }
  mine := by intro e h; cases h

variable {s t : State M} {r q : Nat} {a : RunAct}

/-- Only `Close` changes `c.stream`, and the run it belongs to was in there. -/
theorem Moves.stream_of_ne (h : Moves s r a t) (hr : Kept s r) (hq : q ≠ r) :
    (t.stream = some q ↔ s.stream = some q) ∧ (t.stream = s.stream ∨ t.stream = none) := by
  cases h with
  | close hmain =>
    have hstream : s.stream = some r := hr.active.mpr (by rw [hmain]; rfl)
    refine ⟨?_, .inr rfl⟩
    rw [hstream]
    constructor
    · intro h; cases h
    · intro h; exact absurd (Option.some.inj h).symm hq
  | _ => exact ⟨Iff.rfl, .inl rfl⟩

theorem Moves.inbox_of_ne (h : Moves s r a t) (hr : Kept s r) (hq : q ≠ r) :
    t.inbox q = s.inbox q := by
  cases h with
  | receive g m rest hrecv hinbox hstream =>
    rw [hr.own g hrecv]
    exact update_of_ne hq ..
  | _ => rfl

theorem Moves.delivered (h : Moves s r a t) : t.delivered = s.delivered := by
  cases h with
  | _ => rfl

theorem Moves.count (h : Moves s r a t) : t.count = s.count := by
  cases h with
  | _ => rfl

theorem Moves.kept_of_ne (h : Moves s r a t) (hr : Kept s r) (hq : q ≠ r) (hkept : Kept s q) :
    Kept t q := by
  obtain ⟨hruns, hdispatched⟩ := h.runs_of_ne hq
  obtain ⟨hstream, hnear⟩ := h.stream_of_ne hr hq
  refine ⟨?_, ?_, ?_, ?_, ?_, ?_, ?_⟩
  · rw [hstream, hruns]; exact hkept.active
  · rw [hruns]; exact hkept.early
  · rw [hruns]; exact hkept.heard
  · rw [hruns]; exact hkept.own
  · rw [hruns]
    intro hidle
    rcases hnear with heq | hnone
    · rw [heq]; exact hkept.near hidle
    · exact .inl hnone
  · rw [hruns]; exact hkept.settled
  · rw [hruns, hdispatched, h.inbox_of_ne hr hq, h.delivered]; exact hkept.account

section Fits

variable {stream : Option Nat} {x : RunState M} {delivered dispatched inbox : List M}

theorem Fits.setRecv (h : Fits stream r x delivered dispatched inbox) {y : RecvPhase M}
    (hx : x.recv = .idle ∨ x.recv = .reading r) (hy : y = .sending .failure ∨ y = .reading r) :
    Fits stream r { x with recv := y } delivered dispatched inbox := by
  have hchan : x.settled = true → x.chan.isNone = true := by
    intro hsettled
    rcases hx with hx | hx
    · rw [RunState.settled, hx] at hsettled; exact hsettled
    · rw [RunState.settled, hx] at hsettled; exact hsettled
  have hempty : x.recv.messages = [] := by rcases hx with hx | hx <;> rw [hx] <;> rfl
  have hearly : x.main.early = true → False := by
    intro hmain
    rcases hx with hx | hx
    · rw [(h.early hmain).1] at hx; cases hx
    · rw [(h.early hmain).1] at hx; cases hx
  have haccount := h.account
  rw [RunState.inHand, hempty] at haccount
  rcases hy with rfl | rfl
  · exact ⟨h.active, fun hmain => (hearly hmain).elim,
      fun _ => ⟨(by intro h; cases h), (by intro h; cases h)⟩, (by intro g h; cases h),
      (by intro h; cases h), fun hmain => hchan (h.settled hmain), haccount⟩
  · exact ⟨h.active, fun hmain => (hearly hmain).elim,
      fun _ => ⟨(by intro h; cases h), (by intro h; cases h)⟩, (by rintro g ⟨⟩; rfl),
      (by intro h; cases h), fun hmain => hchan (h.settled hmain), haccount⟩

theorem Fits.setMain (h : Fits stream r x delivered dispatched inbox) {m : MainPhase}
    {c : Option (Received M)} {dispatched' : List M} (hx : x.main.active = true)
    (hm : m.active = true) (hearly : m.early = false)
    (hheard : m.looping = true → x.recv ≠ .absent ∧ (x.recv = .ended → c = some .failure))
    (haccount : delivered = dispatched' ++ (⟨m, x.recv, c⟩ : RunState M).inHand ++ inbox) :
    Fits stream r ⟨m, x.recv, c⟩ delivered dispatched' inbox where
  active := by
    rw [h.active, hx]
    exact iff_of_true rfl hm
  early hmain := by
    have htrue : m.early = true := hmain
    rw [hearly] at htrue
    cases htrue
  heard := hheard
  own := h.own
  near := h.near
  settled hmain := by
    have hreturned : m = .returned := hmain
    rw [hreturned] at hm
    cases hm
  account := haccount

theorem Fits.greeted (h : Fits stream r x delivered dispatched inbox) (hmain : x.main = .hello) :
    Fits stream r ⟨.waiting, .idle, none⟩ delivered dispatched inbox where
  active := by
    rw [h.active, hmain]
    exact iff_of_true rfl rfl
  early h := by cases h
  heard _ := ⟨(by intro h; cases h), (by intro h; cases h)⟩
  own g h := by cases h
  near _ := .inr (h.active.mpr (by rw [hmain]; rfl))
  settled h := by cases h
  account := by
    obtain ⟨hrecv, hchan⟩ := h.early (by rw [hmain]; rfl)
    rw [h.account, RunState.inHand, hrecv, hchan]
    rfl

theorem Fits.refused (h : Fits stream r x delivered dispatched inbox) (hmain : x.main = .hello) :
    Fits stream r ⟨.leaving, .absent, none⟩ delivered dispatched inbox where
  active := by
    rw [h.active, hmain]
    exact iff_of_true rfl rfl
  early h := by cases h
  heard h := by cases h
  own g h := by cases h
  near h := by cases h
  settled h := by cases h
  account := by
    obtain ⟨hrecv, hchan⟩ := h.early (by rw [hmain]; rfl)
    rw [h.account, RunState.inHand, hrecv, hchan]
    rfl

theorem Fits.receive {m : M} (h : Fits (some r) r x delivered dispatched (m :: inbox))
    (hrecv : x.recv = .reading r) :
    Fits (some r) r { x with recv := .sending (.message m) } delivered dispatched inbox where
  active := h.active
  early hmain := by rw [(h.early hmain).1] at hrecv; cases hrecv
  heard _ := ⟨(by intro h; cases h), (by intro h; cases h)⟩
  own g hg := by cases hg
  near _ := .inr rfl
  settled hmain := by
    -- a run that has returned does not hold the stream any more
    have hactive := h.active.mp rfl
    have hreturned : x.main = .returned := hmain
    rw [hreturned] at hactive
    cases hactive
  account := by
    rw [h.account, RunState.inHand, RunState.inHand, hrecv]
    simp [RecvPhase.messages, Received.messages]

theorem Fits.handOver {y : Received M} (h : Fits stream r x delivered dispatched inbox)
    (hrecv : x.recv = .sending y) (hchan : x.chan = none) :
    Fits stream r { x with recv := y.next, chan := some y } delivered dispatched inbox where
  active := h.active
  early hmain := by rw [(h.early hmain).1] at hrecv; cases hrecv
  heard _ := by
    cases y with
    | message m => exact ⟨(by intro h; cases h), (by intro h; cases h)⟩
    | failure => exact ⟨(by intro h; cases h), fun _ => rfl⟩
  own g hg := by cases y <;> cases hg
  near hidle := by
    cases hmain : x.main with
    | fresh =>
      rw [(h.early (by rw [hmain]; rfl)).1] at hrecv
      cases hrecv
    | returned =>
      have hsettled := h.settled hmain
      cases y with
      | message m => rw [RunState.settled, hrecv] at hsettled; cases hsettled
      | failure => cases hidle
    | _ => exact .inr (h.active.mpr (by rw [hmain]; rfl))
  settled hmain := by
    have hsettled := h.settled hmain
    cases y with
    | message m => rw [RunState.settled, hrecv] at hsettled; cases hsettled
    | failure => rfl
  account := by
    rw [h.account, RunState.inHand, RunState.inHand, hrecv, hchan]
    cases y <;> simp [RecvPhase.messages, Received.next]

theorem Fits.closed (h : Fits stream r x delivered dispatched inbox) (hsettled : x.settled = true) :
    Fits none r { x with main := .returned } delivered dispatched inbox where
  active := by
    constructor
    · intro h; cases h
    · intro h; cases h
  early h := by cases h
  heard h := by cases h
  own := h.own
  near _ := .inl rfl
  settled _ := hsettled
  account := h.account

end Fits

theorem Moves.kept_self (h : Moves s r a t) (hr : Kept s r)
    (hclose : a = .close → (s.runs r).settled = true) : Kept t r := by
  unfold Kept at hr ⊢
  cases h with
  | greeted hmain =>
    rw [setRun_runs_self]
    exact hr.greeted hmain
  | refused hmain =>
    rw [setRun_runs_self]
    exact hr.refused hmain
  | loadNone hrecv hstream =>
    rw [setRun_runs_self]
    exact hr.setRecv (.inl hrecv) (.inl rfl)
  | load g hrecv hstream =>
    rw [setRun_runs_self]
    rcases hr.near hrecv with hnone | hsome
    · rw [hstream] at hnone; cases hnone
    · rw [hstream] at hsome
      obtain rfl := Option.some.inj hsome
      exact hr.setRecv (.inl hrecv) (.inr rfl)
  | receive g m rest hrecv hinbox hstream =>
    obtain rfl := hr.own g hrecv
    rw [hinbox, hstream] at hr
    have h := hr.receive hrecv
    simpa [State.setRun, hstream] using h
  | receiveFails g hrecv =>
    rw [setRun_runs_self]
    obtain rfl := hr.own g hrecv
    exact hr.setRecv (.inr hrecv) (.inl rfl)
  | handOver x hrecv hchan =>
    rw [setRun_runs_self]
    exact hr.handOver hrecv hchan
  | takeFailure hmain hchan =>
    rw [setRun_runs_self]
    refine hr.setMain (by rw [hmain]; rfl) rfl rfl (by intro h; cases h) ?_
    have haccount := hr.account
    rw [RunState.inHand, hchan] at haccount
    exact haccount
  | take m hmain hchan =>
    have haccount := hr.account
    rw [RunState.inHand, hchan] at haccount
    have hheard := hr.heard (by rw [hmain]; rfl)
    have h : Fits s.stream r ⟨.dispatching, (s.runs r).recv, none⟩ (s.delivered r)
        (s.dispatched r ++ [m]) (s.inbox r) := by
      refine hr.setMain (by rw [hmain]; rfl) rfl rfl (fun _ => ⟨hheard.1, fun hended => ?_⟩)
        (by rw [haccount]; simp [RunState.inHand, Received.messages])
      rw [hheard.2 hended] at hchan
      cases hchan
    simpa [State.setRun] using h
  | handled hmain =>
    rw [setRun_runs_self]
    exact hr.setMain (by rw [hmain]; rfl) rfl rfl (fun _ => hr.heard (by rw [hmain]; rfl)) hr.account
  | handlerFails hmain =>
    rw [setRun_runs_self]
    exact hr.setMain (by rw [hmain]; rfl) rfl rfl (by intro h; cases h) hr.account
  | close hmain =>
    have h := hr.closed (hclose rfl)
    simpa [State.setRun] using h

theorem Moves.received (h : Moves s r a t) (hr : Kept s r) (hmine : ∀ e ∈ s.received, e.2.1 = e.1) :
    ∀ e ∈ t.received, e.2.1 = e.1 := by
  cases h with
  | receive g m rest hrecv hinbox hstream =>
    intro e he
    rcases mem_append.mp he with he | he
    · exact hmine e he
    · rw [mem_singleton.mp he]
      exact hr.own g hrecv
  | _ => exact hmine

theorem Moves.not_fresh (h : Moves s r a t) : s.runs r ≠ RunState.fresh := by
  intro hfresh
  cases h <;> simp_all [RunState.fresh]

theorem Moves.main_fresh (h : Moves s r a t) (hfresh : (t.runs r).main = .fresh) :
    (s.runs r).main = .fresh := by
  cases h <;> simp_all [State.setRun]

theorem Inv.lt_count (h : Inv s) (hmain : (s.runs r).main ≠ .fresh) : r < s.count := by
  by_contra hge
  exact hmain (by rw [h.fresh r (Nat.le_of_not_lt hge)]; rfl)

theorem inv_started (h : Inv s) {m : MainPhase} {stream : Option Nat} (hm : m.looping = false)
    (hfresh : m ≠ .fresh) (hactive : stream = some s.count ↔ m.active = true)
    (hothers : ∀ q, q ≠ s.count → (stream = some q ↔ s.stream = some q))
    (hnear : ∀ q, q ≠ s.count → (s.runs q).recv = .idle → stream = none ∨ stream = some q) :
    Inv { s.setRun s.count ⟨m, .absent, none⟩ with stream := stream, count := s.count + 1 } where
  fresh q hq := by
    have hlt : s.count < q := hq
    exact (setRun_runs_of_ne s (by omega) _).trans (h.fresh q (by omega))
  silent q hq := by
    by_cases hnew : q = s.count
    · subst hnew
      simp only [setRun_runs_self] at hq
      exact absurd hq hfresh
    · simp only [setRun_runs_of_ne s hnew] at hq
      exact h.silent q hq
  kept q := by
    have hq := h.kept q
    unfold Kept at hq ⊢
    by_cases hnew : q = s.count
    · subst hnew
      rw [h.fresh s.count (le_refl _)] at hq
      simp only [setRun_runs_self]
      refine ⟨hactive, fun _ => ⟨rfl, rfl⟩, fun hlooping => ?_, (by intro g hg; cases hg),
        (by intro hidle; cases hidle), fun _ => rfl, hq.account⟩
      have htrue : m.looping = true := hlooping
      rw [hm] at htrue
      cases htrue
    · simp only [setRun_runs_of_ne s hnew]
      refine ⟨?_, hq.early, hq.heard, hq.own, hnear q hnew, hq.settled, hq.account⟩
      rw [hothers q hnew]
      exact hq.active
  mine := h.mine

theorem inv_start (h : Inv s) (hallowed : allowed s .start = true)
    (hstep : step s .start = some t) : Inv t := by
  have hfresh := h.fresh s.count (le_refl _)
  simp only [step] at hstep
  split at hstep
  · cases hstep
    have hactive := (h.kept s.count).active
    rw [hfresh] at hactive
    exact inv_started h rfl (by intro h; cases h) hactive (fun q _ => Iff.rfl) (fun q _ => (h.kept q).near)
  rename_i hstream
  cases hstep
  refine inv_started h rfl (by intro h; cases h) (iff_of_true rfl rfl) (fun q hq => ?_) (fun q hq hidle => ?_)
  · rw [hstream]
    constructor
    · intro hsome; exact absurd (Option.some.inj hsome).symm hq
    · intro hnone; cases hnone
  · have hborn : q < s.count := h.lt_count (by
      intro hmain
      rw [((h.kept q).early (by rw [hmain]; rfl)).1] at hidle
      cases hidle)
    rw [allowed, hstream] at hallowed
    have hq := all_eq_true.mp hallowed q (mem_range.mpr hborn)
    rw [hidle] at hq
    cases hq

theorem inv_step {a : Action M} (hstep : step s a = some t) (hallowed : allowed s a = true)
    (h : Inv s) : Inv t := by
  cases a with
  | start => exact inv_start h hallowed hstep
  | deliver g m =>
    simp only [step] at hstep
    split_ifs at hstep with hstream
    cases hstep
    have hactive := (h.kept g).active.mp hstream
    refine ⟨h.fresh, fun r hr => ?_, fun r => ?_, h.mine⟩
    · have hne : r ≠ g := by
        rintro rfl
        rw [hr] at hactive
        cases hactive
      exact (update_of_ne hne _ _).trans (h.silent r hr)
    have hr := h.kept r
    refine ⟨hr.active, hr.early, hr.heard, hr.own, hr.near, hr.settled, ?_⟩
    by_cases hg : r = g
    · subst hg
      simp only [update_self]
      rw [hr.account, append_assoc]
    · simp only [update_of_ne hg]
      exact hr.account
  | run r a =>
    have hmoves := moves_of_runStep hstep
    have hr := h.kept r
    refine ⟨fun q hq => ?_, fun q hq => ?_, fun q => ?_, hmoves.received hr h.mine⟩
    · rw [hmoves.count] at hq
      by_cases hqr : q = r
      · subst hqr
        exact absurd (h.fresh q hq) hmoves.not_fresh
      · rw [(hmoves.runs_of_ne hqr).1]
        exact h.fresh q hq
    · rw [hmoves.delivered]
      by_cases hqr : q = r
      · subst hqr
        exact h.silent q (hmoves.main_fresh hq)
      · rw [(hmoves.runs_of_ne hqr).1] at hq
        exact h.silent q hq
    · by_cases hqr : q = r
      · subst hqr
        refine hmoves.kept_self hr ?_
        rintro rfl
        exact hallowed
      · exact hmoves.kept_of_ne hr hqr (h.kept q)

/-! ## What must happen

A run is ready when one of its goroutines can go on without the server: `SendHello` and the handler
return, `Close` does not block, and a receive from the open stream waits for a message. -/

/-- Some step of the run can be taken. -/
def State.ready (s : State M) (r : Nat) : Bool :=
  (match (s.runs r).main with
    | .hello | .dispatching | .leaving => true
    | .waiting => (s.runs r).chan.isSome
    | .fresh | .returned => false) ||
  match (s.runs r).recv with
    | .idle => true
    | .sending _ => (s.runs r).chan.isNone
    | .reading g => decide (s.stream ≠ some g) || !(s.inbox g).isEmpty
    | .absent | .ended => false

def Action.of (r : Nat) : Action M → Bool
  | .run q _ => q = r
  | _ => false

theorem runs_of_other {act : Action M} (h : Inv s) (hstep : step s act = some t)
    (hact : act.of r = false) (hmain : (s.runs r).main ≠ .fresh) :
    t.runs r = s.runs r ∧ t.dispatched r = s.dispatched r := by
  cases act with
  | start =>
    have hne : r ≠ s.count := ne_of_lt (h.lt_count hmain)
    simp only [step] at hstep
    split at hstep
    · cases hstep; exact ⟨setRun_runs_of_ne s hne _, rfl⟩
    · cases hstep; exact ⟨setRun_runs_of_ne s hne _, rfl⟩
  | deliver g m =>
    simp only [step] at hstep
    split_ifs at hstep
    cases hstep
    exact ⟨rfl, rfl⟩
  | run q a =>
    have hne : r ≠ q := by
      rintro rfl
      exact absurd hact (by simp [Action.of])
    exact (moves_of_runStep hstep).runs_of_ne hne

/-! ### The goroutine of a run that has returned -/

def RecvPhase.rank : RecvPhase M → Nat
  | .absent | .ended => 0
  | .sending _ => 1
  | .reading _ => 2
  | .idle => 3

theorem ready_of_returned (h : Inv s) (hmain : (s.runs r).main = .returned)
    (hrank : (s.runs r).recv.rank ≠ 0) : s.ready r = true := by
  have hr := h.kept r
  have hsettled := hr.settled hmain
  have hclosed : s.stream ≠ some r := by
    intro hstream
    have hactive := hr.active.mp hstream
    rw [hmain] at hactive
    cases hactive
  unfold State.ready
  cases hrecv : (s.runs r).recv with
  | absent => rw [hrecv] at hrank; exact absurd rfl hrank
  | ended => rw [hrecv] at hrank; exact absurd rfl hrank
  | idle => simp
  | reading g =>
    rw [hr.own g hrecv]
    simp [hclosed]
  | sending x =>
    cases x with
    | message m => rw [RunState.settled, hrecv] at hsettled; cases hsettled
    | failure =>
      rw [RunState.settled, hrecv] at hsettled
      rw [Bool.or_eq_true]
      exact .inr hsettled

theorem rank_lt_of_returned (h : Inv s) (hmain : (s.runs r).main = .returned)
    (hmoves : Moves s r a t) :
    (t.runs r).main = .returned ∧ (t.runs r).recv.rank < (s.runs r).recv.rank := by
  have hr := h.kept r
  have hsettled := hr.settled hmain
  cases hmoves with
  | loadNone hrecv hstream | load g hrecv hstream =>
    rw [setRun_runs_self, hrecv]
    exact ⟨hmain, by simp [RecvPhase.rank]⟩
  | receive g m rest hrecv hinbox hstream =>
    rw [hr.own g hrecv] at hstream
    have hactive := hr.active.mp hstream
    rw [hmain] at hactive
    cases hactive
  | receiveFails g hrecv =>
    rw [setRun_runs_self, hrecv]
    exact ⟨hmain, by simp [RecvPhase.rank]⟩
  | handOver x hrecv hchan =>
    rw [setRun_runs_self, hrecv]
    cases x with
    | message m => rw [RunState.settled, hrecv] at hsettled; cases hsettled
    | failure => exact ⟨hmain, by simp [RecvPhase.rank, Received.next]⟩
  | greeted h' | refused h' | handled h' | handlerFails h' | close h' => rw [hmain] at h'; cases h'
  | takeFailure h' _ | take _ h' _ => rw [hmain] at h'; cases h'

/-! ### The messages of a run that goes on -/

def MainPhase.live : MainPhase → Bool
  | .hello | .waiting | .dispatching => true
  | _ => false

def MainPhase.weight : MainPhase → Nat
  | .fresh | .hello => 0
  | .dispatching => 1
  | _ => 2

def RecvPhase.weight : RecvPhase M → Nat
  | .reading _ => 1
  | .sending _ => 2
  | _ => 0

/-- How far a run has come: five steps bring a message from the stream through the slot and the
handler. -/
def State.progress (s : State M) (r : Nat) : Nat :=
  5 * (s.dispatched r).length + (s.runs r).main.weight + (s.runs r).recv.weight +
    3 * (s.runs r).chan.toList.length

theorem progress_le (s : State M) (r : Nat) :
    s.progress r ≤ 5 * (s.dispatched r).length + 7 := by
  have hmain : (s.runs r).main.weight ≤ 2 := by
    cases (s.runs r).main <;> simp [MainPhase.weight]
  have hrecv : (s.runs r).recv.weight ≤ 2 := by
    cases (s.runs r).recv <;> simp [RecvPhase.weight]
  have hchan : (s.runs r).chan.toList.length ≤ 1 := by
    cases (s.runs r).chan <;> simp
  unfold State.progress
  omega

theorem progress_lt (h : Inv s) (hlive : (s.runs r).main.live = true) (hmoves : Moves s r a t) :
    (t.runs r).main.live = false ∨ s.progress r < t.progress r := by
  have hr := h.kept r
  have hstream : s.stream = some r := hr.active.mpr (by
    cases hmain : (s.runs r).main <;> rw [hmain] at hlive <;> first | rfl | cases hlive)
  unfold State.progress
  cases hmoves with
  | greeted hmain =>
    obtain ⟨hrecv, hchan⟩ := hr.early (by rw [hmain]; rfl)
    simp [State.setRun, hmain, hrecv, hchan, MainPhase.weight, RecvPhase.weight]
  | refused hmain => left; simp [MainPhase.live]
  | loadNone hrecv hnone => rw [hstream] at hnone; cases hnone
  | load g hrecv hstream =>
    simp [State.setRun, hrecv, RecvPhase.weight]
  | receive g m rest hrecv hinbox hstream =>
    simp [State.setRun, hrecv, RecvPhase.weight]
  | receiveFails g hrecv =>
    simp [State.setRun, hrecv, RecvPhase.weight]
  | handOver x hrecv hchan =>
    simp [State.setRun, hrecv, hchan, RecvPhase.weight]
  | takeFailure hmain hchan => left; simp [MainPhase.live]
  | take m hmain hchan =>
    simp [hmain, hchan, MainPhase.weight]
    omega
  | handled hmain =>
    simp [State.setRun, hmain, MainPhase.weight]
  | handlerFails hmain => left; simp [MainPhase.live]
  | close hmain => rw [hmain] at hlive; cases hlive

theorem ready_of_live (h : Inv s) (hlive : (s.runs r).main.live = true)
    (hleft : (s.dispatched r).length < (s.delivered r).length) : s.ready r = true := by
  have hr := h.kept r
  unfold State.ready
  cases hmain : (s.runs r).main with
  | fresh | leaving | returned => rw [hmain] at hlive; cases hlive
  | hello | dispatching => rfl
  | waiting =>
    obtain ⟨habsent, hended⟩ := hr.heard (by rw [hmain]; rfl)
    cases hchan : (s.runs r).chan with
    | some x => rfl
    | none =>
      cases hrecv : (s.runs r).recv with
      | absent => exact absurd hrecv habsent
      | ended => rw [hended hrecv] at hchan; cases hchan
      | idle => rfl
      | sending x => rfl
      | reading g =>
        -- with empty hands the message is still on the stream
        have haccount := hr.account
        rw [RunState.inHand, hrecv, hchan] at haccount
        rw [hr.own g hrecv]
        cases hinbox : s.inbox r with
        | nil =>
          rw [haccount, hinbox] at hleft
          simp [RecvPhase.messages] at hleft
        | cons m rest => simp [hinbox]

theorem delivered_mono {act : Action M} (hstep : step s act = some t) :
    (s.delivered r).length ≤ (t.delivered r).length := by
  cases act with
  | start =>
    simp only [step] at hstep
    split at hstep <;> cases hstep <;> exact le_refl _
  | deliver g m =>
    simp only [step] at hstep
    split_ifs at hstep
    cases hstep
    by_cases hg : r = g
    · subst hg
      simp
    · simp [update_of_ne hg]
  | run q a => rw [(moves_of_runStep hstep).delivered]

/-! ## Runs -/

/-- Every message was received by the run of its stream, and dispatched there in order and from the
first on. -/
def Separate (s : State M) : Prop :=
  (∀ e ∈ s.received, e.2.1 = e.1) ∧ ∀ r, s.dispatched r <+: s.delivered r

/-- The goroutines of the runs end when they should, and messages go through. -/
structure Lively (ρ : Run (step (M := M))) (r : Nat) : Prop where
  /-- Once a run has returned its receive goroutine ends. -/
  ends : ∀ i, ((ρ.state i).runs r).main = .returned →
    ∃ j, i ≤ j ∧ (((ρ.state j).runs r).recv = .absent ∨ ((ρ.state j).runs r).recv = .ended)
  /-- What is delivered on the stream of a run is dispatched by it, unless the run ends. -/
  dispatches : ∀ i k, k < ((ρ.state i).delivered r).length →
    ∃ j, i ≤ j ∧ (k < ((ρ.state j).dispatched r).length ∨
      ((ρ.state j).runs r).main = .leaving ∨ ((ρ.state j).runs r).main = .returned)

theorem Inv.separate (h : Inv s) : Separate s :=
  ⟨h.mine, fun r => ⟨(s.runs r).inHand ++ s.inbox r, by
    rw [(h.kept r).account, append_assoc]⟩⟩

section

variable (ρ : Run (step (M := M)))

theorem next_of_started (hinv : ∀ i, Inv (ρ.state i)) (j : Nat)
    (hmain : ((ρ.state j).runs r).main ≠ .fresh) :
    (∃ a, (ρ.act j).of r = true ∧ Moves (ρ.state j) r a (ρ.state (j + 1))) ∨
      (ρ.act j).of r = false ∧ (ρ.state (j + 1)).runs r = (ρ.state j).runs r ∧
        (ρ.state (j + 1)).dispatched r = (ρ.state j).dispatched r := by
  have hstep := ρ.next j
  by_cases hof : (ρ.act j).of r = true
  · left
    cases hact : ρ.act j with
    | start => rw [hact] at hof; cases hof
    | deliver g m => rw [hact] at hof; cases hof
    | run q a =>
      rw [hact] at hof hstep
      obtain rfl : q = r := by simpa [Action.of] using hof
      exact ⟨a, hof, moves_of_runStep hstep⟩
  · have hother := Bool.eq_false_of_not_eq_true hof
    exact .inr ⟨hother, runs_of_other (hinv j) hstep hother hmain⟩

theorem ends_of_fair (hinv : ∀ i, Inv (ρ.state i))
    (hfair : ρ.Fair (fun a => a.of r = true) (fun s => s.ready r = true))
    (hi : ((ρ.state i).runs r).main = .returned) :
    ∃ j, i ≤ j ∧ ((ρ.state j).runs r).recv.rank = 0 := by
  have hnext : ∀ j, ((ρ.state j).runs r).main = .returned →
      ((ρ.state (j + 1)).runs r).main = .returned ∧
        (((ρ.state (j + 1)).runs r).recv.rank < ((ρ.state j).runs r).recv.rank ∨
          (ρ.act j).of r = false ∧
            ((ρ.state (j + 1)).runs r).recv.rank = ((ρ.state j).runs r).recv.rank) := by
    intro j hj
    rcases next_of_started ρ hinv j (by rw [hj]; intro h; cases h) with
      ⟨a, -, hmoves⟩ | ⟨hof, hruns, -⟩
    · obtain ⟨hmain, hlt⟩ := rank_lt_of_returned (hinv j) hj hmoves
      exact ⟨hmain, .inl hlt⟩
    · rw [hruns]
      exact ⟨hj, .inr ⟨hof, rfl⟩⟩
  have hreturned : ∀ j, i ≤ j → ((ρ.state j).runs r).main = .returned := by
    intro j hij
    induction j, hij using Nat.le_induction with
    | base => exact hi
    | succ j _ ih => exact (hnext j ih).1
  refine ρ.eventually (fun s => (s.runs r).recv.rank = 0) (fun s => (s.runs r).recv.rank) hfair
    (fun j hij hgoal => ready_of_returned (hinv j) (hreturned j hij) hgoal) ?_ ?_
  · intro j hij _ hmine
    rcases (hnext j (hreturned j hij)).2 with hlt | ⟨hof, -⟩
    · exact .inr hlt
    · rw [hof] at hmine; cases hmine
  · intro j hij _ _
    rcases (hnext j (hreturned j hij)).2 with hlt | ⟨-, heq⟩
    · exact .inr (le_of_lt hlt)
    · exact .inr (le_of_eq heq)

theorem delivered_later {j k : Nat} (hi : k < ((ρ.state i).delivered r).length) (hij : i ≤ j) :
    k < ((ρ.state j).delivered r).length := by
  induction j, hij using Nat.le_induction with
  | base => exact hi
  | succ j _ ih => exact lt_of_lt_of_le ih (delivered_mono (ρ.next j))

theorem dispatches_of_fair (hinv : ∀ i, Inv (ρ.state i))
    (hfair : ρ.Fair (fun a => a.of r = true) (fun s => s.ready r = true)) {k : Nat}
    (hi : k < ((ρ.state i).delivered r).length) :
    ∃ j, i ≤ j ∧ (k < ((ρ.state j).dispatched r).length ∨
      ((ρ.state j).runs r).main.live = false) := by
  -- while the message waits, the progress of the run is bounded and grows with every step of its own
  refine ρ.eventually
    (fun s => k < (s.dispatched r).length ∨ (s.runs r).main.live = false)
    (fun s => 5 * k + 8 - s.progress r) hfair ?_ ?_ ?_
  · intro j hij hgoal
    obtain ⟨hk, hlive⟩ := not_or.mp hgoal
    have hleft := delivered_later ρ hi hij
    exact ready_of_live (hinv j) (Bool.eq_true_of_not_eq_false hlive) (by omega)
  · intro j hij hgoal hmine
    obtain ⟨hk, hlive⟩ := not_or.mp hgoal
    have hlive := Bool.eq_true_of_not_eq_false hlive
    rcases next_of_started ρ hinv j (by intro h; rw [h] at hlive; cases hlive) with
      ⟨a, -, hmoves⟩ | ⟨hof, -⟩
    · rcases progress_lt (hinv j) hlive hmoves with hdead | hlt
      · exact .inl (.inr hdead)
      · have hle := progress_le (ρ.state j) r
        omega
    · rw [hof] at hmine; cases hmine
  · intro j hij hgoal hother
    obtain ⟨hk, hlive⟩ := not_or.mp hgoal
    have hlive := Bool.eq_true_of_not_eq_false hlive
    rcases next_of_started ρ hinv j (by intro h; rw [h] at hlive; cases hlive) with
      ⟨a, hof, -⟩ | ⟨-, hruns, hdispatched⟩
    · exact absurd hof hother
    · right
      rw [State.progress, State.progress, hruns, hdispatched]

theorem lively_of_fair (hinv : ∀ i, Inv (ρ.state i))
    (hfair : ρ.Fair (fun a => a.of r = true) (fun s => s.ready r = true)) : Lively ρ r where
  ends i hi := by
    obtain ⟨j, hij, hrank⟩ := ends_of_fair ρ hinv hfair hi
    refine ⟨j, hij, ?_⟩
    cases hrecv : ((ρ.state j).runs r).recv with
    | absent => exact .inl rfl
    | ended => exact .inr rfl
    | idle | reading g | sending x => rw [hrecv] at hrank; cases hrank
  dispatches i k hk := by
    obtain ⟨j, hij, hgoal⟩ := dispatches_of_fair ρ hinv hfair hk
    refine ⟨j, hij, hgoal.imp_right fun hlive => ?_⟩
    have hdelivered := delivered_later ρ hk hij
    cases hmain : ((ρ.state j).runs r).main with
    | leaving => exact .inl rfl
    | returned => exact .inr rfl
    | hello | waiting | dispatching => rw [hmain] at hlive; cases hlive
    | fresh =>
      -- nothing is delivered to a run that has not started
      rw [(hinv j).silent r hmain] at hdelivered
      cases hdelivered

end

/-- In every run whose steps are all allowed the calls of `Run` are separate; and from there on, in
every fair continuation of that kind, the goroutines end and the messages are dispatched. -/
theorem runs_separate {as : List (Action M)}
    (hallowed : Along step (fun s a => allowed s a = true) init as)
    (hrun : exec step init as = some s) :
    Separate s ∧ ∀ ρ : Run (step (M := M)), ρ.state 0 = s →
      (∀ i, allowed (ρ.state i) (ρ.act i) = true) →
      ∀ r, ρ.Fair (fun a => a.of r = true) (fun s => s.ready r = true) → Lively ρ r := by
  have hs : Inv s := exec_induction_along
    (fun _ _ _ hstep hallowed h => inv_step hstep hallowed h) hallowed hrun inv_init
  refine ⟨hs.separate, fun ρ hzero hρ r hfair => lively_of_fair ρ ?_ hfair⟩
  exact ρ.invariant (fun _ _ _ hstep hallowed h => inv_step hstep hallowed h) hρ (hzero ▸ hs)

end

def orderly : List (Action Nat) :=
  [.start, .run 0 (.hello true), .deliver 0 10, .run 0 .load, .run 0 .receive, .run 0 .handOver,
    .run 0 .load, .run 0 .take, .run 0 (.dispatch true), .run 0 .receiveFails, .run 0 .handOver,
    .run 0 .take, .run 0 .close, .start, .run 1 (.hello true), .deliver 1 20, .run 1 .load,
    .run 1 .receive, .run 1 .handOver, .run 1 .load, .run 1 .take, .run 1 (.dispatch false),
    .run 1 .close, .start, .run 2 (.hello true), .deliver 2 30, .run 1 .receiveFails, .run 2 .load,
    .run 2 .receive, .run 1 .handOver]

/-- One run after the other. -/
theorem runs_separate_orderly : ∃ s, exec step init orderly = some s ∧ Separate s ∧
    s.dispatched 0 = [10] ∧ s.dispatched 1 = [20] ∧ s.received.length = 3 := by
  obtain ⟨s, hrun, heval⟩ : ∃ s, exec step init orderly = some s ∧
      s.dispatched 0 = [10] ∧ s.dispatched 1 = [20] ∧ s.received.length = 3 := by decide +kernel
  exact ⟨s, hrun, (runs_separate (by decide +kernel) hrun).1, heval⟩

def stolen : List (Action Nat) :=
  [.start, .run 0 (.hello true), .deliver 0 10, .deliver 0 11, .run 0 .load, .run 0 .receive,
    .run 0 .handOver, .run 0 .take, .run 0 .load, .run 0 .receive, .run 0 (.dispatch false),
    .run 0 .close, .run 0 .handOver, .start, .run 1 (.hello true), .deliver 1 20, .run 0 .load,
    .run 0 .receive]

/-- The goroutine of the run that has returned takes the message of the next one, and then finds
its own slot taken: nothing that the run can still do frees it. -/
theorem stale_receiver : ∃ s, exec step init stolen = some s ∧
    (s.runs 0).main = .returned ∧ (0, 1, 20) ∈ s.received ∧ ¬ Separate s ∧
    (s.runs 0).recv = .sending (.message 20) ∧ ∀ a, runStep s 0 a = none := by
  have heval : (exec step init stolen).map (fun s => (s.runs 0, s.received)) =
      some (⟨.returned, .sending (.message 20), some (.message 11)⟩,
        [(0, 0, 10), (0, 0, 11), (0, 1, 20)]) := by rfl
  obtain ⟨s, hrun, heq⟩ := Option.map_eq_some_iff.mp heval
  obtain ⟨hzero, hreceived⟩ := Prod.mk.inj heq
  have hstolen : (0, 1, 20) ∈ s.received := by rw [hreceived]; decide
  refine ⟨s, hrun, by rw [hzero], hstolen, ?_, by rw [hzero], ?_⟩
  · intro hseparate
    cases hseparate.1 _ hstolen
  · intro a
    cases a <;> simp [runStep, hzero]

end PowerManage.Client.Runs
