import PowerManage.Lib.Transition

/-!
# Sends on the agent stream

`send` is called by any number of goroutines.  It reads `c.stream` under `c.mu`, takes the one place
in `sendSem`, and leaves `stream.Send` to a goroutine of its own, which gives the place back when
`Send` has returned and then publishes the result; the caller waits for the result or for its
context, and may be gone long before.

A call is therefore two processes, its caller and its sender, and the model has a step for each
operation that another goroutine can see.  `Close` and `Connect` hold `c.mu` over several steps; a
caller that finds the mutex taken is parked (`blocked`) and reads the stream when it is released, as
`sync.RWMutex` does it.  When and how a `Send` returns is up to the schedule, and so is when
`CloseRequest` and `CloseResponse` return, which `Close` calls with the mutex held.  `send` takes the
mutex before it looks at its context, so a `Close` that the peer keeps waiting keeps every `send`
waiting: `StreamCloses` is what rules that out.
-/

namespace PowerManage.Client.Send

open Transition Function Option

/-! ## A call -/

/-- What `send` returns. -/
inductive SendError
  | notConnected
  | ctx
  | stream (text : String)
deriving DecidableEq

/-- Where a call of `send` is. -/
inductive Caller
  | fresh
  | start
  | blocked
  | captured (stream : Option Nat)
  | acquiring (stream : Nat)
  | holding (stream : Nat)
  | waiting (stream : Nat)
  | returned (err : Option SendError)
deriving DecidableEq

/-- Where the goroutine that the call has started is. -/
inductive Sender
  | none
  | started (stream : Nat)
  | sending (stream : Nat)
  | sent (stream : Nat) (err : Option String)
  | released (stream : Nat) (err : Option String)
  | published (stream : Nat) (err : Option String)
deriving DecidableEq

/-- One call of `send`, with the stream it read, how often it took the place and gave it back, and
where it sent. -/
structure Call where
  caller : Caller
  sender : Sender
  done : Bool
  got : Option Nat
  acquired : Nat
  released : Nat
  handed : List Nat
deriving DecidableEq

def Call.fresh : Call := ⟨.fresh, .none, false, none, 0, 0, []⟩

/-- The steps of a call and of its goroutine. -/
inductive CallAct
  | begin
  | cancel
  | rlock
  | check
  | acquire
  /-- The context's branch of either `select`. -/
  | giveUp
  | spawn
  | receive
  | sendBegin
  | sendEnd (err : Option String)
  | release
  | publish
deriving DecidableEq

def sendSlots : Nat := 1

/-- One step, with the number of places taken after it. `locked`: somebody holds `c.mu` for writing.
-/
def Call.step (locked : Bool) (stream : Option Nat) (sem : Nat) (k : Call) :
    CallAct → Option (Call × Nat)
  | .begin =>
    match k.caller with
    | .fresh => some ({ k with caller := .start }, sem)
    | _ => none
  | .cancel => some ({ k with done := true }, sem)
  | .rlock =>
    match k.caller with
    | .start =>
      if locked then some ({ k with caller := .blocked }, sem)
      else some ({ k with caller := .captured stream, got := stream }, sem)
    | _ => none
  | .check =>
    match k.caller with
    | .captured none => some ({ k with caller := .returned (some .notConnected) }, sem)
    | .captured (some st) =>
      if k.done then some ({ k with caller := .returned (some .ctx) }, sem)
      else some ({ k with caller := .acquiring st }, sem)
    | _ => none
  | .acquire =>
    match k.caller with
    | .acquiring st =>
      if sem < sendSlots then
        some ({ k with caller := .holding st, acquired := k.acquired + 1 }, sem + 1)
      else none
    | _ => none
  | .giveUp =>
    match k.caller with
    | .acquiring _ | .waiting _ =>
      if k.done then some ({ k with caller := .returned (some .ctx) }, sem) else none
    | _ => none
  | .spawn =>
    match k.caller with
    | .holding st => some ({ k with caller := .waiting st, sender := .started st }, sem)
    | _ => none
  | .receive =>
    match k.caller, k.sender with
    | .waiting _, .published _ err =>
      some ({ k with caller := .returned (err.map .stream) }, sem)
    | _, _ => none
  | .sendBegin =>
    match k.sender with
    | .started st => some ({ k with sender := .sending st, handed := k.handed ++ [st] }, sem)
    | _ => none
  | .sendEnd err =>
    match k.sender with
    | .sending st => some ({ k with sender := .sent st err }, sem)
    | _ => none
  | .release =>
    match k.sender with
    | .sent st err =>
      if 0 < sem then
        some ({ k with sender := .released st err, released := k.released + 1 }, sem - 1)
      else none
    | _ => none
  | .publish =>
    match k.sender with
    | .released st err => some ({ k with sender := .published st err }, sem)
    | _ => none

/-! ## The client -/

/-- Who holds `c.mu` for writing, and where. -/
inductive Writer
  | close
  | cancelling
  | closingRequest
  | closingResponse
  | connect
deriving DecidableEq

/-- The stream, its lock, the semaphore and all calls. -/
structure State where
  stream : Option Nat
  opened : Nat
  /-- How many places of `sendSem` are taken. -/
  sem : Nat
  writer : Option Writer
  calls : Nat → Call

def init : State := ⟨none, 0, 0, none, fun _ => .fresh⟩

/-- A step of a call, or of what takes the lock for writing. -/
inductive Act
  | call (c : Nat) (a : CallAct)
  | lockClose
  | lockConnect
  | writer
deriving DecidableEq

/-- A parked caller gets the mutex when it is released, and reads the stream. -/
def Call.wake (stream : Option Nat) (k : Call) : Call :=
  if k.caller = .blocked then { k with caller := .captured stream, got := stream } else k

def State.unlock (s : State) : State :=
  { s with writer := none, calls := fun c => (s.calls c).wake s.stream }

/-- One action; `none` if it cannot happen now. -/
def step (s : State) : Act → Option State
  | .call c a =>
    match (s.calls c).step s.writer.isSome s.stream s.sem a with
    | none => none
    | some (k, sem) => some { s with sem := sem, calls := Function.update s.calls c k }
  | .lockClose => if s.writer.isNone then some { s with writer := some .close } else none
  | .lockConnect => if s.writer.isNone then some { s with writer := some .connect } else none
  | .writer =>
    match s.writer with
    | none => none
    | some .close =>
      if s.stream.isNone then some s.unlock else some { s with writer := some .cancelling }
    | some .cancelling => some { s with writer := some .closingRequest }
    | some .closingRequest => some { s with writer := some .closingResponse }
    | some .closingResponse => some ({ s with stream := none } : State).unlock
    | some .connect =>
      if s.stream.isNone then
        some ({ s with stream := some s.opened, opened := s.opened + 1 } : State).unlock
      else some s.unlock

/-! ## What one call goes through -/

/-- What each step of a call changes, and when it can be taken. -/
inductive Moves (locked : Bool) (stream : Option Nat) (sem : Nat) (k : Call) :
    CallAct → Call → Nat → Prop
  | begin (h : k.caller = .fresh) : Moves locked stream sem k .begin { k with caller := .start } sem
  | cancel : Moves locked stream sem k .cancel { k with done := true } sem
  | park (h : k.caller = .start) (hl : locked = true) :
    Moves locked stream sem k .rlock { k with caller := .blocked } sem
  | capture (h : k.caller = .start) (hl : locked = false) :
    Moves locked stream sem k .rlock { k with caller := .captured stream, got := stream } sem
  | notConnected (h : k.caller = .captured none) :
    Moves locked stream sem k .check { k with caller := .returned (some .notConnected) } sem
  | late {st : Nat} (h : k.caller = .captured (some st)) (hd : k.done = true) :
    Moves locked stream sem k .check { k with caller := .returned (some .ctx) } sem
  | queue {st : Nat} (h : k.caller = .captured (some st)) (hd : k.done = false) :
    Moves locked stream sem k .check { k with caller := .acquiring st } sem
  | acquire {st : Nat} (h : k.caller = .acquiring st) (hs : sem < sendSlots) :
    Moves locked stream sem k .acquire
      { k with caller := .holding st, acquired := k.acquired + 1 } (sem + 1)
  | giveUp {st : Nat} (h : k.caller = .acquiring st) (hd : k.done = true) :
    Moves locked stream sem k .giveUp { k with caller := .returned (some .ctx) } sem
  | abandon {st : Nat} (h : k.caller = .waiting st) (hd : k.done = true) :
    Moves locked stream sem k .giveUp { k with caller := .returned (some .ctx) } sem
  | spawn {st : Nat} (h : k.caller = .holding st) :
    Moves locked stream sem k .spawn { k with caller := .waiting st, sender := .started st } sem
  | receive {st st' : Nat} {err : Option String} (h : k.caller = .waiting st)
      (hp : k.sender = .published st' err) :
    Moves locked stream sem k .receive { k with caller := .returned (err.map .stream) } sem
  | sendBegin {st : Nat} (h : k.sender = .started st) :
    Moves locked stream sem k .sendBegin
      { k with sender := .sending st, handed := k.handed ++ [st] } sem
  | sendEnd {st : Nat} {err : Option String} (h : k.sender = .sending st) :
    Moves locked stream sem k (.sendEnd err) { k with sender := .sent st err } sem
  | release {st : Nat} {err : Option String} (h : k.sender = .sent st err) (hs : 0 < sem) :
    Moves locked stream sem k .release
      { k with sender := .released st err, released := k.released + 1 } (sem - 1)
  | publish {st : Nat} {err : Option String} (h : k.sender = .released st err) :
    Moves locked stream sem k .publish { k with sender := .published st err } sem

variable {st : Nat} {err : Option String} {s t : State}

section Call

variable {locked : Bool} {stream : Option Nat} {sem sem' : Nat} {k k' : Call} {a : CallAct}

theorem Call.moves_of_step (h : k.step locked stream sem a = some (k', sem')) :
    Moves locked stream sem k a k' sem' := by
  cases a with
  | cancel =>
    cases h
    exact .cancel
  | rlock =>
    simp only [Call.step] at h
    split at h
    · rename_i hc
      split at h
      · rename_i hl
        cases h
        exact .park hc hl
      · rename_i hl
        cases h
        exact .capture hc (by simpa using hl)
    · cases h
  | check =>
    simp only [Call.step] at h
    split at h
    · cases h
      exact .notConnected ‹_›
    · rename_i hc
      split at h
      · rename_i hd
        cases h
        exact .late hc hd
      · rename_i hd
        cases h
        exact .queue hc (by simpa using hd)
    · cases h
  | giveUp =>
    simp only [Call.step] at h
    split at h
    · rename_i hc
      split at h
      · cases h
        exact .giveUp hc ‹_›
      · cases h
    · rename_i hc
      split at h
      · cases h
        exact .abandon hc ‹_›
      · cases h
    · cases h
  | acquire =>
    simp only [Call.step] at h
    split at h
    · split at h
      · cases h
        exact .acquire ‹_› ‹_›
      · cases h
    · cases h
  | release =>
    simp only [Call.step] at h
    split at h
    · split at h
      · cases h
        exact .release ‹_› ‹_›
      · cases h
    · cases h
  | receive =>
    simp only [Call.step] at h
    split at h
    · cases h
      exact .receive ‹_› ‹_›
    · cases h
  | begin | spawn | sendBegin | sendEnd | publish =>
    simp only [Call.step] at h
    split at h
    · cases h
      constructor
      assumption
    · cases h

def Caller.Early : Caller → Prop
  | .fresh | .start | .blocked | .captured _ | .acquiring _ | .holding _ => True
  | .waiting _ | .returned _ => False

/-- The caller is in its second `select` or has returned from it, nil only if the result that was
published is nil. -/
def Caller.After (st : Nat) (published : Option (Option String)) : Caller → Prop
  | .waiting st' => st' = st
  | .returned err => err = none → published = some none
  | _ => False

/-- The accounts of a call without a goroutine. -/
def Call.Alone (k : Call) : Prop :=
  match k.caller with
  | .fresh | .start | .blocked => k.acquired = 0
  | .captured st => k.acquired = 0 ∧ k.got = st
  | .acquiring st => k.acquired = 0 ∧ k.got = some st
  | .holding st => k.acquired = 1 ∧ k.got = some st
  | .waiting _ => False
  | .returned err => k.acquired = 0 ∧ err ≠ none

/-- It took the place once for the stream it read, gave it back `released` times and sent to
`handed`. -/
structure Call.Joined (k : Call) (st : Nat) (released : Nat) (handed : List Nat)
    (published : Option (Option String)) : Prop where
  acquired : k.acquired = 1
  released : k.released = released
  handed : k.handed = handed
  got : k.got = some st
  after : k.caller.After st published

/-- The accounts of a call agree with where it is. -/
def Call.Ok (k : Call) : Prop :=
  match k.sender with
  | .none => k.released = 0 ∧ k.handed = [] ∧ k.Alone
  | .started st => k.Joined st 0 [] none
  | .sending st | .sent st _ => k.Joined st 0 [st] none
  | .released st _ => k.Joined st 1 [st] none
  | .published st err => k.Joined st 1 [st] (some err)

theorem Caller.After.not_early {p : Option (Option String)} {caller : Caller}
    (h : caller.After st p) : ¬caller.Early := by
  cases caller with
  | waiting _ | returned _ => exact id
  | _ => exact h.elim

theorem Call.Ok.sender_none (hk : k.Ok) (h : k.caller.Early) : k.sender = .none := by
  unfold Call.Ok at hk
  split at hk
  · assumption
  · exact absurd h hk.after.not_early
  · exact absurd h hk.after.not_early
  · exact absurd h hk.after.not_early
  · exact absurd h hk.after.not_early
  · exact absurd h hk.after.not_early

theorem Call.Ok.alone (hk : k.Ok) (h : k.caller.Early) :
    k.released = 0 ∧ k.handed = [] ∧ k.Alone := by
  have hs := hk.sender_none h
  rw [Call.Ok, hs] at hk
  exact hk

theorem Call.Ok.alone_at {r : Caller} (hk : k.Ok) (h : k.caller = r) (hr : r.Early) :
    k.caller.Early ∧ k.released = 0 ∧ k.handed = [] ∧ Call.Alone { k with caller := r } := by
  subst h
  exact ⟨hr, hk.alone hr⟩

theorem Call.Ok.of_alone (hk : k.Ok) (h : k.caller.Early) (hsender : k'.sender = k.sender)
    (hreleased : k'.released = k.released) (hhanded : k'.handed = k.handed) (halone : k'.Alone) :
    k'.Ok := by
  obtain ⟨hr, hh, -⟩ := hk.alone h
  rw [Call.Ok, hsender, hk.sender_none h]
  exact ⟨hreleased.trans hr, hhanded.trans hh, halone⟩

theorem Call.Joined.congr {released : Nat} {handed : List Nat}
    {published : Option (Option String)} (h : k.Joined st released handed published)
    (hacquired : k'.acquired = k.acquired) (hreleased : k'.released = k.released)
    (hhanded : k'.handed = k.handed) (hgot : k'.got = k.got)
    (hafter : k'.caller.After st published) : k'.Joined st released handed published :=
  ⟨hacquired.trans h.acquired, hreleased.trans h.released, hhanded.trans h.handed,
    hgot.trans h.got, hafter⟩

theorem Call.Ok.abandon (hk : k.Ok) (h : k.caller = .waiting st) :
    Call.Ok { k with caller := .returned (some .ctx) } := by
  have hafter : ∀ {st p}, Caller.After st p (.returned (some .ctx)) :=
    fun h => absurd h (some_ne_none _)
  unfold Call.Ok at hk ⊢
  cases hs : k.sender with
  | none =>
    rw [hs] at hk
    have halone := hk.2.2
    rw [Call.Alone, h] at halone
    exact halone.elim
  | _ =>
    rw [hs] at hk
    exact hk.congr rfl rfl rfl rfl hafter

theorem Call.Ok.moves (hk : k.Ok) (h : Moves locked stream sem k a k' sem') : k'.Ok := by
  cases h with
  | begin h | park h | capture h | notConnected h | queue h | acquire h | giveUp h =>
    obtain ⟨hearly, -, -, halone⟩ := hk.alone_at h trivial
    refine hk.of_alone hearly rfl rfl rfl ?_
    first
      | exact halone
      | exact ⟨halone, rfl⟩
      | exact ⟨halone.1, halone.2⟩
      | exact ⟨halone.1, some_ne_none _⟩
      | exact ⟨congrArg (· + 1) halone.1, halone.2⟩
  | late h =>
    obtain ⟨hearly, -, -, halone⟩ := hk.alone_at h trivial
    exact hk.of_alone hearly rfl rfl rfl ⟨halone.1, some_ne_none _⟩
  | cancel =>
    unfold Call.Ok at hk ⊢
    cases hs : k.sender with
    | none =>
      rw [hs] at hk
      exact hk
    | _ =>
      rw [hs] at hk
      exact hk.congr rfl rfl rfl rfl hk.after
  | abandon h => exact hk.abandon h
  | spawn h =>
    obtain ⟨-, hr, hh, halone⟩ := hk.alone_at h trivial
    exact ⟨halone.1, hr, hh, halone.2, rfl⟩
  | receive h hp =>
    rename_i st st' err
    rw [Call.Ok, hp] at hk
    have hafter : Caller.After st' (some err) (.returned (err.map .stream)) := by
      intro hnone
      rw [map_eq_none_iff] at hnone
      rw [hnone]
    rw [Call.Ok, show Call.sender { k with caller := .returned (err.map .stream) } =
      k.sender from rfl, hp]
    exact hk.congr rfl rfl rfl rfl hafter
  | sendBegin h =>
    rw [Call.Ok, h] at hk
    exact ⟨hk.acquired, hk.released, by rw [hk.handed]; rfl, hk.got, hk.after⟩
  | sendEnd h =>
    rw [Call.Ok, h] at hk
    exact hk.congr rfl rfl rfl rfl hk.after
  | release h =>
    rw [Call.Ok, h] at hk
    exact ⟨hk.acquired, congrArg (· + 1) hk.released, hk.handed, hk.got, hk.after⟩
  | publish h =>
    rw [Call.Ok, h] at hk
    refine ⟨hk.acquired, hk.released, hk.handed, hk.got, ?_⟩
    have hafter := hk.after
    revert hafter
    cases k.caller with
    | returned err => exact fun hafter hnone => absurd (hafter hnone) (some_ne_none _).symm
    | _ => exact id

/-- The call has a place of the semaphore. -/
def Call.Holds (k : Call) : Prop := k.released < k.acquired

/-- A `Send` of this call is going on. -/
def Call.InFlight (k : Call) : Prop := ∃ st, k.sender = .sending st

theorem Call.Ok.holds_of_inFlight (hk : k.Ok) (h : k.InFlight) : k.Holds := by
  obtain ⟨st, hs⟩ := h
  rw [Call.Ok, hs] at hk
  rw [Call.Holds, hk.acquired, hk.released]
  exact zero_lt_one

theorem Call.Ok.holds_of_sent (hk : k.Ok) (h : k.sender = .sent st err) : k.Holds := by
  rw [Call.Ok, h] at hk
  rw [Call.Holds, hk.acquired, hk.released]
  exact zero_lt_one

theorem Moves.slot (hk : k.Ok) (h : Moves locked stream sem k a k' sem') :
    (sem = 0 ∧ sem' = 1 ∧ k'.Holds) ∨ (k.Holds ∧ ¬k'.Holds ∧ sem' = sem - 1) ∨
      ((k'.Holds ↔ k.Holds) ∧ sem' = sem) := by
  cases h with
  | acquire h hs =>
    obtain ⟨-, hr, -⟩ := hk.alone_at h trivial
    have hsem : sem = 0 := Nat.lt_one_iff.mp hs
    refine .inl ⟨hsem, by rw [hsem], ?_⟩
    simp [Call.Holds, hr]
  | release h hs =>
    have hholds := hk.holds_of_sent h
    rw [Call.Ok, h] at hk
    simp [Call.Holds, hk.acquired, hk.released]
  | _ => exact .inr (.inr ⟨Iff.rfl, rfl⟩)

end Call

/-! ## Every run -/

/-- The place is taken exactly when one call has it, and only one has. -/
structure Slot (s : State) : Prop where
  taken : ∀ c, (s.calls c).Holds → s.sem = 1
  unique : ∀ c d, (s.calls c).Holds → (s.calls d).Holds → c = d
  held : s.sem = 0 ∨ s.sem = 1 ∧ ∃ c, (s.calls c).Holds

/-- What every reachable state keeps. -/
structure Inv (s : State) : Prop where
  ok : ∀ c, (s.calls c).Ok
  slot : Slot s
  parked : ∀ c, (s.calls c).caller = .blocked → s.writer ≠ none

theorem inv_init : Inv init where
  ok := fun _ => ⟨rfl, rfl, rfl⟩
  slot := ⟨fun _ h => absurd h (lt_irrefl 0), fun _ _ h => absurd h (lt_irrefl 0), .inl rfl⟩
  parked := by
    intro c h
    cases h

variable {k : Call}

theorem Call.Ok.wake (hk : k.Ok) (stream : Option Nat) : (k.wake stream).Ok := by
  unfold Call.wake
  split
  · rename_i h
    obtain ⟨hearly, -, -, halone⟩ := hk.alone_at h trivial
    exact hk.of_alone hearly rfl rfl rfl ⟨halone, rfl⟩
  · exact hk

theorem Call.holds_wake {stream : Option Nat} : (k.wake stream).Holds ↔ k.Holds := by
  unfold Call.wake
  split <;> rfl

theorem Inv.unlock {s' : State} (hs : Inv s) (hcalls : s'.calls = s.calls) (hsem : s'.sem = s.sem) :
    Inv s'.unlock where
  ok := fun c => (hcalls ▸ hs.ok c).wake _
  slot := by
    have hholds : ∀ c, (s'.unlock.calls c).Holds ↔ (s.calls c).Holds := by
      intro c
      rw [← hcalls]
      exact Call.holds_wake
    refine ⟨fun c h => ?_, fun c d hc hd => ?_, ?_⟩
    · exact hsem.trans (hs.slot.taken c ((hholds c).mp h))
    · exact hs.slot.unique c d ((hholds c).mp hc) ((hholds d).mp hd)
    · rcases hs.slot.held with h | ⟨h, c, hc⟩
      · exact .inl (hsem.trans h)
      · exact .inr ⟨hsem.trans h, c, (hholds c).mpr hc⟩
  parked := by
    intro c h
    change ((s'.calls c).wake s'.stream).caller = .blocked at h
    unfold Call.wake at h
    split at h
    · cases h
    · contradiction

variable {c : Nat}

theorem Inv.call {a : CallAct} {k : Call} {sem : Nat} (hs : Inv s)
    (h : Moves s.writer.isSome s.stream s.sem (s.calls c) a k sem) :
    Inv { s with sem := sem, calls := update s.calls c k } where
  ok := by
    intro d
    dsimp only
    by_cases hd : d = c
    · subst hd
      rw [update_self]
      exact (hs.ok d).moves h
    · rw [update_of_ne hd]
      exact hs.ok d
  slot := by
    have hother : ∀ {d}, d ≠ c → update s.calls c k d = s.calls d :=
      fun hd => update_of_ne hd ..
    have hself : update s.calls c k c = k := update_self ..
    rcases h.slot (hs.ok c) with ⟨hfree, hsem, hk⟩ | ⟨hheld, hk, hsem⟩ | ⟨hiff, hsem⟩
    · -- the place was free, so nobody else has it
      have honly : ∀ d, (update s.calls c k d).Holds → d = c := by
        intro d hd
        by_contra hne
        rw [hother hne] at hd
        have := hs.slot.taken d hd
        omega
      refine ⟨fun d _ => hsem, fun d e hd he => (honly d hd).trans (honly e he).symm, ?_⟩
      exact .inr ⟨hsem, c, by simpa only [hself] using hk⟩
    · have hnone : ∀ d, ¬(update s.calls c k d).Holds := by
        intro d hd
        by_cases hdc : d = c
        · rw [hdc, hself] at hd
          exact hk hd
        · rw [hother hdc] at hd
          exact hdc (hs.slot.unique d c hd hheld)
      have hone := hs.slot.taken c hheld
      exact ⟨fun d hd => absurd hd (hnone d), fun d _ hd => absurd hd (hnone d),
        .inl (by simp only [hsem, hone])⟩
    · have hholds : ∀ d, (update s.calls c k d).Holds ↔ (s.calls d).Holds := by
        intro d
        by_cases hdc : d = c
        · rw [hdc, hself]
          exact hiff
        · rw [hother hdc]
      refine ⟨fun d hd => hsem.trans (hs.slot.taken d ((hholds d).mp hd)),
        fun d e hd he => hs.slot.unique d e ((hholds d).mp hd) ((hholds e).mp he), ?_⟩
      rcases hs.slot.held with h | ⟨h, d, hd⟩
      · exact .inl (hsem.trans h)
      · exact .inr ⟨hsem.trans h, d, (hholds d).mpr hd⟩
  parked := by
    intro d hd
    dsimp only at hd ⊢
    by_cases hdc : d = c
    · subst hdc
      rw [update_self] at hd
      cases h with
      | park h hl =>
        intro hnone
        rw [hnone] at hl
        cases hl
      | cancel => exact hs.parked d hd
      | sendBegin | sendEnd | release | publish => exact hs.parked d hd
      | _ => cases hd
    · rw [update_of_ne hdc] at hd
      exact hs.parked d hd

theorem step_call {a : CallAct} (h : step s (.call c a) = some t) :
    ∃ k sem, Moves s.writer.isSome s.stream s.sem (s.calls c) a k sem ∧
      t = { s with sem := sem, calls := update s.calls c k } := by
  simp only [step] at h
  split at h
  · cases h
  · rename_i k sem hk
    cases h
    exact ⟨k, sem, Call.moves_of_step hk, rfl⟩

def Writer.rank : Writer → Nat
  | .close => 3
  | .cancelling => 2
  | .closingRequest => 1
  | .closingResponse | .connect => 0

theorem step_writer (h : step s .writer = some t) :
    (∃ w w', s.writer = some w ∧ w'.rank < w.rank ∧ t = { s with writer := some w' }) ∨
      ∃ s' : State, s.writer ≠ none ∧ s'.calls = s.calls ∧ s'.sem = s.sem ∧ t = s'.unlock := by
  simp only [step] at h
  split at h
  · cases h
  · rename_i hw
    split at h
    · cases h
      exact .inr ⟨s, by simp [hw], rfl, rfl, rfl⟩
    · cases h
      exact .inl ⟨_, _, hw, by decide, rfl⟩
  · rename_i hw
    cases h
    exact .inl ⟨_, _, hw, by decide, rfl⟩
  · rename_i hw
    cases h
    exact .inl ⟨_, _, hw, by decide, rfl⟩
  · rename_i hw
    cases h
    exact .inr ⟨{ s with stream := none }, by simp [hw], rfl, rfl, rfl⟩
  · rename_i hw
    split at h
    · cases h
      exact .inr ⟨{ s with stream := some s.opened, opened := s.opened + 1 }, by simp [hw], rfl,
        rfl, rfl⟩
    · cases h
      exact .inr ⟨s, by simp [hw], rfl, rfl, rfl⟩

/-- Only its holder releases the mutex. -/
theorem step_writer_eq {a : Act} {w : Writer} (h : step s a = some t) (hw : s.writer = some w)
    (ha : a ≠ .writer) : t.writer = s.writer := by
  cases a with
  | call d x =>
    obtain ⟨k, sem, -, rfl⟩ := step_call h
    rfl
  | lockClose | lockConnect => simp [step, hw] at h
  | writer => exact absurd rfl ha

theorem Inv.withWriter (hs : Inv s) (w : Writer) : Inv { s with writer := some w } :=
  ⟨hs.ok, ⟨hs.slot.taken, hs.slot.unique, hs.slot.held⟩, fun _ _ => some_ne_none w⟩

variable {a : Act}

theorem Inv.step (h : Send.step s a = some t) (hs : Inv s) : Inv t := by
  cases a with
  | call c a =>
    obtain ⟨k, sem, hmoves, rfl⟩ := step_call h
    exact hs.call hmoves
  | lockClose =>
    simp only [Send.step] at h
    split at h
    · cases h
      exact hs.withWriter _
    · cases h
  | lockConnect =>
    simp only [Send.step] at h
    split at h
    · cases h
      exact hs.withWriter _
    · cases h
  | writer =>
    rcases step_writer h with ⟨w, w', -, -, rfl⟩ | ⟨s', -, hcalls, hsem, rfl⟩
    · exact hs.withWriter w'
    · exact hs.unlock hcalls hsem

/-- Sends go one at a time, each on the stream its call has read. -/
structure Serialised (s : State) : Prop where
  oneInFlight : ∀ c d, (s.calls c).InFlight → (s.calls d).InFlight → c = d
  acquired : ∀ c, (s.calls c).released ≤ (s.calls c).acquired ∧ (s.calls c).acquired ≤ 1
  occupied : 0 < s.sem ↔ ∃ c, (s.calls c).released < (s.calls c).acquired
  kept : ∀ c, (s.calls c).InFlight → (s.calls c).acquired = 1 ∧ (s.calls c).released = 0
  /-- A call that returned nil called `Send` once, on the stream that it had read. -/
  handed : ∀ c, (s.calls c).caller = .returned none →
    ∃ st, (s.calls c).got = some st ∧ (s.calls c).handed = [st]

theorem Call.Ok.counts (hk : k.Ok) : k.released ≤ k.acquired ∧ k.acquired ≤ 1 := by
  unfold Call.Ok at hk
  split at hk
  · obtain ⟨hr, -, halone⟩ := hk
    rw [hr]
    refine ⟨Nat.zero_le _, ?_⟩
    unfold Call.Alone at halone
    split at halone
    · exact halone ▸ Nat.zero_le 1
    · exact halone ▸ Nat.zero_le 1
    · exact halone ▸ Nat.zero_le 1
    · exact halone.1 ▸ Nat.zero_le 1
    · exact halone.1 ▸ Nat.zero_le 1
    · exact halone.1.le
    · exact halone.elim
    · exact halone.1 ▸ Nat.zero_le 1
  all_goals
    rw [hk.acquired, hk.released]
    omega

theorem Call.Ok.handed_of_nil (hk : k.Ok) (h : k.caller = .returned none) :
    ∃ st, k.got = some st ∧ k.handed = [st] := by
  unfold Call.Ok at hk
  split at hk
  · have halone := hk.2.2
    rw [Call.Alone, h] at halone
    exact absurd rfl halone.2
  · have hafter := hk.after
    rw [h] at hafter
    exact absurd (hafter rfl).symm (some_ne_none _)
  all_goals exact ⟨_, hk.got, hk.handed⟩

theorem Inv.serialised (hs : Inv s) : Serialised s where
  oneInFlight := fun c d hc hd =>
    hs.slot.unique c d ((hs.ok c).holds_of_inFlight hc) ((hs.ok d).holds_of_inFlight hd)
  acquired := fun c => (hs.ok c).counts
  occupied := by
    constructor
    · intro h
      rcases hs.slot.held with h0 | ⟨-, c, hc⟩
      · omega
      · exact ⟨c, hc⟩
    · rintro ⟨c, hc⟩
      rw [hs.slot.taken c hc]
      exact zero_lt_one
  kept := by
    intro c hc
    have hholds := (hs.ok c).holds_of_inFlight hc
    have hcounts := (hs.ok c).counts
    unfold Call.Holds at hholds
    omega
  handed := fun c hc => (hs.ok c).handed_of_nil hc

/-! ## Fair runs -/

def CallAct.isCaller : CallAct → Bool
  | .rlock | .check | .acquire | .giveUp | .spawn | .receive => true
  | .begin | .cancel | .sendBegin | .sendEnd _ | .release | .publish => false

/-- A step that the caller itself makes. -/
def CallerOf (c : Nat) (a : Act) : Prop := ∃ x, x.isCaller = true ∧ a = .call c x

/-- Some step of this kind can be taken. -/
def Enabled (P : Act → Prop) (s : State) : Prop := ∃ a, P a ∧ (step s a).isSome = true

/-- Where `Close` waits for the stream: in `CloseRequest` or `CloseResponse`. -/
def Writer.onStream : Writer → Bool
  | .closingRequest | .closingResponse => true
  | _ => false

/-- The scheduler passes over neither the caller of `c`, nor its sender, nor whoever holds the mutex
without waiting for the stream. -/
structure FairTo (ρ : Run step) (c : Nat) : Prop where
  caller : ρ.Fair (CallerOf c) (Enabled (CallerOf c))
  sender : ρ.Fair (· = .call c .release) (Enabled (· = .call c .release))
  writer : ρ.Fair (· = .writer) fun s => ∃ w, s.writer = some w ∧ w.onStream = false

/-- `CloseRequest` and `CloseResponse` return. -/
def StreamCloses (ρ : Run step) : Prop :=
  ∀ i w, (ρ.state i).writer = some w → w.onStream = true → ∃ j, i ≤ j ∧ ρ.act j = .writer

def Caller.rank : Caller → Nat
  | .fresh => 7
  | .start => 6
  | .blocked => 5
  | .captured _ => 4
  | .acquiring _ => 3
  | .holding _ => 2
  | .waiting _ => 1
  | .returned _ => 0

variable {locked : Bool} {stream : Option Nat} {sem sem' : Nat}

theorem Moves.rank_lt {k k' : Call}
    {a : CallAct} (h : Moves locked stream sem k a k' sem') (ha : a.isCaller = true) :
    k'.caller.rank < k.caller.rank := by
  cases h with
  | park h | capture h | notConnected h | late h | queue h | acquire h | giveUp h | abandon h
  | spawn h | receive h =>
    rw [h]
    simp [Caller.rank]
  | _ => cases ha

theorem Moves.caller_eq {k k' : Call}
    {a : CallAct} (h : Moves locked stream sem k a k' sem') (ha : a.isCaller = false)
    (hk : k.caller ≠ .fresh) : k'.caller = k.caller := by
  cases h with
  | begin h => exact absurd h hk
  | cancel | sendBegin | sendEnd | release | publish => rfl
  | _ => cases ha

theorem Moves.done {k k' : Call}
    {a : CallAct} (h : Moves locked stream sem k a k' sem') (hk : k.done = true) :
    k'.done = true := by
  cases h with
  | cancel => rfl
  | _ => exact hk

theorem Call.wake_rank :
    (k.wake stream).caller.rank ≤ k.caller.rank := by
  unfold Call.wake
  split
  · rename_i h
    rw [h]
    simp [Caller.rank]
  · exact le_refl _

theorem Call.wake_done : (k.wake stream).done = k.done := by
  unfold Call.wake
  split <;> rfl

theorem step_at (h : step s a = some t) (c : Nat) :
    (∃ x sem, a = .call c x ∧
        Moves s.writer.isSome s.stream s.sem (s.calls c) x (t.calls c) sem) ∨
      ((∀ x, a ≠ .call c x) ∧
        (t.calls c = s.calls c ∨ (a = .writer ∧ ∃ stream, t.calls c = (s.calls c).wake stream))) := by
  cases a with
  | call d x =>
    obtain ⟨k, sem, hmoves, rfl⟩ := step_call h
    by_cases hd : c = d
    · subst hd
      refine .inl ⟨x, sem, rfl, ?_⟩
      dsimp only
      rw [update_self]
      exact hmoves
    · refine .inr ⟨?_, .inl (update_of_ne hd ..)⟩
      rintro y heq
      cases heq
      exact hd rfl
  | lockClose =>
    simp only [step] at h
    split at h
    · cases h
      exact .inr ⟨by simp, .inl rfl⟩
    · cases h
  | lockConnect =>
    simp only [step] at h
    split at h
    · cases h
      exact .inr ⟨by simp, .inl rfl⟩
    · cases h
  | writer =>
    refine .inr ⟨by simp, ?_⟩
    rcases step_writer h with ⟨w, w', -, -, rfl⟩ | ⟨s', -, hcalls, -, rfl⟩
    · exact .inl rfl
    · exact .inr ⟨rfl, s'.stream, by rw [← hcalls]; rfl⟩

theorem step_rank_le (h : step s a = some t) (c : Nat)
    (hc : (s.calls c).caller ≠ .fresh) : (t.calls c).caller.rank ≤ (s.calls c).caller.rank := by
  rcases step_at h c with ⟨x, sem, -, hmoves⟩ | ⟨-, heq | ⟨-, stream, heq⟩⟩
  · cases hx : x.isCaller with
    | true => exact (hmoves.rank_lt hx).le
    | false => rw [hmoves.caller_eq hx hc]
  · rw [heq]
  · rw [heq]
    exact Call.wake_rank

theorem step_done (h : step s a = some t) (c : Nat) (hc : (s.calls c).done = true) :
    (t.calls c).done = true := by
  rcases step_at h c with ⟨x, sem, -, hmoves⟩ | ⟨-, heq | ⟨-, stream, heq⟩⟩
  · exact hmoves.done hc
  · rw [heq, hc]
  · rw [heq, Call.wake_done, hc]

theorem step_rank_lt (h : step s a = some t) (ha : CallerOf c a) :
    (t.calls c).caller.rank < (s.calls c).caller.rank := by
  obtain ⟨x, hx, rfl⟩ := ha
  rcases step_at h c with ⟨y, sem, heq, hmoves⟩ | ⟨hne, -⟩
  · cases heq
    exact hmoves.rank_lt hx
  · exact absurd rfl (hne x)

theorem enabled_of_isSome {x : CallAct} {P : Act → Prop} (hx : P (.call c x))
    (h : ((s.calls c).step s.writer.isSome s.stream s.sem x).isSome = true) : Enabled P s := by
  refine ⟨.call c x, hx, ?_⟩
  obtain ⟨⟨k, sem⟩, hk⟩ := isSome_iff_exists.mp h
  rw [step, hk]
  rfl

theorem enabled_of_done (hfresh : (s.calls c).caller ≠ .fresh)
    (hblocked : (s.calls c).caller ≠ .blocked) (hreturned : (s.calls c).caller.rank ≠ 0)
    (hdone : (s.calls c).done = true) : Enabled (CallerOf c) s := by
  have hmove : ∀ x : CallAct, x.isCaller = true →
      ((s.calls c).step s.writer.isSome s.stream s.sem x).isSome = true →
      Enabled (CallerOf c) s := fun x hx h => enabled_of_isSome ⟨x, hx, rfl⟩ h
  cases hc : (s.calls c).caller with
  | fresh => exact absurd hc hfresh
  | blocked => exact absurd hc hblocked
  | returned _ => exact absurd (by rw [hc]; rfl) hreturned
  | start =>
    refine hmove .rlock rfl ?_
    simp only [Call.step, hc]
    split <;> rfl
  | captured st =>
    refine hmove .check rfl ?_
    cases st <;> simp [Call.step, hc, hdone]
  | acquiring st => exact hmove .giveUp rfl (by simp [Call.step, hc, hdone])
  | holding st => exact hmove .spawn rfl (by simp [Call.step, hc])
  | waiting st => exact hmove .giveUp rfl (by simp [Call.step, hc, hdone])

section Fair

variable {ρ : Run step} {c i : Nat}

theorem run_inv (h0 : ρ.state 0 = init) (i : Nat) : Inv (ρ.state i) :=
  ρ.invariant (G := fun _ _ => True) (fun _ _ _ h _ hs => hs.step h) (fun _ => trivial)
    (h0 ▸ inv_init) i

theorem run_rank_le {n : Nat} (hn : n < 7)
    (hi : ((ρ.state i).calls c).caller.rank ≤ n) {j : Nat} (hij : i ≤ j) :
    ((ρ.state j).calls c).caller.rank ≤ n := by
  induction j, hij using Nat.le_induction with
  | base => exact hi
  | succ j hij ih =>
    refine (step_rank_le (ρ.next j) c ?_).trans ih
    intro hfresh
    rw [hfresh] at ih
    exact absurd ih (by simp only [Caller.rank]; omega)

theorem run_done (hi : ((ρ.state i).calls c).done = true) {j : Nat} (hij : i ≤ j) :
    ((ρ.state j).calls c).done = true := by
  induction j, hij using Nat.le_induction with
  | base => exact hi
  | succ j hij ih => exact step_done (ρ.next j) c ih

theorem FairTo.writer_of_streamCloses (hfair : FairTo ρ c) (hcloses : StreamCloses ρ) :
    ρ.Fair (· = .writer) fun s => s.writer ≠ none := by
  intro i
  obtain ⟨j, hij, hact | hready⟩ := hfair.writer i
  · exact ⟨j, hij, .inl hact⟩
  cases hw : (ρ.state j).writer with
  | none => exact ⟨j, hij, .inr (not_not.mpr hw)⟩
  | some w =>
    have hstream : w.onStream = true := by
      by_contra hnot
      exact hready ⟨w, hw, Bool.eq_false_iff.mpr hnot⟩
    obtain ⟨k, hjk, hact⟩ := hcloses j w hw hstream
    exact ⟨k, hij.trans hjk, .inl hact⟩

/-- A parked caller is woken: whoever holds the mutex releases it. -/
theorem eventually_woken (h0 : ρ.state 0 = init) (hfair : FairTo ρ c) (hcloses : StreamCloses ρ)
    (hi : ((ρ.state i).calls c).caller.rank ≤ 5) :
    ∃ j, i ≤ j ∧ ((ρ.state j).calls c).caller.rank ≤ 4 := by
  have hparked : ∀ j, i ≤ j → ¬((ρ.state j).calls c).caller.rank ≤ 4 →
      ((ρ.state j).calls c).caller = .blocked ∧ ∃ w, (ρ.state j).writer = some w := by
    intro j hij hj
    have hrank := run_rank_le (by decide) hi hij
    have hblocked : ((ρ.state j).calls c).caller = .blocked := by
      cases hc : ((ρ.state j).calls c).caller <;> simp_all [Caller.rank]
    exact ⟨hblocked, ne_none_iff_exists'.mp ((run_inv h0 j).parked c hblocked)⟩
  refine ρ.eventually (fun s => (s.calls c).caller.rank ≤ 4)
    (fun s => (s.writer.map Writer.rank).getD 0) (hfair.writer_of_streamCloses hcloses) ?_ ?_ ?_
  · intro j hij hj
    obtain ⟨-, w, hw⟩ := hparked j hij hj
    rw [hw]
    exact some_ne_none w
  · intro j hij hj hact
    obtain ⟨hblocked, w, hw⟩ := hparked j hij hj
    have hnext := ρ.next j
    rw [hact] at hnext
    rcases step_writer hnext with ⟨w₁, w₂, hw₁, hlt, ht⟩ | ⟨s', -, hcalls, -, ht⟩
    · refine .inr ?_
      rw [ht]
      simp only [hw₁]
      exact hlt
    refine .inl ?_
    rw [ht]
    change ((s'.calls c).wake s'.stream).caller.rank ≤ 4
    rw [hcalls, Call.wake, if_pos hblocked]
    exact le_refl _
  · intro j hij hj hact
    obtain ⟨-, w, hw⟩ := hparked j hij hj
    refine .inr ?_
    rw [step_writer_eq (ρ.next j) hw hact]

theorem eventually_returns (h0 : ρ.state 0 = init) (hfair : FairTo ρ c) (hcloses : StreamCloses ρ)
    (hbegun : ((ρ.state i).calls c).caller ≠ .fresh)
    (hdone : ((ρ.state i).calls c).done = true) :
    ∃ j, i ≤ j ∧ ∃ err, ((ρ.state j).calls c).caller = .returned err := by
  have hrank6 : ((ρ.state i).calls c).caller.rank ≤ 6 := by
    cases hc : ((ρ.state i).calls c).caller <;> simp_all [Caller.rank]
  have hfresh : ∀ {n j}, n < 7 → ((ρ.state j).calls c).caller.rank ≤ n →
      ((ρ.state j).calls c).caller ≠ .fresh := by
    intro n j hn hj hc
    rw [hc] at hj
    exact absurd hj (by simp only [Caller.rank]; omega)
  -- on its own steps the caller comes as far as anybody lets it
  have hgo : ∀ (goal n k : Nat), n < 7 → i ≤ k → ((ρ.state k).calls c).caller.rank ≤ n →
      (∀ j, k ≤ j → ¬((ρ.state j).calls c).caller.rank ≤ goal →
        ((ρ.state j).calls c).caller ≠ .blocked) →
      ∃ j, k ≤ j ∧ ((ρ.state j).calls c).caller.rank ≤ goal := by
    intro goal n k hn hik hk hblocked
    refine ρ.eventually (fun s => (s.calls c).caller.rank ≤ goal)
      (fun s => (s.calls c).caller.rank) hfair.caller ?_ ?_ ?_
    · intro j hkj hj
      exact enabled_of_done (hfresh hn (run_rank_le hn hk hkj)) (hblocked j hkj hj)
        (fun hzero => hj (by rw [hzero]; exact Nat.zero_le _)) (run_done hdone (hik.trans hkj))
    · intro j _ _ hact
      exact .inr (step_rank_lt (ρ.next j) hact)
    · intro j hkj _ _
      exact .inr (step_rank_le (ρ.next j) c (hfresh hn (run_rank_le hn hk hkj)))
  -- past `start`, where it may be parked
  obtain ⟨j₁, hij₁, hj₁⟩ := hgo 5 6 i (by decide) (le_refl i) hrank6 fun j _ hj hblocked =>
    hj (by rw [hblocked]; exact le_refl _)
  obtain ⟨j₂, hj₁₂, hj₂⟩ := eventually_woken h0 hfair hcloses hj₁
  obtain ⟨j₃, hj₂₃, hj₃⟩ := hgo 0 4 j₂ (by decide) (hij₁.trans hj₁₂) hj₂ fun j hj _ hblocked => by
    have := run_rank_le (by decide) hj₂ hj
    rw [hblocked] at this
    exact absurd this (by decide)
  refine ⟨j₃, (hij₁.trans hj₁₂).trans hj₂₃, ?_⟩
  cases hc : ((ρ.state j₃).calls c).caller with
  | returned err => exact ⟨err, rfl⟩
  | _ =>
    rw [hc] at hj₃
    exact absurd hj₃ (by simp [Caller.rank])

/-- A sender stays there until it gives the place back, which it does once. -/
theorem Moves.sent {k k' : Call}
    {a : CallAct} (h : Moves locked stream sem k a k' sem') (hk : k.Ok)
    (hs : k.sender = .sent st err ∨ k.released = 1) :
    k'.sender = .sent st err ∨ k'.released = 1 := by
  have hreleased : ∀ {st' err'}, k.sender = .sent st' err' → k.released = 0 := by
    intro st' err' h
    rw [Call.Ok, h] at hk
    exact hk.released
  cases h with
  | release h =>
    refine .inr ?_
    rw [hreleased h]
  | spawn h =>
    obtain ⟨hearly, -⟩ := hk.alone_at h trivial
    rcases hs with hs | hs
    · rw [hk.sender_none hearly] at hs
      cases hs
    · exact .inr hs
  | sendBegin h | sendEnd h | publish h =>
    rcases hs with hs | hs
    · rw [h] at hs
      cases hs
    · exact .inr hs
  | _ => exact hs

theorem step_sent (h : step s a = some t) {c : Nat} (hk : (s.calls c).Ok)
    (hs : (s.calls c).sender = .sent st err ∨ (s.calls c).released = 1) :
    (t.calls c).sender = .sent st err ∨ (t.calls c).released = 1 := by
  rcases step_at h c with ⟨x, sem, -, hmoves⟩ | ⟨-, heq | ⟨-, stream, heq⟩⟩
  · exact hmoves.sent hk hs
  · rw [heq]
    exact hs
  · rw [heq, Call.wake]
    split <;> exact hs

theorem eventually_released (h0 : ρ.state 0 = init) (hfair : FairTo ρ c)
    (hi : ((ρ.state i).calls c).sender = .sent st err) :
    ∃ j, i ≤ j ∧ ((ρ.state j).calls c).released = 1 := by
  have hsent : ∀ j, i ≤ j →
      ((ρ.state j).calls c).sender = .sent st err ∨ ((ρ.state j).calls c).released = 1 := by
    intro j hij
    induction j, hij using Nat.le_induction with
    | base => exact .inl hi
    | succ j hij ih => exact step_sent (ρ.next j) ((run_inv h0 j).ok c) ih
  refine ρ.eventually (fun s => (s.calls c).released = 1) (fun _ => 0) hfair.sender ?_ ?_ ?_
  · intro j hij hj
    have hs := (hsent j hij).resolve_right hj
    have hsem := (run_inv h0 j).slot.taken c (((run_inv h0 j).ok c).holds_of_sent hs)
    exact enabled_of_isSome rfl (by simp [Call.step, hs, hsem])
  · intro j hij hj hact
    have hnext := ρ.next j
    rw [hact] at hnext
    obtain ⟨k, sem, hmoves, ht⟩ := step_call hnext
    refine .inl ?_
    cases hmoves with
    | release h =>
      have hk := (run_inv h0 j).ok c
      rw [Call.Ok, h] at hk
      rw [ht]
      dsimp only
      rw [update_self]
      rw [hk.released]
  · exact fun _ _ _ _ => .inr (le_refl 0)

/-- A caller that comes to the mutex while its holder waits for ever does not get past it. -/
theorem parked_for_ever {w : Writer} (hw : (ρ.state i).writer = some w)
    (hstuck : ∀ j, i ≤ j → ρ.act j ≠ .writer) (hc : ((ρ.state i).calls c).caller = .start) {j : Nat}
    (hij : i ≤ j) : (ρ.state j).writer = some w ∧
      (((ρ.state j).calls c).caller = .start ∨ ((ρ.state j).calls c).caller = .blocked) := by
  induction j, hij using Nat.le_induction with
  | base => exact ⟨hw, .inl hc⟩
  | succ j hij ih =>
    obtain ⟨hwriter, hcaller⟩ := ih
    refine ⟨(step_writer_eq (ρ.next j) hwriter (hstuck j hij)).trans hwriter, ?_⟩
    rcases step_at (ρ.next j) c with ⟨x, sem, -, hmoves⟩ | ⟨-, heq | ⟨hact, -⟩⟩
    · rw [hwriter] at hmoves
      cases hx : x.isCaller with
      | false =>
        rw [hmoves.caller_eq hx (by rcases hcaller with h | h <;> rw [h] <;> simp)]
        exact hcaller
      | true =>
        generalize (ρ.state (j + 1)).calls c = k at hmoves ⊢
        cases hmoves with
        | park => exact .inr rfl
        | capture _ hl => cases hl
        | notConnected h | late h | queue h | acquire h | giveUp h | abandon h | spawn h
        | receive h => rcases hcaller with hc | hc <;> rw [h] at hc <;> cases hc
        | _ => cases hx
    · rw [heq]
      exact hcaller
    · exact absurd hact (hstuck j hij)

end Fair

/-- In every run at most one `stream.Send` is in flight, the place is given back once for each time
it is taken and not while the `Send` runs, and a call that returns nil has handed its message once
to the stream it read.  The place is given back when the `Send` has returned.  A call whose context is
done returns if `CloseRequest` and `CloseResponse` do; when one of them does not, no call that begins
meanwhile returns, whatever its context says. -/
theorem sends_serialised {ρ : Run step} (h0 : ρ.state 0 = init) {c : Nat} (hfair : FairTo ρ c) :
    (∀ as s, exec step init as = some s → Serialised s) ∧
    (∀ i st err, ((ρ.state i).calls c).sender = .sent st err →
      ∃ j, i ≤ j ∧ ((ρ.state j).calls c).released = 1) ∧
    (StreamCloses ρ → ∀ i, ((ρ.state i).calls c).caller ≠ .fresh →
      ((ρ.state i).calls c).done = true →
      ∃ j, i ≤ j ∧ ∃ err, ((ρ.state j).calls c).caller = .returned err) ∧
    (∀ i w, (ρ.state i).writer = some w → (∀ j, i ≤ j → ρ.act j ≠ .writer) →
      ((ρ.state i).calls c).caller = .start →
      ∀ j, i ≤ j → ∀ err, ((ρ.state j).calls c).caller ≠ .returned err) := by
  refine ⟨fun as s h => ?_, fun i st err hs => eventually_released h0 hfair hs,
    fun hcloses i hbegun hdone => eventually_returns h0 hfair hcloses hbegun hdone,
    fun i w hw hstuck hc j hij err hret => ?_⟩
  · exact (exec_induction (fun _ _ _ h hs => Inv.step h hs) h inv_init).serialised
  · rcases (parked_for_ever hw hstuck hc hij).2 with h | h <;> rw [h] at hret <;> cases hret

/-! ## A peer that stalls

A first call has its `Send` in flight when the peer stops reading.  `Close` has the mutex when a
second one begins, whose context is done already. -/

def stalledRun : List Act :=
  [.lockConnect, .writer] ++
    [.begin, .rlock, .check, .acquire, .spawn, .sendBegin].map (.call 0) ++
    [.lockClose, .writer, .writer, .writer] ++ [.begin, .cancel, .rlock].map (.call 1)

/-- The peer resets the stream, and `Close` goes on. -/
def resetRun : List Act :=
  stalledRun ++ [.sendEnd (some "reset"), .release, .publish, .receive].map (.call 0) ++
    [.writer, .call 1 .check]

theorem step_cancel_again {s : State} {c : Nat} (h : (s.calls c).done = true) :
    step s (.call c .cancel) = some s := by
  have hk : { s.calls c with done := true } = s.calls c := by rw [← h]
  simp only [step, Call.step, hk, update_eq_self]

/-- Once its call waits for the mutex or has returned, only the holder of the mutex may be due. -/
theorem fairTo_ofExec {as : List Act} {t : State} {c : Nat} {a : Act}
    (h : exec step init as = some t) (hstay : step t a = some t)
    (hcaller : (t.calls c).caller = .blocked ∨ ∃ err, (t.calls c).caller = .returned err)
    (hsender : (t.calls c).sender = .none) (hwriter : ∀ w, t.writer = some w → w.onStream = true) :
    FairTo (.ofExec h hstay) c := by
  refine ⟨Run.fair_ofExec h hstay ?_, Run.fair_ofExec h hstay ?_, Run.fair_ofExec h hstay ?_⟩
  · rintro ⟨a, ⟨x, hx, rfl⟩, hsome⟩
    obtain ⟨u, hu⟩ := isSome_iff_exists.mp hsome
    obtain ⟨k, sem, hmoves, -⟩ := step_call hu
    have hlt := hmoves.rank_lt hx
    cases hmoves <;> rcases hcaller with hc | ⟨err, hc⟩ <;> simp_all
  · rintro ⟨a, rfl, hsome⟩
    simp [step, Call.step, hsender] at hsome
  · rintro ⟨w, hw, hoff⟩
    rw [hwriter w hw] at hoff
    cases hoff

/-- A call that waits for the lock returns when the stream is closed. -/
theorem sends_serialised_reset :
    ∃ ρ : Run step, ρ.state 0 = init ∧ FairTo ρ 1 ∧ StreamCloses ρ ∧
      ((ρ.state 15).writer = some .closingResponse ∧ ((ρ.state 15).calls 1).caller = .blocked ∧
        ((ρ.state 15).calls 1).done = true) ∧
      ∃ j, 15 ≤ j ∧ ∃ err, ((ρ.state j).calls 1).caller = .returned err := by
  have hend : (exec step init resetRun).map (fun s => (s.calls 1, s.writer)) =
      some (⟨.returned (some .notConnected), .none, true, none, 0, 0, []⟩, none) := rfl
  obtain ⟨t, ht, hcall⟩ := map_eq_some_iff.mp hend
  obtain ⟨hcall, hwriter⟩ := Prod.mk.inj hcall
  have hstay := step_cancel_again (c := 1) (s := t) (by rw [hcall])
  have hfair : FairTo (.ofExec ht hstay) 1 :=
    fairTo_ofExec ht hstay (.inr ⟨_, by rw [hcall]⟩) (by rw [hcall]) (by simp [hwriter])
  have hcloses : StreamCloses (.ofExec ht hstay) := by
    intro i w hw hstream
    rcases le_or_gt i 19 with hi | hi
    · exact ⟨19, hi, rfl⟩
    -- the mutex has been released
    have hnone : ((Run.ofExec ht hstay).state i).writer = none := by
      rcases eq_or_lt_of_le (Nat.succ_le_of_lt hi) with rfl | hi
      · rfl
      · have hlen : resetRun.length ≤ i := hi
        simp only [Run.ofExec, List.take_of_length_le hlen, ht]
        exact hwriter
    rw [hnone] at hw
    cases hw
  have hparked : (((Run.ofExec ht hstay).state 15).calls 1).caller = .blocked := rfl
  have hbegun : (((Run.ofExec ht hstay).state 15).calls 1).caller ≠ .fresh := by
    rw [hparked]
    simp
  exact ⟨_, rfl, hfair, hcloses, ⟨rfl, hparked, rfl⟩,
    (sends_serialised rfl hfair).2.2.1 hcloses 15 hbegun rfl⟩

/-- A call whose context is done waits for ever for the mutex that `Close` holds in
`CloseResponse`. -/
theorem send_behind_close :
    ∃ ρ : Run step, ρ.state 0 = init ∧ FairTo ρ 1 ∧ ((ρ.state 15).calls 1).done = true ∧
      ∀ j, 15 ≤ j → ((ρ.state j).calls 1).caller = .blocked := by
  have hend : (exec step init stalledRun).map (fun s => (s.calls 1, s.writer)) =
      some (⟨.blocked, .none, true, none, 0, 0, []⟩, some .closingResponse) := rfl
  obtain ⟨t, ht, hcall⟩ := map_eq_some_iff.mp hend
  obtain ⟨hcall, hwriter⟩ := Prod.mk.inj hcall
  have hstay := step_cancel_again (c := 1) (s := t) (by rw [hcall])
  have hfair : FairTo (.ofExec ht hstay) 1 := by
    refine fairTo_ofExec ht hstay (.inl (by rw [hcall])) (by rw [hcall]) fun w hw => ?_
    cases hwriter.symm.trans hw
    rfl
  refine ⟨_, rfl, hfair, rfl, fun j hj => ?_⟩
  have hlen : stalledRun.length ≤ j := hj
  simp only [Run.ofExec, List.take_of_length_le hlen, ht, Option.getD_some, hcall]

end PowerManage.Client.Send
