import PowerManage.Lib.Transition
import PowerManage.Exec.Capture

/-!
# The lines of a running command

`runStreamingWithStdin` starts a command and has two goroutines look after it.  One takes the lines
from the two channels of the command and records them; the other waits for the status of the command
or for the context, and then for the first.  Both look at the context, each in a select of its own.

The model has one step for each thing that can happen: what the command does (a line, the end of a
stream, its status), the cancellation, and every choice of the two selects.  In which order the
streams end and the status comes is left open, so that all that is proved holds for any order.
-/

namespace PowerManage.Exec.Streaming

open Transition List

abbrev Bytes := List UInt8

/-- The two streams of a command. -/
inductive StreamType
  | stdout
  | stderr
deriving DecidableEq

def StreamType.other : StreamType → StreamType
  | .stdout => .stderr
  | .stderr => .stdout

/-- The two ends of a context. -/
inductive ContextError
  | canceled
  | deadlineExceeded
deriving DecidableEq

/-- What `Run` may return as its error. -/
inductive Err
  | context (e : ContextError)
  /-- the error of the status: the command could not be started, or was killed -/
  | command (text : Bytes)
  /-- what `exec` finds before it starts the command -/
  | refused (text : Bytes)
  /-- `ErrEscalationDenied`, with the standard error of the wrapper -/
  | escalationDenied (stderr : Bytes)
deriving DecidableEq

/-- How the command has ended, as `go-cmd` reports it. -/
structure Status where
  exit : Int
  error : Option Bytes
deriving DecidableEq

/-- The captured output. -/
structure Output where
  exitCode : Int
  stdout : Bytes
  stderr : Bytes
deriving DecidableEq

def Output.text (res : Output) : StreamType → Bytes
  | .stdout => res.stdout
  | .stderr => res.stderr

/-- How a command gets its privileges. -/
inductive Backend
  | sudo
  | doas
  | direct
deriving DecidableEq

def contains (s : Bytes) (needle : String) : Bool := decide (Text.ascii needle.toList <:+: s)

/-- Whether the wrapper has refused, told by its exit code and text. -/
def detectEscalationDenied (b : Backend) (res : Output) : Option Err :=
  if res.exitCode = 0 then none
  else
    match b with
    | .sudo =>
      if contains res.stderr "a password is required" ||
          contains res.stderr "a terminal is required" ||
          contains res.stderr "no askpass program" then
        some (.escalationDenied res.stderr)
      else none
    | .doas =>
      if contains res.stderr "Authorization required" ||
          contains res.stderr "Authentication failed" then
        some (.escalationDenied res.stderr)
      else none
    | .direct => none

/-- Whether there is a callback, what the checks before the start find, and how the command is
escalated. -/
structure Call where
  callback : Bool
  refusal : Option Bytes
  backend : Backend
  escalate : Bool

/-- How `exec` ends, after the command. -/
def Call.conclude (c : Call) (res : Output) (runErr : Option Err) : Option Err :=
  match runErr with
  | some e => some e
  | none => if c.escalate then detectEscalationDenied c.backend res else none

/-! ## One stream -/

/-- A channel and what has been made of its lines: all that went in are `written`, all that came out
`recorded`. -/
structure Side where
  queue : List Bytes
  closed : Bool
  stream : Stream UInt8
  seq : Nat
  calls : List (Bytes × Nat)
  written : List Bytes
  recorded : List Bytes

def newline : UInt8 := 10

def Side.recordLine (callback : Bool) (σ : Side) (line : Bytes) : Side :=
  { σ with
    stream := Exec.recordLine List.length newline σ.stream line
    seq := if callback then σ.seq + 1 else σ.seq
    calls := if callback then σ.calls ++ [(line ++ [newline], σ.seq)] else σ.calls
    recorded := σ.recorded ++ [line] }

def Side.write (σ : Side) (line : Bytes) : Side :=
  { σ with queue := σ.queue ++ [line], written := σ.written ++ [line] }

def Side.close (σ : Side) : Side := { σ with closed := true }

def Side.take (callback : Bool) (σ : Side) (line : Bytes) (rest : List Bytes) : Side :=
  { σ with queue := rest }.recordLine callback line

/-- What a receiver is told that there is nothing more. -/
def Side.Delivered (σ : Side) : Prop := σ.closed = true ∧ σ.queue = []

instance (σ : Side) : Decidable σ.Delivered := inferInstanceAs (Decidable (_ ∧ _))

def marker : Bytes := newline :: Text.ascii truncated

def Side.text (σ : Side) : Bytes :=
  if σ.stream.bytes > maxOutputBytes then σ.stream.buf ++ marker else σ.stream.buf

/-! ## The goroutines -/

/-- Where the command is. -/
inductive Process
  | unstarted
  | running
  | exited (status : Status)
deriving DecidableEq

/-- Where the goroutine that reads both channels is. -/
inductive Drain
  | unstarted
  | selecting
  | remaining (k : StreamType)
  | done
deriving DecidableEq

/-- Where the caller is. -/
inductive Main
  | checking
  | selecting
  /-- `awaitStatusOrKill` with `SIGTERM` -/
  | terminating (e : ContextError)
  /-- and with `SIGKILL` -/
  | killing (e : ContextError)
  | waiting (status : Status) (runErr : Option Err)
  | returned (res : Output) (err : Option Err)
deriving DecidableEq

/-- One `Run`: the streams, the command, the context, the two goroutines. -/
structure State where
  sides : StreamType → Side
  process : Process
  ctx : Option ContextError
  drain : Drain
  main : Main

def init : State :=
  ⟨fun _ => ⟨[], false, ⟨[], 0⟩, 0, [], [], []⟩, .unstarted, none, .unstarted, .checking⟩

def State.on (s : State) (k : StreamType) (σ : Side) : State :=
  { s with sides := Function.update s.sides k σ }

/-- A step of any of them. -/
inductive Act
  | start
  | write (k : StreamType) (line : Bytes)
  | close (k : StreamType)
  | exit (status : Status)
  | cancel (e : ContextError)
  /-- a line comes from a channel, in the select or in `drainRemaining` -/
  | drainLine (k : StreamType)
  | drainClosed (k : StreamType)
  | drainStop
  | takeStatus
  | takeDone
  /-- a grace period is over; what `Status()` says at that moment -/
  | timeout (snapshot : Status)
  | finish
deriving DecidableEq

def State.result (s : State) (status : Status) : Output :=
  ⟨status.exit, (s.sides .stdout).text, (s.sides .stderr).text⟩

def Drain.reads (d : Drain) (k : StreamType) : Bool := d = .selecting || d = .remaining k

/-- One action; `none` if it cannot happen now. -/
def step (c : Call) (s : State) : Act → Option State
  | .start =>
    match s.main, s.ctx, c.refusal with
    | .checking, some e, _ => some { s with main := .returned ⟨0, [], []⟩ (some (.context e)) }
    | .checking, none, some e => some { s with main := .returned ⟨0, [], []⟩ (some (.refused e)) }
    | .checking, none, none =>
      some { s with main := .selecting, process := .running, drain := .selecting }
    | _, _, _ => none
  | .write k line =>
    if s.process ≠ .unstarted ∧ (s.sides k).closed = false then
      some (s.on k ((s.sides k).write line))
    else none
  | .close k =>
    if s.process ≠ .unstarted ∧ (s.sides k).closed = false then some (s.on k (s.sides k).close)
    else none
  | .exit status => if s.process = .running then some { s with process := .exited status } else none
  | .cancel e => if s.ctx = none then some { s with ctx := some e } else none
  | .drainLine k =>
    match (s.sides k).queue with
    | line :: rest =>
      if s.drain.reads k then some (s.on k ((s.sides k).take c.callback line rest)) else none
    | [] => none
  | .drainClosed k =>
    if (s.sides k).Delivered then
      match s.drain with
      | .selecting => some { s with drain := .remaining k.other }
      | .remaining k' => if k' = k then some { s with drain := .done } else none
      | _ => none
    else none
  | .drainStop =>
    if s.drain = .selecting ∧ s.ctx ≠ none then some { s with drain := .done } else none
  | .takeStatus =>
    match s.main, s.process with
    | .selecting, .exited status =>
      some { s with main := .waiting status (status.error.map .command) }
    | .terminating e, .exited status | .killing e, .exited status =>
      some { s with main := .waiting status (some (.context e)) }
    | _, _ => none
  | .takeDone =>
    match s.main, s.ctx with
    | .selecting, some e => some { s with main := .terminating e }
    | _, _ => none
  | .timeout snapshot =>
    match s.main with
    | .terminating e => some { s with main := .killing e }
    | .killing e => some { s with main := .waiting snapshot (some (.context e)) }
    | _ => none
  | .finish =>
    match s.main with
    | .waiting status runErr =>
      if s.drain = .done then
        some { s with main := .returned (s.result status) (c.conclude (s.result status) runErr) }
      else none
    | _ => none

/-! ## What a step can do -/

variable {c : Call} {s t : State} {a : Act}

/-- What each step needs and what it changes. -/
inductive Moves (c : Call) (s : State) : Act → State → Prop
  | refuse (err : Err) (h : s.main = .checking) :
    Moves c s .start { s with main := .returned ⟨0, [], []⟩ (some err) }
  | start (h : s.main = .checking) (hctx : s.ctx = none) :
    Moves c s .start { s with main := .selecting, process := .running, drain := .selecting }
  | write (k : StreamType) (line : Bytes) (hp : s.process ≠ .unstarted)
      (hopen : (s.sides k).closed = false) :
    Moves c s (.write k line) (s.on k ((s.sides k).write line))
  | close (k : StreamType) (hp : s.process ≠ .unstarted) (hopen : (s.sides k).closed = false) :
    Moves c s (.close k) (s.on k (s.sides k).close)
  | exit (status : Status) (h : s.process = .running) :
    Moves c s (.exit status) { s with process := .exited status }
  | cancel (e : ContextError) (h : s.ctx = none) : Moves c s (.cancel e) { s with ctx := some e }
  | drainLine (k : StreamType) (line : Bytes) (rest : List Bytes)
      (hq : (s.sides k).queue = line :: rest) (hd : s.drain.reads k = true) :
    Moves c s (.drainLine k) (s.on k ((s.sides k).take c.callback line rest))
  | drainClosed (k : StreamType) (hdel : (s.sides k).Delivered) (hd : s.drain = .selecting) :
    Moves c s (.drainClosed k) { s with drain := .remaining k.other }
  | drainEnd (k : StreamType) (hdel : (s.sides k).Delivered) (hd : s.drain = .remaining k) :
    Moves c s (.drainClosed k) { s with drain := .done }
  | drainStop (hd : s.drain = .selecting) (hctx : s.ctx ≠ none) :
    Moves c s .drainStop { s with drain := .done }
  | takeStatus (status : Status) (h : s.main = .selecting) (hp : s.process = .exited status) :
    Moves c s .takeStatus { s with main := .waiting status (status.error.map .command) }
  | reap (status : Status) (e : ContextError) (h : s.main = .terminating e ∨ s.main = .killing e)
      (hp : s.process = .exited status) :
    Moves c s .takeStatus { s with main := .waiting status (some (.context e)) }
  | takeDone (e : ContextError) (h : s.main = .selecting) (hctx : s.ctx = some e) :
    Moves c s .takeDone { s with main := .terminating e }
  | kill (snapshot : Status) (e : ContextError) (h : s.main = .terminating e) :
    Moves c s (.timeout snapshot) { s with main := .killing e }
  | giveUp (snapshot : Status) (e : ContextError) (h : s.main = .killing e) :
    Moves c s (.timeout snapshot) { s with main := .waiting snapshot (some (.context e)) }
  | finish (status : Status) (runErr : Option Err) (h : s.main = .waiting status runErr)
      (hd : s.drain = .done) :
    Moves c s .finish
      { s with main := .returned (s.result status) (c.conclude (s.result status) runErr) }

theorem moves_of_step (h : step c s a = some t) : Moves c s a t := by
  cases a with
  | start =>
    simp only [step] at h
    split at h
    · cases h; exact .refuse _ ‹_›
    · cases h; exact .refuse _ ‹_›
    · cases h; exact .start ‹_› ‹_›
    · cases h
  | write k line =>
    simp only [step] at h
    split at h
    · rename_i hw; cases h; exact .write k line hw.1 hw.2
    · cases h
  | close k =>
    simp only [step] at h
    split at h
    · rename_i hw; cases h; exact .close k hw.1 hw.2
    · cases h
  | exit status =>
    simp only [step] at h
    split at h
    · cases h; exact .exit status ‹_›
    · cases h
  | cancel e =>
    simp only [step] at h
    split at h
    · cases h; exact .cancel e ‹_›
    · cases h
  | drainLine k =>
    simp only [step] at h
    split at h
    · rename_i line rest hq
      split at h
      · cases h; exact .drainLine k line rest hq ‹_›
      · cases h
    · cases h
  | drainClosed k =>
    simp only [step] at h
    split at h
    · rename_i hdel
      split at h
      · cases h; exact .drainClosed k hdel ‹_›
      · rename_i k' hd
        split at h
        · rename_i hk; subst hk; cases h; exact .drainEnd k' hdel hd
        · cases h
      · cases h
    · cases h
  | drainStop =>
    simp only [step] at h
    split at h
    · rename_i hd; cases h; exact .drainStop hd.1 hd.2
    · cases h
  | takeStatus =>
    simp only [step] at h
    split at h
    · cases h; exact .takeStatus _ ‹_› ‹_›
    · cases h; exact .reap _ _ (.inl ‹_›) ‹_›
    · cases h; exact .reap _ _ (.inr ‹_›) ‹_›
    · cases h
  | takeDone =>
    simp only [step] at h
    split at h
    · cases h; exact .takeDone _ ‹_› ‹_›
    · cases h
  | timeout snapshot =>
    simp only [step] at h
    split at h
    · cases h; exact .kill snapshot _ ‹_›
    · cases h; exact .giveUp snapshot _ ‹_›
    · cases h
  | finish =>
    simp only [step] at h
    split at h
    · rename_i status runErr hm
      split at h
      · cases h; exact .finish status runErr hm ‹_›
      · cases h
    · cases h

/-! ## What a stream keeps to -/

def numbered (ls : List Bytes) : List (Bytes × Nat) :=
  ls.mapIdx fun i line => (line ++ [newline], i)

/-- Of what was written, all is recorded or still in the channel. -/
structure Side.Ok (callback : Bool) (σ : Side) : Prop where
  written_eq : σ.written = σ.recorded ++ σ.queue
  stream_eq : σ.stream = σ.recorded.foldl (Exec.recordLine List.length newline) ⟨[], 0⟩
  calls_eq : σ.calls = if callback then numbered σ.recorded else []
  seq_eq : σ.seq = σ.calls.length

namespace Side

variable {callback : Bool} {σ : Side}

theorem Ok.write (h : σ.Ok callback) (line : Bytes) : (σ.write line).Ok callback :=
  ⟨by rw [Side.write, h.written_eq, append_assoc], h.stream_eq, h.calls_eq, h.seq_eq⟩

theorem Ok.close (h : σ.Ok callback) : σ.close.Ok callback :=
  ⟨h.written_eq, h.stream_eq, h.calls_eq, h.seq_eq⟩

theorem Ok.take (h : σ.Ok callback) {line : Bytes} {rest : List Bytes}
    (hq : σ.queue = line :: rest) : (σ.take callback line rest).Ok callback where
  written_eq := by
    rw [Side.take, h.written_eq, hq]
    exact append_cons _ _ _
  stream_eq := by
    rw [Side.take, Side.recordLine, h.stream_eq, foldl_concat]
  calls_eq := by
    cases callback with
    | false => exact h.calls_eq
    | true =>
      have hlen : σ.seq = σ.recorded.length := by
        rw [h.seq_eq, h.calls_eq, if_pos rfl, numbered, length_mapIdx]
      simp only [Side.take, Side.recordLine, if_true]
      rw [numbered, mapIdx_concat, h.calls_eq, if_pos rfl, hlen, numbered]
  seq_eq := by
    cases callback with
    | false => exact h.seq_eq
    | true => simp [Side.take, Side.recordLine, h.seq_eq]

theorem Ok.text_eq (h : σ.Ok callback) :
    σ.text = captured length newline marker σ.recorded := by
  rw [Side.text, h.stream_eq]
  rfl

theorem Ok.recorded_eq (h : σ.Ok callback) (hdel : σ.Delivered) : σ.recorded = σ.written := by
  rw [h.written_eq, hdel.2, append_nil]

end Side

/-- This text is what is to be kept of these lines: the longest prefix within the cap, and a note if
there is more. -/
def Captures (ls : List Bytes) (text : Bytes) : Prop :=
  ∃ pre, pre <+: ls ∧ total List.length pre ≤ maxOutputBytes ∧
    (∀ pre', pre' <+: ls → total List.length pre' ≤ maxOutputBytes → pre' <+: pre) ∧
    text = pre.flatMap (· ++ [newline]) ++
      if total List.length ls > maxOutputBytes then marker else []

theorem captures_captured (ls : List Bytes) :
    Captures ls (captured length newline marker ls) := by
  have htotal : 0 + total length (kept length 0 ls) ≤ maxOutputBytes :=
    total_kept_le (Nat.zero_le _) ls
  rw [zero_add] at htotal
  refine ⟨kept length 0 ls, kept_prefix 0 ls, htotal, fun pre hpre hle => ?_, captured_eq⟩
  exact prefix_kept hpre (by rwa [zero_add])

/-! ## The invariant of the goroutines -/

theorem StreamType.eq_or_eq_other (k k' : StreamType) : k' = k ∨ k' = k.other := by
  cases k <;> cases k' <;> decide

@[simp] theorem StreamType.other_other (k : StreamType) : k.other.other = k := by
  cases k <;> rfl

theorem sides_on (s : State) (k : StreamType) (σ : Side) (k' : StreamType) :
    (s.on k σ).sides k' = if k' = k then σ else s.sides k' :=
  Function.update_apply ..

variable {k : StreamType} {as : List Act}

theorem forall_sides_on {P : StreamType → Side → Prop} {σ : Side} (h : ∀ k', P k' (s.sides k'))
    (hk : P k σ) (k' : StreamType) : P k' ((s.on k σ).sides k') := by
  rw [sides_on]
  split_ifs with heq
  · rw [heq]; exact hk
  · exact h k'

/-- What every reachable state keeps. -/
structure Inv (c : Call) (s : State) : Prop where
  side : ∀ k, (s.sides k).Ok c.callback
  checking : s.main = .checking → s.process = .unstarted
  unstarted : s.process = .unstarted → s.drain = .unstarted ∧ ∀ k, (s.sides k).written = []
  started : s.drain = .unstarted → s.process = .unstarted
  remaining : ∀ k, s.drain = .remaining k → (s.sides k.other).Delivered
  drained : s.drain = .done → (∀ k, (s.sides k).Delivered) ∨ s.ctx ≠ none
  returned : ∀ res err, s.main = .returned res err →
    (s.drain = .done ∨ s.process = .unstarted) ∧ ∀ k, res.text k = (s.sides k).text

theorem inv_init (c : Call) : Inv c init where
  side _ := ⟨rfl, rfl, by cases c.callback <;> rfl, rfl⟩
  checking _ := rfl
  unstarted _ := ⟨rfl, fun _ => rfl⟩
  started _ := rfl
  remaining _ h := by cases h
  drained h := by cases h
  returned _ _ h := by cases h

theorem Inv.main (h : Inv c s) {m : Main} (hm : m ≠ .checking)
    (hret : ∀ res err, m = .returned res err →
      (s.drain = .done ∨ s.process = .unstarted) ∧ ∀ k, res.text k = (s.sides k).text) :
    Inv c { s with main := m } :=
  ⟨h.side, fun heq => absurd heq hm, h.unstarted, h.started, h.remaining, h.drained, hret⟩

theorem Inv.on_open (h : Inv c s) {σ : Side} (hp : s.process ≠ .unstarted)
    (hopen : (s.sides k).closed = false) (hok : σ.Ok c.callback)
    (htext : σ.text = (s.sides k).text) : Inv c (s.on k σ) where
  side := forall_sides_on (P := fun _ τ => τ.Ok c.callback) h.side hok
  checking hm := h.checking hm
  unstarted hp' := absurd hp' hp
  started hd := h.started hd
  remaining k' hd := by
    have hdel := h.remaining k' hd
    rw [sides_on, if_neg]
    · exact hdel
    · intro heq
      rw [heq, Side.Delivered, hopen] at hdel
      cases hdel.1
  drained hd := by
    rcases h.drained hd with hdel | hctx
    · have hk := (hdel k).1
      rw [hopen] at hk
      cases hk
    · exact .inr hctx
  returned res err hm := by
    obtain ⟨hd, htexts⟩ := h.returned res err hm
    refine ⟨hd, fun k' => ?_⟩
    rw [sides_on]
    split_ifs with heq
    · rw [htexts, heq, htext]
    · exact htexts k'

theorem reads_iff {d : Drain} : d.reads k = true ↔ d = .selecting ∨ d = .remaining k := by
  simp [Drain.reads]

theorem Inv.drainLine (h : Inv c s) {line : Bytes} {rest : List Bytes}
    (hq : (s.sides k).queue = line :: rest) (hd : s.drain.reads k = true) :
    Inv c (s.on k ((s.sides k).take c.callback line rest)) := by
  have hreads := reads_iff.mp hd
  have hp : s.process ≠ .unstarted := by
    intro hp
    rw [(h.unstarted hp).1] at hreads
    rcases hreads with hreads | hreads <;> cases hreads
  refine ⟨forall_sides_on (P := fun _ τ => τ.Ok c.callback) h.side ((h.side k).take hq),
    h.checking, fun hp' => absurd hp' hp, h.started, fun k' hk' => ?_, fun hdone => ?_,
    fun res err hm => ?_⟩
  · -- the goroutine drains `k` alone, so that the other one is not touched
    rcases hreads with hsel | hrem
    · exact absurd (hsel.symm.trans hk') (by simp)
    have heq : Drain.remaining k = .remaining k' := hrem.symm.trans hk'
    cases heq
    rw [sides_on, if_neg (by cases k <;> decide)]
    exact h.remaining k hk'
  · rcases hreads with hreads | hreads <;> exact absurd (hreads.symm.trans hdone) (by simp)
  · rcases (h.returned res err hm).1 with hdone | hun
    · rcases hreads with hreads | hreads <;> exact absurd (hreads.symm.trans hdone) (by simp)
    · exact absurd hun hp

theorem Inv.drain (h : Inv c s) {d : Drain} (hd : s.drain = .selecting ∨ ∃ k, s.drain = .remaining k)
    (hd' : d ≠ .unstarted) (hrem : ∀ k, d = .remaining k → (s.sides k.other).Delivered)
    (hdone : d = .done → (∀ k, (s.sides k).Delivered) ∨ s.ctx ≠ none) :
    Inv c { s with drain := d } := by
  have hp : s.process ≠ .unstarted := by
    intro hp
    rw [(h.unstarted hp).1] at hd
    rcases hd with hd | ⟨k, hd⟩ <;> cases hd
  refine ⟨h.side, h.checking, fun hp' => absurd hp' hp, fun heq => absurd heq hd', hrem, hdone,
    fun res err hm => ?_⟩
  rcases (h.returned res err hm).1 with hd'' | hun
  · rw [hd''] at hd
    rcases hd with hd | ⟨k, hd⟩ <;> cases hd
  · exact absurd hun hp

theorem Inv.text_nil (h : Inv c s) (hp : s.process = .unstarted) (k : StreamType) :
    (s.sides k).text = [] := by
  have hwritten := (h.side k).written_eq
  rw [(h.unstarted hp).2 k] at hwritten
  rw [(h.side k).text_eq, (append_eq_nil_iff.mp hwritten.symm).1]
  rfl

theorem Inv.step (h : Inv c s) (hstep : step c s a = some t) : Inv c t := by
  cases moves_of_step hstep with
  | refuse err hm =>
    have hp := h.checking hm
    refine h.main (by simp) fun res err' heq => ⟨.inr hp, fun k => ?_⟩
    cases heq
    rw [h.text_nil hp]
    cases k <;> rfl
  | start hm hctx =>
    refine ⟨h.side, by simp, by simp, by simp, by simp, by simp, by simp⟩
  | write k line hp hopen => exact h.on_open hp hopen ((h.side k).write line) rfl
  | close k hp hopen => exact h.on_open hp hopen (h.side k).close rfl
  | exit status hp =>
    have hd : s.drain ≠ .unstarted := fun hd => by
      have hp' := h.started hd
      rw [hp] at hp'
      cases hp'
    refine ⟨h.side, fun hm => ?_, by simp, fun hd' => absurd hd' hd, h.remaining, h.drained,
      fun res err hm => ?_⟩
    · have hp' := h.checking hm
      rw [hp] at hp'
      cases hp'
    · obtain ⟨hd' | hp', htexts⟩ := h.returned res err hm
      · exact ⟨.inl hd', htexts⟩
      · rw [hp] at hp'
        cases hp'
  | cancel e hctx =>
    exact ⟨h.side, h.checking, h.unstarted, h.started, h.remaining, fun _ => .inr (by simp),
      h.returned⟩
  | drainLine k line rest hq hd => exact h.drainLine hq hd
  | drainClosed k hdel hd =>
    refine h.drain (.inl hd) (by simp) (fun k' heq => ?_) (by simp)
    cases heq
    rwa [StreamType.other_other]
  | drainEnd k hdel hd =>
    refine h.drain (.inr ⟨k, hd⟩) (by simp) (by simp) fun _ => .inl fun k' => ?_
    rcases k.eq_or_eq_other k' with rfl | rfl
    · exact hdel
    · exact h.remaining k hd
  | drainStop hd hctx => exact h.drain (.inl hd) (by simp) (by simp) fun _ => .inr hctx
  | takeStatus | reap | takeDone | kill | giveUp => exact h.main (by simp) (by simp)
  | finish status runErr hm hd =>
    refine h.main (by simp) fun res err heq => ⟨.inl hd, fun k => ?_⟩
    cases heq
    cases k <;> rfl

theorem inv_of_exec (h : exec (step c) init as = some s) : Inv c s :=
  exec_induction (fun _ _ _ hstep hs => hs.step hstep) h (inv_init c)

/-! ## What was written -/

/-- The lines written to a stream. -/
def lines (k : StreamType) (as : List Act) : List Bytes :=
  as.filterMap fun a =>
    match a with
    | .write k' line => if k' = k then some line else none
    | _ => none

theorem written_step (h : step c s a = some t) (k : StreamType) :
    (t.sides k).written = (s.sides k).written ++ lines k [a] := by
  cases moves_of_step h with
  | write k' line =>
    rw [sides_on]
    by_cases hk : k = k'
    · rw [hk]
      simp [lines, Side.write]
    · rw [if_neg hk]
      simp [lines, Ne.symm hk]
  | close k' | drainLine k' =>
    rw [sides_on]
    split_ifs with hk
    · rw [hk]
      exact (append_nil _).symm
    · exact (append_nil _).symm
  | refuse | start | exit | cancel | drainClosed | drainEnd | drainStop | takeStatus | reap
  | takeDone | kill | giveUp | finish => exact (append_nil _).symm

theorem written_exec (h : exec (step c) s as = some t) (k : StreamType) :
    (t.sides k).written = (s.sides k).written ++ lines k as := by
  induction as generalizing s with
  | nil =>
    cases h
    exact (append_nil _).symm
  | cons a as ih =>
    obtain ⟨u, hu, hrest⟩ := exec_cons_eq_some.mp h
    have happ : lines k (a :: as) = lines k [a] ++ lines k as := filterMap_append (l := [a])
    rw [ih hrest, written_step hu, append_assoc, happ]

theorem written_eq (h : exec (step c) init as = some s) (k : StreamType) :
    (s.sides k).written = lines k as := by
  rw [written_exec h]
  rfl

theorem Inv.complete (h : Inv c s) {ls : List Bytes} (hw : (s.sides k).written = ls)
    (hdel : (s.sides k).recorded = (s.sides k).written) :
    Captures ls (s.sides k).text ∧
      (s.sides k).calls = if c.callback then numbered ls else [] := by
  rw [(h.side k).text_eq, (h.side k).calls_eq, hdel, hw]
  exact ⟨captures_captured ls, rfl⟩

/-! ## The goroutines come to an end -/

/-- The steps of the two goroutines, and not of the command or of who holds the context. -/
def Act.Own : Act → Prop
  | .write _ _ | .close _ | .exit _ | .cancel _ => False
  | _ => True

def Drain.rank : Drain → Nat
  | .unstarted => 3
  | .selecting => 2
  | .remaining _ => 1
  | .done => 0

def Main.rank : Main → Nat
  | .checking => 5
  | .selecting => 4
  | .terminating _ => 3
  | .killing _ => 2
  | .waiting _ _ => 1
  | .returned _ _ => 0

def State.rank (s : State) : Nat :=
  (s.sides .stdout).queue.length + (s.sides .stderr).queue.length + s.drain.rank + s.main.rank

theorem rank_drainLine {line : Bytes} {rest : List Bytes} (hq : (s.sides k).queue = line :: rest) :
    (s.on k ((s.sides k).take c.callback line rest)).rank < s.rank := by
  cases k <;>
  · simp only [State.rank, hq]
    simp [Side.take, Side.recordLine, State.on]

theorem rank_step (hinv : Inv c s) (h : step c s a = some t) (hown : a.Own) : t.rank < s.rank := by
  cases moves_of_step h with
  | refuse err hm => simp [State.rank, hm, Main.rank]
  | start hm =>
    have hd := (hinv.unstarted (hinv.checking hm)).1
    simp [State.rank, hm, hd, Main.rank, Drain.rank]
  | write | close | exit | cancel => exact hown.elim
  | drainLine k line rest hq => exact rank_drainLine hq
  | drainClosed k hdel hd | drainEnd k hdel hd | drainStop hd hctx =>
    simp [State.rank, hd, Drain.rank]
  | takeStatus status hm | takeDone e hm | kill snapshot e hm | giveUp snapshot e hm
  | finish status runErr hm => simp [State.rank, hm, Main.rank]
  | reap status e hm => rcases hm with hm | hm <;> simp [State.rank, hm, Main.rank]

theorem length_le_rank (hinv : Inv c s) (hown : ∀ a ∈ as, a.Own) (h : exec (step c) s as = some t) :
    as.length ≤ s.rank := by
  induction as generalizing s with
  | nil => exact Nat.zero_le _
  | cons a as ih =>
    obtain ⟨u, hu, hrest⟩ := exec_cons_eq_some.mp h
    have hlt := rank_step hinv hu (hown a mem_cons_self)
    have hle := ih (hinv.step hu) (fun b hb => hown b (mem_cons_of_mem a hb)) hrest
    rw [length_cons]
    omega

theorem drain_enabled (hclosed : (s.sides k).closed = true) (hd : s.drain.reads k = true) :
    ∃ a, a.Own ∧ (step c s a).isSome = true := by
  cases hq : (s.sides k).queue with
  | cons line rest => exact ⟨.drainLine k, trivial, by simp [step, hq, hd]⟩
  | nil =>
    have hdel : (s.sides k).Delivered := ⟨hclosed, hq⟩
    refine ⟨.drainClosed k, trivial, ?_⟩
    rcases reads_iff.mp hd with hd | hd <;> simp [step, hdel, hd]

/-- Once the command has ended, one of the goroutines can take a step until the call returns. -/
theorem own_enabled (hinv : Inv c s) {status : Status} (hp : s.process = .exited status)
    (hclosed : ∀ k, (s.sides k).closed = true) (hm : ∀ res err, s.main ≠ .returned res err) :
    ∃ a, a.Own ∧ (step c s a).isSome = true := by
  cases hmain : s.main with
  | checking =>
    have hp' := hinv.checking hmain
    rw [hp] at hp'
    cases hp'
  | selecting | terminating e | killing e =>
    exact ⟨.takeStatus, trivial, by simp [step, hmain, hp]⟩
  | waiting st runErr =>
    cases hd : s.drain with
    | unstarted =>
      have hp' := hinv.started hd
      rw [hp] at hp'
      cases hp'
    | selecting => exact drain_enabled (hclosed .stdout) (reads_iff.mpr (.inl hd))
    | remaining k => exact drain_enabled (hclosed k) (reads_iff.mpr (.inr hd))
    | done => exact ⟨.finish, trivial, by simp [step, hmain, hd]⟩
  | returned res err => exact absurd hmain (hm res err)

theorem ctx_none (hlive : ∀ e, .cancel e ∉ as) (h : exec (step c) init as = some s) :
    s.ctx = none := by
  have halong : Along (step c) (fun _ a => ∀ e, a ≠ .cancel e) init as := by
    refine along_of_forall ?_ init
    rintro a ha - e rfl
    exact hlive e ha
  refine exec_induction_along (I := fun s => s.ctx = none) (fun s a t hstep ha hs => ?_) halong h rfl
  cases moves_of_step hstep with
  | cancel e => exact absurd rfl (ha e)
  | refuse | start | write | close | exit | drainLine | drainClosed | drainEnd | drainStop
  | takeStatus | reap | takeDone | kill | giveUp | finish => exact hs

/-- Without a cancellation: when the call returns, the text of each stream is the longest prefix of
its lines within the cap, with the note exactly if there is more, and the callback has been given
every line with its number. And it does return: until then a goroutine can take a step, and they
have finitely many. -/
theorem captured_exact (c : Call) (as : List Act) (s : State)
    (h : exec (step c) init as = some s) (hlive : ∀ e, .cancel e ∉ as) :
    (∀ res err, s.main = .returned res err → ∀ k, Captures (lines k as) (res.text k) ∧
      (s.sides k).calls = if c.callback then numbered (lines k as) else []) ∧
    (∀ status, s.process = .exited status → (∀ k, (s.sides k).closed = true) →
      (∀ res err, s.main ≠ .returned res err) → ∃ a, a.Own ∧ (step c s a).isSome = true) ∧
    (∀ bs t, (∀ a ∈ bs, a.Own) → exec (step c) s bs = some t → bs.length ≤ s.rank) := by
  have hinv := inv_of_exec h
  refine ⟨fun res err hm k => ?_, fun status hp hclosed hm => own_enabled hinv hp hclosed hm,
    fun bs t hown hbs => length_le_rank hinv hown hbs⟩
  obtain ⟨hend, htext⟩ := hinv.returned res err hm
  rw [htext]
  refine hinv.complete (written_eq h k) ?_
  rcases hend with hd | hp
  · rcases hinv.drained hd with hdel | hctx
    · exact (hinv.side k).recorded_eq (hdel k)
    · exact absurd (ctx_none hlive h) hctx
  -- nothing was started, and nothing written
  have hwritten := (hinv.unstarted hp).2 k
  have heq := (hinv.side k).written_eq
  rw [hwritten] at heq ⊢
  exact (append_eq_nil_iff.mp heq.symm).1

def plain : Call := ⟨true, none, .direct, false⟩

def hi : Bytes := Text.ascii "hi"

def oops : Bytes := Text.ascii "oops"

def twoStreams : List Act :=
  [.start, .write .stdout hi, .write .stderr oops, .drainLine .stderr, .exit ⟨0, none⟩, .takeStatus,
    .write .stdout oops, .close .stderr, .drainClosed .stderr, .drainLine .stdout, .close .stdout,
    .drainLine .stdout, .drainClosed .stdout, .finish]

/-- Lines on both streams. -/
theorem captured_two_streams :
    ∃ s res, exec (step plain) init twoStreams = some s ∧ s.main = .returned res none ∧
      Captures [hi, oops] res.stdout ∧ Captures [oops] res.stderr ∧
      (s.sides .stdout).calls = [(hi ++ [newline], 0), (oops ++ [newline], 1)] := by
  have hlive : ∀ e, .cancel e ∉ twoStreams := fun e => by cases e <;> decide
  have hexact := (captured_exact plain twoStreams _ rfl hlive).1 _ _ rfl
  exact ⟨_, _, rfl, rfl, (hexact .stdout).1, (hexact .stderr).1, (hexact .stdout).2⟩

/-! ## The cancellation -/

def Main.accepted : Main → Bool
  | .waiting _ none => true
  | _ => false

/-- Both streams are closed, and all of them has been recorded. -/
def State.Delivered (s : State) : Prop := (s.sides .stdout).Delivered ∧ (s.sides .stderr).Delivered

instance (s : State) : Decidable s.Delivered := inferInstanceAs (Decidable (_ ∧ _))

/-- Where the context is done when the status is taken, or later, both streams have been delivered by
then. -/
def Unraced (s : State) : Act → Prop
  | .takeStatus => s.main = .selecting → s.ctx = none ∨ s.Delivered
  | .cancel _ => s.main.accepted = true → s.Delivered
  | _ => True

/-- The status is taken while the context is not done. -/
def InTime (s : State) : Act → Prop
  | .takeStatus => s.main = .selecting → s.ctx = none
  | _ => True

instance decidableInTime (s : State) : ∀ a, Decidable (InTime s a)
  | .takeStatus => inferInstanceAs (Decidable (_ → _))
  | .cancel _ | .start | .write _ _ | .close _ | .exit _ | .drainLine _ | .drainClosed _ | .drainStop
  | .takeDone | .timeout _ | .finish => .isTrue trivial

instance decidableUnraced (s : State) : ∀ a, Decidable (Unraced s a)
  | .takeStatus | .cancel _ => inferInstanceAs (Decidable (_ → _))
  | .start | .write _ _ | .close _ | .exit _ | .drainLine _ | .drainClosed _ | .drainStop
  | .takeDone | .timeout _ | .finish => .isTrue trivial

theorem delivered_iff : s.Delivered ↔ ∀ k, (s.sides k).Delivered :=
  ⟨fun h k => by cases k; exacts [h.1, h.2], fun h => ⟨h .stdout, h .stderr⟩⟩

theorem delivered_step (h : step c s a = some t) (hs : s.Delivered) : t.Delivered := by
  have hs' := delivered_iff.mp hs
  refine delivered_iff.mpr ?_
  cases moves_of_step h with
  | write k line hp hopen | close k hp hopen =>
    have hk := (hs' k).1
    rw [hopen] at hk
    cases hk
  | drainLine k line rest hq =>
    have hk := (hs' k).2
    rw [hq] at hk
    cases hk
  | refuse | start | exit | cancel | drainClosed | drainEnd | drainStop | takeStatus | reap
  | takeDone | kill | giveUp | finish => exact hs'

theorem runErr_of_conclude {res : Output} {runErr : Option Err} (h : c.conclude res runErr = none) :
    runErr = none := by
  cases runErr with
  | none => rfl
  | some e => cases h

/-- What an answer without an error rests on, from the moment the status is taken for it. -/
structure Whole (s : State) : Prop where
  accepted : s.main.accepted = true → s.ctx ≠ none → s.Delivered
  returned : ∀ res, s.main = .returned res none → s.Delivered

theorem Whole.step (hw : Whole s) (hinv : Inv c s) (hG : Unraced s a)
    (hstep : step c s a = some t) : Whole t := by
  have hdel := @delivered_step c s t a hstep
  cases moves_of_step hstep with
  | refuse err hm => exact ⟨by simp [Main.accepted], by simp⟩
  | start | reap | takeDone | kill | giveUp => exact ⟨by simp [Main.accepted], by simp⟩
  | takeStatus status hm => exact ⟨fun _ hctx => hdel ((hG hm).resolve_left hctx), by simp⟩
  | cancel e hctx => exact ⟨fun hacc _ => hdel (hG hacc), fun res hm => hdel (hw.returned res hm)⟩
  | finish status runErr hm hd =>
    refine ⟨by simp [Main.accepted], fun res heq => hdel ?_⟩
    injection heq with _ hnone
    rw [runErr_of_conclude hnone] at hm
    rcases hinv.drained hd with hall | hctx
    · exact delivered_iff.mpr hall
    · exact hw.accepted (by rw [hm]; rfl) hctx
  | write | close | exit | drainLine | drainClosed | drainEnd | drainStop =>
    exact ⟨fun hacc hctx => hdel (hw.accepted hacc hctx), fun res hm => hdel (hw.returned res hm)⟩

theorem whole_of_exec (hG : Along (step c) Unraced init as) (h : exec (step c) init as = some s) :
    Whole s := by
  have hboth : Inv c s ∧ Whole s := by
    refine exec_induction_along (I := fun s => Inv c s ∧ Whole s) (fun s a t hstep ha hs => ?_) hG h
      ⟨inv_init c, by simp [init, Main.accepted], by simp [init]⟩
    exact ⟨hs.1.step hstep, hs.2.step hs.1 ha hstep⟩
  exact hboth.2

/-- The context is done, and no status has been accepted before. -/
structure Doomed (s : State) : Prop where
  ctx : s.ctx ≠ none
  accepted : s.main.accepted = false
  returned : ∀ res, s.main ≠ .returned res none

theorem Doomed.step (h : Doomed s) (hG : InTime s a) (hstep : step c s a = some t) :
    Doomed t := by
  cases moves_of_step hstep with
  | refuse => exact ⟨h.ctx, rfl, by simp⟩
  | start hm hctx => exact absurd hctx h.ctx
  | takeStatus status hm => exact absurd (hG hm) h.ctx
  | cancel e hctx => exact absurd hctx h.ctx
  | reap | takeDone | kill | giveUp => exact ⟨h.ctx, rfl, by simp⟩
  | finish status runErr hm hd =>
    refine ⟨h.ctx, rfl, fun res heq => ?_⟩
    injection heq with _ hnone
    have hacc := h.accepted
    rw [hm, runErr_of_conclude hnone] at hacc
    cases hacc
  | write | close | exit | drainLine | drainClosed | drainEnd | drainStop =>
    exact ⟨h.ctx, h.accepted, h.returned⟩

/-- Some cancellation comes while lines are undelivered. -/
def Cuts (c : Call) (as : List Act) : Prop :=
  ∃ pre e post u k, as = pre ++ .cancel e :: post ∧ exec (step c) init pre = some u ∧
    (u.sides k).queue ≠ []

theorem err_of_cuts (hG : Along (step c) Unraced init as) (hT : Along (step c) InTime init as)
    (h : exec (step c) init as = some s) (hcut : Cuts c as) (res : Output) : s.main ≠ .returned res none := by
  obtain ⟨pre, e, post, u, k, rfl, hu, hq⟩ := hcut
  have hwhole := whole_of_exec (along_append.mp hG).1 hu
  have hrest := (along_append.mp hG).2 _ hu
  rw [exec_append, hu] at h
  obtain ⟨v, hv, hpost⟩ := exec_cons_eq_some.mp h
  have hnot : ¬u.Delivered := fun hdel => hq (delivered_iff.mp hdel k).2
  have hdoomed : Doomed v := by
    cases moves_of_step hv with
    | cancel _ hctx =>
      refine ⟨by simp, ?_, fun res' hm => hnot (hwhole.returned res' hm)⟩
      exact Bool.eq_false_iff.mpr fun hacc => hnot (hrest.1 hacc)
  have htime := ((along_append.mp hT).2 _ hu).2 v hv
  exact (exec_induction_along (fun _ _ _ hstep ha hs => hs.step ha hstep) htime hpost
    hdoomed).returned res

/-- If the cancellation does not come between the two selects, a call that returns no error returns
all the lines written, up to the cap, and has passed them to the callback; and no cancellation has
found lines undelivered, if the status was taken in time. -/
theorem complete_unless_raced (c : Call) (as : List Act) (s : State)
    (h : exec (step c) init as = some s) (hG : Along (step c) Unraced init as) (res : Output)
    (hret : s.main = .returned res none) :
    (∀ k, Captures (lines k as) (res.text k) ∧
      (s.sides k).calls = if c.callback then numbered (lines k as) else []) ∧
      (Along (step c) InTime init as → ¬Cuts c as) := by
  have hinv := inv_of_exec h
  refine ⟨fun k => ?_, fun hT hcut => err_of_cuts hG hT h hcut res hret⟩
  have hdel := delivered_iff.mp ((whole_of_exec hG h).returned res hret) k
  rw [(hinv.returned res none hret).2]
  exact hinv.complete (written_eq h k) ((hinv.side k).recorded_eq hdel)

def lateCancel : List Act :=
  [.start, .write .stdout hi, .close .stdout, .close .stderr, .exit ⟨0, none⟩, .takeStatus,
    .drainLine .stdout, .drainClosed .stdout, .cancel .canceled, .drainClosed .stderr, .finish]

/-- A cancellation when all has been read. -/
theorem complete_after_late_cancel :
    ∃ s res, exec (step plain) init lateCancel = some s ∧ s.main = .returned res none ∧
      Captures [hi] res.stdout ∧ (s.sides .stdout).calls = [(hi ++ [newline], 0)] ∧
      ¬Cuts plain lateCancel := by
  obtain ⟨hall, hcut⟩ := complete_unless_raced plain lateCancel _ rfl (by decide +kernel) _ rfl
  exact ⟨_, _, rfl, rfl, (hall .stdout).1, (hall .stdout).2, hcut (by decide +kernel)⟩

def behindStatus : List Act :=
  [.start, .write .stdout hi, .close .stdout, .close .stderr, .exit ⟨0, none⟩, .takeStatus,
    .cancel .canceled, .drainStop, .finish]

/-- A cancellation after the status: a line is lost, and there is no error. -/
theorem cancelled_behind_status :
    ∃ s, exec (step plain) init behindStatus = some s ∧ s.main = .returned ⟨0, [], []⟩ none ∧
      lines .stdout behindStatus = [hi] ∧ (s.sides .stdout).calls = [] ∧ Cuts plain behindStatus := by
  refine ⟨_, rfl, rfl, by decide, rfl, ?_⟩
  exact ⟨behindStatus.take 6, .canceled, _, _, .stdout, rfl, rfl, cons_ne_nil _ _⟩

end PowerManage.Exec.Streaming
