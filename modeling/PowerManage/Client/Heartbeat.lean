import PowerManage.Lib.Transition

/-!
# The heartbeat interval of a run

A `Welcome` may carry a heartbeat interval.  The dispatcher of `Run` clamps it and puts it into a
channel of capacity one, after it has taken out what may still be in there; the heartbeat goroutine
takes intervals from the channel and resets its ticker.  Both operations of the dispatcher are
non-blocking, and between them the goroutine may come first.

The model has the two goroutines with a step for each operation on the channel.
-/

namespace PowerManage.Client.Heartbeat

open Transition

/-! ## Intervals -/

def second : Int := 1000000000

def minHeartbeatInterval : Int := 5 * second

def maxHeartbeatInterval : Int := 5 * 60 * second

def maxInt64 : Int := 2 ^ 63 - 1

def minInt64 : Int := -2 ^ 63

/-- The value an `int64` holds after an operation with result `x`. -/
def wrap (x : Int) : Int := x.bmod (2 ^ 64)

def quot (a b : Int) : Int := if 0 ≤ a then a / b else -(-a / b)

/-- A protobuf duration: an `int64` and an `int32`. -/
structure Duration where
  seconds : Int
  nanos : Int
  seconds_ge : minInt64 ≤ seconds
  seconds_le : seconds ≤ maxInt64
  nanos_ge : -2 ^ 31 ≤ nanos
  nanos_le : nanos ≤ 2 ^ 31 - 1

def Duration.length (x : Duration) : Int := x.seconds * second + x.nanos

/-- `AsDuration`: an `int64` of nanoseconds, the nearest one where the duration does not fit. -/
def Duration.asDuration (x : Duration) : Int :=
  let d := wrap (x.seconds * second)
  let sum := wrap (d + x.nanos)
  if quot d second ≠ x.seconds ∨ (x.seconds < 0 ∧ x.nanos < 0 ∧ 0 < sum) ∨
      (0 < x.seconds ∧ 0 < x.nanos ∧ sum < 0) then
    if x.seconds < 0 then minInt64 else if 0 < x.seconds then maxInt64 else sum
  else sum

def clamp (d : Int) : Int :=
  let d := if d < minHeartbeatInterval then minHeartbeatInterval else d
  if maxHeartbeatInterval < d then maxHeartbeatInterval else d

variable {x : Int}

theorem wrap_of_fits (hge : minInt64 ≤ x) (hle : x ≤ maxInt64) : wrap x = x := by
  unfold wrap minInt64 maxInt64 at *
  exact Int.bmod_eq_of_le (by omega) (by omega)

theorem wrap_bounds (x : Int) : minInt64 ≤ wrap x ∧ wrap x ≤ maxInt64 := by
  have hge := @Int.le_bmod x (2 ^ 64) (by decide)
  have hlt := @Int.bmod_lt x (2 ^ 64) (by decide)
  unfold wrap minInt64 maxInt64
  omega

theorem quot_wrap_iff {s : Int} :
    quot (wrap (s * second)) second = s ↔
      minInt64 ≤ s * second ∧ s * second ≤ maxInt64 := by
  have hbounds := wrap_bounds (s * second)
  constructor
  · intro h
    unfold quot second minInt64 maxInt64 at *
    split at h <;> omega
  · rintro ⟨hge, hle⟩
    rw [wrap_of_fits hge hle]
    unfold quot second
    split <;> omega

theorem wrap_above (h : maxInt64 < x) (h' : x < 2 ^ 64) : wrap x < 0 := by
  unfold wrap Int.bmod maxInt64 at *
  dsimp only
  split <;> omega

theorem wrap_below (h : x < minInt64) (h' : -2 ^ 64 < x) : 0 < wrap x := by
  unfold wrap Int.bmod minInt64 at *
  dsimp only
  split <;> omega

/-- It is exact, or both are beyond the largest interval, or both are negative. -/
theorem asDuration_cases (x : Duration) :
    x.asDuration = x.length ∨
      (maxHeartbeatInterval < x.asDuration ∧ maxHeartbeatInterval < x.length) ∨
      (x.asDuration < 0 ∧ x.length < 0) := by
  obtain ⟨s, n, hs, hs', hn, hn'⟩ := x
  have hfits := @quot_wrap_iff s
  simp only [Duration.asDuration, Duration.length]
  by_cases hf : minInt64 ≤ s * second ∧ s * second ≤ maxInt64
  · rw [wrap_of_fits hf.1 hf.2] at hfits ⊢
    have hquot := hfits.mpr hf
    by_cases hlow : s * second + n < minInt64
    · -- both parts are negative, and the sum wraps to a positive number
      have hwrap := wrap_below hlow (by unfold minInt64 second at *; omega)
      have hneg : s < 0 ∧ n < 0 := by unfold minInt64 second at *; omega
      rw [if_pos (.inr (.inl ⟨hneg.1, hneg.2, hwrap⟩)), if_pos hneg.1]
      exact .inr (.inr ⟨by decide, hlow.trans (by decide)⟩)
    by_cases hhigh : maxInt64 < s * second + n
    · have hwrap := wrap_above hhigh (by unfold maxInt64 second at *; omega)
      have hpos : 0 < s ∧ 0 < n := by unfold maxInt64 second at *; omega
      rw [if_pos (.inr (.inr ⟨hpos.1, hpos.2, hwrap⟩)), if_neg (by omega), if_pos hpos.1]
      exact .inr (.inl ⟨by decide, lt_trans (by decide) hhigh⟩)
    refine .inl ?_
    rw [wrap_of_fits (not_lt.mp hlow) (not_lt.mp hhigh), if_neg]
    rintro (h | ⟨h, h', h''⟩ | ⟨h, h', h''⟩)
    · exact h hquot
    · unfold second at h''
      omega
    · unfold second at h''
      omega
  · -- the seconds alone do not fit
    rw [if_pos (.inl (mt hfits.mp hf))]
    by_cases hneg : s < 0
    · rw [if_pos hneg]
      exact .inr (.inr ⟨by decide, by unfold minInt64 maxInt64 second at *; omega⟩)
    have hpos : 0 < s := by unfold minInt64 maxInt64 second at *; omega
    rw [if_pos hpos]
    unfold minInt64 maxInt64 second at *
    unfold maxHeartbeatInterval second
    omega

theorem asDuration_pos_iff (x : Duration) : 0 < x.asDuration ↔ 0 < x.length := by
  have hmax : 0 < maxHeartbeatInterval := by decide
  rcases asDuration_cases x with h | ⟨h, h'⟩ | ⟨h, h'⟩
  · rw [h]
  · exact iff_of_true (hmax.trans h) (hmax.trans h')
  · exact iff_of_false (by omega) (by omega)

theorem clamp_of_gt {d : Int} (h : maxHeartbeatInterval < d) : clamp d = maxHeartbeatInterval := by
  have hmin : ¬d < minHeartbeatInterval := by
    unfold minHeartbeatInterval maxHeartbeatInterval second at *
    omega
  simp only [clamp, if_neg hmin, if_pos h]

theorem clamp_asDuration {x : Duration} (h : 0 < x.length) :
    clamp x.asDuration = clamp x.length := by
  rcases asDuration_cases x with heq | ⟨hgt, hgt'⟩ | ⟨-, hneg⟩
  · rw [heq]
  · rw [clamp_of_gt hgt, clamp_of_gt hgt']
  · omega

/-! ## The two goroutines -/

/-- Between two messages, or in `applyWelcomeHeartbeat`, about to empty the channel or to fill it.
-/
inductive Dispatcher
  | idle
  | draining (d : Int)
  | pushing (d : Int)
deriving DecidableEq

/-- Where the heartbeat goroutine is. -/
inductive Beater
  | selecting
  | resetting (d : Int)
  | sending
  | exited
deriving DecidableEq

/-- `newest` is the last positive interval received, `taken` the last one taken from the channel. -/
structure State where
  dispatcher : Dispatcher
  beater : Beater
  hbUpdate : Option Int
  ticker : Int
  newest : Option Int
  taken : Option Int
deriving DecidableEq

def init (heartbeatInterval : Int) : State :=
  ⟨.idle, .selecting, none, heartbeatInterval, none, none⟩

/-- A step of the dispatcher or of the heartbeat. -/
inductive Act
  /-- A `Welcome` is dispatched, with the interval that it carries. -/
  | welcome (interval : Option Duration)
  | drain
  | push
  | take
  | reset
  | tick
  | sent (ok : Bool)
  | ctxDone

/-- One action; `none` if it cannot happen now. -/
def step (s : State) : Act → Option State
  | .welcome interval =>
    match s.dispatcher, interval with
    | .idle, none => some s
    | .idle, some x =>
      if x.asDuration ≤ 0 then some s
      else some { s with dispatcher := .draining (clamp x.asDuration), newest := some x.length }
    | _, _ => none
  | .drain =>
    match s.dispatcher with
    | .draining d => some { s with dispatcher := .pushing d, hbUpdate := none }
    | _ => none
  | .push =>
    match s.dispatcher with
    | .pushing d =>
      -- the default branch leaves what the channel holds
      some { s with dispatcher := .idle, hbUpdate := s.hbUpdate.or (some d) }
    | _ => none
  | .take =>
    match s.beater, s.hbUpdate with
    | .selecting, some d =>
      some { s with beater := .resetting d, hbUpdate := none, taken := some d }
    | _, _ => none
  | .reset =>
    match s.beater with
    | .resetting d => some { s with beater := .selecting, ticker := d }
    | _ => none
  | .tick =>
    match s.beater with
    | .selecting => some { s with beater := .sending }
    | _ => none
  | .sent ok =>
    match s.beater with
    | .sending => some { s with beater := if ok then .selecting else .exited }
    | _ => none
  | .ctxDone =>
    match s.beater with
    | .selecting => some { s with beater := .exited }
    | _ => none

/-! ## Every run -/

/-- The newest interval is in the channel, or the channel is empty and it is the last one taken. -/
def Kept (s : State) (d : Int) : Prop :=
  s.hbUpdate = some d ∨ s.hbUpdate = none ∧ s.taken = some d

/-- The newest interval is in force, or on its way. -/
def Inv (s : State) : Prop :=
  match s.dispatcher with
  | .idle =>
    (s.newest = none ∧ s.hbUpdate = none) ∨ ∃ d, s.newest = some d ∧ 0 < d ∧ Kept s (clamp d)
  | .draining v => ∃ d, s.newest = some d ∧ 0 < d ∧ v = clamp d
  | .pushing v => s.hbUpdate = none ∧ ∃ d, s.newest = some d ∧ 0 < d ∧ v = clamp d

theorem inv_init (heartbeatInterval : Int) : Inv (init heartbeatInterval) := .inl ⟨rfl, rfl⟩

variable {s : State}

theorem Inv.beater {t : State} (hs : Inv s) (hdispatcher : t.dispatcher = s.dispatcher)
    (hnewest : t.newest = s.newest) (hchannel : (t.hbUpdate = s.hbUpdate ∧ t.taken = s.taken) ∨
      ∃ d, s.hbUpdate = some d ∧ t.hbUpdate = none ∧ t.taken = some d) : Inv t := by
  have hkept : ∀ {d}, Kept s d → Kept t d := by
    intro d hd
    rcases hchannel with ⟨hch, htaken⟩ | ⟨d', hch, hnone, htaken⟩
    · rw [Kept, hch, htaken]
      exact hd
    rcases hd with hd | ⟨hd, -⟩
    · rw [hch] at hd
      cases hd
      exact .inr ⟨hnone, htaken⟩
    · rw [hch] at hd
      cases hd
  have hempty : s.hbUpdate = none → t.hbUpdate = none := by
    intro h
    rcases hchannel with ⟨hch, -⟩ | ⟨d', -, hnone, -⟩
    · exact hch.trans h
    · exact hnone
  unfold Inv at hs ⊢
  rw [hdispatcher, hnewest]
  cases hd : s.dispatcher with
  | idle =>
    rw [hd] at hs
    rcases hs with ⟨hn, hch⟩ | ⟨d, hn, hpos, hd⟩
    · exact .inl ⟨hn, hempty hch⟩
    · exact .inr ⟨d, hn, hpos, hkept hd⟩
  | draining v =>
    rw [hd] at hs
    exact hs
  | pushing v =>
    rw [hd] at hs
    exact ⟨hempty hs.1, hs.2⟩

theorem Inv.step {t : State} {a : Act} (h : Heartbeat.step s a = some t) (hs : Inv s) : Inv t := by
  cases a with
  | welcome interval =>
    simp only [Heartbeat.step] at h
    split at h
    · cases h
      exact hs
    · rename_i x _
      split at h
      · cases h
        exact hs
      rename_i hpos
      cases h
      have hlength : 0 < x.length := (asDuration_pos_iff x).mp (not_le.mp hpos)
      exact ⟨x.length, rfl, hlength, clamp_asDuration hlength⟩
    · cases h
  | drain =>
    simp only [Heartbeat.step] at h
    split at h
    · rename_i d hd
      cases h
      rw [Inv, hd] at hs
      exact ⟨rfl, hs⟩
    · cases h
  | push =>
    simp only [Heartbeat.step] at h
    split at h
    · rename_i v hv
      cases h
      rw [Inv, hv] at hs
      obtain ⟨hnone, d, hn, hpos, rfl⟩ := hs
      exact .inr ⟨d, hn, hpos, .inl (by simp [hnone])⟩
    · cases h
  | take =>
    simp only [Heartbeat.step] at h
    split at h
    · rename_i d _ hch
      cases h
      exact hs.beater rfl rfl (.inr ⟨d, hch, rfl, rfl⟩)
    · cases h
  | reset | tick | sent | ctxDone =>
    simp only [Heartbeat.step] at h
    split at h
    · cases h
      exact hs.beater rfl rfl (.inl ⟨rfl, rfl⟩)
    · cases h

def lastPositiveAfter (last : Option Int) : Act → Option Int
  | .welcome (some x) => if 0 < x.length then some x.length else last
  | _ => last

def lastPositive (as : List Act) : Option Int := as.foldl lastPositiveAfter none

theorem newest_eq {heartbeatInterval : Int} {as : List Act}
    (h : exec step (init heartbeatInterval) as = some s) : s.newest = lastPositive as := by
  induction as using List.reverseRecOn generalizing s with
  | nil =>
    cases h
    rfl
  | append_singleton as a ih =>
    obtain ⟨u, hu, hstep⟩ := exec_concat_eq_some.mp h
    rw [lastPositive, List.foldl_append]
    have hlast := ih hu
    rw [lastPositive] at hlast
    rw [← hlast]
    cases a with
    | welcome interval =>
      simp only [step] at hstep
      split at hstep
      · cases hstep
        rfl
      · rename_i x _
        have hpos := asDuration_pos_iff x
        split at hstep
        · rename_i hle
          cases hstep
          exact (if_neg fun h => not_lt.mpr hle (hpos.mpr h)).symm
        · rename_i hle
          cases hstep
          exact (if_pos (hpos.mp (not_le.mp hle))).symm
      · cases hstep
    | drain | push | take | reset | tick | sent | ctxDone =>
      simp only [step] at hstep
      split at hstep
      · cases hstep
        rfl
      · cases hstep

/-- Whenever the dispatcher is between messages, the last positive interval, clamped, is in the
channel, or was the last taken from it; and the dispatcher can always go on. -/
theorem newest_interval_kept (heartbeatInterval : Int) (as : List Act) (s : State)
    (h : exec step (init heartbeatInterval) as = some s) :
    (s.dispatcher = .idle → ∀ d, lastPositive as = some d → Kept s (clamp d)) ∧
    (s.dispatcher = .idle → ∀ interval, (step s (.welcome interval)).isSome = true) ∧
    (s.dispatcher ≠ .idle → (step s .drain).isSome = true ∨ (step s .push).isSome = true) := by
  have hs := exec_induction (fun _ _ _ h hs => Inv.step h hs) h (inv_init heartbeatInterval)
  refine ⟨fun hidle d hd => ?_, fun hidle interval => ?_, fun hbusy => ?_⟩
  · rw [← newest_eq h] at hd
    rw [Inv, hidle] at hs
    rcases hs with ⟨hn, -⟩ | ⟨d', hn, -, hkept⟩
    · rw [hn] at hd
      cases hd
    · rw [hn] at hd
      cases hd
      exact hkept
  · cases interval with
    | none => simp [step, hidle]
    | some x =>
      simp only [step, hidle]
      split <;> rfl
  · cases hd : s.dispatcher with
    | idle => exact absurd hd hbusy
    | draining d => exact .inl (by simp [step, hd])
    | pushing d => exact .inr (by simp [step, hd])

def seconds (n : Int) (hge : minInt64 ≤ n) (hle : n ≤ maxInt64) : Duration :=
  ⟨n, 0, hge, hle, by decide, by decide⟩

def twoWelcomes : List Act :=
  [.welcome (some (seconds 60 (by decide) (by decide))), .drain, .push,
    .welcome (some (seconds 3600 (by decide) (by decide))), .take, .drain, .reset, .push]

/-- Two intervals, of which the second is too long. -/
theorem newest_interval_after_two :
    ∃ s, exec step (init (30 * second)) twoWelcomes = some s ∧ s.dispatcher = .idle ∧
      s.taken = some (60 * second) ∧ Kept s maxHeartbeatInterval := by
  refine ⟨_, rfl, rfl, by decide +kernel, ?_⟩
  exact (newest_interval_kept (30 * second) twoWelcomes _ rfl).1 rfl (3600 * second)
    (by decide +kernel)

end PowerManage.Client.Heartbeat
