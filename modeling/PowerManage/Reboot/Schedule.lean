import PowerManage.Exec.Runner

/-!
# Scheduling a reboot

`Schedule` starts `shutdown -r` with a delay and, if there is one, a message for the users who are
logged in.  The delay is a number of minutes, at least one; the message is free text without control
characters.
-/

namespace PowerManage.Reboot

open Interaction Exec PathName

/-- When to reboot, and what to tell the users. -/
structure ScheduleOptions where
  delay : Str
  message : Str
deriving DecidableEq

def minRebootGraceMinutes : Int := 1

def badDelay (delay : Str) : Str :=
  "invalid reboot delay " ++ Text.quote delay ++
    ": must be a relative offset of the form \"+N\" minutes"

def shortDelay (delay : Str) : Str :=
  "invalid reboot delay " ++ Text.quote delay ++ ": grace window must be at least " ++
    Text.decimalInt minRebootGraceMinutes ++ " minute(s)"

/-- A `+` and a number of minutes that is not too short. -/
def validateDelay (delay : Str) : Option Str :=
  match delay with
  | '+' :: digits =>
    if digits = [] then some (badDelay delay)
    else if !digits.all Char.isDigit then some (badDelay delay)
    else
      match Text.atoi digits with
      | none => some (badDelay delay)
      | some n => if n < minRebootGraceMinutes then some (shortDelay delay) else none
  | _ => some (badDelay delay)

def isControl (c : Char) : Bool := c.toNat < 0x20 || c.toNat = 0x7f

def validateMessage (message : Str) : Option Str :=
  if message.any isControl then
    some "invalid reboot message: must not contain control characters"
  else none

def shutdown (op : Str) (args : List Str) : Program (Option Str) :=
  run ⟨"shutdown", args, [], true⟩ fun res =>
    .ret (match res with
      | .error err => some (op ++ ": " ++ err)
      | .ok res =>
        if res.exitCode ≠ 0 then some (op ++ ": " ++ commandError "shutdown" res)
        else none)

variable (opts : ScheduleOptions)

def defaultDelay : Str :=
  if opts.delay = [] then "+1" else opts.delay

def refusal : Option Str :=
  (validateDelay (defaultDelay opts)).or (validateMessage opts.message)

def scheduleArgs : List Str :=
  ["-r".toList, defaultDelay opts] ++ (if opts.message ≠ [] then [opts.message] else [])

def schedule : Program (Option Str) :=
  match refusal opts with
  | some err => .ret (some err)
  | none => shutdown "schedule reboot" (scheduleArgs opts)

theorem asks_schedule_iff (P : Question → Prop) :
    Prog.Asks P (schedule opts) ↔
      (refusal opts = none → P (.run ⟨"shutdown", scheduleArgs opts, [], true⟩)) := by
  rw [schedule]
  cases refusal opts with
  | some err => exact iff_of_true (.ret _) (by simp)
  | none =>
    rw [forall_prop_of_true rfl]
    exact Prog.asks_ask_iff.trans (and_iff_left fun x => .ret _)

theorem exists_eq_of_validateDelay {delay : Str} (h : validateDelay delay = none) :
    ∃ digits, delay = '+' :: digits := by
  unfold validateDelay at h
  split at h
  · exact ⟨_, rfl⟩
  · cases h

end PowerManage.Reboot
