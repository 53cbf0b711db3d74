import PowerManage.Lib.Getopt
import PowerManage.Notify.Desktop
import PowerManage.Osquery.Query
import PowerManage.Reboot.Schedule

/-!
# Free text in argument vectors

Three operations hand a caller's text to a privileged command as an argument: the message of a
scheduled reboot, the title and the message of a notification, and the SQL of a query.  The commands
read their arguments with a parser that permutes, so a text that begins with a dash is an option to
them, wherever it stands; and a text that is `--` ends the options and is gone.

The reboot and the query put no `--` before the text and refuse no dash (`text_as_option`).  In the
vector of a notification there is one, which ends the options of `runuser`, so that title and message
are operands of it whatever they are.
-/

namespace PowerManage.Exec

open Interaction Getopt

/-- The options of the commands.  Of them the SDK relies on those that it uses. -/
structure Tools where
  shutdown : Spec
  runuser : Spec
  osqueryi : Spec
  shutdown_r : shutdown.short 'r' = false
  runuser_u : runuser.short 'u' = true
  osqueryi_json : osqueryi.long "json" = false

/-! ## How the commands read their arguments -/

def scheduled (opts : Reboot.ScheduleOptions) : Parsed :=
  ⟨[.short 'r' none],
    Reboot.defaultDelay opts :: if opts.message ≠ [] then [opts.message] else []⟩

def started (s : Notify.Session) (title message : Str) : Parsed :=
  ⟨[.short 'u' (some s.user)],
    ["DBUS_SESSION_BUS_ADDRESS=unix:path=" ++ Notify.socketPath s, "runuser",
      "notify-send"] ++ Notify.notifySendArgs title message⟩

def queried (sql : Str) : Parsed :=
  ⟨if PathName.hasPrefix sql ['.'] then [] else [.long "json" none], [sql]⟩

section

variable (tools : Tools)

theorem parse_scheduleArgs_iff {opts : Reboot.ScheduleOptions} (h : Reboot.refusal opts = none) :
    parse tools.shutdown (Reboot.scheduleArgs opts) = scheduled opts ↔
      isOption opts.message = false := by
  obtain ⟨hdelay, -⟩ := Option.or_eq_none_iff.mp h
  obtain ⟨digits, hdigits⟩ := Reboot.exists_eq_of_validateDelay hdelay
  have hplus : isOption (Reboot.defaultDelay opts) = false := by rw [hdigits]; rfl
  have hr := ofArg_short (by decide) tools.shutdown_r
  change parse tools.shutdown (['-', 'r'] :: (Reboot.defaultDelay opts ::
    if opts.message ≠ [] then [opts.message] else [])) = _ ↔ _
  rw [parse_option rfl (by decide) hr, scheduled, addOptions_eq_iff, parse_eq_iff,
    List.forall_mem_cons]
  refine (and_iff_right hplus).trans ?_
  by_cases hmessage : opts.message = []
  · simp [hmessage, isOption]
  · simp [hmessage]

theorem parse_desktopCommand (s : Notify.Session) (title message : Str) :
    parse tools.runuser (Notify.desktopCommand s title message).args = started s title message := by
  have hu := ofArg_short_arg (by decide) tools.runuser_u
  change parse tools.runuser ((("DBUS_SESSION_BUS_ADDRESS=unix:path=" ++
    Notify.socketPath s) :: "runuser" :: ['-', 'u'] :: s.user :: ['-', '-'] ::
      "notify-send" :: Notify.notifySendArgs title message)) = _
  rw [parse_operand rfl, parse_operand rfl, parse_option_arg rfl (by decide) hu, parse_end]
  rfl

theorem parse_queryArgs_iff {sql : Str} :
    parse tools.osqueryi (Osquery.queryArgs sql) = queried sql ↔ isOption sql = false := by
  have hjson : ofArg tools.osqueryi "--json" = ([.long "json" none], none) :=
    ofArg_long (by decide) tools.osqueryi_json
  unfold Osquery.queryArgs queried
  split_ifs
  · rw [parse_eq_iff, List.forall_mem_singleton]
  · rw [parse_option rfl (by decide) hjson, addOptions_eq_iff, parse_eq_iff,
      List.forall_mem_singleton]

end

/-! ## The calls -/

/-- The calls that pass a text of the caller on to a command. -/
inductive TextCall
  | schedule (opts : Reboot.ScheduleOptions)
  /-- `NotifyAll`, or `NotifyUsers` if there is a list of users. -/
  | notify (users : Option (List Str)) (title message : Str)
  | query (c : Osquery.Client) (q : Osquery.OSQuery)

def TextCall.program : TextCall → Program Unit
  | .schedule opts => (Reboot.schedule opts).bind fun _ => .ret ()
  | .notify users title message => (Notify.notify users title message).bind fun _ => .ret ()
  | .query c q => c.call (.query q)

/-- The command reads the options that the SDK wrote and no others, and the texts as operands. -/
def TextCall.Sound (tools : Tools) : TextCall → Question → Prop
  | .schedule opts, .run cmd => parse tools.shutdown cmd.args = scheduled opts
  | .notify _ title message, .run cmd =>
    cmd.name = "env" → ∃ s, parse tools.runuser cmd.args = started s title message
  | .query c q, .run cmd =>
    ∃ sql, c.statement q = .ok sql ∧ parse tools.osqueryi cmd.args = queried sql
  | _, _ => True

/-- The texts do not look like options, or get to no command, or stand behind a `--`. -/
def TextCall.Plain : TextCall → Prop
  | .schedule opts => Reboot.refusal opts = none → isOption opts.message = false
  | .notify .. => True
  | .query c q => ∀ sql, c.statement q = .ok sql → isOption q.rawSql = false

theorem isOption_statement {c : Osquery.Client} {q : Osquery.OSQuery} {sql : Str}
    (h : c.statement q = .ok sql) : isOption sql = isOption q.rawSql := by
  unfold Osquery.Client.statement at h
  split_ifs at h with hraw
  · split at h
    · cases h
    · cases h
      rfl
  rw [not_not.mp hraw]
  unfold Osquery.Client.tableStatement at h
  split at h
  · rename_i custom hcustom
    cases h
    unfold Osquery.tableSQL at hcustom
    split_ifs at hcustom
    cases hcustom
    rfl
  · split_ifs at h
    cases h
    rfl

section

variable (tools : Tools)

theorem asks_schedule_sound_iff (opts : Reboot.ScheduleOptions) :
    Prog.Asks ((TextCall.schedule opts).Sound tools) (TextCall.schedule opts).program ↔
      (TextCall.schedule opts).Plain := by
  rw [TextCall.program, Prog.asks_bind_ret_iff, Reboot.asks_schedule_iff]
  exact forall_congr' fun h => parse_scheduleArgs_iff tools h

theorem asks_notify_sound (users : Option (List Str)) (title message : Str) :
    Prog.Asks ((TextCall.notify users title message).Sound tools)
      (TextCall.notify users title message).program := by
  rw [TextCall.program, Prog.asks_bind_ret_iff]
  exact Notify.asks_notify (fun cmd hname henv => absurd henv hname) (fun _ => trivial)
    (fun _ => trivial) (fun s _ => ⟨s, parse_desktopCommand tools s title message⟩) users

theorem asks_query_sound_iff (c : Osquery.Client) (q : Osquery.OSQuery) :
    Prog.Asks ((TextCall.query c q).Sound tools) (TextCall.query c q).program ↔
      (TextCall.query c q).Plain := by
  rw [TextCall.program, Osquery.asks_call_iff]
  refine forall_congr' fun sql => ?_
  constructor
  · intro h hsql
    obtain ⟨sql', hsql', hqueried⟩ := h (by rw [Osquery.Client.started, hsql]; rfl)
    cases hsql.symm.trans hsql'
    rw [← isOption_statement hsql]
    exact (parse_queryArgs_iff tools).mp hqueried
  · intro h hstarted
    have hsql := Osquery.toOption_eq_some hstarted
    refine ⟨sql, hsql, (parse_queryArgs_iff tools).mpr ?_⟩
    rw [isOption_statement hsql]
    exact h hsql

/-- The texts of a caller reach the command as operands, whatever they are, exactly in the plain
calls. -/
theorem texts_are_operands_iff (call : TextCall) :
    Prog.Asks (call.Sound tools) call.program ↔ call.Plain := by
  cases call with
  | schedule opts => exact asks_schedule_sound_iff tools opts
  | notify users title message =>
    exact iff_of_true (asks_notify_sound tools users title message) trivial
  | query c q => exact asks_query_sound_iff tools c q

end

def exampleTools : Tools where
  shutdown := ⟨fun _ => false, fun _ => false⟩
  runuser := ⟨fun c => c = 'u', fun _ => false⟩
  osqueryi := ⟨fun _ => false, fun _ => false⟩
  shutdown_r := rfl
  runuser_u := rfl
  osqueryi_json := rfl

/-- With the message `-c` a reboot is cancelled, and raw SQL that begins with a comment is an option of
`osqueryi`. -/
theorem text_as_option :
    parse exampleTools.shutdown (Reboot.scheduleArgs ⟨[], "-c"⟩) =
        ⟨[.short 'r' none, .short 'c' none], ["+1"]⟩ ∧
      ¬Prog.Asks ((TextCall.schedule ⟨[], "-c"⟩).Sound exampleTools)
        (TextCall.schedule ⟨[], "-c"⟩).program ∧
      ¬Prog.Asks
        ((TextCall.query Osquery.exampleClient ⟨[], "--help", []⟩).Sound exampleTools)
        (TextCall.query Osquery.exampleClient ⟨[], "--help", []⟩).program := by
  refine ⟨by decide +kernel, ?_, ?_⟩
  · rw [asks_schedule_sound_iff]
    exact fun h => absurd (h (by decide +kernel)) (by decide)
  · rw [asks_query_sound_iff]
    exact fun h => absurd (h "--help" (by rfl)) (by decide)

end PowerManage.Exec
