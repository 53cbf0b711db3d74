import PowerManage.Exec.Runner

/-!
# Notifications

A notification has a title and a message.  It goes to the terminals through the standard input of
`wall`, and to each graphical session through `notify-send`, started as the user of the session by
`env` and `runuser`.  The sessions are those that `loginctl` lists.
-/

namespace PowerManage.Notify

open Interaction Exec PathName List

/-- A session of `loginctl`. -/
structure Session where
  id : Str
  user : Str
  uid : Int
  typ : Str
deriving DecidableEq

def maxNotificationField : Nat := 4096

def containsControl (s : Str) : Bool := s.any fun c => c.toNat < 0x20 || c.toNat = 0x7f

def byteLength (s : Str) : Nat := (s.map Char.utf8Size).sum

def validateField (kind s : Str) : Option Str :=
  if containsControl s then
    some ("invalid " ++ kind ++ ": must not contain control characters")
  else if byteLength s > maxNotificationField then
    some ("invalid " ++ kind ++ ": must not exceed " ++
      Text.decimal maxNotificationField ++ " bytes")
  else none

def validateNotification (title message : Str) : Option Str :=
  (validateField "notification title" title).or
    (validateField "notification message" message)

def validateUsername (u : Str) : Option Str :=
  if containsControl u then
    some ("invalid username " ++ Text.quote u ++ ": must not contain control characters")
  else none

def joinErrors (errs : List (Option Str)) : Option Str :=
  match errs.filterMap id with
  | [] => none
  | es => some (['\n'].intercalate es)

def failure (what : Str) : Except Str Result → Option Str
  | .error err => some (what ++ ": " ++ err)
  | .ok res =>
    if res.exitCode ≠ 0 then
      some (what ++ " failed: exit " ++ Text.decimalInt res.exitCode ++ ": " ++
        trimSpace res.stderr)
    else none

/-! ## Sessions -/

def parseLoginctlListSessions (stdout : Str) : List Str :=
  ((trimSpace stdout).splitOn '\n').filterMap fun line =>
    match Text.fields line with
    | id :: _ :: _ :: _ => some id
    | _ => none

def property (stdout key : Str) : Option Str :=
  ((stdout.splitOn '\n').filterMap fun line =>
    match Text.cut '=' (trimSpace line) with
    | some (k, v) => if trimSpace k = key then some (trimSpace v) else none
    | none => none).getLast?

/-- A session that has a user and a display. -/
def parseLoginctlShowSession (sessionID stdout : Str) : Option Session :=
  let typ := (property stdout "Type").getD []
  let user := (property stdout "Name").getD []
  match property stdout "User" with
  | none => none
  | some uidStr =>
    if user = [] then none
    else
      match Text.atoi uidStr with
      | none => none
      | some uid =>
        if typ ∈ ["x11".toList, "wayland".toList, "mir".toList] then some ⟨sessionID, user, uid, typ⟩
        else none

def listCommand : Command :=
  ⟨"loginctl", ["list-sessions", "--no-legend"], [], true⟩

def showCommand (sessionID : Str) : Command :=
  ⟨"loginctl".toList, ["show-session".toList, sessionID] ++
    ["-p", "Type", "-p", "Name", "-p", "User"].map String.toList, [], true⟩

def showSessions : List Str → Program (List Session)
  | [] => .ret []
  | sessionID :: ids =>
    run (showCommand sessionID) fun info =>
      (showSessions ids).bind fun sessions =>
        .ret (match info with
          | .error _ => sessions
          | .ok res =>
            if res.exitCode ≠ 0 then sessions
            else (parseLoginctlShowSession sessionID res.stdout).toList ++ sessions)

/-- The sessions with a display, each asked about in turn. -/
def listGraphicalSessions : Program (Except Str (List Session)) :=
  run listCommand fun res =>
    match res with
    | .error err => .ret (.error ("list sessions: " ++ err))
    | .ok out =>
      match failure "list sessions" (.ok out) with
      | some err => .ret (.error err)
      | none =>
        (showSessions (parseLoginctlListSessions out.stdout)).bind fun sessions =>
          .ret (.ok sessions)

/-! ## Delivery -/

def sendWall (message : Str) : Program (Option Str) :=
  run ⟨"wall", [], message, true⟩ fun res => .ret (failure "wall notification" res)

def socketPath (s : Session) : Str := "/run/user/" ++ Text.decimalInt s.uid ++ "/bus"

def notifySendArgs (title message : Str) : List Str :=
  ["-u", "critical", "-a", "Power Manage", "-i", "dialog-warning"].map String.toList ++
    [title, message]

def desktopCommand (s : Session) (title message : Str) : Command :=
  ⟨"env",
    ["DBUS_SESSION_BUS_ADDRESS=unix:path=" ++ socketPath s, "runuser", "-u",
      s.user, "--", "notify-send"] ++ notifySendArgs title message, [], true⟩

/-- As the user of the session; without a bus, nothing is sent. -/
def sendDesktopNotification (s : Session) (title message : Str) :
    Program (Option Str) :=
  stat (socketPath s) fun found =>
    if found then
      run (desktopCommand s title message) fun res =>
        .ret (failure ("desktop notification to " ++ s.user) res)
    else .ret none

def sendToSessions (title message : Str) : List Session → Program (List (Option Str))
  | [] => .ret []
  | s :: sessions =>
    (sendDesktopNotification s title message).bind fun err =>
      (sendToSessions title message sessions).bind fun errs => .ret (err :: errs)

def wanted (userFilter : Option (List Str)) (sessions : List Session) : List Session :=
  match userFilter with
  | none => sessions
  | some users => sessions.filter fun s => s.user ∈ users

def sendDesktopNotifications (title message : Str)
    (userFilter : Option (List Str)) : Program (Option Str) :=
  lookPath "notify-send" fun found =>
    if found then
      listGraphicalSessions.bind fun listed =>
        match listed with
        | .error err => .ret (some err)
        | .ok sessions =>
          (sendToSessions title message (wanted userFilter sessions)).bind fun errs =>
            .ret (joinErrors errs)
    else .ret none

def deliver (title message : Str) (userFilter : Option (List Str)) :
    Program (Option Str) :=
  (sendWall (title ++ ": " ++ message)).bind fun wallErr =>
    (sendDesktopNotifications title message userFilter).bind fun desktopErr =>
      .ret (joinErrors [wallErr, desktopErr])

def notifyAll (title message : Str) : Program (Option Str) :=
  match validateNotification title message with
  | some err => .ret (some err)
  | none => deliver title message none

def notifyUsers (usernames : List Str) (title message : Str) :
    Program (Option Str) :=
  match (validateNotification title message).or (usernames.findSome? validateUsername) with
  | some err => .ret (some err)
  | none => deliver title message (some usernames)

/-! ## What is started -/

section

variable {title message : Str} {P : Question → Prop}

theorem asks_showSessions (hother : ∀ cmd : Command, cmd.name ≠ "env" → P (.run cmd))
    (ids : List Str) : Prog.Asks P (showSessions ids) := by
  induction ids with
  | nil => exact .ret _
  | cons sessionID ids ih =>
    have hname : "loginctl".toList ≠ "env" := by decide
    exact .ask (hother _ hname) fun _ => ih.bind fun _ => .ret _

theorem asks_sendToSessions (hstat : ∀ path, P (.stat path))
    {sessions : List Session}
    (hdesktop : ∀ s ∈ sessions, P (.run (desktopCommand s title message))) :
    Prog.Asks P (sendToSessions title message sessions) := by
  induction sessions with
  | nil => exact .ret _
  | cons s sessions ih =>
    rw [forall_mem_cons] at hdesktop
    refine Prog.Asks.bind (.ask (hstat _) ?_) fun _ => (ih hdesktop.2).bind fun _ => .ret _
    intro found
    split
    · exact .ask hdesktop.1 fun _ => .ret _
    · exact .ret _

def notify (users : Option (List Str)) (title message : Str) :
    Program (Option Str) :=
  users.elim (notifyAll title message) fun users => notifyUsers users title message

theorem asks_deliver (hother : ∀ cmd : Command, cmd.name ≠ "env" → P (.run cmd))
    (hlook : ∀ name, P (.lookPath name)) (hstat : ∀ path, P (.stat path))
    (hdesktop : ∀ s, P (.run (desktopCommand s title message))) (userFilter : Option (List Str)) :
    Prog.Asks P (deliver title message userFilter) := by
  have hlist : Prog.Asks P listGraphicalSessions := by
    refine .ask (hother _ (by decide)) fun res => ?_
    split
    · exact .ret _
    · split
      · exact .ret _
      · exact (asks_showSessions hother _).bind fun _ => .ret _
  have hdesktops : Prog.Asks P (sendDesktopNotifications title message userFilter) := by
    refine .ask (hlook _) fun found => ?_
    split
    · refine hlist.bind fun listed => ?_
      split
      · exact .ret _
      · exact (asks_sendToSessions hstat fun s _ => hdesktop s).bind fun _ => .ret _
    · exact .ret _
  have hwall : "wall".toList ≠ "env" := by decide
  exact Prog.Asks.bind (.ask (hother _ hwall) fun _ => .ret _) fun _ => hdesktops.bind fun _ => .ret _

/-- Of what a notification starts, `env` is the only command that gets the two texts. -/
theorem asks_notify (hother : ∀ cmd : Command, cmd.name ≠ "env" → P (.run cmd))
    (hlook : ∀ name, P (.lookPath name)) (hstat : ∀ path, P (.stat path))
    (hdesktop : ∀ s, P (.run (desktopCommand s title message))) (users : Option (List Str)) :
    Prog.Asks P (notify users title message) := by
  have hdeliver := asks_deliver hother hlook hstat hdesktop
  cases users with
  | none =>
    rw [notify, notifyAll]
    split
    · exact .ret _
    · exact hdeliver _
  | some us =>
    rw [notify, Option.elim_some, notifyUsers]
    split
    · exact .ret _
    · exact hdeliver _

end

end PowerManage.Notify
