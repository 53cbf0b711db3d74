import PowerManage.Lib.Text

/-!
# The unit content policy

`validateUnitContent`, which `WriteUnit` calls before it writes a unit file: continuation lines are
joined, each logical line is read as a directive, and the Exec, Environment and EnvironmentFile
directives are checked.

Beside it is `systemdLines`, how systemd is taken to read the same text: physical lines that are
comments are dropped wherever they stand, and any other line is continued when it ends in a
backslash.
-/

namespace PowerManage.Service

open PathName Text

/-! ## Logical lines -/

def physicalLines (content : Str) : List Str := content.splitOn '\n'

def trimRight (l : Str) : Str := l.rdropWhile fun c => c = ' ' || c = '\t'

def trailingBackslashes (s : Str) : Nat := (s.reverse.takeWhile (· = '\\')).length

/-- The loop of `joinContinuationLines`; `pending` is what is being continued, if anything is. -/
def joinFrom : Option Str → List Str → List Str
  | none, [] => []
  | some pending, [] => [pending]
  | pending, l :: ls =>
    let trimmed := trimRight l
    if trailingBackslashes trimmed % 2 = 1 then
      joinFrom (some (pending.getD [] ++ trimmed.dropLast ++ [' '])) ls
    else (pending.getD [] ++ l) :: joinFrom none ls

def joinContinuationLines (content : Str) : List Str :=
  joinFrom none (physicalLines content)

/-- A comment, for systemd and in `validateUnitContent`: `l` begins with `#` or `;` after blanks. -/
def isComment (l : Str) : Bool :=
  (l.dropWhile isSpace).head? = some '#' || (l.dropWhile isSpace).head? = some ';'

/-- Lines joined the way systemd does, after what is pending. -/
def systemdFrom : Option Str → List Str → List Str
  | none, [] => []
  | some pending, [] => [pending]
  | pending, l :: ls =>
    if isComment l then systemdFrom pending ls
    else if l.getLast? = some '\\' then
      systemdFrom (some (pending.getD [] ++ l.dropLast ++ [' '])) ls
    else (pending.getD [] ++ l) :: systemdFrom none ls

def systemdLines (content : Str) : List Str :=
  systemdFrom none (physicalLines content)

/-! ## Directives -/

/-- A line of a unit: a key and a value. -/
structure Directive where
  key : Str
  value : Str
deriving DecidableEq

/-- A line without `=`, or with nothing before it, is a section header or malformed. -/
def directive (raw : Str) : Option Directive :=
  let line := trimSpace raw
  if line = [] ∨ isComment line then none
  else
    let key := line.takeWhile (· ≠ '=')
    let rest := line.dropWhile (· ≠ '=')
    if rest = [] ∨ key = [] then none
    else some ⟨(trimSpace key).map toLower, trimSpace rest.tail⟩

/-- The directives `validateUnitContent` looks at. -/
def examined (content : Str) : List Directive :=
  (joinContinuationLines content).filterMap directive

def executed (content : Str) : List Directive := (systemdLines content).filterMap directive

/-! ## The policy -/

def execDirectives : List String :=
  ["execstart", "execstartpre", "execstartpost", "execstop", "execstoppost", "execreload",
    "execcondition"]

def shellInterpreters : List String := ["sh", "bash", "dash", "zsh", "ksh", "ash", "busybox"]

def untrustedExecPrefixes : List String := ["/tmp/", "/var/tmp/", "/dev/shm/"]

def dangerousEnvVars : List String := ["LD_PRELOAD", "LD_LIBRARY_PATH", "LD_AUDIT"]

def isExecDirective (key : Str) : Bool := execDirectives.any (·.toList = key)

def isUntrusted (path : Str) : Bool :=
  untrustedExecPrefixes.any fun pre => hasPrefix path pre.toList

def isShellCFlag (arg : Str) : Bool :=
  if !hasPrefix arg ['-'] || hasPrefix arg ['-', '-'] then false else 'c' ∈ arg.tail

/-- `validateExecLine`: what is wrong, after the sentinel `ErrUnsafeUnitContent`. -/
def validateExecLine (key value : Str) : Except Str Unit :=
  let cmd := trimSpace (value.dropWhile (· ∈ "-@+!:".toList))
  match fields cmd with
  | [] => .ok ()
  | exe :: args =>
    if shellInterpreters.any (·.toList = base exe) && args.any isShellCFlag then
      .error (key ++ " shells out via ".toList ++ quote (base exe) ++
        " -c (inline command execution)".toList)
    else if isUntrusted (clean exe) then
      .error (key ++ " runs ".toList ++ quote exe ++ " from a world-writable directory".toList)
    else .ok ()

def assignedName (pair : Str) : Str :=
  trim (trimSpace (pair.takeWhile (· ≠ '='))) ['"', '\'']

def validateEnvLine (value : Str) : Except Str Unit :=
  match (fields value).find? fun pair =>
      dangerousEnvVars.any (·.toList = (assignedName pair).map toUpper) with
  | some pair =>
    .error ("sets " ++ assignedName pair ++ ", a dynamic-linker override")
  | none => .ok ()

/-- Commands, and where an environment comes from, are checked. -/
def validateDirective (d : Directive) : Except Str Unit :=
  if isExecDirective d.key then validateExecLine d.key d.value
  else if d.key = "environmentfile" then
    let p := clean (trimSpace (if hasPrefix d.value ['-'] then d.value.tail else d.value))
    if isUntrusted p then
      .error ("EnvironmentFile " ++ quote p ++ " references a world-writable path")
    else .ok ()
  else if d.key = "environment" then validateEnvLine d.value
  else .ok ()

/-- `validateUnitContent`: the first directive that is refused decides. -/
def validateUnitContent (content : Str) : Except Str Unit :=
  (examined content).forM validateDirective

end PowerManage.Service
