import PowerManage.Lib.FileMode
import PowerManage.Lib.Interaction

/-!
# The filesystem manager

The operations of the `fs` package that take a mode, and the reading of a file, as programs: they
put system calls to the host when the runner is direct, and start commands through it when it is
not.  `writeEscalated` starts one shell, whose script is a program of the same kind, since each of
its commands may fail on its own.

`refused_iff` is about the modes that confer privilege: an operation returns `ErrUnsafeMode` and has
no effect, unless it looks at something else first.  `Mkdir` makes its directory before `SetMode` is
called and looks at the mode (`setgid_directory`).
-/

namespace PowerManage.Fs

open PathName Text FileMode Interaction

abbrev Bytes := List UInt8

/-- How the manager gets its privileges. -/
inductive Backend
  | direct
  | withSudo
  | withDoas
deriving DecidableEq

/-- The errors: the sentinel that they wrap, and the text that the code puts around it. -/
inductive FsError
  | ctx (text : Str)
  | invalidPath (text : Str)
  | unsafeParentDir (text : Str)
  | unsafeMode (text : Str)
  | protectedTarget (text : Str)
  | notExist (text : Str)
  | other (text : Str)
deriving DecidableEq

def FsError.wrap (text : Str) : FsError → FsError
  | .ctx e => .ctx (text ++ e)
  | .invalidPath e => .invalidPath (text ++ e)
  | .unsafeParentDir e => .unsafeParentDir (text ++ e)
  | .unsafeMode e => .unsafeMode (text ++ e)
  | .protectedTarget e => .protectedTarget (text ++ e)
  | .notExist e => .notExist (text ++ e)
  | .other e => .other (text ++ e)

/-- The options of `WriteFile` and of the copies. -/
structure WriteOptions where
  mode : Mode
  owner : Str
  group : Str
  backup : Str
deriving DecidableEq

structure MkdirOptions where
  mode : Mode
  owner : Str
  group : Str
  recursive : Bool
deriving DecidableEq

/-! ## Checks -/

def validatePath (path : Str) : Option FsError :=
  if path = [] then some (.invalidPath ": path is empty")
  else if '\x00' ∈ path then some (.invalidPath ": path contains NUL byte")
  else if hasPrefix path ['-'] then
    some (.invalidPath (": path " ++ quote path ++
      " begins with '-' (would be interpreted as an option flag)"))
  else none

def modeArg (m : Mode) : Str := octal (syscallMode m)

def validateMode (m : Mode) : Option FsError :=
  if m &&& (modeSetuid ||| modeSetgid) ≠ 0 then
    some (.unsafeMode (": mode " ++ modeArg m ++ " requests setuid/setgid"))
  else none

/-- `Ownership`, the argument of `chown`. -/
def ownership (owner group : Str) : Str :=
  if owner = [] ∧ group = [] then []
  else if group = [] then owner
  else if owner = [] then ':' :: group
  else owner ++ ':' :: group

def dirOf (path : Str) : Str :=
  clean (path.rdropWhile (· ≠ '/'))

def dangerousPaths : List String :=
  ["/", "/boot", "/dev", "/etc", "/proc", "/run", "/sys", "/usr", "/var", "/bin", "/sbin", "/lib",
    "/lib64", "/home", "/root", "/lib32", "/libx32", "/media", "/mnt", "/opt", "/srv", "/tmp",
    "/snap"]

/-- `IsProtectedPath`, for a process in this directory. -/
def isProtectedPath (cwd path : Str) : Bool :=
  let full := if isAbs (clean path) then clean path else clean (cwd ++ '/' :: clean path)
  dangerousPaths.any fun s => s.toList = full

/-! ## Calls -/

/-- How a command has ended. -/
structure Result where
  exitCode : Int
  stdout : Bytes
  stderr : Str
deriving DecidableEq

/-- What `escalatedParentSafe` looks at. -/
structure DirInfo where
  uid : Nat
  mode : UnixMode
deriving DecidableEq

/-- How the open of the present file has ended. -/
inductive Opened
  | notExist
  | failed
  | ok
deriving DecidableEq

/-- Calls that succeed or fail and answer nothing else. -/
inductive Step
  -- of `safeReplaceFile`, on its temporary file
  | createTemp (dir base : Str)
  | openTemp
  | write (data : Bytes)
  | chmod (mode : Mode)
  | sync
  | close
  | rename (path : Str)
  | removeTemp
  | syncDir (dir : Str)
  -- of `safeBackupAndReplace`, on the present file
  | closeCurrent (path : Str)
  -- of `FchownNoFollow`
  | openOwned (path : Str)
  | chown (path : Str) (uid gid : Int)
  -- the runner starts a shell and returns when it has ended; the commands of its script
  | shell
  | shellDone
  | backUp (target backup : Str)
  | mktemp (dir : Str)
  | cat (data : Bytes)
  | chmodTemp (mode : Str)
  | chownTemp (owner : Str)
  | mv (target : Str)
  | rmTemp
deriving DecidableEq

/-- What the manager asks of the host. -/
inductive Call
  | step (s : Step)
  | run (name : Str) (args : List Str)
  /-- `os.Stat` of a directory. -/
  | statDir (dir : Str)
  /-- `os.ReadFile` -/
  | readFile (path : Str)
  | openCurrent (path : Str)
  | statOpen (path : Str)
  | readCurrent (path : Str)
deriving DecidableEq

abbrev Reply : Call → Type
  | .step _ => Bool
  | .run _ _ => Except Str Result
  | .statDir _ => Option DirInfo
  | .readFile _ => Except FsError Bytes
  | .openCurrent _ => Opened
  | .statOpen _ => Option Bool
  | .readCurrent _ => Option Bytes

abbrev Program (α : Type) := Prog Call Reply α

/-- The steps in their order; one that fails ends in what is done with its text. -/
def inOrder {α : Type} (fail : Str → Program α) :
    List (Step × Str) → Program α → Program α
  | [], k => k
  | (s, text) :: rest, k =>
    .ask (.step s) fun (ok : Bool) => if ok then inOrder fail rest k else fail text

abbrev Done := Program (Option FsError)

def failed (text : Str) : Done := .ret (some (.other text))

/-! ## Writing on the direct backend -/

/-- A temporary file is written, synced, and renamed over the target. -/
def safeReplaceFile (path : Str) (data : Bytes) (perm : Mode) : Done :=
  let cleanup (text : Str) : Done :=
    .ask (.step .removeTemp) fun _ => .ret (some (.other text))
  inOrder failed [(.createTemp (dirOf path) (base path), "create temp: ")]
    (inOrder cleanup
      [(.openTemp, "reopen temp with O_NOFOLLOW: "), (.write data, "write temp: "),
        (.chmod perm, "chmod temp: "), (.sync, "fsync temp: "),
        (.close, "close temp: "), (.rename path, "rename -> " ++ path ++ ": ")]
      (.ask (.step (.syncDir (dirOf path))) fun _ => .ret none))

/-- The present content is written to the backup first. -/
def safeBackupAndReplace (path backupPath : Str) (newContent : Bytes) (perm : Mode) : Done :=
  .ask (.openCurrent path) fun (r : Opened) =>
    match r with
    | .notExist => safeReplaceFile path newContent perm
    | .failed => failed ("open current " ++ path ++ " for backup: ")
    | .ok =>
      .ask (.statOpen path) fun (r : Option Bool) =>
        match r with
        | none => failed ("stat current " ++ path ++ ": ")
        | some false => failed ("refusing to back up non-regular file " ++ path)
        | some true =>
          .ask (.readCurrent path) fun (r : Option Bytes) =>
            match r with
            | none => failed ("read current " ++ path ++ " for backup: ")
            | some current =>
              inOrder failed
                [(.closeCurrent path, "close current " ++ path ++ ": ")]
                ((safeReplaceFile backupPath current perm).bind fun err =>
                  match err with
                  | some e => .ret (some (e.wrap ("backup current to " ++ backupPath ++
                      ": ")))
                  | none => safeReplaceFile path newContent perm)

/-- The databases of users and groups: ids, as texts. -/
structure Names where
  user : Str → Option Str
  group : Str → Option Str

def resolveID (lookup : Str → Option Str) (name : Str) :
    Except Str Int :=
  match lookup name with
  | some idStr =>
    match atoi idStr with
    | some id => .ok id
    | none => .error ("parse id " ++ quote idStr)
  | none =>
    match atoi name with
    | some id => .ok id
    | none => .error "unknown name and not a numeric id"

def resolveName (what : Str) (lookup : Str → Option Str) (name : Str) :
    Except FsError Int :=
  if name = [] then .ok (-1)
  else
    match resolveID lookup name with
    | .ok id => .ok id
    | .error text => .error (.other ("resolve " ++ what ++ quote name ++ ": " ++ text))

def resolveOwnership (db : Names) (owner group : Str) : Except FsError (Int × Int) :=
  match resolveName "owner " db.user owner with
  | .error e => .error e
  | .ok uid =>
    match resolveName "group " db.group group with
    | .error e => .error e
    | .ok gid => .ok (uid, gid)

/-- By an open file, which must be a regular one. -/
def fchownNoFollow (path : Str) (uid gid : Int) : Done :=
  inOrder failed
    [(.openOwned path, "open " ++ path ++ " without following symlinks: ")]
    (.ask (.statOpen path) fun (r : Option Bool) =>
      match r with
      | none => failed ("stat " ++ path ++ ": ")
      | some false => failed ("refusing to chown non-regular file " ++ path)
      | some true =>
        inOrder failed [(.chown path uid gid, "fchown " ++ path ++ ": ")] (.ret none))

/-- The mode of a write: `0644` if there is none. -/
def WriteOptions.perm (opts : WriteOptions) : Mode := if opts.mode = 0 then 0o644#32 else opts.mode

def wrapped (text : Str) (p : Done) : Done := p.bind fun err => .ret (err.map (·.wrap text))

/-- The part of `writeDirect` up to the ownership. -/
def replaceDirect (path : Str) (data : Bytes) (opts : WriteOptions) : Done :=
  wrapped ("write file " ++ path ++ ": ")
    (if opts.backup ≠ [] then safeBackupAndReplace path opts.backup data opts.perm
      else safeReplaceFile path data opts.perm)

/-- The part of `writeDirect` after the replacement. -/
def setOwner (db : Names) (path owner group : Str) : Done :=
  if owner ≠ [] ∨ group ≠ [] then
    match resolveOwnership db owner group with
    | .error e => .ret (some e)
    | .ok (uid, gid) =>
      wrapped ("set ownership on " ++ path ++ ": ") (fchownNoFollow path uid gid)
  else .ret none

def writeDirect (db : Names) (path : Str) (data : Bytes) (opts : WriteOptions) : Done :=
  (replaceDirect path data opts).bind fun err =>
    match err with
    | some e => .ret (some e)
    | none => setOwner db path opts.owner opts.group

/-! ## Writing on the escalated backends -/

/-- Nobody but root can have put a link into the directory. -/
def escalatedParentSafe (dir : Str) (info : Option DirInfo) : Option FsError :=
  match info with
  | none => some (.other ("escalated write: stat parent " ++ dir ++ ": "))
  | some i =>
    if i.uid ≠ 0 ∨ (i.mode &&& 0o022#32 ≠ 0 ∧ i.mode &&& 0o1000#32 = 0) then
      some (.unsafeParentDir (": " ++ dir ++
        " — a non-root user could plant a symlink here"))
    else none

/-- `$(dirname -- "$target")`, which has no line ends at its end. -/
def shellDir (target : Str) : Str := (dirOf target).rdropWhile (· = '\n')

def beforeTrap (target backup : Str) : List (Step × Str) :=
  (if backup ≠ [] then [(.backUp target backup, [])] else []) ++ [(.mktemp (shellDir target), [])]

def underTrap (target mode owner : Str) (stdin : Bytes) : List (Step × Str) :=
  [(.cat stdin, []), (.chmodTemp mode, [])] ++
    (if owner ≠ [] then [(.chownTemp owner, [])] else []) ++ [(.mv target, [])]

/-- The script, and whether it exits with 0. `set -e` ends it at the first command that fails. -/
def escalatedWriteScript (target mode owner backup : Str) (stdin : Bytes) : Program Bool :=
  let trap (_ : Str) : Program Bool := .ask (.step .rmTemp) fun _ => .ret false
  inOrder (fun _ => .ret false) (beforeTrap target backup)
    (inOrder trap (underTrap target mode owner stdin) (.ret true))

/-- The rest of `writeEscalated`, from what is known of the parent directory. -/
def writeInto (path : Str) (data : Bytes) (opts : WriteOptions) (info : Option DirInfo) :
    Done :=
  match escalatedParentSafe (dirOf path) info with
  | some e => .ret (some e)
  | none =>
    inOrder failed [(.shell, "write file " ++ path ++ ": ")]
      ((escalatedWriteScript path (modeArg opts.perm) (ownership opts.owner opts.group) opts.backup
        data).bind fun ok =>
          -- a context that ends meanwhile is an error whatever the script has come to
          inOrder failed [(.shellDone, "write file " ++ path ++ ": ")]
            (.ret (if ok then none else some (.other ("write file " ++ path ++ ": ")))))

def writeEscalated (path : Str) (data : Bytes) (opts : WriteOptions) : Done :=
  .ask (.statDir (dirOf path)) fun (info : Option DirInfo) => writeInto path data opts info

/-- `WriteFile`, in a context that has ended with this error, if it has. -/
def writeFile (b : Backend) (db : Names) (ctx : Option Str) (path : Str) (data : Bytes)
    (opts : WriteOptions) : Done :=
  match ctx with
  | some err => .ret (some (.ctx err))
  | none =>
    match validatePath path with
    | some e => .ret (some e)
    | none =>
      match validateMode opts.mode with
      | some e => .ret (some e)
      | none =>
        match if opts.backup ≠ [] then validatePath opts.backup else none with
        | some e => .ret (some e)
        | none =>
          if opts.backup ≠ [] ∧ clean opts.backup = clean path then
            .ret (some (.invalidPath ": backup path must differ from the target path"))
          else if b = .direct then writeDirect db path data opts
          else writeEscalated path data opts

/-! ## The other operations -/

def isENOENTStderr (stderr : Str) : Bool :=
  hasSuffix (trimSpace stderr) "No such file or directory"

/-- `ReadFile`; a present and empty file is read as no bytes. -/
def readFile (b : Backend) (path : Str) : Program (Except FsError Bytes) :=
  match validatePath path with
  | some e => .ret (.error e)
  | none =>
    if b = .direct then .ask (.readFile path) fun (r : Except FsError Bytes) => .ret r
    else
      .ask (.run "cat" ["--", path]) fun (r : Except Str Result) =>
        match r with
        | .error text => .ret (.error (.other text))
        | .ok res =>
          if res.exitCode ≠ 0 then
            if isENOENTStderr res.stderr then
              .ret (.error (.notExist ("read " ++ path ++ ": ")))
            else .ret (.error (.other "cat"))
          else .ret (.ok res.stdout)

def runChecked (name : Str) (args : List Str) : Done :=
  .ask (.run name args) fun (r : Except Str Result) =>
    match r with
    | .error text => .ret (some (.other text))
    | .ok res => .ret (if res.exitCode = 0 then none else some (.other name))

def andThen (p q : Done) : Done := p.bind fun err =>
  match err with
  | some e => .ret (some e)
  | none => q

/-- The mode is checked before anything is run. -/
def setMode (path : Str) (mode : Mode) : Done :=
  match validatePath path with
  | some e => .ret (some e)
  | none =>
    match validateMode mode with
    | some e => .ret (some e)
    | none => runChecked "chmod" [modeArg mode, "--", path]

def setOwnership (path owner group : Str) : Done :=
  if ownership owner group = [] then .ret none
  else
    match validatePath path with
    | some e => .ret (some e)
    | none => runChecked "chown" ["--", ownership owner group, path]

def setOwnershipRecursive (cwd path owner group : Str) : Done :=
  if ownership owner group = [] then .ret none
  else
    match validatePath path with
    | some e => .ret (some e)
    | none =>
      if isProtectedPath cwd path then .ret (some (.protectedTarget (": " ++ clean path)))
      else runChecked "chown" ["-R", "--", ownership owner group, path]

/-- What `Copy` and `CopyTree` have in common: the checks, the command, and what follows it. -/
def copyWith (what : Str) (flags : List Str) (own : Done) (src dst : Str)
    (opts : WriteOptions) : Done :=
  match validatePath src with
  | some e => .ret (some e)
  | none =>
    match validatePath dst with
    | some e => .ret (some e)
    | none =>
      match validateMode opts.mode with
      | some e => .ret (some e)
      | none =>
        andThen (wrapped what (runChecked "cp".toList (flags ++ ["--".toList, src, dst])))
          (andThen (if opts.mode ≠ 0 then setMode dst opts.mode else .ret none)
            (if opts.owner ≠ [] ∨ opts.group ≠ [] then own else .ret none))

def copy (src dst : Str) (opts : WriteOptions) : Done :=
  copyWith "copy file: " [] (setOwnership dst opts.owner opts.group) src dst opts

def copyTree (cwd src dst : Str) (opts : WriteOptions) : Done :=
  copyWith "copy tree: " ["-a", "-T"]
    (setOwnershipRecursive cwd dst opts.owner opts.group) src dst opts

/-- The mode is set by a command of its own. -/
def mkdir (path : Str) (opts : MkdirOptions) : Done :=
  match validatePath path with
  | some e => .ret (some e)
  | none =>
    andThen (runChecked "mkdir".toList ((if opts.recursive then ["-p".toList] else []) ++
        ["--".toList, path]))
      (andThen (if opts.mode ≠ 0 then setMode path opts.mode else .ret none)
        (if opts.owner ≠ [] ∨ opts.group ≠ [] then setOwnership path opts.owner opts.group
          else .ret none))

/-! ## Modes that confer privilege -/

/-- The operations that take a mode. -/
inductive Op
  | writeFile (path : Str) (data : Bytes) (opts : WriteOptions)
  | copy (src dst : Str) (opts : WriteOptions)
  | copyTree (src dst : Str) (opts : WriteOptions)
  | setMode (path : Str) (mode : Mode)
  | mkdir (path : Str) (opts : MkdirOptions)

def Op.mode : Op → Mode
  | .writeFile _ _ opts | .copy _ _ opts | .copyTree _ _ opts => opts.mode
  | .setMode _ mode => mode
  | .mkdir _ opts => opts.mode

def Op.paths : Op → List Str
  | .writeFile path _ _ | .setMode path _ | .mkdir path _ => [path]
  | .copy src dst _ | .copyTree src dst _ => [src, dst]

def Op.program (b : Backend) (db : Names) (cwd : Str) (ctx : Option Str) : Op → Done
  | .writeFile path data opts => Fs.writeFile b db ctx path data opts
  | .copy src dst opts => Fs.copy src dst opts
  | .copyTree src dst opts => Fs.copyTree cwd src dst opts
  | .setMode path mode => Fs.setMode path mode
  | .mkdir path opts => Fs.mkdir path opts

def Privileged (m : Mode) : Prop := m &&& modeSetuid ≠ 0 ∨ m &&& modeSetgid ≠ 0

instance (m : Mode) : Decidable (Privileged m) := inferInstanceAs (Decidable (_ ∨ _))

/-- The operation returns `ErrUnsafeMode`, and has put no call before. -/
def Refused (p : Done) : Prop := ∃ text, p = .ret (some (.unsafeMode text))

/-- The operation looks at the mode before it acts, and its paths and its context are in order. -/
def LooksFirst (ctx : Option Str) (op : Op) : Prop :=
  (∀ path ∈ op.paths, validatePath path = none) ∧
    match op with
    | .writeFile _ _ _ => ctx = none
    | .copy _ _ _ | .copyTree _ _ _ | .setMode _ _ => True
    | .mkdir _ _ => False

theorem validateMode_of_privileged {m : Mode} (h : Privileged m) :
    ∃ text, validateMode m = some (.unsafeMode text) := by
  have hbits : m &&& (modeSetuid ||| modeSetgid) ≠ 0 := by
    intro hzero
    rw [BitVec.and_or_distrib_left] at hzero
    obtain ⟨huid, hgid⟩ := BitVec.or_eq_zero_iff.mp hzero
    exact h.elim (fun hne => hne huid) fun hne => hne hgid
  exact ⟨_, if_pos hbits⟩

theorem refused_ret (e : FsError) :
    Refused (.ret (some e)) ↔ ∃ text, e = .unsafeMode text := by
  constructor
  · rintro ⟨text, h⟩
    cases h
    exact ⟨text, rfl⟩
  · rintro ⟨text, rfl⟩
    exact ⟨text, rfl⟩

theorem not_refused_ask (c : Call) (k : Reply c → Done) : ¬Refused (.ask c k) := by
  rintro ⟨text, h⟩
  cases h

theorem not_unsafeMode_of_validatePath {path : Str} {e : FsError}
    (h : validatePath path = some e) : ¬∃ text, e = .unsafeMode text := by
  rintro ⟨text, rfl⟩
  unfold validatePath at h
  split_ifs at h
  all_goals cases h

theorem refused_validatePath {path : Str} {rest : Done} :
    Refused (match validatePath path with | some e => .ret (some e) | none => rest) ↔
      validatePath path = none ∧ Refused rest := by
  cases hpath : validatePath path with
  | some e => simpa [refused_ret] using not_unsafeMode_of_validatePath hpath
  | none => simp

theorem refused_validateMode {m : Mode} (h : Privileged m) (rest : Done) :
    Refused (match validateMode m with | some e => .ret (some e) | none => rest) := by
  obtain ⟨text, hmode⟩ := validateMode_of_privileged h
  rw [hmode]
  exact ⟨text, rfl⟩

/-- A mode with the set-uid or set-gid bit is refused with `ErrUnsafeMode` and without any call, on
every backend, if and only if the operation looks at it first. -/
theorem refused_iff (b : Backend) (db : Names) (cwd : Str) (ctx : Option Str) (op : Op)
    (h : Privileged op.mode) : Refused (op.program b db cwd ctx) ↔ LooksFirst ctx op := by
  cases op with
  | writeFile path data opts =>
    cases ctx with
    | some err => simp [Op.program, writeFile, refused_ret, LooksFirst]
    | none =>
      refine refused_validatePath.trans ((and_iff_left (refused_validateMode h _)).trans ?_)
      simp [LooksFirst, Op.paths]
  | copy src dst opts | copyTree src dst opts =>
    refine refused_validatePath.trans ((and_congr_right fun _ => refused_validatePath).trans ?_)
    refine (and_congr_right fun _ => and_iff_left (refused_validateMode h _)).trans ?_
    simp [LooksFirst, Op.paths]
  | setMode path mode =>
    refine refused_validatePath.trans ((and_iff_left (refused_validateMode h _)).trans ?_)
    simp [LooksFirst, Op.paths]
  | mkdir path opts =>
    refine refused_validatePath.trans ?_
    simp only [LooksFirst, and_false, iff_false, not_and]
    exact fun _ => not_refused_ask _ _

def sharedDir : MkdirOptions := ⟨modeSetgid ||| 0o755#32, [], [], false⟩

def noNames : Names := ⟨fun _ => none, fun _ => none⟩

/-- `Mkdir` does not look at the mode before it makes the directory. -/
theorem setgid_directory :
    Privileged sharedDir.mode ∧
      ((mkdir "/srv/shared" sharedDir).Puts
        (.run "mkdir" ["--", "/srv/shared"])) ∧
      ¬Refused ((Op.mkdir "/srv/shared" sharedDir).program .direct noNames "/" none) :=
  ⟨by decide, .here, not_refused_ask _ _⟩

/-- `Copy` does. -/
theorem setuid_copy :
    ∃ text, copy "/bin/sh" "/tmp/sh" ⟨modeSetuid ||| 0o755#32, [], [], []⟩ =
      .ret (some (.unsafeMode text)) :=
  (refused_iff .withSudo noNames "/" none (.copy "/bin/sh" "/tmp/sh"
    ⟨modeSetuid ||| 0o755#32, [], [], []⟩) (by decide)).mpr ⟨by decide, trivial⟩

end PowerManage.Fs
