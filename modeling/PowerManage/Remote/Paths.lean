import PowerManage.Lib.Walk

/-!
# Which paths a source may write to and wipe

`validateDestination` guards every `Fetch`, `canWipe` every `Wipe` and prune.  Both clean the path
lexically, accept what is lexically under a managed root, and refuse what is at or under a protected
prefix; `validateDestination` then resolves the parent directories (and a link at the leaf) and
looks again, `canWipe` asks for a record of an earlier `Fetch`.

Path names are lists of characters and clean absolute paths are lists of components.  The system
calls behind `os.Stat`, `os.Lstat` and `filepath.EvalSymlinks` are walks of a file tree: the kernel
gives up after `kernelLinks` links, `EvalSymlinks` after `goLinks`.
-/

namespace PowerManage.Remote

open PathName FileTree

/-! ## Protected paths -/

def dangerousPaths : List String :=
  ["/", "/boot", "/dev", "/etc", "/proc", "/run", "/sys", "/usr", "/var", "/bin", "/sbin", "/lib",
    "/lib64", "/home", "/root", "/lib32", "/libx32", "/media", "/mnt", "/opt", "/srv", "/tmp",
    "/snap"]

def isProtectedPath (clean : Path) : Bool :=
  dangerousPaths.any fun d => spell clean = d.toList

def protectedPrefixRoots : List String :=
  ["/etc", "/boot", "/usr", "/home", "/root", "/var/lib", "/bin", "/sbin", "/lib", "/lib64",
    "/lib32", "/libx32", "/proc", "/sys", "/dev", "/run"]

def protectedExactPaths : List String := ["/", "/var"]

def isUnderProtectedPrefix (clean : Path) : Bool :=
  (protectedExactPaths.any fun e => spell clean = e.toList) ||
    protectedPrefixRoots.any fun root =>
      spell clean = root.toList || hasPrefix (spell clean) (root.toList ++ ['/'])

/-! ## System calls on paths -/

def kernelLinks : Nat := 40

/-- How many links `filepath.EvalSymlinks` follows. -/
def goLinks : Nat := 255

variable (t : Tree)

/-- `os.Stat`: a path followed to its end. -/
def stat (cs : List Name) : Walked := walk t kernelLinks 0 [] cs

def evalSymlinks (cs : List Name) : Walked := walk t goLinks 0 [] cs

/-- The last component is not followed, unless the text ends in something that is not a name. -/
def lstat (s : Str) : Option Node :=
  match (components s).getLast? with
  | none => none
  | some base =>
    if Proper base then
      match stat t (components s).dropLast with
      | .found q => t (q ++ [base])
      | _ => none
    else
      match stat t (components s) with
      | .found q => t q
      | _ => none

/-- Why a path cannot be resolved. -/
inductive ResolveError
  | notAbsolute (path : Str)
  | cannotStat (dir : Path) (e : Errno)
  /-- `EvalSymlinks` failed; `none` is a missing component. -/
  | resolveSymlinks (dir : Path) (e : Option Errno)
deriving DecidableEq

def Errno.text : Errno → Str
  | .notDir => "not a directory"
  | .access => "permission denied"
  | .loop => "too many levels of symbolic links"

def ResolveError.text : ResolveError → Str
  | .notAbsolute path => "path must be absolute: " ++ path
  | .cannotStat dir e =>
    "cannot stat " ++ spell dir ++ ": stat " ++ spell dir ++ ": " ++
      Errno.text e
  | .resolveSymlinks dir e =>
    "resolve symlinks in " ++ spell dir ++ ": lstat " ++ spell dir ++ ": " ++
      match e with
      | some e => Errno.text e
      | none => "no such file or directory"

/-- The loop of `ResolveAndValidatePath`: up from `dir` to the first directory that exists,
collecting components. -/
def existingParent : List Name → List Name → Except ResolveError (Path × List Name)
  | [], missingTail => .ok ([], missingTail)
  | c :: dir, missingTail =>
    match stat t (c :: dir).reverse with
    | .found _ => .ok ((c :: dir).reverse, missingTail)
    | .gap .. => existingParent dir (c :: missingTail)
    | .fail e => .error (.cannotStat (c :: dir).reverse e)

/-- `sysfs.ResolveAndValidatePath`: the existing parents resolved, the rest put back. -/
def resolveAndValidatePath (path : Str) : Except ResolveError Path :=
  if isAbs path then
    match existingParent t (cleanAbs path).dropLast.reverse [] with
    | .error e => .error e
    | .ok (parent, missingTail) =>
      match evalSymlinks t parent with
      | .found resolved => .ok (resolved ++ missingTail ++ (cleanAbs path).getLast?.toList)
      | .gap .. => .error (.resolveSymlinks parent none)
      | .fail e => .error (.resolveSymlinks parent (some e))
  else .error (.notAbsolute path)

/-! ## Destinations -/

/-- The prefixes `Wipe` touches without a record. -/
def wipeAllowedRoots : List String := ["/var/lib/power-manage/", "/etc/power-manage/"]

def isManagedRoot (clean : Path) : Bool :=
  wipeAllowedRoots.any fun root =>
    hasPrefix (spell clean ++ ['/']) (trimSuffix root.toList ['/'] ++ ['/'])

/-- Why a destination is refused. -/
inductive DestError
  | empty
  | notAbsolute (path : Str)
  | resolvesToRoot (path : Str)
  | underProtected (path : Str)
  | unresolvable (path : Str) (e : ResolveError)
  | resolvesToProtected (path : Str) (resolved : Path)
  | linkToProtected (path : Str) (target : Path)
  | notRecorded (path : Str)
deriving DecidableEq

def DestError.text : DestError → Str
  | .empty => "empty path"
  | .notAbsolute path => path ++ " is not absolute"
  | .resolvesToRoot path => path ++ " resolves to /"
  | .underProtected path => path ++ " is under a protected system path"
  | .unresolvable path e => path ++ ": " ++ e.text
  | .resolvesToProtected path resolved =>
    path ++ " resolves to protected path " ++ spell resolved
  | .linkToProtected path target =>
    path ++ " is a symlink to protected path " ++ spell target
  | .notRecorded path => path ++ " is not under a managed root and was not recorded"

/-- `validateDestination`, which `Fetch` calls first. -/
def validateDestination (path : Str) : Except DestError Unit :=
  let trim := trimSpace path
  if trim = [] then .error .empty
  else if !isAbs trim then .error (.notAbsolute path)
  else
    let clean := cleanAbs trim
    if clean = [] then .error (.resolvesToRoot path)
    else if isManagedRoot clean then .ok ()
    else if isUnderProtectedPrefix clean then .error (.underProtected path)
    else
      match resolveAndValidatePath t trim with
      | .error e => .error (.unresolvable path e)
      | .ok resolved =>
        if isUnderProtectedPrefix resolved then .error (.resolvesToProtected path resolved)
        else
          match lstat t trim with
          | some (.link _) =>
            match evalSymlinks t (components trim) with
            | .found target =>
              if isUnderProtectedPrefix target then .error (.linkToProtected path target)
              else .ok ()
            | _ => .ok ()
          | _ => .ok ()

variable (recordedDests : Finset Path)

/-- `canWipe`, which `Wipe` and the prunes call first. -/
def canWipe (path : Str) : Except DestError Unit :=
  let trim := trimSpace path
  if trim = [] then .error .empty
  else if !isAbs trim then .error (.notAbsolute path)
  else
    let clean := cleanAbs trim
    if clean = [] then .error (.resolvesToRoot path)
    else if isManagedRoot clean then .ok ()
    else if isUnderProtectedPrefix clean then .error (.underProtected path)
    else if clean ∈ recordedDests then .ok ()
    else
      match resolveAndValidatePath t trim with
      | .ok resolved =>
        if isUnderProtectedPrefix resolved then .error (.resolvesToProtected path resolved)
        else if resolved ∈ recordedDests then .ok ()
        else .error (.notRecorded path)
      | .error (.resolveSymlinks _ none) => .error (.notRecorded path)
      | .error e => .error (.unresolvable path e)

/-- The keys under which a destination is recorded: its cleaned form, and its resolved form when
it can be resolved. -/
def destKeys (clean : Path) (path : Str) : Finset Path :=
  match resolveAndValidatePath t path with
  | .ok resolved => {clean, resolved}
  | .error _ => {clean}

def recordDest (path : Str) : Finset Path :=
  let trim := trimSpace path
  if isAbs trim then recordedDests ∪ destKeys t (cleanAbs trim) trim else recordedDests

/-- `forgetDest`, which resolves the path as it was given. -/
def forgetDest (path : Str) : Finset Path :=
  let trim := trimSpace path
  if isAbs trim then recordedDests \ destKeys t (cleanAbs trim) path else recordedDests

end PowerManage.Remote
