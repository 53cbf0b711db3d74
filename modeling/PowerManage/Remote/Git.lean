import PowerManage.Remote.Http

/-!
# Git sources

`gitSource.Fetch` and the go-git driver behind it: `CloneOrSync` clones into a destination without a
`.git`, or fetches into the checkout that is there, resolves the reference and checks it out.
Untracked files are read before the checkout and written back after it, unless `Prune` is set.

What go-git does is a parameter, a `GoGit` value for each call: its operations as functions of the
checkout, the tree at the destination.
-/

namespace PowerManage.Remote

open PathName FileTree Text

abbrev Hash := Str

/-- `GitConfig`, without URL scheme checks, ownership and the driver's name. -/
structure GitConfig where
  url : Str
  ref : Str
  prune : Bool
deriving DecidableEq

/-- A source, with the revision it fetched last. -/
structure GitSource where
  cfg : GitConfig
  revision : Str
deriving DecidableEq

/-- The library during one call: an operation that fails has a text, and each says what it leaves.
-/
structure GoGit where
  list : Except Str (List (Str × Hash))
  plainOpen : Tree → Option Str
  plainClone : Tree → Option Str × Tree
  /-- `FetchContext`, with "already up to date" no failure. -/
  fetchContext : Tree → Option Str × Tree
  reference : Tree → Str → Option Hash
  commitObject : Tree → Hash → Bool
  head : Tree → Option Hash
  worktree : Tree → Option Str
  /-- The untracked paths `Status` reports. -/
  status : Tree → Except Str (List Path)
  checkout : Hash → Tree → Option Str × Tree
  clean : Tree → Option Str × Tree
  /-- What `countTreeFiles` counts: files and bytes. -/
  count : Tree → Nat × Int

/-- What fails in one call. -/
structure GitFaults where
  mkdir : Bool
  /-- `os.RemoveAll` after a failure leaves these entries. -/
  left : Path → Bool
  applyMode : Option Str

/-! ## References -/

def matchRef (refs : List (Str × Hash)) (ref : Str) : Option Hash :=
  match refs.find? fun r =>
      r.1 = "refs/heads/" ++ ref || r.1 = "refs/tags/" ++ ref with
  | some r => some r.2
  | none =>
    (refs.find? fun r => r.1 = "refs/tags/" ++ ref ++ "^\x7b\x7d").map Prod.snd

variable (G : GoGit)

def resolve (cfg : GitConfig) : Except FetchError Hash :=
  match G.list with
  | .error text => .error (.other ("ls-remote " ++ cfg.url ++ ": " ++ text))
  | .ok refs =>
    match matchRef refs cfg.ref with
    | some hash => .ok hash
    | none => .error (.invalidConfig
        ("ref " ++ quote cfg.ref ++ " not found at " ++ cfg.url))

/-- What `hex.DecodeString` has decoded when it stops. -/
def decodeHexPrefix : Str → Bytes
  | a :: b :: rest =>
    match hexDigit (toLower a), hexDigit (toLower b) with
    | some x, some y => UInt8.ofNat (16 * x + y) :: decodeHexPrefix rest
    | _, _ => []
  | _ => []

/-- `plumbing.NewHash`: twenty bytes, zero where nothing was decoded; `none` when all are. -/
def newHash (ref : Str) : Option Hash :=
  let bytes := (decodeHexPrefix ref ++ List.replicate 20 0).take 20
  if bytes = List.replicate 20 0 then none else some (hexEncode bytes)

/-- A branch of the remote, a branch, a tag, or a commit. -/
def resolveTargetHash (u : Tree) (ref : Str) : Except FetchError Hash :=
  let candidates := ["refs/remotes/origin/", "refs/heads/", "refs/tags/"].map (·.toList ++ ref)
  match candidates.findSome? (G.reference u) with
  | some hash => .ok hash
  | none =>
    match newHash ref with
    | some hash =>
      if G.commitObject u hash then .ok hash
      else .error (.invalidConfig ("ref " ++ quote ref ++ " not found"))
    | none => .error (.invalidConfig ("ref " ++ quote ref ++ " not found"))

/-! ## Untracked files -/

/-- `snapshotUntracked`: the untracked regular files and what they hold.  A failing `Status` is
taken for no files. -/
def snapshotUntracked (u : Tree) : List (Path × Bytes) :=
  match G.status u with
  | .error _ => []
  | .ok paths => paths.filterMap fun p =>
      match u p with
      | some (.file body) => some (p, body)
      | _ => none

def restoreUntracked : Tree → List (Path × Bytes) → Option Str × Tree
  | u, [] => (none, u)
  | u, (p, body) :: rest =>
    match mkdirAll u p.dropLast with
    | none => (some ("mkdir " ++ spell p.dropLast), u)
    | some u =>
      match u p with
      | none | some (.file _) => restoreUntracked (put u p (.file body)) rest
      | _ => (some ("write " ++ spell p), u)

/-! ## Clone or sync -/

/-- The checkout `openOrClone` comes to, whether it is new, and the tree. -/
def openOrClone (cfg : GitConfig) (t : Tree) (d : Dest) (io : GitFaults) :
    Except FetchError Bool × Tree :=
  match stat t (d.path ++ [".git".toList]) with
  | .found _ =>
    match G.plainOpen (below t d.path) with
    | some text =>
      (.error (.other ("open existing ".toList ++ d.text ++ ": ".toList ++ text)), t)
    | none => (.ok false, t)
  | _ =>
    match if io.mkdir then none else mkdirAll t d.parent with
    | none => (.error (.other ("mkdir parent of ".toList ++ d.text)), t)
    | some t =>
      match G.plainClone (below t d.path) with
      | (some text, u) =>
        (.error (.other ("clone ".toList ++ cfg.url ++ ": ".toList ++ text)),
          erase (graft t d.path u) d.path fun q => !io.left q)
      | (none, u) => (.ok true, graft t d.path u)

/-- The end of `CloneOrSync`, after the checkout of `target`: untracked files are written back, or
cleaned away. -/
def finishCheckout (cfg : GitConfig) (snapshot : List (Path × Bytes)) (target : Hash)
    (u : Tree) : Except FetchError Result × Tree :=
  match restoreUntracked u snapshot with
  | (some text, u) => (.error (.other ("restore untracked: " ++ text)), u)
  | (none, u) =>
    match if cfg.prune then G.clean u else (none, u) with
    | (some text, u) => (.error (.other ("clean: " ++ text)), u)
    | (none, u) => (.ok ⟨true, (G.count u).2, (G.count u).1, target⟩, u)

/-- A new clone that comes to nothing is removed again. -/
def cloneOrSync (cfg : GitConfig) (t : Tree) (d : Dest) (io : GitFaults) :
    Except FetchError Result × Tree :=
  -- what is left of a new clone that came to nothing
  let nuke (fresh : Bool) (t : Tree) : Tree :=
    if fresh then erase t d.path fun q => !io.left q else t
  match openOrClone G cfg t d io with
  | (.error e, t) => (.error e, t)
  | (.ok fresh, t) =>
    match if fresh then (none, below t d.path) else G.fetchContext (below t d.path) with
    | (some text, u) =>
      (.error (.other ("fetch " ++ cfg.url ++ ": " ++ text)), graft t d.path u)
    | (none, u) =>
      match resolveTargetHash G u cfg.ref with
      | .error e => (.error e, nuke fresh (graft t d.path u))
      | .ok target =>
        if !fresh && G.head u = some target then
          let u := if cfg.prune && (G.worktree u).isNone then (G.clean u).2 else u
          (.ok ⟨false, 0, 0, target⟩, graft t d.path u)
        else
          match G.worktree u with
          | some text => (.error (.other ("worktree: " ++ text)), graft t d.path u)
          | none =>
            let snapshot := if !fresh && !cfg.prune then snapshotUntracked G u else []
            match G.checkout target u with
            | (some text, u) =>
              (.error (.other ("checkout " ++ target ++ ": " ++ text)),
                nuke fresh (graft t d.path u))
            | (none, u) =>
              match finishCheckout G cfg snapshot target u with
              | (result, u) => (result, graft t d.path u)

/-- `gitSource.Fetch`.  A failing `Resolve` only means there is no shortcut. -/
def fetchGit (src : GitSource) (t : Tree) (d : Dest) (G : GoGit) (io : GitFaults) : Outcome :=
  let sync : Outcome :=
    match cloneOrSync G src.cfg t d io with
    | (.error e, t) => .failed src.revision t e
    | (.ok res, t) =>
      match io.applyMode with
      | some text => .failed src.revision t (.other text)
      | none => ⟨.ok res, t, if res.revision = [] then src.revision else res.revision, true⟩
  match validateDestination t (d.text) with
  | .error e => .failed src.revision t (.unsafeDestination e.text)
  | .ok _ =>
    if src.revision = [] then sync
    else
      match resolve G src.cfg with
      | .ok upstream =>
        if upstream = src.revision then
          ⟨.ok (.unchanged src.revision), t, src.revision, false⟩
        else sync
      | .error _ => sync

end PowerManage.Remote
