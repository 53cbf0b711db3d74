import PowerManage.Remote.Http

/-!
# S3 sources

`s3Source.Fetch` of a single object, and of everything below a prefix (a key that ends in a slash):
the listing is paged together, its digest compared with the cached one, and then every object is
fetched and put in place, one after the other; with `Prune` whatever else lies below the destination
is removed at the end.

A `Bucket` is what the endpoint answers during one call.  Below the destination of a prefix sync no
symbolic links are followed here.
-/

namespace PowerManage.Remote

open PathName FileTree Text

/-- `S3Config`, without mode and ownership. -/
structure S3Config where
  endpoint : Str
  bucket : Str
  key : Str
  prune : Bool
deriving DecidableEq

/-- `s3Source`: the configuration, the two URLs built from it, and the last revision. -/
structure S3Source where
  cfg : S3Config
  objectURL : Str
  bucketURL : Str
  revision : Str
deriving DecidableEq

/-! ## The endpoint -/

/-- An object of a listing. -/
structure S3Object where
  key : Str
  etag : Str
deriving DecidableEq

/-- One page of a listing. -/
structure ListV2Response where
  isTruncated : Bool
  nextContinuationToken : Str
  contents : List S3Object
deriving DecidableEq

/-- The response to one list request: its status and what its body decodes to. -/
structure Page where
  status : Nat
  decoded : Except Str ListV2Response

/-- The answers of the server during one call. -/
structure Bucket where
  head : Except Str Nat
  get : Except Str Response
  pages : List (Except Str Page)
  /-- To the GET of the object at a position of the sorted listing. -/
  object : Nat → Except Str Response

def forbidden (status : Nat) : Bool := status = 403 || status = 401

def statusText (verb url : Str) (status : Nat) : Str :=
  verb ++ " " ++ url ++ ": status " ++ (toString status).toList

def anonymousText (verb url : Str) (status : Nat) : Str :=
  "anonymous " ++ verb ++ " on " ++ url ++ " returned " ++
    (toString status).toList

def policyHint : Str := " (bucket policy may need adjustment)"

def headNotModified (src : S3Source) (b : Bucket) : Except FetchError Bool :=
  match b.head with
  | .error text => .error (.other ("HEAD " ++ src.objectURL ++ ": " ++ text))
  | .ok status =>
    if status = statusNotModified then .ok true
    else if status = 200 then .ok false
    else if forbidden status then
      .error (.invalidConfig (anonymousText "HEAD" src.objectURL status ++ policyHint))
    else .error (.other (statusText "HEAD" src.objectURL status))

/-- `openObject`: a 304 is an empty body. -/
def openObject (src : S3Source) (b : Bucket) : Except FetchError Response :=
  match b.get with
  | .error text => .error (.other ("GET " ++ src.objectURL ++ ": " ++ text))
  | .ok r =>
    if r.status = statusNotModified then .ok { r with body := ⟨[], false⟩ }
    else if 200 ≤ r.status ∧ r.status < 300 then .ok r
    else if forbidden r.status then
      .error (.invalidConfig (anonymousText "GET" src.objectURL r.status ++ policyHint))
    else .error (.other (statusText "GET" src.objectURL r.status))

def maxPrefixObjects : Nat := 10000

/-- `listObjects`, over the responses still to come; when there are none the context ends it. -/
def listObjects (cfg : S3Config) (bucketURL : Str) :
    List (Except Str Page) → List S3Object → Except FetchError (List S3Object)
  | [], _ => .error (.other ("list " ++ bucketURL ++ ": context canceled"))
  | .error text :: _, _ =>
    .error (.other ("list " ++ bucketURL ++ ": " ++ text))
  | .ok page :: pages, all =>
    if forbidden page.status then
      .error (.invalidConfig (anonymousText "list" bucketURL page.status ++ policyHint))
    else if page.status < 200 ∨ page.status ≥ 300 then
      .error (.other (statusText "list" bucketURL page.status))
    else
      match page.decoded with
      | .error text =>
        .error (.other ("decode list " ++ bucketURL ++ ": " ++ text))
      | .ok parsed =>
        let all := all ++ parsed.contents
        if all.length > maxPrefixObjects then
          .error (.invalidConfig ("prefix " ++ quote cfg.key ++ " under " ++
            cfg.endpoint ++ ['/'] ++ cfg.bucket ++ " contains more than " ++
            (toString maxPrefixObjects).toList ++
            " objects; narrow the prefix or paginate the source"))
        else if !parsed.isTruncated || parsed.nextContinuationToken = [] then .ok all
        else listObjects cfg bucketURL pages all

/-- The listing in the order of its keys, which `hashListing` puts it in. -/
def sortListing (objs : List S3Object) : List S3Object :=
  objs.insertionSort fun a b => a.key ≤ b.key

/-- `hashListing`, of a sorted listing. -/
def hashListing (W : World) (objs : List S3Object) : Str :=
  let text := objs.flatMap fun o => o.key ++ ['\x00'] ++ o.etag ++ ['\x00']
  hexEncode (W.sha256 (text.flatMap String.utf8EncodeChar))

def openSingleObject (src : S3Source) (key : Str) (answer : Except Str Response) :
    Except FetchError Response :=
  let url := src.bucketURL ++ ['/'] ++ key
  match answer with
  | .error text => .error (.other ("GET " ++ url ++ ": " ++ text))
  | .ok r =>
    if forbidden r.status then .error (.invalidConfig (anonymousText "GET" url r.status))
    else if r.status < 200 ∨ r.status ≥ 300 then
      .error (.other (statusText "GET" url r.status))
    else .ok r

/-! ## A single object -/

/-- `s3Source.Fetch` of a single object. -/
def fetchObject (W : World) (src : S3Source) (t : Tree) (d : Dest) (b : Bucket) (io : Faults) :
    Outcome :=
  let get : Outcome :=
    match openObject src b with
    | .error e => .failed src.revision t e
    | .ok r => installFile W src.revision none defaultHTTPMaxBytes t d r io
  match validateDestination t (d.text) with
  | .error e => .failed src.revision t (.unsafeDestination e.text)
  | .ok _ =>
    if src.revision = [] then get
    else
      match headNotModified src b with
      | .error e => .failed src.revision t e
      | .ok true => ⟨.ok (.unchanged src.revision), t, src.revision, false⟩
      | .ok false => get

/-! ## Everything below a prefix -/

/-- The key below the part that was asked for, if that is a safe path. -/
def relPathForKey (pre key : Str) : Except FetchError Str :=
  if !hasPrefix key pre then
    .error (.invalidConfig
      ("object key " ++ quote key ++ " does not begin with prefix " ++ quote pre))
  else
    let rel := key.drop pre.length
    if rel = [] then
      .error (.invalidConfig ("object key " ++ quote key ++
        " matches the prefix exactly (cannot map to file)"))
    else if '\x00' ∈ rel then
      .error (.unsafeDestination ("object key " ++ quote key ++ " contains NUL"))
    else if dotDot ∈ components rel then
      .error (.unsafeDestination
        ("object key " ++ quote key ++ " contains a traversal component"))
    else .ok rel

/-- `filepath.Join` of the destination and a relative name. -/
def outPath (d : Dest) (rel : Str) : Path := (components rel).foldl push d.path

def Dest.ofPath (p : Path) : Dest := ⟨p.dropLast, p.getLastD [], false⟩

/-- What fails for one object. -/
structure ObjectFaults where
  mkdir : Bool
  stream : StreamFaults
  rename : Bool
  removeTmp : Bool
deriving DecidableEq

def streamObjectToFile (t : Tree) (out : Dest) (body : Body) (maxBytes : Int) (io : ObjectFaults) :
    Except FetchError Nat × Tree :=
  match if io.mkdir then none else mkdirAll t out.dir with
  | none => (.error (.other ("mkdir " ++ spell out.dir)), t)
  | some t =>
    let tmp := out.sibling (tmpSuffix io.stream.suffix)
    match streamToTmp t tmp body maxBytes io.stream with
    | (.error e, t) => (.error e, t)
    | (.ok data, t) =>
      if io.rename ∨ t out.path = some (.dir true) ∨ t out.path = some (.dir false) then
        (.error (.other ("rename to " ++ spell out.path)), removeTmp t tmp io.removeTmp)
      else (.ok data.length, FileTree.rename t tmp out.path)

/-- What a sync of objects has come to. -/
structure Synced where
  bytesWritten : Int
  filesTouched : Nat
  relPaths : List Str
deriving DecidableEq

/-- The loop of `fetchPrefix` over the objects still to fetch; `i` counts those before. -/
def syncObjects (src : S3Source) (d : Dest) (b : Bucket) (io : Nat → ObjectFaults) :
    Nat → Tree → Synced → List S3Object → Except FetchError Synced × Tree
  | _, t, done, [] => (.ok done, t)
  | i, t, done, obj :: objs =>
    match relPathForKey src.cfg.key obj.key with
    | .error e => (.error e, t)
    | .ok rel =>
      let out := outPath d rel
      -- `assertWithinDest`
      if ¬d.path <+: out then
        (.error (.unsafeDestination
          (spell out ++ " resolves outside " ++ d.text)), t)
      else
        match openSingleObject src obj.key (b.object i) with
        | .error e => (.error e, t)
        | .ok r =>
          match streamObjectToFile t (.ofPath out) r.body defaultHTTPMaxBytes (io i) with
          | (.error e, t) => (.error e, t)
          | (.ok written, t) =>
            syncObjects src d b io (i + 1) t
              ⟨int64 (done.bytesWritten + written), done.filesTouched + 1, rel :: done.relPaths⟩ objs

/-- Which directories are empty by the time they are tried, and an error with the entries it got to
before. -/
structure PruneFaults where
  empty : Path → Bool
  fails : Option (Str × (Path → Bool))

def relName (q : Path) : Str := (spell q).drop 1

/-- What `pruneTo` removes: `q` is relative to the destination. -/
def victim (t : Tree) (d : Dest) (keep : List Str) (empty : Path → Bool) (q : Path) :
    Bool :=
  match t (d.path ++ q) with
  | none => false
  | some (.dir _) => q ≠ [] && empty q
  | some _ => q ≠ [] && relName q ∉ keep

/-- Whatever is not kept is removed. -/
def pruneTo (t : Tree) (recordedDests : Finset Path) (d : Dest) (keep : List Str)
    (io : PruneFaults) : Option FetchError × Tree :=
  match canWipe t recordedDests (d.text) with
  | .error e => (some (.unsafeDestination e.text), t)
  | .ok _ =>
    match stat t d.path with
    | .gap _ _ _ => (none, t)
    | .fail _ => (some (.other ("stat dest " ++ d.text)), t)
    | .found _ =>
      let gone (p : Path) : Bool := victim t d keep io.empty (p.drop d.path.length)
      match io.fails with
      | some (text, reached) =>
        (some (.other text), erase t d.path fun p => gone p && reached p)
      | none => (none, erase t d.path gone)

/-- What fails in the sync of a whole prefix. -/
structure PrefixFaults where
  mkdir : Bool
  object : Nat → ObjectFaults
  prune : PruneFaults
  applyMode : Option Str

/-- The objects of a listing one by one, and the others pruned. -/
def fetchPrefix (W : World) (src : S3Source) (t : Tree) (recordedDests : Finset Path) (d : Dest)
    (b : Bucket) (io : PrefixFaults) : Outcome :=
  match validateDestination t (d.text) with
  | .error e => .failed src.revision t (.unsafeDestination e.text)
  | .ok _ =>
    match listObjects src.cfg src.bucketURL b.pages [] with
    | .error e => .failed src.revision t e
    | .ok listed =>
      let objects := sortListing listed
      let listHash := hashListing W objects
      if src.revision = listHash then ⟨.ok (.unchanged listHash), t, src.revision, false⟩
      else
        match if io.mkdir then none else mkdirAll t d.path with
        | none => .failed src.revision t (.other ("mkdir " ++ d.text))
        | some t =>
          match syncObjects src d b io.object 0 t ⟨0, 0, []⟩ objects with
          | (.error e, t) => .failed src.revision t e
          | (.ok done, t) =>
            match if src.cfg.prune then pruneTo t recordedDests d done.relPaths io.prune
              else (none, t) with
            | (some e, t) =>
              .failed src.revision t (e.wrap ("prune " ++ d.text ++ ": "))
            | (none, t) =>
              match io.applyMode with
              | some text => .failed src.revision t (.other text)
              | none =>
                ⟨.ok ⟨true, done.bytesWritten, done.filesTouched, listHash⟩, t, listHash, true⟩

end PowerManage.Remote
