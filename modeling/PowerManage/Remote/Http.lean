import PowerManage.Remote.Archive

/-!
# HTTP sources

`httpSource.Fetch` in its two forms — a single file streamed to a temporary sibling and renamed over
the destination, and an archive unpacked into a staging sibling and swapped with it — and
`FetchBytes`.

A call is a function of the source, the file tree, what the server answers and which operations on
the file system fail (`Faults`).  The destination is given as a text that may end in a slash; the
temporary names are that text with a suffix, siblings of the destination or, behind a slash, in it.  The hash, the decoders and URL
parsing are parameters (`World`).
-/

namespace PowerManage.Remote

open PathName FileTree Text

/-- What is taken as given: the hash, the decoders, the parser of URLs. -/
structure World where
  sha256 : Bytes → Bytes
  decoders : Decoders
  /-- `parseHTTPURL`: the reason to refuse a URL. -/
  parseHTTPURL : Str → Option Str

/-- `HTTPConfig`.  `MaxBytes` is an `int64`. -/
structure HTTPConfig where
  url : Str
  checksumSHA256 : Str
  extract : Bool
  prune : Bool
  maxBytes : Int
  mode : Str
  maxBytes_lt : maxBytes < 2 ^ 63

/-- `httpSource`: the configuration after defaulting, the decoded pin and the last revision. -/
structure HTTPSource where
  url : Str
  extract : Bool
  maxBytes : Int
  checksum : Option Bytes
  revision : Str
deriving DecidableEq

def defaultHTTPMaxBytes : Int := 2 * 1024 * 1024 * 1024

def defaultBytesMaxBytes : Int := 64 * 1024 * 1024

/-! ## Configuration -/

def hexDigit (c : Char) : Option Nat :=
  if '0'.toNat ≤ c.toNat ∧ c.toNat ≤ '9'.toNat then some (c.toNat - '0'.toNat)
  else if 'a'.toNat ≤ c.toNat ∧ c.toNat ≤ 'f'.toNat then some (c.toNat - 'a'.toNat + 10)
  else none

/-- `hex.DecodeString`, on lower case input. -/
def hexDecode : Str → Option Bytes
  | [] => some []
  | [_] => none
  | a :: b :: rest =>
    match hexDigit a, hexDigit b, hexDecode rest with
    | some x, some y, some bs => some (UInt8.ofNat (16 * x + y) :: bs)
    | _, _, _ => none

def hexEncode (bs : Bytes) : Str :=
  bs.flatMap fun b => [Nat.digitChar (b.toNat / 16), Nat.digitChar (b.toNat % 16)]

def parseOctal (s : Str) : Option Nat :=
  if s = [] ∨ !s.all fun c => '0'.toNat ≤ c.toNat && c.toNat ≤ '7'.toNat then none
  else
    let n := s.foldl (fun n c => 8 * n + (c.toNat - '0'.toNat)) 0
    if n < 2 ^ 32 then some n else none

def validateModeBits (mode : Str) : Except FetchError Unit :=
  if mode = [] then .ok ()
  else
    match parseOctal mode with
    | none => .error (.invalidConfig ("invalid mode " ++ quote mode))
    | some bits =>
      if bits / 512 % 8 ≠ 0 then
        .error (.invalidConfig ("mode " ++ quote mode ++ " sets privileged bits " ++
          "(setuid/setgid/sticky), refused for a downloaded artifact"))
      else .ok ()

def validateHTTPConfig (cfg : HTTPConfig) : Except FetchError Unit :=
  if cfg.prune && !cfg.extract then .error (.invalidConfig "prune requires extract")
  else if cfg.extract && cfg.prune && decide (cfg.checksumSHA256 = []) then
    .error (.invalidConfig ("extract+prune requires a checksum_sha256 " ++
      "(the prune deletes files; the payload must be integrity-pinned)"))
  else if cfg.maxBytes < 0 then
    .error (.invalidConfig "max_bytes must not be negative")
  else validateModeBits cfg.mode

/-- Nothing, or 64 hexadecimal digits. -/
def decodeChecksum (text : Str) : Except FetchError (Option Bytes) :=
  if text = [] then .ok none
  else
    match hexDecode (text.map toLower) with
    | some b =>
      if b.length = 32 then .ok (some b)
      else .error (.invalidConfig "checksum_sha256 must be 64 hex chars")
    | none => .error (.invalidConfig "checksum_sha256 must be 64 hex chars")

variable (W : World)

def newHTTPSource (cfg : HTTPConfig) : Except FetchError HTTPSource :=
  match validateHTTPConfig cfg with
  | .error e => .error e
  | .ok _ =>
    match W.parseHTTPURL (trimSpace cfg.url) with
    | some text => .error (.invalidConfig text)
    | none =>
      match decodeChecksum cfg.checksumSHA256 with
      | .error e => .error e
      | .ok checksum =>
        .ok ⟨trimSpace cfg.url, cfg.extract,
          if cfg.maxBytes ≤ 0 then defaultHTTPMaxBytes else cfg.maxBytes, checksum, []⟩

/-! ## The server -/

/-- What of a response is looked at. -/
structure Response where
  status : Nat
  etag : Str
  contentType : Str
  body : Body
deriving DecidableEq

/-- What the origin answers to the HEAD and to the GET, or the transport's error. -/
structure Server where
  head : Except Str Nat
  get : Except Str Response

def statusNotModified : Nat := 304

variable (src : HTTPSource)

def checkNotModified (srv : Server) : Except FetchError Bool :=
  match srv.head with
  | .error text => .error (.other ("HEAD " ++ src.url ++ ": " ++ text))
  | .ok status => .ok (status = statusNotModified)

/-- The GET behind `openBody` and `openArchiveBody`: a 304 is an empty body. -/
def openBody (srv : Server) : Except FetchError Response :=
  match srv.get with
  | .error text => .error (.other ("GET " ++ src.url ++ ": " ++ text))
  | .ok r =>
    if r.status = statusNotModified then .ok { r with body := ⟨[], false⟩ }
    else if r.status < 200 ∨ r.status ≥ 300 then
      .error (.other
        ("GET " ++ src.url ++ ": status " ++ (toString r.status).toList))
    else .ok r

/-! ## Streaming to a temporary file -/

/-- A destination as it is given: the entry `name` of `dir`, with or without a slash behind it. -/
structure Dest where
  dir : Path
  name : Name
  slash : Bool
deriving DecidableEq

def Dest.path (d : Dest) : Path := d.dir ++ [d.name]

def Dest.text (d : Dest) : Str := spell d.path ++ if d.slash then ['/'] else []

/-- `filepath.Dir` of the text, and of every text that it begins. -/
def Dest.parent (d : Dest) : Path := if d.slash then d.path else d.dir

/-- The text with a suffix. -/
def Dest.sibling (d : Dest) (suffix : Str) : Path :=
  d.parent ++ [(if d.slash then [] else d.name) ++ suffix]

/-- Which operations of `streamToTmp` fail, and the random suffix. -/
structure StreamFaults where
  suffix : Str
  rand : Bool
  /-- `MkdirAll` fails after making this many levels. -/
  mkdir : Option Nat
  create : Bool
  write : Bool
  sync : Bool
  close : Bool
  cleanup : Bool
deriving DecidableEq

def StreamFaults.none : StreamFaults := ⟨[], false, Option.none, false, false, false, false, false⟩

def removeTmp (t : Tree) (tmp : Path) (fails : Bool) : Tree :=
  if fails then t else erase t tmp fun _ => true

/-- `streamToTmp`: what was streamed, and the tree it leaves. -/
def streamToTmp (t : Tree) (tmp : Path) (body : Body) (maxBytes : Int) (io : StreamFaults) :
    Except FetchError Bytes × Tree :=
  if io.rand then (.error (.other "generate staging-file suffix"), t)
  else
    match io.mkdir with
    | some n =>
      (.error (.other ("mkdir " ++ spell tmp.dropLast)),
        (mkdirAll t (tmp.dropLast.take n)).getD t)
    | none =>
      match mkdirAll t tmp.dropLast with
      | none => (.error (.other ("mkdir " ++ spell tmp.dropLast)), t)
      | some t =>
        -- a file left over from an earlier run is removed first, a directory is not
        if io.create ∨ t tmp = some (.dir true) ∨ t tmp = some (.dir false) then
          (.error (.other ("open tmp " ++ spell tmp)), t)
        else
          let limited := limitReader (int64 (maxBytes + 1)) body
          let t' := put t tmp (.file limited.bytes)
          if limited.err ∨ io.write then
            (.error (.other ("stream to " ++ spell tmp)), removeTmp t' tmp io.cleanup)
          else if limited.bytes.length > maxBytes then
            (.error (.integrity
              ("payload exceeds " ++ (toString maxBytes).toList ++ " bytes")),
              removeTmp t' tmp io.cleanup)
          else if io.sync ∨ io.close then
            (.error (.other ((if io.sync then "fsync ".toList else "close ".toList) ++ spell tmp)),
              removeTmp t' tmp io.cleanup)
          else (.ok limited.bytes, t')

/-! ## Fetch -/

/-- `Result`, without the digest of what was written. -/
structure Result where
  changed : Bool
  bytesWritten : Int
  filesTouched : Nat
  revision : Str
deriving DecidableEq

def Result.unchanged (revision : Str) : Result := ⟨false, 0, 0, revision⟩

/-- What fails in one fetch. -/
structure Faults where
  stream : StreamFaults
  /-- `os.Rename` over a file destination, and the clean-up after it. -/
  rename : Bool
  removeTmp : Bool
  /-- `applyMode` after the destination is in place. -/
  applyMode : Option Str
  stagingSuffix : Str
  stagingRand : Bool
  stagingMkdir : Bool
  /-- File operations below the staging directory, by entry. -/
  unpack : Nat → Option Str
  /-- The clean-up of the staging directory leaves these entries. -/
  stagingLeft : Path → Bool
  /-- `os.RemoveAll` of the old destination fails after removing these entries. -/
  removeDest : Option (Path → Bool)
  mkdirDest : Bool
  swap : Bool

def Faults.none : Faults where
  stream := .none
  rename := false
  removeTmp := false
  applyMode := Option.none
  stagingSuffix := []
  stagingRand := false
  stagingMkdir := false
  unpack := fun _ => Option.none
  stagingLeft := fun _ => false
  removeDest := Option.none
  mkdirDest := false
  swap := false

/-- What a fetch returns and leaves. -/
structure Outcome where
  result : Except FetchError Result
  tree : Tree
  revision : Str
  /-- `RecordDest` was reached. -/
  recorded : Bool

def Outcome.failed (revision : Str) (t : Tree) (e : FetchError) : Outcome :=
  ⟨.error e, t, revision, false⟩

def tmpSuffix (suffix : Str) : Str := ".tmp." ++ suffix

/-- What both forms of `Fetch` do first: `none` is to go on with a GET. -/
def probe (t : Tree) (d : Dest) (srv : Server) :
    Option (Except FetchError Result) :=
  match validateDestination t (d.text) with
  | .error e => some (.error (.unsafeDestination e.text))
  | .ok _ =>
    if src.revision = [] then none
    else
      match checkNotModified src srv with
      | .error e => some (.error e)
      | .ok true => some (.ok (.unchanged src.revision))
      | .ok false => none

/-- Stream the body to a temporary sibling, compare its digest with the pin, rename, apply the mode.
-/
def installFile (revision : Str) (checksum : Option Bytes) (maxBytes : Int)
    (t : Tree) (d : Dest) (r : Response) (io : Faults) : Outcome :=
  let tmp := d.sibling (tmpSuffix io.stream.suffix)
  match streamToTmp t tmp r.body maxBytes io.stream with
  | (.error e, t) => .failed revision t e
  | (.ok data, t) =>
    let sum := W.sha256 data
    if checksum ≠ none ∧ checksum ≠ some sum then
      .failed revision (removeTmp t tmp io.removeTmp)
        (.integrity ("sha256 mismatch for " ++ d.text))
    else if io.rename ∨ t d.path = some (.dir true) ∨ t d.path = some (.dir false) then
      .failed revision (removeTmp t tmp io.removeTmp)
        (.other ("rename to " ++ d.text))
    else
      let t := FileTree.rename t tmp d.path
      match io.applyMode with
      | some text => .failed revision t (.other text)
      | none =>
        let revision := if r.etag = [] then hexEncode sum else r.etag
        ⟨.ok ⟨true, data.length, 1, revision⟩, t, revision, true⟩

/-- `httpSource.Fetch` of a single file. -/
def fetchFile (t : Tree) (d : Dest) (srv : Server) (io : Faults) :
    Outcome :=
  match probe src t d srv with
  | some result => ⟨result, t, src.revision, false⟩
  | none =>
    match openBody src srv with
    | .error e => .failed src.revision t e
    | .ok r => installFile W src.revision src.checksum src.maxBytes t d r io

/-- The swap at the end of `fetchArchive`; `t` holds the unpacked tree at `staging`. -/
def swapStaging (revision : Str) (t : Tree) (d : Dest) (staging : Path) (io : Faults)
    (done : Tree → Outcome) : Outcome :=
  let cleanup (t : Tree) : Tree := erase t staging fun q => !io.stagingLeft q
  let existed := match stat t d.path with | .found _ => true | _ => false
  match existed, io.removeDest with
  | true, some gone =>
    .failed revision (cleanup (erase t d.path gone))
      (.other ("remove existing dest " ++ d.text))
  | _, _ =>
    let t := if existed then erase t d.path fun _ => true else t
    match if io.mkdirDest then none else mkdirAll t d.parent with
    | none => .failed revision (cleanup t) (.other ("mkdir " ++ spell d.parent))
    | some t =>
      if io.swap ∨ (t d.path).isSome then
        .failed revision (cleanup t) (.other "swap staging \u2192 dest")
      else
        let t := FileTree.rename t staging d.path
        match io.applyMode with
        | some text => .failed revision t (.other text)
        | none => done t

/-- Downloaded and checked as a whole, extracted, and swapped in. -/
def fetchArchive (t : Tree) (d : Dest) (srv : Server)
    (io : Faults) : Outcome :=
  match probe src t d srv with
  | some result => ⟨result, t, src.revision, false⟩
  | none =>
    match openBody src srv with
    | .error e => .failed src.revision t e
    | .ok r =>
      if r.status = statusNotModified then
        ⟨.ok (.unchanged src.revision), t, src.revision, false⟩
      else
        let kind := detectArchiveKind r.contentType src.url
        if kind = .tarXz then
          .failed src.revision t (.invalidConfig "tar.xz archives are not supported in v1")
        else if kind = .unknown then
          .failed src.revision t (.invalidConfig
            ("unable to detect archive type for " ++ src.url ++ " (content-type=" ++
              quote r.contentType ++ ")"))
        else
          let tmp := d.sibling (".dl" ++ tmpSuffix io.stream.suffix)
          match streamToTmp t tmp r.body src.maxBytes io.stream with
          | (.error e, t) => .failed src.revision t e
          | (.ok data, t) =>
            -- the temporary file goes when the call returns
            let finish (o : Outcome) : Outcome :=
              { o with tree := removeTmp o.tree tmp io.removeTmp }
            let staging := d.sibling (".staging" ++ tmpSuffix io.stagingSuffix)
            if io.stagingRand then
              finish (.failed src.revision t (.other "generate staging-file suffix"))
            else
              match if io.stagingMkdir then none else mkdirAll t staging with
              | none => finish (.failed src.revision t (.other ("mkdir staging " ++ spell staging)))
              | some t =>
                match extract W.decoders io.unpack src.maxBytes kind data with
                | .error e =>
                  finish (.failed src.revision (erase t staging fun q => !io.stagingLeft q) e)
                | .ok u =>
                  let revision :=
                    if r.etag = [] then "sha256:" ++ hexEncode (W.sha256 data) else r.etag
                  finish (swapStaging src.revision (graft t staging u.tree) d staging io fun t =>
                    ⟨.ok ⟨true, data.length, u.files, revision⟩, t, revision, true⟩)

def fetch (t : Tree) (d : Dest) (srv : Server) (io : Faults) :
    Outcome :=
  if src.extract then fetchArchive W src t d srv io else fetchFile W src t d srv io

def fetchBytes (cfg : HTTPConfig) (srv : Server) : Except FetchError Bytes :=
  if cfg.extract || cfg.prune then
    .error (.invalidConfig ("extract/prune are not valid for FetchBytes " ++
      "(single in-memory payload)"))
  else
    match newHTTPSource W (if cfg.maxBytes ≤ 0 then
        { cfg with maxBytes := defaultBytesMaxBytes, maxBytes_lt := by decide } else cfg) with
    | .error e => .error e
    | .ok src =>
      match openBody src srv with
      | .error e => .error e
      | .ok r =>
        let data := limitReader (int64 (src.maxBytes + 1)) r.body
        if data.err then .error (.other ("read body from " ++ src.url))
        else if data.bytes.length > src.maxBytes then
          .error (.integrity
            ("payload exceeds " ++ (toString src.maxBytes).toList ++ " bytes"))
        else if src.checksum ≠ none ∧ src.checksum ≠ some (W.sha256 data.bytes) then
          .error (.integrity ("sha256 mismatch for " ++ src.url))
        else .ok data.bytes

end PowerManage.Remote
