import PowerManage.Remote.Paths
import PowerManage.Lib.TreeEdit
import PowerManage.Lib.Text

/-!
# Archives

`detectArchiveKind` picks the format from the content type and the URL; `extractTarGz` and
`extractZip` unpack the decoded entries into a staging directory, one by one, with a check of the
name, of the declared size and of the running total for each.

Gzip, tar and zip decoding is the standard library's: a `Decoders` value says what entries it finds
in a body.  The running total is an `int64`, so sums wrap (`int64`).  A file operation on the
staging directory fails when the tree does not allow it, or when `io` says so for that entry.
-/

namespace PowerManage.Remote

open PathName FileTree Text

abbrev Bytes := List UInt8

/-- The value an `int64` holds after an operation with result `x`. -/
def int64 (x : Int) : Int := x.bmod (2 ^ 64)

/-- The sentinel, and the text that the code puts after it; what the system says is left out. -/
inductive FetchError
  | invalidConfig (text : Str)
  | unsafeDestination (text : Str)
  | integrity (text : Str)
  | other (text : Str)
deriving DecidableEq

def FetchError.wrap (text : Str) : FetchError → FetchError
  | .invalidConfig e => .invalidConfig (text ++ e)
  | .unsafeDestination e => .unsafeDestination (text ++ e)
  | .integrity e => .integrity (text ++ e)
  | .other e => .other (text ++ e)

/-- The bytes of a response, and whether it broke off. -/
structure Body where
  bytes : Bytes
  err : Bool
deriving DecidableEq

/-- What a reader limited to `n` bytes gives. A limit that is not positive is an end of file. -/
def limitReader (n : Int) (b : Body) : Body :=
  if n ≤ 0 then ⟨[], false⟩
  else if b.bytes.length < n then b
  else ⟨b.bytes.take n.toNat, false⟩

/-! ## The kind of an archive -/

/-- What an archive is taken for. -/
inductive ArchiveKind
  | unknown
  | tarGz
  | zip
  | tarXz
deriving DecidableEq

/-- By the type of the content, then by the end of the URL. -/
def detectArchiveKind (contentType rawURL : Str) : ArchiveKind :=
  let ct := (trimSpace contentType).map toLower
  let is (names : List String) : Bool := names.any fun n => ct = n.toList
  if is ["application/gzip", "application/x-gzip", "application/x-tar+gzip",
      "application/x-tgz"] then .tarGz
  else if is ["application/zip", "application/x-zip", "application/x-zip-compressed"] then .zip
  else if is ["application/x-xz", "application/x-tar+xz"] then .tarXz
  else
    let lowerURL := (rawURL.map toLower).takeWhile fun c => c ≠ '?' && c ≠ '#'
    if hasSuffix lowerURL ".tar.gz" || hasSuffix lowerURL ".tgz" then .tarGz
    else if hasSuffix lowerURL ".zip" then .zip
    else if hasSuffix lowerURL ".tar.xz" || hasSuffix lowerURL ".txz" then .tarXz
    else .unknown

/-! ## Entries -/

/-- The types that are told apart. -/
inductive EntryType
  | reg
  | dir
  | other
deriving DecidableEq

structure TarEntry where
  name : Str
  type : EntryType
  size : Int
  data : Body
deriving DecidableEq

/-- A zip file header and the data behind it; `data` is `none` when the entry cannot be opened. -/
structure ZipEntry where
  name : Str
  isDir : Bool
  uncompressedSize64 : Nat
  data : Option Body
deriving DecidableEq

/-- The standard library's decoders: the entries found, and an error met after them. -/
structure Decoders where
  tarGz : Bytes → Except Str (List TarEntry × Option Str)
  zip : Bytes → Except Str (List ZipEntry)

/-- Walking the components from `depth` directories down never leads above the start. -/
def staysBelow : Nat → List Name → Bool
  | _, [] => true
  | depth, c :: cs =>
    if c = [] ∨ c = dot then staysBelow depth cs
    else if c = dotDot then
      match depth with
      | 0 => false
      | depth + 1 => staysBelow depth cs
    else staysBelow (depth + 1) cs

/-- `filepath.IsLocal`: a relative path that does not lead out, dots resolved. -/
def isLocal (s : Str) : Bool := s ≠ [] && !isAbs s && staysBelow 0 (components s)

/-- `safeJoinDest`; `filepath.Localize` takes only names whose components are all proper. -/
def safeJoinDest (entry : Str) : Except FetchError Path :=
  if entry = [] ∨ entry = ['.'] then .error (.unsafeDestination "empty or '.' entry name")
  else if '\x00' ∈ entry then
    .error (.unsafeDestination ("entry " ++ quote entry ++ " contains NUL"))
  else
    let trimmed := entry.rdropWhile fun c => c = '/' || c = '\\'
    if trimmed = [] ∨ trimmed = ['.'] then
      .error (.unsafeDestination ("entry " ++ quote entry ++ " normalises to empty"))
    else if !isLocal trimmed then
      .error (.unsafeDestination ("entry " ++ quote entry ++ " is not a local path"))
    else if ∀ c ∈ components trimmed, Proper c then .ok (components trimmed)
    else .error (.unsafeDestination ("entry " ++ quote entry ++ ": invalid path"))

/-- The tree with a file at `p`, the directories above it made first; a directory at `p` cannot be
written. -/
def writeFile (t : Tree) (p : Path) (data : Bytes) : Except FetchError Tree :=
  match mkdirAll t p.dropLast with
  | none => .error (.other ("mkdir " ++ spell p.dropLast))
  | some t =>
    match t p with
    | some (.dir _) => .error (.other ("open " ++ spell p))
    | _ => .ok (put t p (.file data))

def makeDir (t : Tree) (p : Path) : Except FetchError Tree :=
  match mkdirAll t p with
  | none => .error (.other ("mkdir " ++ spell p))
  | some t => .ok t

/-- What is unpacked so far: the staging tree, the bytes and the regular files. -/
structure Unpacked where
  tree : Tree
  totalBytes : Int
  files : Nat

def Unpacked.start : Unpacked := ⟨fun q => if q = [] then some (.dir true) else none, 0, 0⟩

def exceedsText (maxBytes : Int) : Str :=
  "cumulative size exceeds " ++ (toString maxBytes).toList ++ " bytes"

/-- The data of an entry goes to `out`, and the total is looked at again. -/
def unpackFile (maxBytes : Int) (u : Unpacked) (out : Path) (data : Body) :
    Except FetchError Unpacked :=
  match writeFile u.tree out data.bytes with
  | .error e => .error e
  | .ok t =>
    if data.err then .error (.other ("copy " ++ spell out))
    else
      let total := int64 (u.totalBytes + data.bytes.length)
      if total > maxBytes then .error (.integrity (exceedsText maxBytes))
      else .ok ⟨t, total, u.files + 1⟩

/-- One turn of the loop of `extractTarGz`. -/
def unpackTar (maxBytes : Int) (u : Unpacked) (e : TarEntry) : Except FetchError Unpacked :=
  match e.type with
  | .other =>
    .error (.unsafeDestination
      ("tar entry " ++ quote e.name ++ " has disallowed type"))
  | .dir =>
    match safeJoinDest e.name with
    | .error err => .error err
    | .ok out =>
      match makeDir u.tree out with
      | .error err => .error err
      | .ok t => .ok { u with tree := t }
  | .reg =>
    match safeJoinDest e.name with
    | .error err => .error err
    | .ok out =>
      if e.size < 0 then
        .error (.integrity ("negative size in entry " ++ quote e.name))
      else if int64 (u.totalBytes + e.size) > maxBytes then
        .error (.integrity (exceedsText maxBytes))
      else unpackFile maxBytes u out e.data

/-- One turn of the loop of `extractZipFile`. -/
def unpackZip (maxBytes : Int) (u : Unpacked) (e : ZipEntry) : Except FetchError Unpacked :=
  match safeJoinDest e.name with
  | .error err => .error err
  | .ok out =>
    if hasSuffix e.name ['/'] || e.isDir then
      match makeDir u.tree out with
      | .error err => .error err
      | .ok t => .ok { u with tree := t }
    else
      let declared := int64 e.uncompressedSize64
      if declared < 0 then .error (.integrity "negative uncompressed size")
      else if int64 (u.totalBytes + declared) > maxBytes then
        .error (.integrity (exceedsText maxBytes))
      else
        match e.data with
        | none => .error (.other ("open zip entry " ++ quote e.name))
        | some data =>
          unpackFile maxBytes u out (limitReader (int64 (maxBytes - u.totalBytes + 1)) data)

/-- A loop over entries that stops at the first error; `io i` is a fault of the file system at
entry `i`. -/
def unpackAll {α : Type} (one : Unpacked → α → Except FetchError Unpacked)
    (io : Nat → Option Str) : Nat → Unpacked → List α → Except FetchError Unpacked
  | _, u, [] => .ok u
  | i, u, e :: es =>
    match io i with
    | some text => .error (.other text)
    | none =>
      match one u e with
      | .error err => .error err
      | .ok u => unpackAll one io (i + 1) u es

def extractTarGz (D : Decoders) (io : Nat → Option Str) (maxBytes : Int) (body : Bytes) :
    Except FetchError Unpacked :=
  match D.tarGz body with
  | .error text => .error (.other ("gzip header: " ++ text))
  | .ok (entries, err) =>
    match unpackAll (unpackTar maxBytes) io 0 .start entries with
    | .error e => .error e
    | .ok u =>
      match err with
      | some text => .error (.other ("tar next: " ++ text))
      | none => .ok u

def extractZip (D : Decoders) (io : Nat → Option Str) (maxBytes : Int) (body : Bytes) :
    Except FetchError Unpacked :=
  match D.zip body with
  | .error text => .error (.other ("open zip: " ++ text))
  | .ok entries => unpackAll (unpackZip maxBytes) io 0 .start entries

/-- Whatever is no zip is read as a compressed tar archive. -/
def extract (D : Decoders) (io : Nat → Option Str) (maxBytes : Int) (kind : ArchiveKind)
    (body : Bytes) : Except FetchError Unpacked :=
  match kind with
  | .zip => extractZip D io maxBytes body
  | _ => extractTarGz D io maxBytes body

end PowerManage.Remote
