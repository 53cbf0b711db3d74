import PowerManage.Remote.Confinement
import PowerManage.Remote.Integrity
import PowerManage.Lib.Hoare

/-!
# A fetch of an archive, call by call

`PowerManage.Remote.Http` says what a fetch of an archive comes to.  This file follows `fetchArchive`
through every call it makes, each of which may fail — a write after a part of the data — and through
the clean-ups behind every return.  The extractors are those of `PowerManage.Remote.Confinement`, so an
extraction that fails has put any number of entries in place, and the last of them in part.

A destination is a clean absolute path, through links or not, written with or without a slash at its
end: `validateDestination` takes both, and the names of the temporary file and of the staging directory
are made by adding to the text.  Without the slash they are beside the destination.  With it they are
inside, and `MkdirAll` of the directory they are to be in makes the destination.

What the server answers is left open, and so is which calls fail; the two kinds of clean-up always
succeed where the entry can be removed at all.
-/

namespace PowerManage.Remote.Staging

open PathName FileTree Text Interaction Prog
open Confinement (SysCall PathArg Host Ground ModeDecoders Extracted follow extractor chunks
  writeChunks)

/-! ## The names -/

/-- A destination that has passed the checks. -/
structure Target where
  dir : List Name
  name : Name
  slash : Bool
  plain : ∀ c ∈ dir ++ [name], Proper c ∧ '/' ∉ c

namespace Target

variable (d : Target)

def comps : List Name := d.dir ++ [d.name]

def path : PathArg := ⟨true, d.comps⟩

def text : Str := spell d.comps ++ if d.slash then ['/'] else []

/-- `filepath.Dir` of the text, and of every text that it begins. -/
def parent : List Name := if d.slash then d.comps else d.dir

def stem : Name := if d.slash then [] else d.name

def plus (suffix : Str) : PathArg := ⟨true, d.parent ++ [d.stem ++ suffix]⟩

end Target

/-- The random parts of the temporary names. -/
structure Suffixes where
  download : Str
  staging : Str
  plain : '/' ∉ download ∧ '/' ∉ staging

def Target.download (d : Target) (n : Suffixes) : PathArg :=
  d.plus (".dl" ++ tmpSuffix n.download)

def Target.staging (d : Target) (n : Suffixes) : PathArg :=
  d.plus (".staging" ++ tmpSuffix n.staging)

/-! ## The calls -/

/-- How an exclusive create has ended. -/
inductive Created
  | made
  | present
  | failed
deriving DecidableEq

/-- What a fetch asks, of the host and of the source. -/
inductive Ask
  | validate
  | revision
  | setRevision (revision : Str)
  | head
  | get
  /-- `crypto/rand`. -/
  | random
  | sys (q : SysCall)
  /-- `O_CREATE|O_WRONLY|O_TRUNC|O_EXCL`. -/
  | create (p : PathArg)
  | sync
  | close
  | openArchive
  | remove (p : PathArg)
  /-- `os.Remove` and `os.RemoveAll` whose error is dropped. -/
  | cleanUp (p : PathArg)
  | cleanUpAll (p : PathArg)
  | removeAll (p : PathArg)
  | rename (p p' : PathArg)
  | applyMode
  | recordDest

abbrev Reply : Ask → Type
  | .validate => Except DestError Unit
  | .revision => Str
  | .head => Except Str Nat
  | .get => Except Str Response
  | .sys q => Confinement.Reply q
  | .create _ => Created
  | .random | .sync | .close | .openArchive | .remove _ | .removeAll _ | .rename _ _ => Bool
  | .applyMode => Option Str
  | .setRevision _ | .cleanUp _ | .cleanUpAll _ | .recordDest => Unit

abbrev Program (α : Type) := Prog Ask Reply α

def mkdirAll (p : PathArg) : Program Bool := lift Ask.sys (Confinement.mkdirAll p 0o755)

/-- An error, and whether it came while directories were swapped. -/
structure Failure where
  error : FetchError
  swapping : Bool
deriving DecidableEq

def refuse {α : Type} (e : FetchError) : Program (Except Failure α) := .ret (.error ⟨e, false⟩)

/-! ## The download -/

def createTmp (tmp : PathArg) : Program Bool :=
  .ask (.create tmp) fun (r : Created) =>
    match r with
    | .made => .ret true
    | .failed => .ret false
    | .present =>
      .ask (.remove tmp) fun _ => .ask (.create tmp) fun (r : Created) => .ret (decide (r = .made))

def discard (tmp : PathArg) (e : FetchError) : Program (Except FetchError Bytes) :=
  .ask .close fun _ => .ask (.cleanUp tmp) fun _ => .ret (.error e)

/-- `streamToTmp`, after its file is open. -/
def copyBody (tmp : PathArg) (limited : Body) (maxBytes : Int) :
    Program (Except FetchError Bytes) :=
  (lift Ask.sys (writeChunks (chunks limited.bytes.length limited.bytes))).bind fun ok =>
    if ok = false ∨ limited.err = true then
      discard tmp (.other ("stream to " ++ tmp.text))
    else if limited.bytes.length > maxBytes then
      discard tmp (.integrity
        ("payload exceeds " ++ (toString maxBytes).toList ++ " bytes"))
    else
      .ask .sync fun (ok : Bool) =>
        if ok = false then discard tmp (.other ("fsync " ++ tmp.text))
        else
          .ask .close fun (ok : Bool) =>
            if ok = false then
              .ask (.cleanUp tmp) fun _ => .ret (.error (.other ("close " ++ tmp.text)))
            else .ret (.ok limited.bytes)

def streamToTmp (tmp : PathArg) (body : Body) (maxBytes : Int) :
    Program (Except FetchError Bytes) :=
  .ask .random fun (ok : Bool) =>
    if ok = false then .ret (.error (.other "generate staging-file suffix".toList))
    else
      (mkdirAll tmp.dir).bind fun ok =>
        if ok = false then .ret (.error (.other ("mkdir ".toList ++ tmp.dir.text)))
        else
          (createTmp tmp).bind fun ok =>
            if ok = false then .ret (.error (.other ("open tmp ".toList ++ tmp.text)))
            else copyBody tmp (limitReader (int64 (maxBytes + 1)) body) maxBytes

/-! ## The archive -/

/-- One fetch. -/
structure Job where
  sha256 : Bytes → Bytes
  decoders : ModeDecoders
  src : HTTPSource
  dest : Target
  names : Suffixes

namespace Job

variable (j : Job)

def swapFailed (e : FetchError) : Program (Except Failure Result) :=
  .ask (.cleanUpAll (j.dest.staging j.names)) fun _ => .ret (.error ⟨e, true⟩)

/-- The staging directory becomes the destination, which is recorded. -/
def putInPlace (r : Response) (data : Bytes) (files : Nat) : Program (Except Failure Result) :=
  let revision := if r.etag = [] then "sha256:" ++ hexEncode (j.sha256 data) else r.etag
  (mkdirAll ⟨true, j.dest.parent⟩).bind fun ok =>
    if ok = false then j.swapFailed (.other ("mkdir " ++ spell j.dest.parent))
    else
      .ask (.rename (j.dest.staging j.names) j.dest.path) fun (ok : Bool) =>
        if ok = false then j.swapFailed (.other "swap staging → dest")
        else
          .ask .applyMode fun (r : Option Str) =>
            match r with
            | some text => .ret (.error ⟨.other text, true⟩)
            | none =>
              .ask (.setRevision revision) fun _ => .ask .recordDest fun _ =>
                .ret (.ok ⟨true, data.length, files, revision⟩)

/-- The end of a fetch: the staging directory takes the place of the destination. -/
def swap (r : Response) (data : Bytes) (files : Nat) : Program (Except Failure Result) :=
  .ask (.sys (.stat j.dest.path)) fun (found : Option Bool) =>
    match found with
    | none => j.putInPlace r data files
    | some _ =>
      .ask (.removeAll j.dest.path) fun (ok : Bool) =>
        if ok = false then
          j.swapFailed (.other ("remove existing dest " ++ j.dest.text))
        else j.putInPlace r data files

/-- Into a staging directory of its own. -/
def unpack (kind : ArchiveKind) (r : Response) (data : Bytes) : Program (Except Failure Result) :=
  let staging := j.dest.staging j.names
  .ask .random fun (ok : Bool) =>
    if ok = false then refuse (.other "generate staging-file suffix")
    else
      (mkdirAll staging).bind fun ok =>
        if ok = false then refuse (.other ("mkdir staging " ++ staging.text))
        else
          .ask .openArchive fun (ok : Bool) =>
            if ok = false then
              .ask (.cleanUpAll staging) fun _ => refuse (.other "open archive")
            else
              (lift Ask.sys (extractor j.decoders ⟨[], staging.text⟩ j.src.maxBytes data kind)).bind
                fun (result : Extracted) =>
                  match result.2 with
                  | some e => .ask (.cleanUpAll staging) fun _ => refuse e
                  | none => j.swap r data result.1

def get (cached : Str) : Program (Except Failure Result) :=
  .ask .get fun (answer : Except Str Response) =>
    match openBody j.src ⟨.ok 200, answer⟩ with
    | .error e => refuse e
    | .ok r =>
      if r.status = statusNotModified then .ret (.ok (.unchanged cached))
      else
        let kind := detectArchiveKind r.contentType j.src.url
        if kind = .tarXz then
          refuse (.invalidConfig "tar.xz archives are not supported in v1")
        else if kind = .unknown then
          refuse (.invalidConfig
            ("unable to detect archive type for " ++ j.src.url ++
              " (content-type=" ++ quote r.contentType ++ ")"))
        else
          let tmp := j.dest.download j.names
          (streamToTmp tmp r.body j.src.maxBytes).bind fun streamed =>
            match streamed with
            | .error e => refuse e
            | .ok data =>
              (j.unpack kind r data).bind fun result =>
                -- deferred, so after every return from here on
                .ask (.cleanUp tmp) fun _ => .ret result

def fetchArchive : Program (Except Failure Result) :=
  .ask .validate fun (valid : Except DestError Unit) =>
    match valid with
    | .error e => refuse (.unsafeDestination e.text)
    | .ok _ =>
      .ask .revision fun (cached : Str) =>
        if cached = [] then j.get cached
        else
          .ask .head fun (answer : Except Str Nat) =>
            match checkNotModified j.src ⟨answer, .error []⟩ with
            | .error e => refuse e
            | .ok true => .ret (.ok (.unchanged cached))
            | .ok false => j.get cached

end Job

/-! ## The machine -/

/-- The tree and the open file. -/
structure Disk where
  tree : Tree
  current : Option Path

def Disk.host (k : Disk) : Host := ⟨k.tree, k.current, []⟩

def Disk.of (h : Host) : Disk := ⟨h.tree, h.current⟩

/-- The disk and what the source remembers. -/
structure Machine where
  disk : Disk
  revision : Str
  recorded : Bool

def Machine.withTree (m : Machine) (t : Tree) : Machine :=
  { m with disk := { m.disk with tree := t } }

/-- A call of the extractors: it is answered, or it fails; a write that fails may have written a
part. -/
def SysStep (k : Disk) (q : SysCall) (x : Confinement.Reply q) (u : Disk) : Prop :=
  (∃ h, k.host.answer [] q = some (x, h) ∧ u = .of h) ∨
    (x = Confinement.failed () q ∧
      (u = k ∨ ∃ data part, q = .write data ∧ part <+: data ∧ u = .of (k.host.write part).2))

/-- Where the entry is that a path names, whether it is there or not; links are followed on the way
only. -/
def place (t : Tree) (p : PathArg) : Option Path :=
  match p.comps.getLast?, follow [] t p.dir with
  | some c, .found q => if t q = some (.dir true) then some (q ++ [c]) else none
  | _, _ => none

/-- A file, a link or an empty directory. -/
def Removable (t : Tree) (q : Path) : Prop :=
  t q ≠ none ∧ ∀ w, t q = some (.dir w) → ∀ c, t (q ++ [c]) = none

/-- What the host may answer, and what it leaves. -/
def Step (d : Target) (m : Machine) : (q : Ask) → Reply q → Machine → Prop
  | .validate, x, u => x = validateDestination m.disk.tree d.text ∧ u = m
  | .revision, x, u => x = m.revision ∧ u = m
  | .setRevision revision, _, u => u = { m with revision := revision }
  | .head, _, u | .get, _, u | .random, _, u | .sync, _, u | .openArchive, _, u
  | .applyMode, _, u => u = m
  | .close, _, u => u = { m with disk := { m.disk with current := none } }
  | .sys q, x, u => SysStep m.disk q x u.disk ∧ u = { m with disk := u.disk }
  | .create p, x, u =>
    (x = .failed ∧ u = m) ∨
      ∃ q, place m.disk.tree p = some q ∧
        ((m.disk.tree q ≠ none ∧ x = .present ∧ u = m) ∨
          (m.disk.tree q = none ∧ x = .made ∧
            u = { m with disk := ⟨put m.disk.tree q (.file []), some q⟩ }))
  | .remove p, x, u =>
    (x = false ∧ u = m) ∨
      ∃ q, place m.disk.tree p = some q ∧ Removable m.disk.tree q ∧ x = true ∧
        u = m.withTree (erase m.disk.tree q fun _ => true)
  | .cleanUp p, _, u =>
    (∃ q, place m.disk.tree p = some q ∧ Removable m.disk.tree q ∧
        u = m.withTree (erase m.disk.tree q fun _ => true)) ∨
      ((∀ q, place m.disk.tree p = some q → ¬Removable m.disk.tree q) ∧ u = m)
  | .cleanUpAll p, _, u =>
    (∃ q, place m.disk.tree p = some q ∧
        u = m.withTree (erase m.disk.tree q fun _ => true)) ∨
      (place m.disk.tree p = none ∧ u = m)
  | .removeAll p, x, u =>
    ∃ gone, (x = true → ∀ q, gone q = true) ∧
      ((∃ q, place m.disk.tree p = some q ∧ u = m.withTree (erase m.disk.tree q gone)) ∨
        (place m.disk.tree p = none ∧ u = m))
  | .rename p p', x, u =>
    (x = false ∧ u = m) ∨
      ∃ q q', place m.disk.tree p = some q ∧ place m.disk.tree p' = some q' ∧
        m.disk.tree q ≠ none ∧ m.disk.tree q' = none ∧ x = true ∧
        u = m.withTree (FileTree.rename m.disk.tree q q')
  | .recordDest, _, u => u = { m with recorded := true }

end PowerManage.Remote.Staging
