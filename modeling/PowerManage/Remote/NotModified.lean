import PowerManage.Remote.History

/-!
# A GET that is answered with 304

A source with a cached revision asks by HEAD first, and then sends that revision along with the GET.
The origin may answer the GET with 304 although the HEAD said otherwise: the object was changed back
in between, or the HEAD was not answered properly.

`openBody` and `openObject` make an empty body of that.  Only `fetchArchive` looks at the status once
more; for a file and an object the empty body is streamed and put in place like any other
(`emptied`), with a revision taken from the 304.
-/

namespace PowerManage.Remote

open PathName FileTree Text
open History (serverOnly testFile)

def Source.Single : Source → Prop
  | .http _ => True
  | .s3 src => hasSuffix src.cfg.key ['/'] = false
  | .git _ => False

def Source.Extracts : Source → Prop
  | .http src => src.extract = true
  | _ => False

/-- The fetch gets as far as the GET, whatever the HEAD was answered, and the GET is answered with
304. -/
def Source.GetNotModified (source : Source) (revision : Str) (t : Tree) (d : Dest)
    (e : Env) : Prop :=
  match source with
  | .http src =>
    probe { src with revision := revision } t d e.server = none ∧
      ∃ r, e.server.get = .ok r ∧ r.status = statusNotModified
  | .s3 src =>
    validateDestination t (d.text) = .ok () ∧
      headNotModified { src with revision := revision } e.bucket = .ok false ∧
      ∃ r, e.bucket.get = .ok r ∧ r.status = statusNotModified
  | .git _ => False

/-- The destination and the revision are as before, and the caller is told that nothing changed. -/
structure Kept304 (revision : Str) (t : Tree) (d : Dest) (o : Outcome) : Prop where
  below_eq : below o.tree d.path = below t d.path
  revision_eq : o.revision = revision
  unchanged : ∃ res, o.result = .ok res ∧ res.changed = false ∧ res.revision = revision

variable {r : Response}

section

variable {source : Source} {revision : Str} {t : Tree} {d : Dest} {e : Env}

theorem openBody_not_modified {src : HTTPSource} {srv : Server} (hget : srv.get = .ok r)
    (hstatus : r.status = statusNotModified) :
    openBody src srv = .ok { r with body := ⟨[], false⟩ } := by
  rw [openBody, hget]
  exact if_pos hstatus

theorem openObject_not_modified {src : S3Source} {b : Bucket} (hget : b.get = .ok r)
    (hstatus : r.status = statusNotModified) :
    openObject src b = .ok { r with body := ⟨[], false⟩ } := by
  rw [openObject, hget]
  exact if_pos hstatus

theorem fetch_of_getNotModified (W : World) (recordedDests : Finset Path)
    (hsingle : source.Single) (hrevision : revision ≠ [])
    (h : source.GetNotModified revision t d e) (hfile : ¬source.Extracts) :
    ∃ checksum maxBytes r, r.body = ⟨[], false⟩ ∧
      source.fetch W revision t recordedDests d e =
        installFile W revision checksum maxBytes t d r e.io := by
  cases source with
  | http src =>
    obtain ⟨hprobe, r, hget, hstatus⟩ := h
    refine ⟨src.checksum, src.maxBytes, { r with body := ⟨[], false⟩ }, rfl, ?_⟩
    have hsingleFile : ¬src.extract = true := hfile
    rw [Source.fetch, Remote.fetch, if_neg hsingleFile, fetchFile, hprobe]
    rw [openBody_not_modified hget hstatus]
  | s3 src =>
    obtain ⟨hdest, hhead, r, hget, hstatus⟩ := h
    refine ⟨none, defaultHTTPMaxBytes, { r with body := ⟨[], false⟩ }, rfl, ?_⟩
    have hkey : ¬hasSuffix src.cfg.key ['/'] = true := Bool.eq_false_iff.mp hsingle
    rw [Source.fetch, fetchS3, if_neg hkey, fetchObject, hdest]
    rw [if_neg hrevision, hhead, openObject_not_modified hget hstatus]
  | git src => exact absurd hsingle id

theorem not_kept304_installFile {W : World} {checksum : Option Bytes} {maxBytes : Int}
    {io : Faults} : ¬Kept304 revision t d (installFile W revision checksum maxBytes t d r io) := by
  intro h
  obtain ⟨res, hres, hchanged, -⟩ := h.unchanged
  obtain ⟨data, -, -, -, hinstalled⟩ := installFile_ok rfl hres
  rw [hchanged] at hinstalled
  cases hinstalled

theorem capped_nil {maxBytes : Int} {data : Bytes}
    (h : capped maxBytes ⟨[], false⟩ = some data) : data = [] := by
  have hlimit : limitReader (int64 (maxBytes + 1)) ⟨[], false⟩ = ⟨[], false⟩ := by
    unfold limitReader
    split
    · rfl
    · split
      · rfl
      · rw [List.take_nil]
  rw [capped, hlimit] at h
  split at h
  · cases h
  · exact (Option.some.inj h).symm

/-- **A file or an object that is fetched without an error after a 304 is empty**, and the caller is
told that it changed. -/
theorem emptied {W : World} {recordedDests : Finset Path} {res : Result} (hsingle : source.Single)
    (hrevision : revision ≠ [])
    (h : source.GetNotModified revision t d e) (hfile : ¬source.Extracts)
    (hok : (source.fetch W revision t recordedDests d e).result = .ok res) :
    (source.fetch W revision t recordedDests d e).tree d.path = some (.file []) ∧
      res.changed = true := by
  obtain ⟨checksum, maxBytes, r, hbody, heq⟩ :=
    fetch_of_getNotModified W recordedDests hsingle hrevision h hfile
  obtain ⟨data, hcapped, htree, -, hchanged⟩ := installFile_ok heq.symm hok
  rw [hbody] at hcapped
  cases capped_nil hcapped
  exact ⟨htree, hchanged⟩

theorem kept304_of_extracts (W : World) (recordedDests : Finset Path)
    (h : source.GetNotModified revision t d e) (hextract : source.Extracts) :
    Kept304 revision t d (source.fetch W revision t recordedDests d e) := by
  cases source with
  | http src =>
    obtain ⟨hprobe, r, hget, hstatus⟩ := h
    have hunpack : src.extract = true := hextract
    have heq : (Source.http src).fetch W revision t recordedDests d e =
        ⟨.ok (.unchanged revision), t, revision, false⟩ := by
      rw [Source.fetch, Remote.fetch, if_pos hunpack, fetchArchive, hprobe]
      rw [openBody_not_modified hget hstatus]
      dsimp only
      rw [if_pos hstatus]
    rw [heq]
    exact ⟨rfl, rfl, _, rfl, rfl, rfl⟩
  | s3 src => exact absurd hextract id
  | git src => exact absurd hextract id

end

/-- **After a 304 to the GET, the destination and the revision are as before and the caller is told
so, if and only if the source unpacks what it fetches.** -/
theorem kept_iff_extract (W : World) (source : Source) (revision : Str) (t : Tree)
    (recordedDests : Finset Path) (d : Dest) (e : Env) (hsingle : source.Single)
    (hrevision : revision ≠ []) (h : source.GetNotModified revision t d e) :
    Kept304 revision t d (source.fetch W revision t recordedDests d e) ↔ source.Extracts := by
  refine ⟨fun hkept => ?_, kept304_of_extracts W recordedDests h⟩
  by_contra hfile
  obtain ⟨checksum, maxBytes, r, -, heq⟩ :=
    fetch_of_getNotModified W recordedDests hsingle hrevision h hfile
  rw [heq] at hkept
  exact not_kept304_installFile hkept

def changedBack : Env := serverOnly ⟨.ok 200, .ok ⟨304, "v1", [], ⟨[], false⟩⟩⟩

def fetchedTree : Tree :=
  treeOf [("/", .dir true), ("/srv", .dir true), ("/srv/x", .file [7])]

theorem changedBack_getNotModified (src : HTTPSource) :
    (Source.http src).GetNotModified "v1" fetchedTree srvDest changedBack := by
  refine ⟨?_, _, rfl, rfl⟩
  rfl

/-- The file of an earlier fetch is replaced by an empty one. -/
theorem emptied_file :
    testFile.Single ∧ testFile.GetNotModified "v1" fetchedTree srvDest changedBack ∧
      fetchedTree srvDest.path = some (.file [7]) ∧
      (testFile.fetch testWorld "v1" fetchedTree ∅ srvDest changedBack).tree srvDest.path =
        some (.file []) ∧
      (testFile.fetch testWorld "v1" fetchedTree ∅ srvDest changedBack).result =
        .ok ⟨true, 0, 1, "v1"⟩ ∧
      ¬Kept304 "v1" fetchedTree srvDest
        (testFile.fetch testWorld "v1" fetchedTree ∅ srvDest changedBack) := by
  refine ⟨trivial, changedBack_getNotModified _, by decide +kernel, by decide +kernel,
    by decide +kernel, fun h => ?_⟩
  exact absurd (congrFun h.below_eq []) (by decide +kernel)

/-- A `304` that was not asked for empties the file, and is reported as a change. -/
theorem emptied_reported :
    ∃ o, o = testFile.fetch testWorld "v1" fetchedTree ∅ srvDest changedBack ∧
      ∃ res, o.result = .ok res ∧ o.tree srvDest.path = some (.file []) ∧ res.changed = true :=
  ⟨_, rfl, _, rfl, emptied trivial (by decide) (changedBack_getNotModified _) Bool.false_ne_true rfl⟩

/-- An archive is left alone. -/
theorem kept_archive :
    (Source.http (testSource true)).GetNotModified "v1" fetchedTree srvDest changedBack ∧
      Kept304 "v1" fetchedTree srvDest
        ((Source.http (testSource true)).fetch testWorld "v1" fetchedTree ∅ srvDest
          changedBack) := by
  refine ⟨changedBack_getNotModified _, ?_⟩
  exact (kept_iff_extract testWorld (.http (testSource true)) "v1" fetchedTree ∅ srvDest
    changedBack trivial (by decide) (changedBack_getNotModified _)).mpr rfl

end PowerManage.Remote
