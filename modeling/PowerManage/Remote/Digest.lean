import PowerManage.Lib.Code
import PowerManage.Lib.FileMode
import PowerManage.Remote.S3

/-!
# Drift tokens

Two hashes say whether something has changed: `hashListing`, of what a bucket lists under a prefix,
and `sha256Tree`, of the regular files of a tree.  Both sort what they have and write it into the
hash record by record; a record of a listing ends its fields with a NUL, a record of a tree has a
length in front of what varies.

`drift_tokens_differ` is about what is written, before it is hashed: nothing that a token should
notice is lost on the way, and the order of delivery does not matter.  File names are bytes here, as
they are to the kernel and to `strings.Compare`.
-/

namespace PowerManage.Remote.Digest

open FileMode Code List

/-! ## Trees -/

def slash : UInt8 := 0x2f

def dotName : Bytes := [0x2e]

def dotDotName : Bytes := [0x2e, 0x2e]

/-- A name that a directory can have. -/
structure EntryName where
  bytes : Bytes
  nonempty : bytes ≠ []
  noSlash : slash ∉ bytes
  notDot : bytes ≠ dotName
  notDotDot : bytes ≠ dotDotName
deriving DecidableEq

/-- The contents of a file, of a size that `os.FileInfo` can report. -/
structure Contents where
  bytes : Bytes
  length_lt : bytes.length < 2 ^ 63
deriving DecidableEq

mutual

/-- A finite tree: regular files, directories, and what is neither (`other`). -/
inductive FsNode
  | file (mode : Mode) (body : Contents)
  | dir (entries : Entries)
  | other

/-- The entries of a directory. -/
inductive Entries
  | nil
  | cons (name : EntryName) (node : FsNode) (rest : Entries)

end

def Entries.names : Entries → List EntryName
  | .nil => []
  | .cons name _ rest => name :: rest.names

def Entries.find (name : EntryName) : Entries → Option FsNode
  | .nil => none
  | .cons n node rest => if n = name then some node else rest.find name

def FsNode.get : List EntryName → FsNode → Option FsNode
  | [], t => some t
  | name :: path, .dir entries => (entries.find name).bind (FsNode.get path)
  | _ :: _, _ => none

mutual

def FsNode.Distinct : FsNode → Prop
  | .file .. => True
  | .dir entries => entries.names.Nodup ∧ entries.AllDistinct
  | .other => True

def Entries.AllDistinct : Entries → Prop
  | .nil => True
  | .cons _ node rest => node.Distinct ∧ rest.AllDistinct

end

/-- A tree without two entries of one name. -/
structure DirTree where
  node : FsNode
  distinct : node.Distinct

/-! ## `sha256Tree` -/

/-- The path of an entry relative to the root, with slashes: `.` for the root itself. -/
def relText (path : List EntryName) : Bytes :=
  if path = [] then dotName else [slash].intercalate (path.map EntryName.bytes)

/-- An entry of `files`: its path, its permission bits and what is read from it. -/
structure FileEntry where
  full : List EntryName
  mode : Mode
  body : Contents
deriving DecidableEq

def FileEntry.rel (e : FileEntry) : Bytes := relText e.full

/-- Which calls of a walk fail, and how. -/
structure DigestFaults where
  lstatRoot : Option Bytes
  readDir : List EntryName → Option Bytes
  info : List EntryName → Option Bytes
  opened : List EntryName → Option Bytes
  read : List EntryName → Option Bytes

/-- Where a digest has failed. -/
inductive DigestError
  | walk (path : List EntryName) (text : Bytes)
  | stat (path : List EntryName) (text : Bytes)
  | opened (path : List EntryName) (text : Bytes)
  | read (path : List EntryName) (text : Bytes)
deriving DecidableEq

def fullText (root : Bytes) (path : List EntryName) : Bytes :=
  if path = [] then root else root ++ slash :: relText path

def DigestError.text (root : Bytes) : DigestError → Bytes
  | .walk path e => say "walk " path e
  | .stat path e => say "stat " path e
  | .opened path e => say "open " path e
  | .read path e => say "read " path e
where
  say (what : String) (path : List EntryName) (e : Bytes) : Bytes :=
    what.toList.flatMap String.utf8EncodeChar ++ fullText root path ++
      ": ".toList.flatMap String.utf8EncodeChar ++ e

mutual

/-- `filepath.WalkDir` with the callback that collects the regular files. -/
def walkDir (io : DigestFaults) (path : List EntryName) :
    FsNode → Except DigestError (List FileEntry)
  | .file mode body =>
    match io.info path with
    | some e => .error (.stat path e)
    | none => .ok [⟨path, perm mode, body⟩]
  | .dir entries =>
    match io.readDir path with
    | some e => .error (.walk path e)
    | none => walkEntries io path entries
  | .other => .ok []

/-- The regular files, in the order of the walk. -/
def walkEntries (io : DigestFaults) (path : List EntryName) :
    Entries → Except DigestError (List FileEntry)
  | .nil => .ok []
  | .cons name node rest =>
    match walkDir io (path ++ [name]) node with
    | .error e => .error e
    | .ok files =>
      match walkEntries io path rest with
      | .error e => .error e
      | .ok more => .ok (files ++ more)

end

def sortFiles (files : List FileEntry) : List FileEntry :=
  files.insertionSort fun a b => a.rel.map UInt8.toNat ≤ b.rel.map UInt8.toNat

def header (e : FileEntry) : Bytes :=
  bigEndian 4 e.rel.length ++ e.rel ++
    (bigEndian 4 e.mode.toNat ++ bigEndian 8 e.body.bytes.length)

/-- What is fed to the hash. -/
def writeFiles (io : DigestFaults) : List FileEntry → Except DigestError Bytes
  | [] => .ok []
  | e :: files =>
    if 0 < e.body.bytes.length then
      match io.opened e.full with
      | some text => .error (.opened e.full text)
      | none =>
        match io.read e.full with
        | some text => .error (.read e.full text)
        | none => (writeFiles io files).map fun more => header e ++ e.body.bytes ++ more
    else (writeFiles io files).map fun more => header e ++ more

/-- What `sha256Tree` writes into the hash. -/
def treeBytes (io : DigestFaults) (t : DirTree) : Except DigestError Bytes :=
  match io.lstatRoot with
  | some e => .error (.walk [] e)
  | none =>
    match walkDir io [] t.node with
    | .error e => .error e
    | .ok files => writeFiles io (sortFiles files)

/-! ## The regular files of a tree -/

/-- The regular files of a tree, with their relative paths and permission bits. -/
def DirTree.regularFiles (t : DirTree) : Set (Bytes × Mode × Contents) :=
  { x | ∃ path mode body, t.node.get path = some (.file mode body) ∧
    x = (relText path, perm mode, body) }

/-- The lengths of all paths fit into four bytes. -/
def DirTree.ShortPaths (t : DirTree) : Prop := ∀ x ∈ t.regularFiles, x.1.length < 2 ^ 32

mutual

def FsNode.files (path : List EntryName) : FsNode → List FileEntry
  | .file mode body => [⟨path, perm mode, body⟩]
  | .dir entries => entries.files path
  | .other => []

def Entries.files (path : List EntryName) : Entries → List FileEntry
  | .nil => []
  | .cons name node rest => node.files (path ++ [name]) ++ rest.files path

end

mutual

theorem walkDir_ok {io : DigestFaults} {path : List EntryName} :
    ∀ {t : FsNode} {files : List FileEntry}, walkDir io path t = .ok files → files = t.files path
  | .file mode body, files, h => by
    unfold walkDir at h
    split at h
    · cases h
    · cases h
      rfl
  | .dir entries, files, h => by
    unfold walkDir at h
    split at h
    · cases h
    · exact walkEntries_ok h
  | .other, files, h => by
    cases h
    rfl

theorem walkEntries_ok {io : DigestFaults} {path : List EntryName} :
    ∀ {es : Entries} {files : List FileEntry},
      walkEntries io path es = .ok files → files = es.files path
  | .nil, files, h => by
    cases h
    rfl
  | .cons name node rest, files, h => by
    unfold walkEntries at h
    split at h
    · cases h
    rename_i here hhere
    split at h
    · cases h
    rename_i more hmore
    cases h
    rw [walkDir_ok hhere, walkEntries_ok hmore]
    rfl

end

theorem names_of_find {es : Entries} {name : EntryName} {t : FsNode}
    (h : es.find name = some t) : name ∈ es.names := by
  match es with
  | .nil => cases h
  | .cons n node rest =>
    rw [Entries.find] at h
    split at h
    · rename_i heq
      exact heq ▸ mem_cons_self
    · exact mem_cons_of_mem _ (names_of_find h)

theorem get_of_find {es : Entries} {name : EntryName} {path : List EntryName} {t : FsNode}
    (h : es.find name = some t) : (FsNode.dir es).get (name :: path) = t.get path := by
  rw [FsNode.get, h]
  rfl

mutual

theorem mem_files_iff {path : List EntryName} {e : FileEntry} :
    ∀ {t : FsNode}, t.Distinct → (e ∈ t.files path ↔
      ∃ sub mode body, t.get sub = some (.file mode body) ∧ e = ⟨path ++ sub, perm mode, body⟩)
  | .file mode body, _ => by
    constructor
    · intro h
      refine ⟨[], mode, body, rfl, ?_⟩
      rw [List.append_nil]
      exact List.mem_singleton.mp h
    · rintro ⟨sub, mode', body', hget, rfl⟩
      cases sub with
      | nil =>
        cases hget
        rw [List.append_nil]
        exact List.mem_singleton.mpr rfl
      | cons n sub => cases hget
  | .dir entries, hd => by
    rw [FsNode.files, mem_entries_files_iff hd.1 hd.2]
    constructor
    · rintro ⟨name, sub, mode, body, t, hfind, hget, rfl⟩
      exact ⟨name :: sub, mode, body, (get_of_find hfind).trans hget, rfl⟩
    · rintro ⟨sub, mode, body, hget, rfl⟩
      cases sub with
      | nil => cases hget
      | cons name sub =>
        obtain ⟨t, hfind, hget⟩ := Option.bind_eq_some_iff.mp hget
        exact ⟨name, sub, mode, body, t, hfind, hget, rfl⟩
  | .other, _ => by
    constructor
    · intro h
      cases h
    · rintro ⟨sub, mode, body, hget, -⟩
      cases sub <;> cases hget

theorem mem_entries_files_iff {path : List EntryName} {e : FileEntry} :
    ∀ {es : Entries}, es.names.Nodup → es.AllDistinct → (e ∈ es.files path ↔
      ∃ name sub mode body t, es.find name = some t ∧ t.get sub = some (.file mode body) ∧
        e = ⟨path ++ name :: sub, perm mode, body⟩)
  | .nil, _, _ => by
    constructor
    · intro h
      cases h
    · rintro ⟨name, sub, mode, body, t, hfind, -⟩
      cases hfind
  | .cons n node rest, hnames, hd => by
    obtain ⟨hn, hrest⟩ := nodup_cons.mp hnames
    rw [Entries.files, mem_append, mem_files_iff hd.1, mem_entries_files_iff hrest hd.2]
    constructor
    · rintro (⟨sub, mode, body, hget, rfl⟩ | ⟨name, sub, mode, body, t, hfind, hget, rfl⟩)
      · refine ⟨n, sub, mode, body, node, if_pos rfl, hget, ?_⟩
        rw [append_assoc, singleton_append]
      · refine ⟨name, sub, mode, body, t, ?_, hget, rfl⟩
        have hne : n ≠ name := by
          rintro rfl
          exact hn (names_of_find hfind)
        rw [Entries.find, if_neg hne, hfind]
    · rintro ⟨name, sub, mode, body, t, hfind, hget, rfl⟩
      rw [Entries.find] at hfind
      split at hfind
      · rename_i heq
        subst heq
        cases hfind
        refine .inl ⟨sub, mode, body, hget, ?_⟩
        rw [append_assoc, singleton_append]
      · exact .inr ⟨name, sub, mode, body, t, hfind, hget, rfl⟩

end

mutual

theorem nodup_files {path : List EntryName} :
    ∀ {t : FsNode}, t.Distinct → ((t.files path).map FileEntry.full).Nodup
  | .file .., _ => List.nodup_singleton _
  | .dir _, hd => nodup_entries_files hd.1 hd.2
  | .other, _ => List.nodup_nil

theorem nodup_entries_files {path : List EntryName} :
    ∀ {es : Entries}, es.names.Nodup → es.AllDistinct →
      ((es.files path).map FileEntry.full).Nodup
  | .nil, _, _ => List.nodup_nil
  | .cons n node rest, hnames, hd => by
    obtain ⟨hn, hrest⟩ := nodup_cons.mp hnames
    rw [Entries.files, map_append]
    refine (nodup_files hd.1).append (nodup_entries_files hrest hd.2) ?_
    intro full hhere hthere
    obtain ⟨e, he, rfl⟩ := mem_map.mp hhere
    obtain ⟨e', he', hfull⟩ := mem_map.mp hthere
    obtain ⟨sub, mode, body, -, rfl⟩ := (mem_files_iff hd.1).mp he
    obtain ⟨name, sub', mode', body', t, hfind, -, rfl⟩ :=
      (mem_entries_files_iff hrest hd.2).mp he'
    rw [append_assoc, append_cancel_left_eq, singleton_append] at hfull
    exact hn ((List.cons.inj hfull).1 ▸ names_of_find hfind)

end

theorem bytes_injective : Function.Injective EntryName.bytes := by
  intro m n h
  cases m
  cases h
  rfl

theorem relText_injective : Function.Injective relText := by
  -- a relative path has the names as its parts, the root has a part that is no name
  have hsplit : ∀ {path : List EntryName}, path ≠ [] →
      (relText path).splitOn slash = path.map EntryName.bytes := by
    intro path hne
    rw [relText, if_neg hne]
    refine splitOn_intercalate slash ?_ (by simpa using hne)
    intro l hl
    obtain ⟨n, -, rfl⟩ := mem_map.mp hl
    exact n.noSlash
  have hroot : ∀ {path : List EntryName}, relText path = relText [] → path = [] := by
    intro path h
    by_contra hne
    have hparts := hsplit hne
    rw [h] at hparts
    have hdot : path.map EntryName.bytes = [dotName] := hparts.symm.trans (by decide)
    obtain ⟨n, hn⟩ : ∃ n, path = [n] := length_eq_one_iff.mp (by
      simpa using congrArg length hdot)
    rw [hn] at hdot
    exact n.notDot (cons.inj hdot).1
  intro p q h
  by_cases hp : p = []
  · subst hp
    exact (hroot h.symm).symm
  by_cases hq : q = []
  · subst hq
    exact hroot h
  · exact map_injective_iff.mpr bytes_injective (by rw [← hsplit hp, h, hsplit hq])

/-! ## What is written -/

def record (e : FileEntry) : Bytes := header e ++ e.body.bytes

theorem record_ne_nil (e : FileEntry) : record e ≠ [] := by
  intro h
  have := congrArg length h
  simp only [record, header, length_append, length_bigEndian, length_nil] at this
  omega

theorem writeFiles_ok {io : DigestFaults} {files : List FileEntry} {fed : Bytes}
    (h : writeFiles io files = .ok fed) : fed = files.flatMap record := by
  induction files generalizing fed with
  | nil =>
    cases h
    rfl
  | cons e files ih =>
    have hmore : ∀ {f : Bytes → Bytes}, (writeFiles io files).map f = .ok fed →
        fed = f (files.flatMap record) := by
      intro f h
      cases hw : writeFiles io files with
      | error e' =>
        rw [hw] at h
        cases h
      | ok more =>
        rw [hw] at h
        cases h
        rw [ih hw]
    rw [writeFiles] at h
    rw [flatMap_cons]
    split at h
    · split at h
      · cases h
      · split at h
        · cases h
        · exact hmore h
    · have hnil : e.body.bytes = [] := eq_nil_of_length_eq_zero (by omega)
      rw [record, hnil, append_nil]
      exact hmore h

theorem selfDelimiting_record :
    SelfDelimiting (fun e : FileEntry => e.rel.length < 2 ^ 32) record := by
  have hrecord : record = fun e => bigEndian 4 e.rel.length ++ (e.rel ++
      (bigEndian 4 e.mode.toNat ++ (bigEndian 8 e.body.bytes.length ++ e.body.bytes))) := by
    funext e
    simp only [record, header, append_assoc]
  rw [hrecord]
  refine (selfDelimiting_bigEndian 4).append (fun e he => he.trans_eq (by norm_num)) ?_
  intro a b s t _ _ hlen h
  simp only [append_assoc] at h
  obtain ⟨hrel, h⟩ := append_inj h hlen
  obtain ⟨hmode, h⟩ := selfDelimiting_bigEndian 4 _ _ _ _
    (a.mode.isLt.trans_eq (by norm_num)) (b.mode.isLt.trans_eq (by norm_num)) h
  obtain ⟨hsize, h⟩ := selfDelimiting_bigEndian 8 _ _ _ _
    (a.body.length_lt.trans (by norm_num)) (b.body.length_lt.trans (by norm_num)) h
  obtain ⟨hbody, hst⟩ := append_inj h hsize
  refine ⟨?_, hst⟩
  obtain ⟨full, mode, ⟨body, hb⟩⟩ := a
  obtain ⟨full', mode', ⟨body', hb'⟩⟩ := b
  obtain rfl : full = full' := relText_injective hrel
  obtain rfl : mode = mode' := BitVec.eq_of_toNat_eq hmode
  cases hbody
  rfl

theorem nodup_rel {t : DirTree} :
    ((t.node.files []).map fun e => e.rel.map UInt8.toNat).Nodup := by
  have hinj : Function.Injective fun path => (relText path).map UInt8.toNat :=
    (map_injective_iff.mpr fun a b => UInt8.toNat.inj).comp relText_injective
  have hfiles : ((t.node.files []).map FileEntry.full).Nodup := nodup_files t.distinct
  have hrel := hfiles.map hinj
  rwa [map_map] at hrel

theorem mem_regularFiles_iff {t : DirTree} {x : Bytes × Mode × Contents} :
    x ∈ t.regularFiles ↔ ∃ e ∈ t.node.files [], x = (e.rel, e.mode, e.body) := by
  constructor
  · rintro ⟨path, mode, body, hget, rfl⟩
    exact ⟨_, (mem_files_iff t.distinct).mpr ⟨path, mode, body, hget, rfl⟩, rfl⟩
  · rintro ⟨e, he, rfl⟩
    obtain ⟨path, mode, body, hget, rfl⟩ := (mem_files_iff t.distinct).mp he
    exact ⟨path, mode, body, hget, rfl⟩

theorem regularFiles_eq_iff {s t : DirTree} :
    s.regularFiles = t.regularFiles ↔ ∀ e, e ∈ s.node.files [] ↔ e ∈ t.node.files [] := by
  have hshow : ∀ {t : DirTree} {e : FileEntry},
      e ∈ t.node.files [] ↔ (e.rel, e.mode, e.body) ∈ t.regularFiles := by
    intro t e
    rw [mem_regularFiles_iff]
    refine ⟨fun he => ⟨e, he, rfl⟩, ?_⟩
    rintro ⟨e', he', heq⟩
    obtain ⟨full, mode, body⟩ := e
    obtain ⟨full', mode', body'⟩ := e'
    simp only [Prod.mk.injEq] at heq
    obtain ⟨hrel, rfl, rfl⟩ := heq
    obtain rfl : full = full' := relText_injective hrel
    exact he'
  constructor
  · intro h e
    rw [hshow, hshow, h]
  · intro h
    ext x
    rw [mem_regularFiles_iff, mem_regularFiles_iff]
    simp only [h]

theorem treeBytes_ok {io : DigestFaults} {t : DirTree} {fed : Bytes} (h : treeBytes io t = .ok fed) :
    fed = (sortFiles (t.node.files [])).flatMap record := by
  unfold treeBytes at h
  split at h
  · cases h
  split at h
  · cases h
  · rename_i files hfiles
    rw [writeFiles_ok h, walkDir_ok hfiles]

/-- Two trees are written alike exactly when they have the same regular files. -/
theorem treeBytes_eq_iff {s t : DirTree} (hs : s.ShortPaths) (ht : t.ShortPaths)
    {io io' : DigestFaults} {fed fed' : Bytes} (hfed : treeBytes io s = .ok fed)
    (hfed' : treeBytes io' t = .ok fed') :
    fed = fed' ↔ s.regularFiles = t.regularFiles := by
  have hshort : ∀ {t : DirTree}, t.ShortPaths → ∀ e ∈ t.node.files [], e.rel.length < 2 ^ 32 :=
    fun ht e he => ht _ (mem_regularFiles_iff.mpr ⟨e, he, rfl⟩)
  rw [treeBytes_ok hfed, treeBytes_ok hfed', regularFiles_eq_iff]
  exact canonical_eq_iff (fun e : FileEntry => e.rel.map UInt8.toNat) selfDelimiting_record
    record_ne_nil nodup_rel nodup_rel (hshort hs) (hshort ht)

def noFaults : DigestFaults := ⟨none, fun _ => none, fun _ => none, fun _ => none, fun _ => none⟩

mutual

theorem walkDir_noFaults {path : List EntryName} :
    ∀ t : FsNode, walkDir noFaults path t = .ok (t.files path)
  | .file .. => rfl
  | .dir entries => walkEntries_noFaults entries
  | .other => rfl

theorem walkEntries_noFaults {path : List EntryName} :
    ∀ es : Entries, walkEntries noFaults path es = .ok (es.files path)
  | .nil => rfl
  | .cons _ node rest => by
    rw [walkEntries, walkDir_noFaults node, walkEntries_noFaults rest]
    rfl

end

theorem writeFiles_noFaults (files : List FileEntry) :
    writeFiles noFaults files = .ok (files.flatMap record) := by
  have hok : ∃ fed, writeFiles noFaults files = .ok fed := by
    induction files with
    | nil => exact ⟨[], rfl⟩
    | cons e files ih =>
      obtain ⟨more, hmore⟩ := ih
      rw [writeFiles, hmore]
      split
      · exact ⟨_, rfl⟩
      · exact ⟨_, rfl⟩
  obtain ⟨fed, hfed⟩ := hok
  rw [hfed, writeFiles_ok hfed]

theorem treeBytes_noFaults (t : DirTree) :
    treeBytes noFaults t = .ok ((sortFiles (t.node.files [])).flatMap record) := by
  have hroot : noFaults.lstatRoot = none := rfl
  rw [treeBytes, walkDir_noFaults]
  exact writeFiles_noFaults _

/-! ## Listings -/

/-- One object of a listing, as `hashListing` writes it. -/
def objectText (o : S3Object) : Str := o.key ++ ['\x00'] ++ o.etag ++ ['\x00']

def listingBytes (objs : List S3Object) : Bytes :=
  ((sortListing objs).flatMap objectText).flatMap String.utf8EncodeChar

/-- These bytes are what `hashListing` hashes. -/
theorem hashListing_sortListing (W : World) (objs : List S3Object) :
    hashListing W (sortListing objs) = hexEncode (W.sha256 (listingBytes objs)) := rfl

/-- A listing as a bucket gives it: each key once, and no NUL in a key or an ETag. -/
structure Listing where
  objs : List S3Object
  distinct : (objs.map S3Object.key).Nodup
  nulFree : ∀ o ∈ objs, '\x00' ∉ o.key ∧ '\x00' ∉ o.etag

theorem utf8_injective :
    Function.Injective fun s : Str => s.flatMap String.utf8EncodeChar := by
  intro s t h
  have henc : s.utf8Encode = t.utf8Encode := congrArg toByteArray h
  have := congrArg ByteArray.utf8Decode? henc
  simpa using this

theorem selfDelimiting_objectText :
    SelfDelimiting (fun o : S3Object => '\x00' ∉ o.key ∧ '\x00' ∉ o.etag) objectText := by
  have htext : objectText = fun o => (o.key ++ ['\x00']) ++ (o.etag ++ ['\x00']) := by
    funext o
    simp only [objectText, append_assoc]
  rw [htext]
  refine (selfDelimiting_terminated '\x00').append (fun o ho => ho.1) ?_
  intro a b s t ha hb hkey h
  obtain ⟨hetag, hst⟩ := selfDelimiting_terminated '\x00' _ _ _ _ ha.2 hb.2 h
  refine ⟨?_, hst⟩
  obtain ⟨key, etag⟩ := a
  cases hkey
  cases hetag
  rfl

theorem listingBytes_eq_iff (xs ys : Listing) :
    listingBytes xs.objs = listingBytes ys.objs ↔ { o | o ∈ xs.objs } = { o | o ∈ ys.objs } := by
  rw [Set.ext_iff, listingBytes, listingBytes, utf8_injective.eq_iff]
  refine canonical_eq_iff S3Object.key selfDelimiting_objectText (fun o => ?_) xs.distinct
    ys.distinct xs.nulFree ys.nulFree
  simp [objectText]

/-- Two listings are hashed from the same bytes exactly when they list the same objects, and two
trees exactly when they hold the same regular files; a tree on which no call fails is hashed. -/
theorem drift_tokens_differ :
    (∀ xs ys : Listing,
      listingBytes xs.objs = listingBytes ys.objs ↔
        { o | o ∈ xs.objs } = { o | o ∈ ys.objs }) ∧
    (∀ (s t : DirTree) (io io' : DigestFaults) (fed fed' : Bytes),
      s.ShortPaths → t.ShortPaths → treeBytes io s = .ok fed → treeBytes io' t = .ok fed' →
      (fed = fed' ↔ s.regularFiles = t.regularFiles)) ∧
    (∀ t : DirTree, ∃ fed, treeBytes noFaults t = .ok fed) :=
  ⟨listingBytes_eq_iff, fun _ _ _ _ _ _ hs ht hfed hfed' => treeBytes_eq_iff hs ht hfed hfed',
    fun t => ⟨_, treeBytes_noFaults t⟩⟩

def oneFile (mode : Mode) : DirTree where
  node := .dir (.cons ⟨[0x61], by decide, by decide, by decide, by decide⟩
    (.file mode ⟨[0x62], by decide⟩) .nil)
  distinct := ⟨List.nodup_singleton _, trivial, trivial⟩

theorem mem_regularFiles_oneFile {mode : Mode} {x : Bytes × Mode × Contents} :
    x ∈ (oneFile mode).regularFiles ↔ x = ([0x61], perm mode, ⟨[0x62], by decide⟩) := by
  rw [mem_regularFiles_iff]
  constructor
  · rintro ⟨e, he, rfl⟩
    rw [mem_singleton.mp he]
    rfl
  · rintro rfl
    exact ⟨_, mem_singleton.mpr rfl, rfl⟩

/-- Two trees that differ by a mode. -/
theorem drift_tokens_notice_mode :
    ∃ fed fed', treeBytes noFaults (oneFile 0o644) = .ok fed ∧
      treeBytes noFaults (oneFile 0o600) = .ok fed' ∧ fed ≠ fed' := by
  have hshort : ∀ mode, (oneFile mode).ShortPaths := by
    intro mode x hx
    rw [mem_regularFiles_oneFile.mp hx]
    exact Nat.one_lt_two_pow (by decide)
  obtain ⟨-, htrees, htotal⟩ := drift_tokens_differ
  obtain ⟨fed, hfed⟩ := htotal (oneFile 0o644)
  obtain ⟨fed', hfed'⟩ := htotal (oneFile 0o600)
  refine ⟨fed, fed', hfed, hfed', fun heq => ?_⟩
  have hsame := (htrees _ _ _ _ _ _ (hshort _) (hshort _) hfed hfed').mp heq
  have hmem := (@mem_regularFiles_oneFile 0o644 _).mpr rfl
  rw [hsame, mem_regularFiles_oneFile] at hmem
  have hmode : perm 0o644 = perm 0o600 := (Prod.mk.inj (Prod.mk.inj hmem).2).1
  exact absurd hmode (by decide)

end PowerManage.Remote.Digest
