import PowerManage.Remote.Archive
import PowerManage.Lib.Interaction

/-!
# What an extraction does to the file system

`PowerManage.Remote.Archive` says what tree an archive unpacks to.  This file follows the extractors
of `http_archive.go` down to their system calls, on a host with links anywhere outside the staging
directory: `os.MkdirAll` looks and goes up to the first directory that is there, `os.OpenFile` follows
what it is given and creates at the end of a dangling link, and each call may fail.

What carries `extraction_confined` is that below the staging directory there are only plain files
and directories, all of them made by the extraction itself: names lead where they say there
(`FileTree.walk_of_plain`), and the way to the directory stays as it was, since nothing outside is
touched.

The staging directory is the one that its path, cleaned as `filepath.Join` cleans it, leads to.
-/

namespace PowerManage.Remote.Confinement

open PathName FileTree Text Interaction List Function Option

/-! ## System calls -/

/-- A path as it is given to a call. -/
structure PathArg where
  rooted : Bool
  comps : List Name
deriving DecidableEq

def PathArg.text (p : PathArg) : Str :=
  if p.rooted then spell p.comps
  else if p.comps = [] then ['.'] else ['/'].intercalate p.comps

/-- The calls of an extraction. -/
inductive SysCall
  | stat (p : PathArg)
  | lstat (p : PathArg)
  | mkdir (p : PathArg) (mode : Nat)
  /-- `O_CREATE|O_WRONLY|O_TRUNC`. -/
  | openFile (p : PathArg) (mode : Nat)
  | write (data : Bytes)

/-- Looking tells whether there is a directory, or fails; the others tell whether they succeed. -/
def Reply : SysCall → Type
  | .stat _ | .lstat _ => Option Bool
  | .mkdir _ _ | .openFile _ _ | .write _ => Bool

def failed (_ : Unit) : (q : SysCall) → Reply q
  | .stat _ | .lstat _ => none
  | .mkdir _ _ | .openFile _ _ | .write _ => false

abbrev Program (α : Type) := Prog SysCall Reply α

/-! ## The extractors -/

/-- Where an extraction runs. -/
structure Ground where
  cwd : Path
  staging : Str

def cleanArg (s : Str) : PathArg :=
  if isAbs s then ⟨true, cleanAbs s⟩ else ⟨false, (components s).foldl pushRel []⟩

/-- `filepath.Abs` of a clean path. -/
def Ground.abs (g : Ground) (p : PathArg) : Path :=
  if p.rooted then p.comps else p.comps.foldl push g.cwd

/-- `safeJoinDest` with its join: the checks of the name, then the path, looked at once more. -/
def Ground.safeJoin (g : Ground) (entry : Str) : Except FetchError PathArg :=
  match safeJoinDest entry with
  | .error err => .error err
  | .ok rel =>
    let st := cleanArg g.staging
    let full : PathArg := ⟨st.rooted, st.comps ++ rel⟩
    let stagingAbs := spell (g.abs st)
    let fullAbs := spell (g.abs full)
    if !hasPrefix fullAbs (stagingAbs ++ ['/']) && fullAbs ≠ stagingAbs then
      .error (.unsafeDestination
        ("entry " ++ quote entry ++ " resolves outside staging"))
    else .ok full

/-- `os.MkdirAll`, on the components in reverse. -/
def mkdirAllRev (rooted : Bool) (mode : Nat) : List Name → Program Bool
  | [] =>
    .ask (.stat ⟨rooted, []⟩) fun r =>
      match r with
      | some isDir => .ret isDir
      | none => .ret false
  | c :: parents =>
    let path : PathArg := ⟨rooted, (c :: parents).reverse⟩
    .ask (.stat path) fun r =>
      match r with
      | some isDir => .ret isDir
      | none =>
        (mkdirAllRev rooted mode parents).bind fun ok =>
          if ok = false then .ret false
          else
            .ask (.mkdir path mode) fun (made : Bool) =>
              if made then .ret true
              else
                .ask (.lstat path) fun r =>
                  match r with
                  | some isDir => .ret isDir
                  | none => .ret false

def mkdirAll (p : PathArg) (mode : Nat) : Program Bool := mkdirAllRev p.rooted mode p.comps.reverse

/-- `filepath.Dir` of a path with a name at its end. -/
def PathArg.dir (p : PathArg) : PathArg := ⟨p.rooted, p.comps.dropLast⟩

/-- The pieces in which `io.Copy` hands data on. -/
def chunks : Nat → Bytes → List Bytes
  | 0, _ => []
  | fuel + 1, bs => if bs = [] then [] else bs.take 32768 :: chunks fuel (bs.drop 32768)

def writeChunks : List Bytes → Program Bool
  | [] => .ret true
  | c :: cs => .ask (.write c) fun (ok : Bool) => if ok then writeChunks cs else .ret false

def perm (mode : Nat) : Nat := mode % 0o1000

/-- `writeTarEntry`: the number of bytes, or an error. -/
def writeTarEntry (out : PathArg) (data : Body) (mode : Nat) : Program (Except FetchError Nat) :=
  .ask (.openFile out mode) fun (ok : Bool) =>
    if ok = false then .ret (.error (.other ("open " ++ out.text)))
    else
      (writeChunks (chunks data.bytes.length data.bytes)).bind fun ok =>
        if ok = false ∨ data.err = true then .ret (.error (.other ("copy " ++ out.text)))
        else .ret (.ok data.bytes.length)

abbrev Extracted := Nat × Option FetchError

/-- The end of a turn for a regular file: its directory, the file, the running total. -/
def storeFile (maxBytes totalBytes : Int) (files : Nat) (out : PathArg) (data : Body) (mode : Nat)
    (next : Int → Nat → Program Extracted) : Program Extracted :=
  (mkdirAll out.dir 0o755).bind fun ok =>
    if ok = false then .ret (files, some (.other ("mkdir " ++ out.dir.text)))
    else
      (writeTarEntry out data (perm mode)).bind fun r =>
        match r with
        | .error err => .ret (files, some err)
        | .ok written =>
          let total := int64 (totalBytes + written)
          if total > maxBytes then .ret (files, some (.integrity (exceedsText maxBytes)))
          else next total (files + 1)

def storeDir (files : Nat) (out : PathArg) (next : Program Extracted) : Program Extracted :=
  (mkdirAll out 0o755).bind fun ok =>
    if ok = false then .ret (files, some (.other ("mkdir " ++ out.text))) else next

/-- The loop of `extractTarGz`, over the headers with their modes and the error that ends them. -/
def tarLoop (g : Ground) (maxBytes : Int) (err : Option Str) :
    Int → Nat → List (TarEntry × Nat) → Program Extracted
  | _, files, [] => .ret (files, err.map fun text => .other ("tar next: " ++ text))
  | totalBytes, files, (e, mode) :: es =>
    match e.type with
    | .other =>
      .ret (files, some (.unsafeDestination
        ("tar entry " ++ quote e.name ++ " has disallowed type")))
    | .dir =>
      match g.safeJoin e.name with
      | .error err => .ret (files, some err)
      | .ok out => storeDir files out (tarLoop g maxBytes err totalBytes files es)
    | .reg =>
      match g.safeJoin e.name with
      | .error err => .ret (files, some err)
      | .ok out =>
        if e.size < 0 then
          .ret (files, some (.integrity ("negative size in entry " ++ quote e.name)))
        else if int64 (totalBytes + e.size) > maxBytes then
          .ret (files, some (.integrity (exceedsText maxBytes)))
        else
          storeFile maxBytes totalBytes files out e.data mode fun total files =>
            tarLoop g maxBytes err total files es

def zipLoop (g : Ground) (maxBytes : Int) :
    Int → Nat → List (ZipEntry × Nat) → Program Extracted
  | _, files, [] => .ret (files, none)
  | totalBytes, files, (e, mode) :: es =>
    match g.safeJoin e.name with
    | .error err => .ret (files, some err)
    | .ok out =>
      if hasSuffix e.name ['/'] || e.isDir then
        storeDir files out (zipLoop g maxBytes totalBytes files es)
      else
        let declared := int64 e.uncompressedSize64
        if declared < 0 then .ret (files, some (.integrity "negative uncompressed size"))
        else if int64 (totalBytes + declared) > maxBytes then
          .ret (files, some (.integrity (exceedsText maxBytes)))
        else
          match e.data with
          | none => .ret (files, some (.other ("open zip entry " ++ quote e.name)))
          | some data =>
            storeFile maxBytes totalBytes files out
              (limitReader (int64 (maxBytes - totalBytes + 1)) data) mode fun total files =>
                zipLoop g maxBytes total files es

/-- The decoders, with the modes of entries. -/
structure ModeDecoders where
  tarGz : Bytes → Except Str (List (TarEntry × Nat) × Option Str)
  zip : Bytes → Except Str (List (ZipEntry × Nat))

variable (D : ModeDecoders)

def extractTarGz (g : Ground) (maxBytes : Int) (body : Bytes) :
    Program Extracted :=
  match D.tarGz body with
  | .error text => .ret (0, some (.other ("gzip header: " ++ text)))
  | .ok (entries, err) => tarLoop g maxBytes err 0 0 entries

def extractZipFile (g : Ground) (maxBytes : Int) (body : Bytes) :
    Program Extracted :=
  match D.zip body with
  | .error text => .ret (0, some (.other ("open zip: " ++ text)))
  | .ok entries => zipLoop g maxBytes 0 0 entries

/-! ## The host -/

/-- What a call did to an entry: the path it was given, and the place where the entry is. -/
inductive Effect
  | made (p : PathArg) (place : Path) (mode : Nat)
  | created (p : PathArg) (place : Path) (mode : Nat)
  | truncated (p : PathArg) (place : Path)
  | wrote (place : Path) (data : Bytes)
deriving DecidableEq

/-- The tree, the open file, and all that was done. -/
structure Host where
  tree : Tree
  current : Option Path
  log : List Effect

def follow (cwd : Path) (t : Tree) (p : PathArg) : Walked :=
  walk t kernelLinks 0 (if p.rooted then [] else cwd) p.comps

def isDirNode : Option Node → Bool
  | some (.dir _) => true
  | _ => false

/-- `mkdir`, in a directory that the path leads to. -/
def Host.mkdir (cwd : Path) (h : Host) (p : PathArg) (mode : Nat) : Bool × Host :=
  match p.comps.getLast? with
  | none => (false, h)
  | some c =>
    -- a path that ends in `..` is there already
    if ¬ Proper c then (false, h)
    else
      match follow cwd h.tree p.dir with
      | .found q =>
        match h.tree q with
        | some (.dir true) =>
          if h.tree (q ++ [c]) = none then
            (true, { h with
              tree := put h.tree (q ++ [c]) (.dir true)
              log := h.log ++ [.made p (q ++ [c]) mode] })
          else (false, h)
        | _ => (false, h)
      | _ => (false, h)

/-- A file is created or emptied, through links. -/
def Host.openFile (cwd : Path) (h : Host) (p : PathArg) (mode : Nat) : Bool × Host :=
  match follow cwd h.tree p with
  | .found q =>
    match h.tree q with
    | some (.file _) =>
      (true, ⟨put h.tree q (.file []), some q, h.log ++ [.truncated p q]⟩)
    | _ => (false, h)
  -- also where a dangling link ends
  | .gap q [] _ => (true, ⟨put h.tree q (.file []), some q, h.log ++ [.created p q mode]⟩)
  | _ => (false, h)

def Host.write (h : Host) (data : Bytes) : Bool × Host :=
  match h.current with
  | none => (false, h)
  | some q =>
    match h.tree q with
    | some (.file old) =>
      (true, { h with
        tree := put h.tree q (.file (old ++ data))
        log := h.log ++ [.wrote q data] })
    | _ => (false, h)

def Host.lstat (cwd : Path) (h : Host) (p : PathArg) : Option Bool :=
  match p.comps.getLast? with
  | none => some (isDirNode (h.tree (if p.rooted then [] else cwd)))
  | some c =>
    match follow cwd h.tree p.dir with
    | .found q => (h.tree (q ++ [c])).map fun n => isDirNode (some n)
    | _ => none

/-- The answers of the kernel, and what they leave. -/
def Host.answer (cwd : Path) (h : Host) : (q : SysCall) → Option (Reply q × Host)
  | .stat p =>
    match follow cwd h.tree p with
    | .found q => some (some (isDirNode (h.tree q)), h)
    | _ => some (none, h)
  | .lstat p => some (h.lstat cwd p, h)
  | .mkdir p mode => some (h.mkdir cwd p mode)
  | .openFile p mode => some (h.openFile cwd p mode)
  | .write data => some (h.write data)

/-! ## What is asked for -/

/-- The path leads to the staging directory, to one above it on the way, or to a place below it. -/
def OnTheWay (st p : PathArg) : Prop :=
  p.rooted = st.rooted ∧ (p.comps <+: st.comps ∨
    ∃ rel, rel ≠ [] ∧ (∀ c ∈ rel, Proper c) ∧ p.comps = st.comps ++ rel)

/-- Lexically below the staging directory. -/
def Inside (st p : PathArg) : Prop :=
  p.rooted = st.rooted ∧ ∃ rel, rel ≠ [] ∧ (∀ c ∈ rel, Proper c) ∧ p.comps = st.comps ++ rel

def Fit (st : PathArg) : SysCall → Prop
  | .stat _ | .lstat _ | .write _ => True
  | .mkdir p mode => OnTheWay st p ∧ mode < 0o1000
  | .openFile p mode => Inside st p ∧ mode < 0o1000

variable {mode : Nat}

section

variable {g : Ground} {st p : PathArg}

theorem proper_of_safeJoinDest {entry : Str} {rel : Path} (h : safeJoinDest entry = .ok rel) :
    rel ≠ [] ∧ ∀ c ∈ rel, Proper c := by
  unfold safeJoinDest at h
  simp only at h
  split_ifs at h with h1 h2 h3 h4 h5
  cases h
  exact ⟨splitOn_ne_nil _ _, h5⟩

theorem inside_of_safeJoin {entry : Str} (h : g.safeJoin entry = .ok p) :
    Inside (cleanArg g.staging) p := by
  unfold Ground.safeJoin at h
  split at h
  · cases h
  rename_i rel hrel
  obtain ⟨hne, hproper⟩ := proper_of_safeJoinDest hrel
  simp only at h
  split_ifs at h
  cases h
  exact ⟨rfl, rel, hne, hproper, rfl⟩

theorem Inside.onTheWay (h : Inside st p) : OnTheWay st p := ⟨h.1, .inr h.2⟩

theorem OnTheWay.dir (h : OnTheWay st p) : OnTheWay st p.dir := by
  obtain ⟨hrooted, hstart | ⟨rel, hne, hproper, hcomps⟩⟩ := h
  · exact ⟨hrooted, .inl (( dropLast_prefix _).trans hstart)⟩
  · refine ⟨hrooted, ?_⟩
    have hdrop : p.dir.comps = st.comps ++ rel.dropLast := by
      rw [PathArg.dir, hcomps, dropLast_append_of_ne_nil hne]
    by_cases hnil : rel.dropLast = []
    · rw [hnil, append_nil] at hdrop
      exact .inl (hdrop ▸ prefix_rfl)
    · exact .inr ⟨rel.dropLast, hnil, fun c hc => hproper c (mem_of_mem_dropLast hc), hdrop⟩

theorem asks_mkdirAllRev {rooted : Bool} (hmode : mode < 0o1000) (rev : List Name)
    (h : OnTheWay st ⟨rooted, rev.reverse⟩) : (mkdirAllRev rooted mode rev).Asks (Fit st) := by
  induction rev with
  | nil =>
    refine .ask trivial fun r => ?_
    cases r with
    | none => exact .ret _
    | some isDir => exact .ret _
  | cons c parents ih =>
    refine .ask trivial fun r => ?_
    cases r with
    | some isDir => exact .ret _
    | none =>
      have hparents : OnTheWay st ⟨rooted, parents.reverse⟩ := by
        have hdir := h.dir
        rw [PathArg.dir, reverse_cons, dropLast_concat] at hdir
        exact hdir
      refine (ih hparents).bind fun ok => ?_
      cases ok with
      | false => exact .ret _
      | true =>
        refine .ask ⟨h, hmode⟩ fun made => ?_
        cases made with
        | true => exact .ret _
        | false =>
          refine .ask trivial fun r => ?_
          cases r with
          | none => exact .ret _
          | some isDir => exact .ret _

theorem asks_mkdirAll (hmode : mode < 0o1000) (h : OnTheWay st p) :
    (mkdirAll p mode).Asks (Fit st) :=
  asks_mkdirAllRev hmode _ (by rw [reverse_reverse]; exact h)

theorem asks_writeChunks (cs : List Bytes) : (writeChunks cs).Asks (Fit st) := by
  induction cs with
  | nil => exact .ret _
  | cons c cs ih =>
    refine .ask trivial fun ok => ?_
    cases ok with
    | true => exact ih
    | false => exact .ret _

theorem asks_writeTarEntry (hmode : mode < 0o1000) (h : Inside st p) (data : Body) :
    (writeTarEntry p data mode).Asks (Fit st) := by
  refine .ask ⟨h, hmode⟩ fun ok => ?_
  cases ok with
  | false => exact .ret _
  | true =>
    refine (asks_writeChunks _).bind fun ok => ?_
    split_ifs
    · exact .ret _
    · exact .ret _

theorem perm_lt (mode : Nat) : perm mode < 0o1000 := Nat.mod_lt _ (by decide)

theorem asks_storeFile {maxBytes totalBytes : Int} {files : Nat} {data : Body}
    {next : Int → Nat → Program Extracted} (h : Inside st p)
    (hnext : ∀ total files, (next total files).Asks (Fit st)) :
    (storeFile maxBytes totalBytes files p data mode next).Asks (Fit st) := by
  refine (asks_mkdirAll (by decide) h.onTheWay.dir).bind fun ok => ?_
  cases ok with
  | false => exact .ret _
  | true =>
    refine (asks_writeTarEntry (perm_lt mode) h data).bind fun r => ?_
    cases r with
    | error err => exact .ret _
    | ok written =>
      simp only
      split_ifs
      · exact .ret _
      · exact hnext _ _

theorem asks_storeDir {files : Nat} {next : Program Extracted} (h : Inside st p)
    (hnext : next.Asks (Fit st)) : (storeDir files p next).Asks (Fit st) := by
  refine (asks_mkdirAll (by decide) h.onTheWay).bind fun ok => ?_
  cases ok with
  | false => exact .ret _
  | true => exact hnext

theorem asks_tarLoop (maxBytes : Int) (err : Option Str) (es : List (TarEntry × Nat))
    (totalBytes : Int) (files : Nat) :
    (tarLoop g maxBytes err totalBytes files es).Asks (Fit (cleanArg g.staging)) := by
  induction es generalizing totalBytes files with
  | nil => exact .ret _
  | cons e es ih =>
    obtain ⟨e, mode⟩ := e
    rw [tarLoop]
    cases e.type with
    | other => exact .ret _
    | dir =>
      cases hjoin : g.safeJoin e.name with
      | error err => exact .ret _
      | ok out => exact asks_storeDir (inside_of_safeJoin hjoin) (ih _ _)
    | reg =>
      cases hjoin : g.safeJoin e.name with
      | error err => exact .ret _
      | ok out =>
        split_ifs
        · exact .ret _
        · exact .ret _
        · exact asks_storeFile (inside_of_safeJoin hjoin) fun _ _ => ih _ _

theorem asks_zipLoop (maxBytes : Int) (es : List (ZipEntry × Nat)) (totalBytes : Int)
    (files : Nat) :
    (zipLoop g maxBytes totalBytes files es).Asks (Fit (cleanArg g.staging)) := by
  induction es generalizing totalBytes files with
  | nil => exact .ret _
  | cons e es ih =>
    obtain ⟨e, mode⟩ := e
    rw [zipLoop]
    cases hjoin : g.safeJoin e.name with
    | error err => exact .ret _
    | ok out =>
      have hinside := inside_of_safeJoin hjoin
      simp only
      split_ifs
      · exact asks_storeDir hinside (ih _ _)
      · exact .ret _
      · exact .ret _
      · cases e.data with
        | none => exact .ret _
        | some data => exact asks_storeFile hinside fun _ _ => ih _ _

end

/-! ## What the host keeps -/

/-- The staging directory is there, and empty. -/
structure Fresh (t : Tree) (cwd : Path) (st : PathArg) (dir : Path) : Prop where
  found : follow cwd t st = .found dir
  empty : ∀ q, Below dir q → t q = none

/-- Strictly below the staging directory, at the place that the path says, with permission bits
only. -/
def Effect.Confined (st : PathArg) (dir : Path) : Effect → Prop
  | .made p place mode | .created p place mode =>
    (∃ rel, rel ≠ [] ∧ p = ⟨st.rooted, st.comps ++ rel⟩ ∧ place = dir ++ rel) ∧ mode < 0o1000
  | .truncated p place => ∃ rel, rel ≠ [] ∧ p = ⟨st.rooted, st.comps ++ rel⟩ ∧ place = dir ++ rel
  | .wrote place _ => Below dir place

/-- What has been done to the tree `t` is confined to the staging directory. -/
structure Kept (t : Tree) (st : PathArg) (dir : Path) (h : Host) : Prop where
  outside : ∀ q, ¬ Below dir q → h.tree q = t q
  plain : Plain h.tree dir
  current : ∀ q, h.current = some q → Below dir q
  confined : ∀ e ∈ h.log, e.Confined st dir

section

variable {t : Tree} {cwd dir : Path} {st p : PathArg} {h : Host}

theorem Kept.extends (hfresh : Fresh t cwd st dir) (hkept : Kept t st dir h) (q : Path) (n : Node)
    (hn : t q = some n) : h.tree q = some n := by
  rw [hkept.outside q, hn]
  intro hbelow
  rw [hfresh.empty q hbelow] at hn
  cases hn

theorem Kept.follow_staging (hfresh : Fresh t cwd st dir) (hkept : Kept t st dir h) :
    follow cwd h.tree st = .found dir :=
  walk_found_of_extends (hkept.extends hfresh) hfresh.found

theorem Kept.follow_inside (hfresh : Fresh t cwd st dir) (hkept : Kept t st dir h)
    {rel : List Name} (hrel : ∀ c ∈ rel, Proper c) :
    follow cwd h.tree ⟨st.rooted, st.comps ++ rel⟩ = .found (dir ++ rel) ∨
      (∃ pre post l, pre ≠ [] ∧ rel = pre ++ post ∧ h.tree (dir ++ pre) = none ∧
        follow cwd h.tree ⟨st.rooted, st.comps ++ rel⟩ = .gap (dir ++ pre) post l) ∨
      ∃ e, follow cwd h.tree ⟨st.rooted, st.comps ++ rel⟩ = .fail e := by
  obtain ⟨b, hb⟩ := walk_append_found (hkept.follow_staging hfresh)
  have hfollow : follow cwd h.tree ⟨st.rooted, st.comps ++ rel⟩ = walk h.tree b 0 dir rel := by
    rw [follow, hb, Nat.zero_sub]
  rw [hfollow]
  exact walk_of_plain hkept.plain hrel b 0

theorem Kept.put (hkept : Kept t st dir h) {q : Path} {n : Node} {current : Option Path}
    {e : Effect} (hq : Below dir q) (hn : ∀ target, n ≠ .link target)
    (hcurrent : ∀ q, current = some q → Below dir q) (he : e.Confined st dir) :
    Kept t st dir ⟨put h.tree q n, current, h.log ++ [e]⟩ where
  outside r hr := by
    have hne : r ≠ q := by
      rintro rfl
      exact hr hq
    exact (update_of_ne hne ..).trans (hkept.outside r hr)
  plain r hr target hlink := by
    dsimp only at hlink
    by_cases hrq : r = q
    · subst hrq
      rw [FileTree.put, update_self] at hlink
      exact hn target (some.inj hlink)
    · rw [FileTree.put, update_of_ne hrq] at hlink
      exact hkept.plain r hr target hlink
  current := hcurrent
  confined e' he' := by
    rcases mem_append.mp he' with he' | he'
    · exact hkept.confined e' he'
    · rw [mem_singleton.mp he']
      exact he

theorem mkdir_cases (cwd : Path) (h : Host) (p : PathArg) (mode : Nat) :
    (h.mkdir cwd p mode).2 = h ∨
      ∃ init c q, p.comps = init ++ [c] ∧ Proper c ∧ follow cwd h.tree ⟨p.rooted, init⟩ = .found q ∧
        h.tree (q ++ [c]) = none ∧
        (h.mkdir cwd p mode).2 = ⟨put h.tree (q ++ [c]) (.dir true), h.current,
          h.log ++ [.made p (q ++ [c]) mode]⟩ := by
  unfold Host.mkdir
  split
  · exact .inl rfl
  rename_i c hc
  by_cases hproper : Proper c
  · rw [if_neg (not_not.mpr hproper)]
    split
    · rename_i q hq
      split
      · by_cases hnone : h.tree (q ++ [c]) = none
        · have hcomps : p.comps = p.comps.dropLast ++ [c] :=
            (dropLast_append_getLast? c hc).symm
          rw [if_pos hnone]
          exact .inr ⟨p.comps.dropLast, c, q, hcomps, hproper, hq, hnone, rfl⟩
        · rw [if_neg hnone]
          exact .inl rfl
      · exact .inl rfl
    · exact .inl rfl
  · rw [if_pos hproper]
    exact .inl rfl

theorem Kept.mkdir (hfresh : Fresh t cwd st dir) (hkept : Kept t st dir h) (hp : OnTheWay st p)
    (hmode : mode < 0o1000) : Kept t st dir (h.mkdir cwd p mode).2 := by
  obtain hsame | ⟨init, c, q, hcomps, hc, hq, hnone, hmade⟩ := mkdir_cases cwd h p mode
  · rw [hsame]; exact hkept
  rw [hmade]
  obtain ⟨hrooted, ⟨post, hpost⟩ | ⟨rel, hne, hproper, hrel⟩⟩ := hp
  · -- what is on the way to the staging directory is there
    rw [hrooted] at hq
    have hfound := hkept.follow_staging hfresh
    rw [follow, ← hpost, hcomps] at hfound
    obtain ⟨q', hq'⟩ := exists_found_of_append hfound
    exact absurd hnone (ne_none_of_found_concat hq hq' hc)
  · obtain ⟨rel', c', rfl⟩ := eq_nil_or_concat' rel |>.resolve_left hne
    rw [hrel, ← append_assoc] at hcomps
    obtain ⟨rfl, hlast⟩ := append_inj' hcomps rfl
    obtain rfl := (cons.inj hlast).1
    rw [hrooted] at hq
    have hproper' : ∀ d ∈ rel', Proper d := fun d hd => hproper d (mem_append_left _ hd)
    have hplace : q = dir ++ rel' := by
      rcases hkept.follow_inside hfresh hproper' with hf | ⟨_, _, _, _, _, _, hf⟩ | ⟨e, hf⟩
      · rw [hf] at hq; exact (Walked.found.inj hq).symm
      · rw [hf] at hq; cases hq
      · rw [hf] at hq; cases hq
    rw [hplace, append_assoc]
    have hbelow : Below dir (dir ++ (rel' ++ [c'])) := ⟨_, hne, rfl⟩
    refine hkept.put hbelow (by intro target hn; cases hn) hkept.current ⟨⟨_, hne, ?_, rfl⟩, hmode⟩
    rw [← hrooted, ← hrel]

theorem Kept.openFile (hfresh : Fresh t cwd st dir) (hkept : Kept t st dir h) (hp : Inside st p)
    (hmode : mode < 0o1000) : Kept t st dir (h.openFile cwd p mode).2 := by
  obtain ⟨hrooted, rel, hne, hproper, hrel⟩ := hp
  have hpath : p = ⟨st.rooted, st.comps ++ rel⟩ := by rw [← hrooted, ← hrel]
  have hbelow : Below dir (dir ++ rel) := ⟨rel, hne, rfl⟩
  have hcurrent : ∀ q, some (dir ++ rel) = some q → Below dir q := by
    intro q hq
    exact some.inj hq ▸ hbelow
  unfold Host.openFile
  rw [hpath]
  rcases hkept.follow_inside hfresh hproper with hf | ⟨pre, post, l, hpre, hpost, -, hf⟩ | ⟨e, hf⟩
  · rw [hf]
    simp only
    split
    · exact hkept.put hbelow (by intro target hn; cases hn) hcurrent ⟨rel, hne, rfl, rfl⟩
    · exact hkept
  · rw [hf]
    cases post with
    | nil =>
      rw [append_nil] at hpost
      subst hpost
      exact hkept.put hbelow (by intro target hn; cases hn) hcurrent ⟨⟨rel, hne, rfl, rfl⟩, hmode⟩
    | cons c post => exact hkept
  · rw [hf]
    exact hkept

theorem Kept.write (hkept : Kept t st dir h) (data : Bytes) :
    Kept t st dir (h.write data).2 := by
  unfold Host.write
  split
  · exact hkept
  rename_i q hq
  have hbelow := hkept.current q hq
  split
  · exact hkept.put hbelow (by intro target hn; cases hn) hkept.current hbelow
  · exact hkept

theorem kept_answer (hfresh : Fresh t cwd st dir) (h : Host) (q : SysCall) (x : Reply q) (h' : Host)
    (hq : Fit st q) (hkept : Kept t st dir h) (hanswer : h.answer cwd q = some (x, h')) :
    Kept t st dir h' := by
  cases q with
  | stat p =>
    simp only [Host.answer] at hanswer
    split at hanswer
    · cases hanswer; exact hkept
    · cases hanswer; exact hkept
  | lstat p => cases hanswer; exact hkept
  | mkdir p mode =>
    have heq : (h.mkdir cwd p mode).2 = h' := congrArg Prod.snd (some.inj hanswer)
    rw [← heq]
    exact hkept.mkdir hfresh hq.1 hq.2
  | openFile p mode =>
    have heq : (h.openFile cwd p mode).2 = h' := congrArg Prod.snd (some.inj hanswer)
    rw [← heq]
    exact hkept.openFile hfresh hq.1 hq.2
  | write data =>
    have heq : (h.write data).2 = h' := congrArg Prod.snd (some.inj hanswer)
    rw [← heq]
    exact hkept.write data

end

/-! ## Extractions -/

def extractor (g : Ground) (maxBytes : Int) (body : Bytes) :
    ArchiveKind → Program Extracted
  | .zip => extractZipFile D g maxBytes body
  | _ => extractTarGz D g maxBytes body

theorem asks_extractor (g : Ground) (maxBytes : Int) (body : Bytes)
    (kind : ArchiveKind) :
    (extractor D g maxBytes body kind).Asks (Fit (cleanArg g.staging)) := by
  have htar : (extractTarGz D g maxBytes body).Asks (Fit (cleanArg g.staging)) := by
    unfold extractTarGz
    split
    · exact .ret _
    · exact asks_tarLoop maxBytes _ _ 0 0
  cases kind with
  | zip =>
    show (extractZipFile D g maxBytes body).Asks _
    unfold extractZipFile
    split
    · exact .ret _
    · exact asks_zipLoop maxBytes _ 0 0
  | unknown | tarGz | tarXz => exact htar

/-- Whatever the archive is and whichever calls fail, an extraction changes nothing outside the
staging directory, leaves no link below it, and all that it did is confined to it. -/
theorem extraction_confined (g : Ground) (maxBytes : Int) (body : Bytes)
    (kind : ArchiveKind) {t : Tree} {dir : Path} (hfresh : Fresh t g.cwd (cleanArg g.staging) dir)
    {outcomes rest : List (Option Unit)} {result : Extracted} {h : Host}
    (hrun : (extractor D g maxBytes body kind).run (Prog.faulty (Host.answer g.cwd) failed)
      (⟨t, none, []⟩, outcomes) = some (result, (h, rest))) :
    (∀ q, ¬ Below dir q → h.tree q = t q) ∧ Plain h.tree dir ∧
      ∀ e ∈ h.log, e.Confined (cleanArg g.staging) dir := by
  have hstart : Kept t (cleanArg g.staging) dir ⟨t, none, []⟩ := by
    refine ⟨fun _ _ => rfl, fun q hq target hlink => ?_, (by intro q hq; cases hq),
      (by intro e he; cases he)⟩
    have hnone : t q = some (.link target) := hlink
    rw [hfresh.empty q hq] at hnone
    cases hnone
  have hkept : Kept t (cleanArg g.staging) dir h :=
    (asks_extractor D g maxBytes body kind).run_faulty (kept_answer hfresh) hrun hstart
  exact ⟨hkept.outside, hkept.plain, hkept.confined⟩

/-! ## An archive -/

def linkedTree : Tree :=
  treeOf [("/", .dir true), ("/srv", .link "/data"), ("/data", .dir true),
    ("/data/x.staging", .dir true)]

def testGround : Ground := ⟨[], "/srv/x.staging"⟩

def testDecoders : ModeDecoders where
  tarGz _ := .ok ([(⟨"a/", .dir, 0, ⟨[], false⟩⟩, 0o755),
    (⟨"a/b/c", .reg, 2, ⟨[1, 2], false⟩⟩, 0o6755),
    (⟨"a/b/c", .reg, 1, ⟨[3], false⟩⟩, 0o644), (⟨"a/l", .other, 0, ⟨[], false⟩⟩, 0)],
    none)
  zip _ := .error []

def linkedStaging : Path := ["data", "x.staging"]

theorem fresh_linked : Fresh linkedTree [] (cleanArg testGround.staging) linkedStaging where
  found := by decide +kernel
  empty := by
    rintro q ⟨rel, hne, rfl⟩
    rw [linkedTree, treeOf, map_eq_none_iff, find?_eq_none]
    intro e he heq
    have hshort : ([("/", .dir true), ("/srv", .link "/data"), ("/data", .dir true),
        ("/data/x.staging", .dir true)] : List (String × Node)).all
          (fun e => (cleanAbs e.1.toList).length ≤ 2) = true := by decide +kernel
    have hlength := of_decide_eq_true (all_eq_true.mp hshort e he)
    rw [of_decide_eq_true heq, length_append] at hlength
    have hpos := length_pos_iff.mpr hne
    have htwo : linkedStaging.length = 2 := rfl
    omega

/-- An archive whose staging directory is behind a link. -/
theorem extraction_confined_linked : ∃ h : Host, h.log.length = 6 ∧ Plain h.tree linkedStaging ∧
    ∀ e ∈ h.log, e.Confined (cleanArg testGround.staging) linkedStaging := by
  have heval : ((extractor testDecoders testGround 100 [] .tarGz).run
      (Prog.faulty (Host.answer []) failed) (⟨linkedTree, none, []⟩, replicate 20 none)).map
        (fun r => r.2.1.log.length) = some 6 := by decide +kernel
  obtain ⟨⟨result, h, rest⟩, hrun, hlength⟩ := map_eq_some_iff.mp heval
  obtain ⟨-, hplain, hconfined⟩ :=
    extraction_confined testDecoders testGround 100 [] .tarGz fresh_linked hrun
  exact ⟨h, hlength, hplain, hconfined⟩

end PowerManage.Remote.Confinement
