import PowerManage.Exec.Capture
import PowerManage.Pkg.Pin

/-!
# What apt has installed

Four operations of the apt backend say what is installed, and each asks dpkg in its own way.
`IsInstalled` is whether dpkg knows the package, `InstalledVersion` prints the versions that it has
of it, `InstalledCount` counts the entries of the database, and `List` keeps the entries with
"installed" in their status.  That text is also in `half-installed` and `not-installed`, and an entry
stays in the database when its package is removed and its configuration is not (`removed_package`).

A description follows its entry over several lines, all of which `List` reads: it takes a line with
enough tabs for an entry, and sees none of the lines after `MaxOutputBytes` or after a line that does
not fit the scanner.
-/

namespace PowerManage.Pkg.Apt

open PathName Sections Exec Repo Pin List

/-! ## The database -/

/-- The state that dpkg is asked for. -/
inductive Want
  | unknown
  | install
  | hold
  | deinstall
  | purge
deriving DecidableEq

/-- The error flag of dpkg. -/
inductive Flag
  | ok
  | reinstReq
deriving DecidableEq

/-- The state that a package is in. -/
inductive Status
  | notInstalled
  | configFiles
  | halfInstalled
  | unpacked
  | halfConfigured
  | triggersAwaited
  | triggersPending
  | installed
deriving DecidableEq

def Want.text : Want → Str
  | .unknown => "unknown"
  | .install => "install"
  | .hold => "hold"
  | .deinstall => "deinstall"
  | .purge => "purge"

def Flag.text : Flag → Str
  | .ok => "ok"
  | .reinstReq => "reinstreq"

def Status.text : Status → Str
  | .notInstalled => "not-installed"
  | .configFiles => "config-files"
  | .halfInstalled => "half-installed"
  | .unpacked => "unpacked"
  | .halfConfigured => "half-configured"
  | .triggersAwaited => "triggers-awaited"
  | .triggersPending => "triggers-pending"
  | .installed => "installed"

def isPackageName : Str → Bool :=
  shaped isAlnum fun c => isAlnum c || ['-', '+', '.', '_'].contains c

def isCell (s : Str) : Bool := s.all fun c => c ≠ '\t' && c ≠ '\n'

def isContinued (l : Line) : Bool :=
  (l.head? = some ' ' || l.head? = some '\t') && l.all (· ≠ '\n')

/-- The entry of a package, of which there may be one for each architecture. -/
structure Entry where
  package : Str
  version : Str
  architecture : Str
  want : Want
  flag : Flag
  status : Status
  installedSize : Str
  synopsis : Str
  extended : List Line
  named : isPackageName package = true
  plain : version.all (fun c => !isSpace c) = true
  cells : isCell architecture = true ∧ isCell installedSize = true
  single : synopsis.all (· ≠ '\n') = true
  continued : extended.all isContinued = true
  versioned : status = .installed → version ≠ []

abbrev Database := List Entry

def Entry.statusText (e : Entry) : Str :=
  e.want.text ++ ' ' :: (e.flag.text ++ ' ' :: e.status.text)

/-! ## The commands -/

/-- A line of `dpkg-query`: it starts an entry, or goes on with one. -/
inductive Printed
  | first (e : Entry)
  | more (l : Line)

def Entry.firstLine (e : Entry) : Line :=
  ['\t'].intercalate [e.package, e.version, e.architecture, e.statusText, e.installedSize] ++
    '\t' :: e.synopsis

def Printed.text : Printed → Line
  | .first e => e.firstLine
  | .more l => l

variable (db : Database)

def printed : List Printed :=
  db.flatMap fun e => .first e :: e.extended.map .more

def named (name : Str) : List Entry := db.filter fun e => e.package = name

/-- The output of `dpkg-query -W -f=${Package}\t…\t${Description}\n`. -/
def queryAll : Str := stdout (unlines ((printed db).map Printed.text))

def status (name : Str) : Int := if named db name = [] then 1 else 0

/-- The output of `dpkg-query -W -f=${Version}`, if it succeeds. -/
def queryVersion (name : Str) : Option Str :=
  if named db name = [] then none else some (stdout ((named db name).flatMap Entry.version))

def queryDots : Str := stdout (unlines (db.map fun _ => ['.']))

def showHold : Str :=
  stdout (unlines ((db.filter fun e => e.want = .hold).map Entry.package))

/-! ## The backend -/

/-- A package as the manager reports it. -/
structure Package where
  name : Str
  version : Str
  architecture : Str
  description : Str
  status : Str
  size : Int
  repository : Str
  pinned : Bool
deriving DecidableEq

def parseInt : Str → Int
  | '-' :: w => max (-2 ^ 63) (-((Text.readDecimal w).getD 0))
  | '+' :: w => min (2 ^ 63 - 1) ((Text.readDecimal w).getD 0)
  | w => min (2 ^ 63 - 1) ((Text.readDecimal w).getD 0)

def getPinnedSet (out : Str) : List Str :=
  ((scanLines out).map trimSpace).filter (· ≠ [])

def installedText : Str := "installed"

/-- A package that counts as installed, by its status column. -/
def parseLine (pinned : List Str) (l : Line) : Option Package :=
  match l.splitOn '\t' with
  | name :: version :: architecture :: status :: size :: rest =>
    if Text.contains status installedText then
      some {
        name, version, architecture
        description := rest.headD []
        status := installedText
        size := (parseInt size * 1024).bmod (2 ^ 64)
        repository := []
        pinned := name ∈ pinned }
    else none
  | _ => none

def list : List Package :=
  (scanLines (queryAll db)).filterMap (parseLine (getPinnedSet (showHold db)))

def isInstalled (name : Str) : Except Str Bool :=
  match validatePackageName name with
  | some err => .error err
  | none => .ok (status db name = 0)

/-- The version that `dpkg-query` prints. -/
def installedVersion (name : Str) : Except Str Str :=
  match validatePackageName name with
  | some err => .error err
  | none =>
    match queryVersion db name with
    | none => .ok []
    | some out => .ok (trimSpace out)

def countNonEmptyLines (data : Str) : Nat :=
  ((lines data).filter fun l => trimSpace l ≠ []).length

def installedCount : Nat := countNonEmptyLines (queryDots db)

/-! ## Agreement -/

/-- dpkg has the package installed, for some architecture. -/
def Installed (name : Str) : Prop :=
  ∃ e ∈ db, e.package = name ∧ e.status = .installed

/-- The four operations agree with each other and with the status. -/
structure OneNotion (db : Database) : Prop where
  isInstalled : ∀ name, Apt.isInstalled db name = .ok true ↔ Installed db name
  installedVersion : ∀ name,
    (∃ v, Apt.installedVersion db name = .ok v ∧ v ≠ []) ↔ Installed db name
  list : ∀ name, (∃ p ∈ Apt.list db, p.name = name) ↔ Installed db name
  installedCount : Apt.installedCount db = (Apt.list db).length

/-- The lines that `List` sees, after `b` bytes, and those that it does not. -/
def sight (b : Nat) : List Printed → List Printed × List Printed
  | [] => ([], [])
  | p :: ps =>
    if b + (byteCount p.text + 1) ≤ maxOutputBytes ∧ fits p.text = true then
      let rest := sight (b + (byteCount p.text + 1)) ps
      (p :: rest.1, rest.2)
    else ([], p :: ps)

def seen : List Printed := (sight 0 (printed db)).1

def unseen : List Printed := (sight 0 (printed db)).2

def Status.listed : Status → Bool
  | .installed | .halfInstalled | .notInstalled => true
  | _ => false

/-- Every package of the database is installed, and `List` sees all its entries and takes nothing
else for one. -/
structure Regular (db : Database) : Prop where
  short : ∀ e ∈ db, e.package.length ≤ 256
  listed : ∀ e ∈ db, e.status.listed = true
  installed : ∀ e ∈ db, Installed db e.package
  seen : ∀ e, .first e ∉ unseen db
  quiet : ∀ l, .more l ∈ Apt.seen db → parseLine [] (dropCR l) = none

/-! ## The lines that are seen -/

variable {db : Database} {e : Entry} {l : Line} {name : Str} {pinned : List Str}

theorem sight_append (b : Nat) (ps : List Printed) : (sight b ps).1 ++ (sight b ps).2 = ps := by
  induction ps generalizing b with
  | nil => rfl
  | cons p ps ih =>
    rw [sight]
    split_ifs
    · exact congrArg (p :: ·) (ih _)
    · rfl

theorem takeWhile_kept (b : Nat) (ps : List Printed) :
    (kept byteCount b (ps.map Printed.text)).takeWhile fits = (sight b ps).1.map Printed.text := by
  induction ps generalizing b with
  | nil => rfl
  | cons p ps ih =>
    rw [map_cons, kept, sight]
    by_cases hle : b + (byteCount p.text + 1) ≤ maxOutputBytes
    · rw [if_pos hle, takeWhile_cons]
      by_cases hfits : fits p.text = true
      · rw [if_pos hfits, if_pos ⟨hle, hfits⟩, ih]
        rfl
      · rw [if_neg hfits, if_neg fun h => hfits h.2]
        rfl
    · rw [if_neg hle, if_neg fun h => hle h.1]
      rfl

theorem total_sight {b : Nat} (hb : b ≤ maxOutputBytes) (ps : List Printed) :
    b + total byteCount ((sight b ps).1.map Printed.text) ≤ maxOutputBytes := by
  induction ps generalizing b with
  | nil => exact hb
  | cons p ps ih =>
    rw [sight]
    split_ifs with h
    · rw [map_cons, total_cons, ← add_assoc]
      exact ih h.1
    · exact hb

/-! ## The fields of an entry -/

theorem contains_status (w : Want) (f : Flag) (s : Status) :
    Text.contains (w.text ++ ' ' :: (f.text ++ ' ' :: s.text)) installedText = s.listed := by
  cases w <;> cases f <;> cases s <;> rfl

variable {s : Str}

theorem isCell_iff : isCell s = true ↔ '\t' ∉ s ∧ '\n' ∉ s := by
  rw [isCell, all_eq_true]
  constructor
  · intro h
    exact ⟨fun hmem => absurd (h _ hmem) (by decide), fun hmem => absurd (h _ hmem) (by decide)⟩
  · intro h c hc
    have htab : c ≠ '\t' := fun heq => h.1 (heq ▸ hc)
    have hend : c ≠ '\n' := fun heq => h.2 (heq ▸ hc)
    simp [htab, hend]

theorem isCell_of_isPackageName (h : isPackageName s = true) : isCell s = true := by
  cases s with
  | nil => cases h
  | cons c s =>
    rw [isPackageName, shaped, Bool.and_eq_true, all_eq_true] at h
    have hall : ∀ x ∈ c :: s, (isAlnum x || ['-', '+', '.', '_'].contains x) = true := by
      intro x hx
      rcases mem_cons.mp hx with rfl | hx
      · rw [h.1, Bool.true_or]
      · exact h.2 x hx
    exact isCell_iff.mpr ⟨fun hmem => absurd (hall _ hmem) (by decide),
      fun hmem => absurd (hall _ hmem) (by decide)⟩

def Entry.cellTexts (e : Entry) : List Str :=
  [e.package, e.version, e.architecture, e.statusText, e.installedSize]

theorem Entry.isCell_of_mem (e : Entry) (hs : s ∈ e.cellTexts) : isCell s = true := by
  have hversion : ∀ c ∈ e.version, (!isSpace c) = true := all_eq_true.mp e.plain
  have hstatus : ∀ (w : Want) (f : Flag) (t : Status),
      isCell (w.text ++ ' ' :: (f.text ++ ' ' :: t.text)) = true := by
    intro w f t
    cases w <;> cases f <;> cases t <;> rfl
  simp only [cellTexts, mem_cons, not_mem_nil, or_false] at hs
  rcases hs with rfl | rfl | rfl | rfl | rfl
  · exact isCell_of_isPackageName e.named
  · exact isCell_iff.mpr ⟨fun h => absurd (hversion _ h) (by decide),
      fun h => absurd (hversion _ h) (by decide)⟩
  · exact e.cells.1
  · exact hstatus ..
  · exact e.cells.2

theorem Entry.notMem_firstLine (e : Entry) : '\n' ∉ e.firstLine := by
  intro hmem
  rcases mem_append.mp hmem with hmem | hmem
  · rcases Text.mem_intercalate hmem with heq | ⟨s, hs, hmem⟩
    · cases heq
    · exact (isCell_iff.mp (e.isCell_of_mem hs)).2 hmem
  · rcases mem_cons.mp hmem with heq | hmem
    · cases heq
    · exact absurd (all_eq_true.mp e.single _ hmem) (by decide)

theorem isContinued_of_mem {e : Entry} (h : l ∈ e.extended) : isContinued l = true :=
  all_eq_true.mp e.continued l h

theorem of_mem_printed {p : Printed} (h : p ∈ printed db) :
    (∃ e ∈ db, p = .first e) ∨ ∃ l, p = .more l ∧ isContinued l = true := by
  obtain ⟨e, he, hp⟩ := mem_flatMap.mp h
  rcases mem_cons.mp hp with rfl | hp
  · exact .inl ⟨e, he, rfl⟩
  · obtain ⟨l, hl, rfl⟩ := mem_map.mp hp
    exact .inr ⟨l, rfl, isContinued_of_mem hl⟩

theorem notMem_text {p : Printed} (hp : p ∈ printed db) : '\n' ∉ p.text := by
  rcases of_mem_printed hp with ⟨e, -, rfl⟩ | ⟨l, rfl, hl⟩
  · exact e.notMem_firstLine
  · rw [isContinued, Bool.and_eq_true] at hl
    exact fun hmem => absurd (all_eq_true.mp hl.2 _ hmem) (by decide)

/-! ## What `List` makes of a line -/

theorem dropCR_append_cons {c : Char} (hc : c ≠ '\r') (u v : Str) :
    dropCR (u ++ c :: v) = u ++ c :: dropCR v := by
  rcases eq_nil_or_concat v with rfl | ⟨v, d, rfl⟩
  · simp [dropCR, hc]
  have hshape : u ++ c :: (v ++ [d]) = (u ++ c :: v) ++ [d] := by simp
  rw [concat_eq_append, hshape, dropCR, dropCR, getLast?_concat, getLast?_concat]
  split_ifs
  · rw [dropLast_concat, dropLast_concat]
  · exact hshape.symm

/-- The name that `List` reads in a line, if it takes it for an entry. -/
def nameOf (p : Printed) : Option Str :=
  (parseLine [] (dropCR p.text)).map Package.name

theorem parseLine_name (pinned : List Str) (l : Line) :
    (parseLine pinned l).map Package.name = (parseLine [] l).map Package.name := by
  unfold parseLine
  split
  · split_ifs <;> rfl
  · rfl

theorem nameOf_first (e : Entry) :
    nameOf (.first e) = if e.status.listed then some e.package else none := by
  have hsplit : (dropCR e.firstLine).splitOn '\t' =
      e.cellTexts ++ (dropCR e.synopsis).splitOn '\t' := by
    rw [Entry.firstLine, dropCR_append_cons (by decide)]
    refine (splitOnP_append_cons _ _ (by decide)).trans ?_
    exact congrArg (· ++ _) (splitOn_intercalate '\t'
      (fun s hs => (isCell_iff.mp (e.isCell_of_mem hs)).1) (cons_ne_nil _ _))
  rw [nameOf, Printed.text, parseLine, hsplit]
  dsimp only [Entry.cellTexts, cons_append]
  rw [Entry.statusText, contains_status]
  split_ifs <;> rfl

theorem splitOn_of_parseLine {p : Package} (h : parseLine pinned l = some p) :
    ∃ rest, l.splitOn '\t' = p.name :: rest := by
  unfold parseLine at h
  split at h
  · rename_i heq
    split_ifs at h
    cases h
    exact ⟨_, heq⟩
  · cases h

theorem nameOf_more (hl : isContinued l = true) (h : nameOf (.more l) = some name) :
    isPackageName name = false := by
  obtain ⟨p, hp, rfl⟩ := Option.map_eq_some_iff.mp h
  obtain ⟨rest, hrest⟩ := splitOn_of_parseLine hp
  rw [isContinued, Bool.and_eq_true, Bool.or_eq_true, decide_eq_true_eq, decide_eq_true_eq] at hl
  have hhead : ∃ c t, dropCR l = c :: t ∧ isAlnum c = false := by
    cases l with
    | nil => rcases hl.1 with h | h <;> cases h
    | cons c t =>
      rcases hl.1 with h | h <;> cases h
      · exact ⟨_, _, dropCR_append_cons (by decide) [] t, rfl⟩
      · exact ⟨_, _, dropCR_append_cons (by decide) [] t, rfl⟩
  obtain ⟨c, t, hline, hc⟩ := hhead
  have hjoin : ['\t'].intercalate (p.name :: rest) = c :: t := by
    rw [← hrest, ← hline]
    exact intercalate_splitOn '\t'
  cases hname : p.name with
  | nil => rfl
  | cons d n =>
    have hd : d = c := by
      rw [hname] at hjoin
      cases rest <;> exact (cons.inj hjoin).1
    rw [isPackageName, shaped, hd, hc, Bool.false_and]

theorem takeWhile_append_subset {α : Type} (f : α → Bool) (xs ys : List α) :
    ∃ zs ⊆ ys, (xs ++ ys).takeWhile f = xs.takeWhile f ++ zs := by
  rw [takeWhile_append]
  split_ifs with hlen
  · refine ⟨ys.takeWhile f, (takeWhile_sublist f).subset, ?_⟩
    rw [( takeWhile_prefix f).eq_of_length hlen]
  · exact ⟨[], nil_subset _, (append_nil _).symm⟩

theorem list_eq (db : Database) :
    list db = (seen db).filterMap fun p =>
      parseLine (getPinnedSet (showHold db)) (dropCR p.text) := by
  have hlines : ∀ l ∈ (printed db).map Printed.text, '\n' ∉ l := by
    intro l hl
    obtain ⟨p, hp, rfl⟩ := mem_map.mp hl
    exact notMem_text hp
  rw [list, queryAll, scanLines, fileLines_stdout hlines]
  obtain ⟨zs, hzs, htake⟩ := takeWhile_append_subset fits
    (kept byteCount 0 ((printed db).map Printed.text))
    (if total byteCount ((printed db).map Printed.text) > maxOutputBytes then [[], truncated] else [])
  -- the note is not taken for an entry
  have hnone : (zs.map dropCR).filterMap (parseLine (getPinnedSet (showHold db))) = [] := by
    rw [filterMap_eq_nil_iff]
    intro l hl
    obtain ⟨z, hz, rfl⟩ := mem_map.mp hl
    have hmem : z ∈ [[], truncated] := by
      have := hzs hz
      split_ifs at this
      · exact this
      · cases this
    rcases mem_cons.mp hmem with rfl | hmem
    · rfl
    · rw [mem_singleton.mp hmem]
      rfl
  rw [htake, takeWhile_kept, map_append, filterMap_append, hnone, append_nil,
    filterMap_map, filterMap_map]
  rfl

theorem map_name_list (db : Database) :
    (list db).map Package.name = (seen db).filterMap nameOf := by
  rw [list_eq, map_filterMap]
  exact filterMap_congr fun p _ => parseLine_name _ _

/-! ## The entries that are seen -/

def Printed.entry? : Printed → Option Entry
  | .first e => some e
  | .more _ => none

def firsts (ps : List Printed) : List Entry := ps.filterMap Printed.entry?

theorem mem_firsts {ps : List Printed} : e ∈ firsts ps ↔ .first e ∈ ps := by
  rw [firsts, mem_filterMap]
  constructor
  · rintro ⟨p, hp, h⟩
    cases p with
    | first e' => cases h; exact hp
    | more l => cases h
  · exact fun h => ⟨_, h, rfl⟩

theorem firsts_printed (db : Database) : firsts (printed db) = db := by
  induction db with
  | nil => rfl
  | cons e db ih =>
    have hmore : (e.extended.map Printed.more).filterMap Printed.entry? = [] := by
      simp [Printed.entry?]
    rw [firsts, printed] at ih
    rw [firsts, printed, flatMap_cons, filterMap_append, ih, filterMap_cons, hmore]
    rfl

theorem firsts_seen_append (db : Database) : firsts (seen db) ++ firsts (unseen db) = db := by
  rw [firsts, firsts, ← filterMap_append, seen, unseen, sight_append]
  exact firsts_printed db

theorem two_mul_length_firsts_le (ps : List Printed) :
    2 * (firsts ps).length ≤ total byteCount (ps.map Printed.text) := by
  induction ps with
  | nil => exact Nat.zero_le _
  | cons p ps ih =>
    rw [map_cons, total_cons]
    cases p with
    | first e =>
      have hsize : 1 ≤ byteCount e.firstLine := by
        rw [Entry.firstLine, byteCount, map_append, sum_append, map_cons,
          sum_cons]
        have htab : '\t'.utf8Size = 1 := rfl
        omega
      have hcons : (firsts (.first e :: ps)).length = (firsts ps).length + 1 := rfl
      rw [Printed.text]
      omega
    | more l =>
      have hcons : firsts (.more l :: ps) = firsts ps := rfl
      rw [hcons]
      omega

theorem two_mul_length_firsts_seen (db : Database) :
    2 * (firsts (seen db)).length ≤ maxOutputBytes := by
  have htotal := total_sight (Nat.zero_le _) (printed db)
  rw [zero_add] at htotal
  exact (two_mul_length_firsts_le _).trans htotal

/-! ## The count -/

theorem length_kept_dots (b n : Nat) :
    (kept byteCount b (replicate n ['.'])).length = min n ((maxOutputBytes - b) / 2) := by
  have hsize : byteCount ['.'] = 1 := rfl
  induction n generalizing b with
  | zero => simp [kept]
  | succ n ih =>
    rw [replicate_succ, kept]
    split_ifs with hle
    · rw [length_cons, ih]
      omega
    · rw [length_nil]
      omega

theorem installedCount_eq (db : Database) :
    installedCount db = min db.length (maxOutputBytes / 2) +
      if 2 * db.length > maxOutputBytes then 1 else 0 := by
  have hdots : db.map (fun _ => ['.']) = replicate db.length ['.'] := map_const' ..
  have htotal : total byteCount (replicate db.length ['.']) = 2 * db.length := by
    rw [total, map_replicate, sum_replicate, mul_comm]
    rfl
  have hend : ∀ l ∈ replicate db.length ['.'], '\n' ∉ l :=
    fun l hl => eq_of_mem_replicate hl ▸ by decide
  have hkept : ∀ l ∈ kept byteCount 0 (replicate db.length ['.']), l = ['.'] :=
    fun l hl => eq_of_mem_replicate ((kept_sublist 0 _).subset hl)
  have hall : (kept byteCount 0 (replicate db.length ['.'])).filter
      (fun l => trimSpace l ≠ []) = kept byteCount 0 (replicate db.length ['.']) :=
    filter_eq_self.mpr fun l hl => hkept l hl ▸ rfl
  have hlines : ∀ l ∈ kept byteCount 0 (replicate db.length ['.']), '\n' ∉ l :=
    fun l hl => hkept l hl ▸ by decide
  rw [installedCount, countNonEmptyLines, queryDots, hdots, stdout_unlines hend, htotal]
  split_ifs
  · rw [lines_append, lines_unlines hlines, filter_append, filter_append, hall,
      length_append, length_append, length_kept_dots]
    rfl
  · rw [append_nil, lines_unlines hlines, filter_append, hall, length_append,
      length_kept_dots]
    rfl

/-! ## Packages by their names -/

theorem named_ne_nil : named db name ≠ [] ↔ ∃ e ∈ db, e.package = name := by
  rw [named]
  simp

theorem validatePackageName_eq_none :
    validatePackageName name = none ↔ validPackageName name = true := by
  unfold validatePackageName
  by_cases hnil : name = []
  · rw [hnil]
    simp [validPackageName, shaped]
  · rw [if_neg hnil]
    cases validPackageName name <;> simp

theorem validatePackageName_of_length_le (h : isPackageName name = true)
    (hlen : name.length ≤ 256) : validatePackageName name = none := by
  rw [validatePackageName_eq_none, validPackageName, Bool.and_eq_true, decide_eq_true_eq]
  refine ⟨?_, hlen⟩
  cases name with
  | nil => cases h
  | cons c s =>
    rw [isPackageName, shaped, Bool.and_eq_true, all_eq_true] at h
    rw [shaped, Bool.and_eq_true, all_eq_true]
    refine ⟨h.1, fun x hx => ?_⟩
    have hmem := h.2 x hx
    simp only [Bool.or_eq_true, contains_iff_mem, mem_cons, not_mem_nil,
      or_false] at hmem ⊢
    tauto

theorem length_le_of_validatePackageName (h : validatePackageName name = none) :
    name.length ≤ 256 := by
  rw [validatePackageName_eq_none, validPackageName, Bool.and_eq_true, decide_eq_true_eq] at h
  exact h.2

theorem isInstalled_eq_ok_true :
    isInstalled db name = .ok true ↔
      validatePackageName name = none ∧ ∃ e ∈ db, e.package = name := by
  rw [isInstalled, ← named_ne_nil]
  cases validatePackageName name with
  | some err => simp
  | none =>
    by_cases hnamed : named db name = [] <;> simp [status]

theorem trimSpace_stdout_ne_nil (hs : ∀ c ∈ s, isSpace c = false) :
    trimSpace (stdout s) ≠ [] ↔ s ≠ [] := by
  by_cases hnil : s = []
  · rw [hnil]
    exact iff_of_false (fun h => h rfl) (fun h => h rfl)
  have hlines : fileLines s = [s] := by
    have hend : '\n' ∉ s := fun hmem => absurd (hs _ hmem) (by decide)
    rw [fileLines, lines_of_notMem hend, if_neg (by simpa using hnil)]
  refine iff_of_true ?_ hnil
  rw [stdout, hlines, captured_eq, kept, total_cons, total_nil]
  split_ifs with hle hgt
  · omega
  · rw [kept, flatMap_singleton, append_nil, Text.trimSpace_line ⟨hnil, hs⟩]
    exact hnil
  · exact (by decide : trimSpace ('\n' :: truncated) ≠ [])
  · omega

theorem installedVersion_ne_nil :
    (∃ v, installedVersion db name = .ok v ∧ v ≠ []) ↔
      validatePackageName name = none ∧ ∃ e ∈ db, e.package = name ∧ e.version ≠ [] := by
  have hplain : ∀ c ∈ (named db name).flatMap Entry.version, isSpace c = false := by
    intro c hc
    obtain ⟨e, -, hc⟩ := mem_flatMap.mp hc
    exact Bool.not_eq_true' _ ▸ all_eq_true.mp e.plain c hc
  have hversion : (named db name).flatMap Entry.version ≠ [] ↔
      ∃ e ∈ db, e.package = name ∧ e.version ≠ [] := by
    rw [named]
    simp
  rw [installedVersion, queryVersion, ← hversion]
  cases validatePackageName name with
  | some err => simp
  | none =>
    by_cases hnamed : named db name = []
    · simp [hnamed]
    · simp [hnamed, ← trimSpace_stdout_ne_nil hplain]

/-! ## When the four agree -/

theorem filterMap_nameOf (hquiet : ∀ l, .more l ∈ seen db → nameOf (.more l) = none) :
    (seen db).filterMap nameOf =
      ((firsts (seen db)).filter fun e => e.status.listed).map Entry.package := by
  rw [firsts, filter_filterMap, map_filterMap]
  refine filterMap_congr fun p hp => ?_
  cases p with
  | first e =>
    rw [nameOf_first]
    by_cases hlisted : e.status.listed = true <;> simp [Printed.entry?, hlisted]
  | more l => exact hquiet l hp

theorem firsts_seen_of_regular (h : Regular db) : firsts (seen db) = db := by
  have hunseen : firsts (unseen db) = [] :=
    eq_nil_iff_forall_not_mem.mpr fun e he => h.seen e (mem_firsts.mp he)
  have happend := firsts_seen_append db
  rwa [hunseen, append_nil] at happend

theorem map_name_of_regular (h : Regular db) : (list db).map Package.name = db.map Entry.package := by
  have hquiet : ∀ l, .more l ∈ seen db → nameOf (.more l) = none :=
    fun l hl => Option.map_eq_none_iff.mpr (h.quiet l hl)
  rw [map_name_list, filterMap_nameOf hquiet, firsts_seen_of_regular h,
    filter_eq_self.mpr h.listed]

theorem mem_map_name : (∃ p ∈ list db, p.name = name) ↔ name ∈ (list db).map Package.name :=
  mem_map.symm

theorem oneNotion_of_regular (h : Regular db) : OneNotion db := by
  have hvalid : ∀ e ∈ db, validatePackageName e.package = none :=
    fun e he => validatePackageName_of_length_le e.named (h.short e he)
  refine ⟨fun name => ?_, fun name => ?_, fun name => ?_, ?_⟩
  · rw [isInstalled_eq_ok_true]
    constructor
    · rintro ⟨-, e, he, rfl⟩
      exact h.installed e he
    · rintro ⟨e, he, rfl, -⟩
      exact ⟨hvalid e he, e, he, rfl⟩
  · rw [installedVersion_ne_nil]
    constructor
    · rintro ⟨-, e, he, rfl, -⟩
      exact h.installed e he
    · rintro ⟨e, he, rfl, hstatus⟩
      exact ⟨hvalid e he, e, he, rfl, e.versioned hstatus⟩
  · rw [mem_map_name, map_name_of_regular h]
    constructor
    · intro hmem
      obtain ⟨e, he, rfl⟩ := mem_map.mp hmem
      exact h.installed e he
    · rintro ⟨e, he, rfl, -⟩
      exact mem_map_of_mem he
  · have hlen := two_mul_length_firsts_seen db
    have hlist := congrArg length (map_name_of_regular h)
    rw [firsts_seen_of_regular h] at hlen
    rw [length_map, length_map] at hlist
    rw [installedCount_eq, if_neg (by omega)]
    omega

theorem isPackageName_of_installed (h : Installed db name) : isPackageName name = true := by
  obtain ⟨e, -, rfl, -⟩ := h
  exact e.named

theorem quiet_of_oneNotion (h : OneNotion db) (l : Line) (hl : .more l ∈ seen db) :
    nameOf (.more l) = none := by
  cases hname : nameOf (.more l) with
  | none => rfl
  | some name =>
    have hmem : name ∈ (list db).map Package.name := by
      rw [map_name_list]
      exact mem_filterMap.mpr ⟨_, hl, hname⟩
    have hpackage := isPackageName_of_installed ((h.list name).mp (mem_map_name.mpr hmem))
    have hprinted : .more l ∈ printed db := by
      rw [← sight_append 0 (printed db)]
      exact mem_append_left _ hl
    rcases of_mem_printed hprinted with ⟨e, -, heq⟩ | ⟨l', heq, hcont⟩
    · cases heq
    · cases heq
      rw [nameOf_more hcont hname] at hpackage
      cases hpackage

theorem regular_of_oneNotion (h : OneNotion db) : Regular db := by
  have hquiet := quiet_of_oneNotion h
  have hnames : (list db).map Package.name =
      ((firsts (seen db)).filter fun e => e.status.listed).map Entry.package := by
    rw [map_name_list, filterMap_nameOf hquiet]
  -- as many entries are listed as there are, so that all are seen and listed
  have hlen : (list db).length = ((firsts (seen db)).filter fun e => e.status.listed).length := by
    simpa only [length_map] using congrArg length hnames
  have hfilter := length_filter_le (fun e : Entry => e.status.listed) (firsts (seen db))
  have happend := congrArg length (firsts_seen_append db)
  have hcap := two_mul_length_firsts_seen db
  have hcount := h.installedCount
  rw [length_append] at happend
  rw [installedCount_eq] at hcount
  have hall : ((firsts (seen db)).filter fun e => e.status.listed).length =
      (firsts (seen db)).length ∧ (firsts (unseen db)).length = 0 := by
    split_ifs at hcount <;> omega
  have hunseen : firsts (unseen db) = [] := length_eq_zero_iff.mp hall.2
  have hseen := firsts_seen_append db
  rw [hunseen, append_nil] at hseen
  rw [hseen] at hnames hall
  have hlisted : ∀ e ∈ db, e.status.listed = true := length_filter_eq_length_iff.mp hall.1
  have hinstalled : ∀ e ∈ db, Installed db e.package := by
    intro e he
    refine (h.list e.package).mp (mem_map_name.mpr ?_)
    rw [hnames, filter_eq_self.mpr hlisted]
    exact mem_map_of_mem he
  refine ⟨fun e he => ?_, hlisted, hinstalled, fun e he => ?_, fun l hl => ?_⟩
  · have hok := (h.isInstalled e.package).mpr (hinstalled e he)
    exact length_le_of_validatePackageName (isInstalled_eq_ok_true.mp hok).1
  · exact not_mem_nil (hunseen ▸ mem_firsts.mpr he)
  · exact Option.map_eq_none_iff.mp (hquiet l hl)

/-- The four operations agree with dpkg's status if and only if every package of the database is
installed, `List` sees all its entries, and it takes nothing else for one. -/
theorem oneNotion_iff (db : Database) : OneNotion db ↔ Regular db :=
  ⟨regular_of_oneNotion, oneNotion_of_regular⟩

def residual : Entry where
  package := "nginx"
  version := "1.24.0-2"
  architecture := "amd64"
  want := .deinstall
  flag := .ok
  status := .configFiles
  installedSize := "1300"
  synopsis := "small web server"
  extended := [" It serves files."]
  named := by decide
  plain := by decide
  cells := by decide
  single := by decide
  continued := by decide
  versioned := by decide

/-- A package of which only the configuration is left. -/
theorem removed_package :
    isInstalled [residual] residual.package = .ok true ∧
      installedVersion [residual] residual.package = .ok residual.version ∧
      list [residual] = [] ∧ installedCount [residual] = 1 ∧
      ¬Installed [residual] residual.package ∧ ¬OneNotion [residual] := by
  have hok : isInstalled [residual] residual.package = .ok true := rfl
  have hnot : ¬Installed [residual] residual.package := by
    rintro ⟨e, he, -, hstatus⟩
    rw [mem_singleton.mp he] at hstatus
    cases hstatus
  refine ⟨hok, by decide +kernel, by decide +kernel, by decide +kernel, hnot, fun h => hnot ?_⟩
  exact (h.isInstalled _).mp hok

end PowerManage.Pkg.Apt
