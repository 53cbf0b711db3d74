import PowerManage.Exec.Capture
import PowerManage.Lib.Stanzas
import PowerManage.Repo.Validate

/-!
# Pinning packages in pacman.conf

`Pin` and `Unpin` read the packages that `IgnorePkg` lists, and write the file anew with one
`IgnorePkg` line: in the place of the first one, or, if there is none, after the text `[options]`.

The reader and the writer take every line that begins with `IgnorePkg` for the directive, in whatever
section it is, find `[options]` also in a comment, and read lines with a scanner that stops at a line
which does not fit its buffer.  So a pin may end up outside the section (`pin_in_comment`), where
pacman does not read it, or not be written at all.  And the file is read with `cat`: of a file past
the runner's cap, what is written back is the part that was kept, with the note behind it.
-/

namespace PowerManage.Pkg.Pin

open PathName Sections Stanzas Repo List

/-! ## Names -/

/-- `^[a-zA-Z0-9][a-zA-Z0-9._+:/@~-]{0,255}$` -/
def validPackageName (name : Str) : Bool :=
  shaped isAlnum (fun c => isAlnum c || ['.', '_', '+', ':', '/', '@', '~', '-'].contains c) name &&
    name.length ≤ 256

/-- `^[a-zA-Z0-9][a-zA-Z0-9._+-]*$` -/
def validPacmanPkgName : Str → Bool :=
  shaped isAlnum fun c => isAlnum c || ['.', '_', '+', '-'].contains c

def validatePackageName (name : Str) : Option Str :=
  if name = [] then some "package name is empty"
  else if !validPackageName name then
    some ("invalid package name " ++ Text.quote name ++
      ": must start with [a-zA-Z0-9] and contain only [a-zA-Z0-9._+:/@~-]")
  else none

def validatePackageNames (names : List Str) : Option Str :=
  names.findSome? validatePackageName

/-! ## The editor -/

def ignorePkg : Str := "IgnorePkg"

def isIgnorePkg (l : Line) : Bool := hasPrefix (trimSpace l) ignorePkg

/-- The names in the directive as the editor reads it. -/
def ignoredOf (l : Line) : List Str :=
  if isIgnorePkg l then
    match Text.cut '=' (trimSpace l) with
    | some (_, value) => Text.fields (trimSpace value)
    | none => []
  else []

def getIgnoredPackages (conf : Str) : List Str :=
  (scanLines conf).flatMap ignoredOf

def directive (ignored : List Str) : Line :=
  ignorePkg ++ " = " ++ [' '].intercalate ignored

/-- The loop of `buildIgnorePkgConf`: the text, and whether the directive has been found. -/
def rewrite (ignored : List Str) : Bool → List Line → Str × Bool
  | found, [] => ([], found)
  | found, l :: ls =>
    if isIgnorePkg l then
      let rest := rewrite ignored true ls
      (if !found && ignored ≠ [] then directive ignored ++ '\n' :: rest.1 else rest.1, rest.2)
    else
      let rest := rewrite ignored found ls
      (l ++ '\n' :: rest.1, rest.2)

def find (sub : Str) : Str → Option (Str × Str)
  | [] => if hasPrefix [] sub then some ([], []) else none
  | c :: s =>
    if hasPrefix (c :: s) sub then some ([], c :: s)
    else (find sub s).map fun x => (c :: x.1, x.2)

def options : Str := "options"

/-- The directive after the first line with the text `[options]` in it. -/
def insertIgnorePkg (ignored : List Str) (content : Str) : Str :=
  match find (header options) content with
  | none => content
  | some (u, v) =>
    match Text.cut '\n' v with
    | none => content
    | some (line, rest) => u ++ line ++ '\n' :: directive ignored ++ '\n' :: rest

def buildIgnorePkgConf (conf : Str) (ignored : List Str) : Str :=
  let r := rewrite ignored false (scanLines conf)
  if !r.2 && ignored ≠ [] then insertIgnorePkg ignored r.1 else r.1

/-- Pinning, and its opposite. -/
inductive Op
  | pin
  | unpin
deriving DecidableEq

def ignoredAfter (conf : Str) (names : List Str) : Op → List Str
  | .pin => names.foldl (fun acc name => if name ∈ acc then acc else acc ++ [name])
      (getIgnoredPackages conf)
  | .unpin => (getIgnoredPackages conf).filter fun name => name ∉ names

def checkPin (names : List Str) : Op → Option Str
  | .pin => (names.find? fun name => !validPacmanPkgName name).map fun name =>
      "invalid package name " ++ Text.quote name ++
        ": must match [a-zA-Z0-9][a-zA-Z0-9._+-]*"
  | .unpin => none

/-- `readConf`: what the runner keeps of the output of `cat`. -/
def readConf (conf : Str) : Str := Exec.stdout conf

/-- `Pin` and `Unpin`: the file that `tee` writes in the place of `conf`. -/
def edit (op : Op) (names : List Str) (conf : Str) :
    Except Str Str :=
  match validatePackageNames names with
  | some err => .error err
  | none =>
    if names = [] then .ok conf
    else
      match checkPin names op with
      | some err => .error err
      | none =>
        let seen := readConf conf
        .ok (buildIgnorePkgConf seen (ignoredAfter seen names op))

/-! ## What pacman reads -/

/-- The packages that the `IgnorePkg` directives of `[options]` list. -/
def pacmanIgnoredIn : Option Str → List Line → List Str
  | _, [] => []
  | cur, l :: ls =>
    match confItem l with
    | .header name => pacmanIgnoredIn (some name) ls
    | .field key value =>
      (if cur = some options ∧ key = ignorePkg then Text.words (· = ' ') value else []) ++
        pacmanIgnoredIn cur ls
    | _ => pacmanIgnoredIn cur ls

def pacmanIgnored (conf : Str) : List Str := pacmanIgnoredIn none (fileLines conf)

def isDirective (l : Line) : Bool :=
  match confItem l with
  | .field key _ => key = ignorePkg
  | _ => false

def acceptedIn : Option Str → List Line → Bool
  | _, [] => true
  | cur, l :: ls =>
    match confItem l with
    | .header name => acceptedIn (some name) ls
    | .field _ _ => cur.isSome && acceptedIn cur ls
    | _ => acceptedIn cur ls

def accepted (conf : Str) : Bool := acceptedIn none (fileLines conf)

/-! ## What should hold -/

/-- Whether a package should be ignored afterwards. -/
def Wanted (op : Op) (old named : Prop) : Prop :=
  match op with
  | .pin => old ∨ named
  | .unpin => old ∧ ¬named

/-- The sets that are read are those asked for, and no other line has changed. -/
structure Edited (op : Op) (names : List Str) (conf conf' : Str) : Prop where
  ignored : ∀ x, x ∈ getIgnoredPackages conf' ↔
    Wanted op (x ∈ getIgnoredPackages conf) (x ∈ names)
  pacman : ∀ x, x ∈ pacmanIgnored conf' ↔ Wanted op (x ∈ pacmanIgnored conf) (x ∈ names)
  others : (fileLines conf').filter (!isDirective ·) = (fileLines conf).filter (!isDirective ·)

/-- Where the editor puts its line. -/
def spot (ls : List Line) : Option (List Line × List Line) :=
  if ls.any isIgnorePkg then
    some (ls.takeWhile (!isIgnorePkg ·),
      (ls.dropWhile (!isIgnorePkg ·)).tail.filter (!isIgnorePkg ·))
  else
    (ls.findIdx? fun l => Text.contains l (header options)).map fun i =>
      (ls.take (i + 1), ls.drop (i + 1))

def sectionAfter : Option Str → List Line → Option Str
  | cur, [] => cur
  | cur, l :: ls =>
    match confItem l with
    | .header name => sectionAfter (some name) ls
    | _ => sectionAfter cur ls

/-- The editor would put its line into the section of the options. -/
def Placed (conf : Str) : Prop :=
  ∃ u v, spot (scanLines conf) = some (u, v) ∧ sectionAfter none u = some options

/-- A configuration that the editor and pacman read alike. -/
structure Editable (op : Op) (names : List Str) (conf : Str) : Prop where
  /-- A line that is not the directive is not taken for it, and has no return at its end. -/
  plain : ∀ l ∈ fileLines conf, isDirective l = false → isIgnorePkg l = false ∧ dropCR l = l
  /-- From a line on that does not fit the scanner there are only directives. -/
  scanned : ∀ l ∈ (fileLines conf).dropWhile fits, isDirective l = true
  fits : ignoredAfter conf names op ≠ [] → fits (directive (ignoredAfter conf names op)) = true
  placed : op = .pin → Placed conf
  /-- pacman and the editor read the same, but for the names that are given; or nothing, if the line
  is not in the section. -/
  agree : ∀ x, x ∉ names →
    (x ∈ pacmanIgnored conf ↔ x ∈ getIgnoredPackages conf ∧ Placed conf)

/-! ## Lines -/

variable {sub t x : Str} {op : Op}

section

variable {l : Line} {ls u v : List Line} {ignored names : List Str} {conf conf' : Str}

theorem trimSpace_dropCR (l : Line) : trimSpace (dropCR l) = trimSpace l := by
  rw [dropCR]
  split_ifs with hlast
  · obtain ⟨t, rfl⟩ := getLast?_eq_some_iff.mp hlast
    rw [dropLast_concat, Text.trimSpace_concat (by decide)]
  · rfl

theorem isIgnorePkg_dropCR (l : Line) : isIgnorePkg (dropCR l) = isIgnorePkg l := by
  rw [isIgnorePkg, trimSpace_dropCR, isIgnorePkg]

theorem isSpace_of_isBlank {c : Char} (h : isBlank c = true) : isSpace c = true := by
  rcases isBlank_iff.mp h with rfl | ⟨hlow, hhigh⟩
  · decide
  obtain ⟨n, hn⟩ : ∃ n, c.toNat = n := ⟨_, rfl⟩
  have hc : c = Char.ofNat n := by rw [← hn, Char.ofNat_toNat]
  subst hc
  rw [hn] at hlow hhigh
  interval_cases n <;> decide

theorem notSpace_ignorePkg : ∀ c ∈ ignorePkg, isSpace c = false := by
  intro c hc
  have hall : ignorePkg.all (fun c => !isSpace c) = true := by decide
  simpa using all_eq_true.mp hall c hc

theorem isIgnorePkg_of_start (h : ignorePkg <+: l.dropWhile isBlank) : isIgnorePkg l = true := by
  obtain ⟨t, ht⟩ := h
  have hsplit : l = l.takeWhile isBlank ++ (ignorePkg ++ t) := by
    rw [ht, takeWhile_append_dropWhile]
  have hblank : ∀ c ∈ l.takeWhile isBlank, isSpace c = true := fun c hc =>
    isSpace_of_isBlank (mem_takeWhile_imp hc)
  have hword : (ignorePkg ++ t).dropWhile isSpace = ignorePkg ++ t :=
    dropWhile_cons_of_neg (by decide)
  have htrim : trimSpace l = ignorePkg ++ t.rdropWhile isSpace := by
    rw [trimSpace, hsplit, dropWhile_append_of_pos hblank, hword,
      Text.rdropWhile_append_of_neg notSpace_ignorePkg]
  rw [isIgnorePkg, htrim]
  exact isPrefixOf_iff_prefix.mpr (prefix_append _ _)

theorem start_of_strip {s : Str} (hhead : ∀ c ∈ s.head?, isBlank c = false) :
    strip s <+: s := by
  rw [strip, dropWhile_isBlank hhead]
  exact rdropWhile_prefix isBlank s

theorem isIgnorePkg_of_isDirective (h : isDirective l = true) : isIgnorePkg l = true := by
  refine isIgnorePkg_of_start (IsPrefix.trans ?_ ( rdropWhile_prefix isBlank _))
  rw [← strip]
  unfold isDirective confItem at h
  split_ifs at h
  cases hcut : Text.cut '=' (strip l) with
  | none =>
    rw [hcut] at h
    rw [of_decide_eq_true h]
  | some x =>
    obtain ⟨key, value⟩ := x
    rw [hcut] at h
    have hsplit := Text.append_of_cut hcut
    have hkey : strip key = ignorePkg := of_decide_eq_true h
    -- the key begins where the line does
    have hhead : ∀ c ∈ key.head?, isBlank c = false := by
      intro c hc
      refine isBlank_head_strip (s := l) ?_
      rw [hsplit, head?_append, hc, Option.some_or]
    rw [← hkey, hsplit]
    exact (start_of_strip hhead).trans (prefix_append _ _)

/-! ## The new line -/

theorem isWord_of_mem_getIgnoredPackages (h : x ∈ getIgnoredPackages conf) : Text.IsWord x := by
  obtain ⟨l, -, hx⟩ := mem_flatMap.mp h
  unfold ignoredOf at hx
  split_ifs at hx
  · split at hx
    · exact ⟨by simpa using (mem_filter.mp hx).2, Text.sep_of_mem_words hx⟩
    · cases hx
  · cases hx

theorem mem_foldl_insert (acc : List Str) :
    x ∈ names.foldl (fun acc name => if name ∈ acc then acc else acc ++ [name]) acc ↔
      x ∈ acc ∨ x ∈ names := by
  induction names generalizing acc with
  | nil => simp
  | cons n names ih =>
    rw [foldl_cons, ih, mem_cons]
    split_ifs with hmem
    · constructor
      · rintro (hx | hx)
        · exact .inl hx
        · exact .inr (.inr hx)
      · rintro (hx | rfl | hx)
        · exact .inl hx
        · exact .inl hmem
        · exact .inr hx
    · rw [mem_append, mem_singleton, or_assoc]

theorem mem_ignoredAfter :
    x ∈ ignoredAfter conf names op ↔ Wanted op (x ∈ getIgnoredPackages conf) (x ∈ names) := by
  cases op with
  | pin => exact mem_foldl_insert _
  | unpin => simp [ignoredAfter, Wanted]

theorem isWord_of_validPacmanPkgName (h : validPacmanPkgName x = true) : Text.IsWord x := by
  have hchar : ∀ c : Char, (isAlnum c || ['.', '_', '+', '-'].contains c) = true →
      isSpace c = false := by
    intro c hc
    rw [Bool.eq_false_iff]
    intro hspace
    have hfar := Text.toNat_of_isSpace hspace
    simp only [isAlnum, isLower, isUpper, isDigit, contains_cons, contains_nil,
      Bool.or_false, Bool.or_eq_true, Bool.and_eq_true, decide_eq_true_eq, beq_iff_eq] at hc
    rcases hc with hc | rfl | rfl | rfl | rfl
    · omega
    all_goals revert hfar; decide
  cases x with
  | nil => cases h
  | cons c s =>
    rw [validPacmanPkgName, shaped, Bool.and_eq_true, all_eq_true] at h
    refine ⟨cons_ne_nil _ _, forall_mem_cons.mpr ⟨hchar c ?_, fun d hd => ?_⟩⟩
    · rw [h.1, Bool.true_or]
    · exact hchar d (h.2 d hd)

theorem isWord_ignoredAfter (h : checkPin names op = none) :
    ∀ x ∈ ignoredAfter conf names op, Text.IsWord x := by
  intro x hx
  cases op with
  | pin =>
    rcases mem_ignoredAfter.mp hx with hold | hname
    · exact isWord_of_mem_getIgnoredPackages hold
    · rw [checkPin, Option.map_eq_none_iff, find?_eq_none] at h
      exact isWord_of_validPacmanPkgName (by simpa using h x hname)
  | unpin => exact isWord_of_mem_getIgnoredPackages (mem_ignoredAfter.mp hx).1

theorem ends_intercalate (h : ∀ x ∈ ignored, Text.IsWord x) :
    (∀ c ∈ ([' '].intercalate ignored).head?, isSpace c = false) ∧
      ∀ c ∈ ([' '].intercalate ignored).getLast?, isSpace c = false := by
  induction ignored with
  | nil => simp
  | cons w ws ih =>
    rw [forall_mem_cons] at h
    have hrest := ih h.2
    cases ws with
    | nil =>
      rw [intercalate_singleton]
      exact ⟨fun c hc => h.1.2 c (mem_of_head? hc), fun c hc => h.1.2 c (mem_of_getLast? hc)⟩
    | cons w' ws =>
      have hne : [' '].intercalate (w' :: ws) ≠ [] := Text.intercalate_ne_nil (cons_ne_nil _ _) h.2
      rw [intercalate_cons_cons]
      constructor
      · intro c hc
        obtain ⟨d, t, ht⟩ := exists_cons_of_ne_nil h.1.1
        rw [ht] at hc
        cases hc
        exact h.1.2 _ (by rw [ht]; exact mem_cons_self ..)
      · intro c hc
        rw [getLast?_append_of_ne_nil _ hne] at hc
        exact hrest.2 c hc

theorem directive_eq (ignored : List Str) :
    directive ignored = ignorePkg ++ ' ' :: '=' :: ' ' :: [' '].intercalate ignored := by
  rfl

theorem notMem_directive (h : ∀ x ∈ ignored, Text.IsWord x) : '\n' ∉ directive ignored := by
  have hname : '\n' ∉ ignorePkg := by decide
  have hlist := Text.newline_notMem_intercalate h
  rw [directive_eq]
  simp [hname, hlist]

theorem isSpace_last_directive (h : ∀ x ∈ ignored, Text.IsWord x) (hne : ignored ≠ []) :
    ∀ c ∈ (directive ignored).getLast?, isSpace c = false := by
  intro c hc
  have hjoin := Text.intercalate_ne_nil hne h
  rw [directive, getLast?_append_of_ne_nil _ hjoin] at hc
  exact (ends_intercalate h).2 c hc

theorem dropCR_directive (h : ∀ x ∈ ignored, Text.IsWord x) (hne : ignored ≠ []) :
    dropCR (directive ignored) = directive ignored := by
  rw [dropCR, if_neg]
  intro hlast
  exact absurd (isSpace_last_directive h hne _ hlast) (by decide)

theorem ignoredOf_directive (h : ∀ x ∈ ignored, Text.IsWord x) (hne : ignored ≠ []) :
    ignoredOf (directive ignored) = ignored := by
  have htrim : trimSpace (directive ignored) = directive ignored := by
    refine Text.trimSpace_eq_self_iff.mpr ⟨fun c hc => ?_, isSpace_last_directive h hne⟩
    cases hc
    decide
  have hstart : isIgnorePkg (directive ignored) = true := by
    rw [isIgnorePkg, htrim]
    exact isPrefixOf_iff_prefix.mpr (prefix_append _ _)
  have hcut : Text.cut '=' (directive ignored) =
      some (ignorePkg ++ [' '], ' ' :: [' '].intercalate ignored) := by
    rfl
  have hfields : ∀ s, Text.fields (trimSpace s) = Text.fields s := fun s =>
    (Text.words_rdropWhile (fun _ => id) _).trans (Text.words_dropWhile (fun _ => id) s)
  rw [ignoredOf, if_pos hstart, htrim]
  exact (hfields _).trans ((Text.words_cons (by decide) _).trans (Text.fields_intercalate h))

theorem confItem_directive (h : ∀ x ∈ ignored, Text.IsWord x) :
    confItem (directive ignored) = .field ignorePkg ([' '].intercalate ignored) := by
  have hblank : ∀ c, isSpace c = false → isBlank c = false := by
    intro c hc
    rw [Bool.eq_false_iff]
    intro hb
    rw [isSpace_of_isBlank hb] at hc
    cases hc
  have hends := ends_intercalate h
  rw [directive_eq, confItem_spaced (by decide), strip_eq_self (fun c hc => hblank c (hends.1 c hc))
    fun c hc => hblank c (hends.2 c hc)]

theorem words_intercalate_ignored (h : ∀ x ∈ ignored, Text.IsWord x) :
    Text.words (· = ' ') ([' '].intercalate ignored) = ignored := by
  refine Text.words_intercalate (by decide) fun w hw => ⟨(h w hw).1, fun c hc => ?_⟩
  refine decide_eq_false ?_
  rintro rfl
  exact absurd ((h w hw).2 _ hc) (by decide)

/-! ## The text that is written -/

def directives (ignored : List Str) : List Line :=
  if ignored = [] then [] else [directive ignored]

theorem rewrite_cons_of_pos (found : Bool) (hl : isIgnorePkg l = true) :
    rewrite ignored found (l :: ls) =
      (if !found && ignored ≠ [] then directive ignored ++ '\n' :: (rewrite ignored true ls).1
      else (rewrite ignored true ls).1, (rewrite ignored true ls).2) :=
  if_pos hl

theorem rewrite_cons_of_neg (found : Bool) (hl : isIgnorePkg l = false) :
    rewrite ignored found (l :: ls) =
      (l ++ '\n' :: (rewrite ignored found ls).1, (rewrite ignored found ls).2) :=
  if_neg (Bool.eq_false_iff.mp hl)

theorem rewrite_true (ignored : List Str) (ls : List Line) :
    rewrite ignored true ls = (unlines (ls.filter (!isIgnorePkg ·)), true) := by
  induction ls with
  | nil => rfl
  | cons l ls ih =>
    cases hl : isIgnorePkg l with
    | true => rw [rewrite_cons_of_pos true hl, ih, filter_cons_of_neg (by simp [hl])]; rfl
    | false =>
      rw [rewrite_cons_of_neg true hl, ih, filter_cons_of_pos (by simp [hl]), unlines_cons]

theorem rewrite_false (ignored : List Str) (ls : List Line) :
    rewrite ignored false ls =
      (unlines (if ls.any isIgnorePkg then
        ls.takeWhile (!isIgnorePkg ·) ++ directives ignored ++
          (ls.dropWhile (!isIgnorePkg ·)).tail.filter (!isIgnorePkg ·)
      else ls), ls.any isIgnorePkg) := by
  induction ls with
  | nil => rfl
  | cons l ls ih =>
    cases hl : isIgnorePkg l with
    | true =>
      rw [rewrite_cons_of_pos false hl, rewrite_true, any_cons, hl, Bool.true_or, if_pos rfl,
        takeWhile_cons_of_neg (by simp [hl]), dropWhile_cons_of_neg (by simp [hl]),
        nil_append, tail_cons, unlines_append, directives]
      by_cases hnil : ignored = [] <;> simp [hnil]
    | false =>
      rw [rewrite_cons_of_neg false hl, ih, any_cons, hl, Bool.false_or,
        takeWhile_cons_of_pos (by simp [hl]), dropWhile_cons_of_pos (by simp [hl])]
      split_ifs <;> simp

theorem find_append_of_infix (h : sub <:+: t) (w : Str) :
    ∃ u v, t = u ++ v ∧ find sub (t ++ w) = some (u, v ++ w) := by
  induction t with
  | nil =>
    rw [infix_nil.mp h]
    cases w with
    | nil => exact ⟨[], [], rfl, rfl⟩
    | cons c w => exact ⟨[], [], rfl, rfl⟩
  | cons c t ih =>
    rw [cons_append, find]
    split_ifs with hstart
    · exact ⟨[], c :: t, rfl, rfl⟩
    have hrest : sub <:+: t := by
      refine (infix_cons_iff.mp h).resolve_left fun hpre => hstart ?_
      exact isPrefixOf_iff_prefix.mpr (hpre.trans (prefix_append (c :: t) w))
    obtain ⟨u, v, rfl, hfind⟩ := ih hrest
    exact ⟨c :: u, v, rfl, by rw [hfind]; rfl⟩

theorem start_of_append {w : Str} (hline : '\n' ∉ sub) (h : sub <+: t ++ '\n' :: w) :
    sub <+: t := by
  rcases prefix_or_prefix_of_prefix h (prefix_append t _) with hsub | ⟨r, rfl⟩
  · exact hsub
  rw [prefix_append_right_inj] at h
  cases r with
  | nil => rw [append_nil]
  | cons d r =>
    obtain ⟨rfl, -⟩ := cons_prefix_cons.mp h
    exact absurd (mem_append_right t (mem_cons_self ..)) hline

theorem find_append_of_not_infix (hne : sub ≠ []) (hline : '\n' ∉ sub) (h : ¬sub <:+: t) (w : Str) :
    find sub (t ++ '\n' :: w) = (find sub w).map fun x => (t ++ '\n' :: x.1, x.2) := by
  induction t with
  | nil =>
    have hstart : hasPrefix ('\n' :: w) sub = false := by
      obtain ⟨d, sub, rfl⟩ := exists_cons_of_ne_nil hne
      rw [hasPrefix, isPrefixOf, Bool.and_eq_false_iff]
      refine .inl (beq_false_of_ne ?_)
      rintro rfl
      exact hline (mem_cons_self ..)
    rw [nil_append, find, if_neg (Bool.eq_false_iff.mp hstart)]
    rfl
  | cons c t ih =>
    have hstart : ¬hasPrefix (c :: (t ++ '\n' :: w)) sub = true := fun hpre =>
      h (start_of_append (t := c :: t) hline ( isPrefixOf_iff_prefix.mp hpre)).isInfix
    have hrest : ¬sub <:+: t := fun hwithin => h (hwithin.trans (suffix_cons c t).isInfix)
    rw [cons_append, find, if_neg hstart, ih hrest]
    cases find sub w <;> rfl

theorem insertIgnorePkg_append (ignored : List Str) (hl : ¬header options <:+: l)
    (w : Str) :
    insertIgnorePkg ignored (l ++ '\n' :: w) = l ++ '\n' :: insertIgnorePkg ignored w := by
  have hfind := find_append_of_not_infix (by decide) (by decide) hl w
  rw [insertIgnorePkg, hfind, insertIgnorePkg]
  cases find (header options) w with
  | none => rfl
  | some x =>
    cases hcut : Text.cut '\n' x.2 with
    | none => simp [hcut]
    | some y => simp [hcut]

theorem insertIgnorePkg_unlines (ignored : List Str) (h : ∀ l ∈ ls, '\n' ∉ l) :
    insertIgnorePkg ignored (unlines ls) =
      match ls.findIdx? fun l => Text.contains l (header options) with
      | none => unlines ls
      | some i => unlines (ls.take (i + 1) ++ directive ignored :: ls.drop (i + 1)) := by
  induction ls with
  | nil => rfl
  | cons l ls ih =>
    rw [forall_mem_cons] at h
    rw [unlines_cons, findIdx?_cons]
    by_cases hwithin : header options <:+: l
    · obtain ⟨u, v, rfl, hfind⟩ := find_append_of_infix hwithin ('\n' :: unlines ls)
      have hv : '\n' ∉ v := fun hmem => h.1 (mem_append_right u hmem)
      rw [insertIgnorePkg, hfind, Text.contains_iff.mpr hwithin]
      simp only [Text.cut_append hv]
      simp
    · have hcontains : Text.contains l (header options) = false := by
        rw [Bool.eq_false_iff]
        exact fun hc => hwithin (Text.contains_iff.mp hc)
      rw [hcontains, insertIgnorePkg_append ignored hwithin, ih h.2]
      cases ls.findIdx? fun l => Text.contains l (header options) with
      | none => rfl
      | some i => simp

def newLines (ls : List Line) (ignored : List Str) : List Line :=
  match spot ls with
  | some (u, v) => u ++ directives ignored ++ v
  | none => ls

theorem newLines_of_spot (h : spot ls = some (u, v)) :
    newLines ls ignored = u ++ directives ignored ++ v := by
  rw [newLines, h]

theorem newLines_of_not_spot (h : spot ls = none) : newLines ls ignored = ls := by
  rw [newLines, h]

theorem buildIgnorePkgConf_eq (conf : Str) (ignored : List Str) :
    buildIgnorePkgConf conf ignored = unlines (newLines (scanLines conf) ignored) := by
  have hlines : ∀ l ∈ scanLines conf, '\n' ∉ l := fun l hl => notMem_of_mem_scanLines hl
  rw [buildIgnorePkgConf]
  generalize scanLines conf = ls at hlines
  rw [rewrite_false, newLines, spot]
  cases hany : ls.any isIgnorePkg with
  | true => simp
  | false =>
    by_cases hnil : ignored = []
    · cases ls.findIdx? fun l => Text.contains l (header options) with
      | none => simp [hnil]
      | some i => simp [hnil, directives]
    have hinsert := insertIgnorePkg_unlines ignored hlines
    cases hidx : ls.findIdx? fun l => Text.contains l (header options) with
    | none =>
      rw [hidx] at hinsert
      simpa [hnil] using hinsert
    | some i =>
      rw [hidx] at hinsert
      simpa [hnil, directives] using hinsert

theorem filter_eq_takeWhile_append (ls : List Line) :
    ls.takeWhile (!isIgnorePkg ·) ++ (ls.dropWhile (!isIgnorePkg ·)).tail.filter (!isIgnorePkg ·) =
      ls.filter (!isIgnorePkg ·) := by
  induction ls with
  | nil => rfl
  | cons l ls ih =>
    cases hl : isIgnorePkg l with
    | true =>
      rw [takeWhile_cons_of_neg (by simp [hl]), dropWhile_cons_of_neg (by simp [hl]),
        filter_cons_of_neg (by simp [hl])]
      rfl
    | false =>
      rw [takeWhile_cons_of_pos (by simp [hl]), dropWhile_cons_of_pos (by simp [hl]),
        filter_cons_of_pos (by simp [hl]), cons_append, ih]

theorem append_of_spot (h : spot ls = some (u, v)) : u ++ v = ls.filter (!isIgnorePkg ·) := by
  rw [spot] at h
  split_ifs at h with hany
  · cases h
    exact filter_eq_takeWhile_append ls
  rw [Option.map_eq_some_iff] at h
  obtain ⟨i, -, heq⟩ := h
  cases heq
  rw [take_append_drop, filter_eq_self.mpr]
  simpa using hany

theorem not_any_of_spot (h : spot ls = none) : ∀ l ∈ ls, isIgnorePkg l = false := by
  rw [spot] at h
  split_ifs at h with hany
  simpa using hany

theorem notIgnorePkg_of_spot (h : spot ls = some (u, v)) : ∀ l ∈ u ++ v, isIgnorePkg l = false := by
  rw [append_of_spot h]
  simp

theorem fileLines_buildIgnorePkgConf (h : ∀ x ∈ ignored, Text.IsWord x) (conf : Str) :
    fileLines (buildIgnorePkgConf conf ignored) = newLines (scanLines conf) ignored := by
  have hlines : ∀ l ∈ scanLines conf, '\n' ∉ l := fun l hl => notMem_of_mem_scanLines hl
  have hdirectives : ∀ l ∈ directives ignored, '\n' ∉ l := by
    rw [directives]
    split_ifs
    · simp
    · simpa using notMem_directive h
  rw [buildIgnorePkgConf_eq]
  refine fileLines_unlines ?_
  cases hspot : spot (scanLines conf) with
  | some x =>
    obtain ⟨u, v⟩ := x
    have huv : ∀ l ∈ u ++ v, '\n' ∉ l := by
      rw [append_of_spot hspot]
      exact fun l hl => hlines l (mem_of_mem_filter hl)
    rw [forall_mem_append] at huv
    rw [newLines_of_spot hspot, forall_mem_append, forall_mem_append]
    exact ⟨⟨huv.1, hdirectives⟩, huv.2⟩
  | none =>
    rw [newLines_of_not_spot hspot]
    exact hlines

/-! ## What is read back -/

theorem ignoredOf_of_not (h : isIgnorePkg l = false) : ignoredOf l = [] := by
  rw [ignoredOf, if_neg (Bool.eq_false_iff.mp h)]

theorem flatMap_ignoredOf (h : ∀ l ∈ ls, isIgnorePkg l = false) :
    (ls.map dropCR).flatMap ignoredOf = [] := by
  rw [flatMap_eq_nil_iff]
  intro l hl
  obtain ⟨x, hx, rfl⟩ := mem_map.mp hl
  exact ignoredOf_of_not (by rw [isIgnorePkg_dropCR, h x hx])

theorem getIgnoredPackages_build (h : ∀ x ∈ ignored, Text.IsWord x) (hne : ignored ≠ [])
    (hspot : spot (scanLines conf) = some (u, v)) :
    getIgnoredPackages (buildIgnorePkgConf conf ignored) =
      if fits (directive ignored) then ignored else [] := by
  have hnot := forall_mem_append.mp (notIgnorePkg_of_spot hspot)
  have hfits : ∀ l ∈ u ++ v, fits l = true := by
    rw [append_of_spot hspot]
    exact fun l hl => fits_of_mem_scanLines (mem_of_mem_filter hl)
  rw [forall_mem_append] at hfits
  rw [getIgnoredPackages, scanLines, fileLines_buildIgnorePkgConf h, newLines_of_spot hspot, directives,
    if_neg hne, append_assoc, takeWhile_append_of_pos hfits.1, singleton_append]
  split_ifs with hd
  · have hv : v.takeWhile fits = v := takeWhile_eq_self_iff.mpr hfits.2
    rw [takeWhile_cons_of_pos hd, hv, map_append, flatMap_append,
      flatMap_ignoredOf hnot.1, map_cons, flatMap_cons, dropCR_directive h hne,
      ignoredOf_directive h hne, flatMap_ignoredOf hnot.2, nil_append, append_nil]
  · rw [takeWhile_cons_of_neg hd, append_nil, flatMap_ignoredOf hnot.1]

theorem getIgnoredPackages_build_nil (h : ∀ x ∈ ignored, Text.IsWord x)
    (hnone : ignored = [] ∨ spot (scanLines conf) = none) :
    getIgnoredPackages (buildIgnorePkgConf conf ignored) = [] := by
  have hnot : ∀ l ∈ newLines (scanLines conf) ignored, isIgnorePkg l = false := by
    cases hspot : spot (scanLines conf) with
    | some x =>
      have hnil : ignored = [] := hnone.resolve_right (by rw [hspot]; exact Option.some_ne_none _)
      rw [newLines_of_spot hspot, directives, if_pos hnil, append_nil]
      exact notIgnorePkg_of_spot hspot
    | none =>
      rw [newLines_of_not_spot hspot]
      exact not_any_of_spot hspot
  rw [getIgnoredPackages, scanLines, fileLines_buildIgnorePkgConf h]
  exact flatMap_ignoredOf fun l hl => hnot l ((takeWhile_sublist _).subset hl)

theorem isDirective_of_not (h : isIgnorePkg l = false) : isDirective l = false := by
  rw [Bool.eq_false_iff]
  intro hd
  rw [isIgnorePkg_of_isDirective hd] at h
  cases h

theorem pacmanIgnoredIn_append (h : ∀ l ∈ u, isDirective l = false) (cur : Option Str)
    (w : List Line) :
    pacmanIgnoredIn cur (u ++ w) = pacmanIgnoredIn (sectionAfter cur u) w := by
  induction u generalizing cur with
  | nil => rfl
  | cons l u ih =>
    rw [forall_mem_cons] at h
    rw [cons_append, pacmanIgnoredIn, sectionAfter]
    have hl := h.1
    rw [isDirective] at hl
    cases hitem : confItem l with
    | header name => exact ih h.2 _
    | field key value =>
      rw [hitem] at hl
      have hkey : ¬(cur = some options ∧ key = ignorePkg) := fun hboth =>
        of_decide_eq_false hl hboth.2
      simp only [if_neg hkey]
      exact ih h.2 _
    | skip => exact ih h.2 _
    | gap => exact ih h.2 _
    | more text => exact ih h.2 _
    | bad => exact ih h.2 _

theorem pacmanIgnoredIn_of_not (h : ∀ l ∈ ls, isDirective l = false) (cur : Option Str) :
    pacmanIgnoredIn cur ls = [] := by
  have hall := pacmanIgnoredIn_append h cur []
  rwa [append_nil] at hall

theorem pacmanIgnored_build (h : ∀ x ∈ ignored, Text.IsWord x) :
    x ∈ pacmanIgnored (buildIgnorePkgConf conf ignored) ↔ x ∈ ignored ∧ Placed conf := by
  rw [pacmanIgnored, fileLines_buildIgnorePkgConf h]
  cases hspot : spot (scanLines conf) with
  | none =>
    have hnot : ∀ l ∈ scanLines conf, isDirective l = false := fun l hl =>
      isDirective_of_not (not_any_of_spot hspot l hl)
    rw [newLines_of_not_spot hspot, pacmanIgnoredIn_of_not hnot]
    refine iff_of_false not_mem_nil ?_
    rintro ⟨-, u, v, hsome, -⟩
    rw [hspot] at hsome
    cases hsome
  | some y =>
    obtain ⟨u, v⟩ := y
    have hnot := forall_mem_append.mp (notIgnorePkg_of_spot hspot)
    have hplaced : Placed conf ↔ sectionAfter none u = some options := by
      constructor
      · rintro ⟨u', v', hsome, hsection⟩
        rw [hspot] at hsome
        cases hsome
        exact hsection
      · exact fun hsection => ⟨u, v, hspot, hsection⟩
    rw [newLines_of_spot hspot, append_assoc,
      pacmanIgnoredIn_append fun l hl => isDirective_of_not (hnot.1 l hl), hplaced, directives]
    have hrest : ∀ cur, pacmanIgnoredIn cur v = [] :=
      pacmanIgnoredIn_of_not fun l hl => isDirective_of_not (hnot.2 l hl)
    split_ifs with hnil
    · simp [hnil, hrest]
    · rw [singleton_append, pacmanIgnoredIn, confItem_directive h]
      simp only [hrest, words_intercalate_ignored h, and_true]
      split_ifs with hsection <;> simp [hsection]

theorem filter_build (h : ∀ x ∈ ignored, Text.IsWord x) (conf : Str) :
    (fileLines (buildIgnorePkgConf conf ignored)).filter (!isDirective ·) =
      (scanLines conf).filter (!isIgnorePkg ·) := by
  have hkeep : ∀ ls : List Line, (∀ l ∈ ls, isIgnorePkg l = false) →
      ls.filter (!isDirective ·) = ls := by
    intro ls hls
    refine filter_eq_self.mpr fun l hl => ?_
    rw [isDirective_of_not (hls l hl)]
    rfl
  rw [fileLines_buildIgnorePkgConf h]
  cases hspot : spot (scanLines conf) with
  | none =>
    have hnot := not_any_of_spot hspot
    rw [newLines_of_not_spot hspot, hkeep _ hnot, filter_eq_self.mpr]
    intro l hl
    rw [hnot l hl]
    rfl
  | some y =>
    obtain ⟨u, v⟩ := y
    have hnot := forall_mem_append.mp (notIgnorePkg_of_spot hspot)
    have hdirectives : (directives ignored).filter (!isDirective ·) = [] := by
      rw [directives]
      split_ifs
      · rfl
      · rw [filter_eq_nil_iff, forall_mem_singleton, isDirective, confItem_directive h]
        simp
    rw [newLines_of_spot hspot, filter_append, filter_append, hdirectives, append_nil,
      hkeep u hnot.1, hkeep v hnot.2, append_of_spot hspot]

theorem length_filter_le (ls : List Line) :
    ((ls.map dropCR).filter (!isIgnorePkg ·)).length ≤ (ls.filter (!isDirective ·)).length := by
  rw [filter_map, length_map]
  refine (monotone_filter_right ls fun l hl => ?_).length_le
  rw [Function.comp_apply, isIgnorePkg_dropCR, Bool.not_eq_true'] at hl
  rw [isDirective_of_not hl]
  rfl

theorem filter_map_dropCR_iff (ls : List Line) :
    (ls.map dropCR).filter (!isIgnorePkg ·) = ls.filter (!isDirective ·) ↔
      ∀ l ∈ ls, isDirective l = false → isIgnorePkg l = false ∧ dropCR l = l := by
  induction ls with
  | nil => simp
  | cons l ls ih =>
    rw [map_cons, forall_mem_cons, ← ih]
    cases hg : isIgnorePkg l with
    | true =>
      rw [filter_cons_of_neg (by simp [isIgnorePkg_dropCR, hg])]
      cases hd : isDirective l with
      | true => rw [filter_cons_of_neg (by simp [hd])]; simp
      | false =>
        -- the line is lost, and nothing makes up for it
        rw [filter_cons_of_pos (by simp [hd])]
        refine iff_of_false (fun heq => ?_) fun h => absurd (h.1 rfl).1 (by decide)
        have hle := length_filter_le ls
        rw [heq, length_cons] at hle
        omega
    | false =>
      rw [filter_cons_of_pos (by simp [isIgnorePkg_dropCR, hg]),
        filter_cons_of_pos (by simp [isDirective_of_not hg]), cons.injEq]
      simp [isDirective_of_not hg]

theorem others_iff (conf : Str) :
    (scanLines conf).filter (!isIgnorePkg ·) = (fileLines conf).filter (!isDirective ·) ↔
      (∀ l ∈ fileLines conf, isDirective l = false → isIgnorePkg l = false ∧ dropCR l = l) ∧
        ∀ l ∈ (fileLines conf).dropWhile fits, isDirective l = true := by
  have hsplit : fileLines conf = (fileLines conf).takeWhile fits ++ (fileLines conf).dropWhile fits :=
    (takeWhile_append_dropWhile).symm
  have hle := length_filter_le ((fileLines conf).takeWhile fits)
  have hpre := filter_map_dropCR_iff ((fileLines conf).takeWhile fits)
  rw [scanLines]
  generalize (fileLines conf).takeWhile fits = pre at *
  generalize (fileLines conf).dropWhile fits = post at *
  rw [hsplit, filter_append, forall_mem_append, ← hpre]
  have hpost : post.filter (!isDirective ·) = [] ↔ ∀ l ∈ post, isDirective l = true := by
    simp [filter_eq_nil_iff]
  constructor
  · intro heq
    have hnil : post.filter (!isDirective ·) = [] := by
      refine length_eq_zero_iff.mp ?_
      have hlength := congrArg length heq
      rw [length_append] at hlength
      omega
    rw [hnil, append_nil] at heq
    refine ⟨⟨heq, fun l hl hd => ?_⟩, hpost.mp hnil⟩
    rw [hpost.mp hnil l hl] at hd
    cases hd
  · rintro ⟨⟨heq, -⟩, hall⟩
    rw [heq, hpost.mpr hall, append_nil]

/-! ## When the file ends up as asked for -/

theorem ignored_iff (h : ∀ x ∈ ignoredAfter conf names op, Text.IsWord x) :
    (∀ x, x ∈ getIgnoredPackages (buildIgnorePkgConf conf (ignoredAfter conf names op)) ↔
        Wanted op (x ∈ getIgnoredPackages conf) (x ∈ names)) ↔
      (ignoredAfter conf names op ≠ [] → spot (scanLines conf) ≠ none ∧
        fits (directive (ignoredAfter conf names op)) = true) := by
  simp only [← mem_ignoredAfter]
  generalize ignoredAfter conf names op = ignored at h
  by_cases hne : ignored = []
  · rw [getIgnoredPackages_build_nil h (.inl hne), hne]
    simp
  obtain ⟨w, hw⟩ := exists_mem_of_ne_nil ignored hne
  cases hspot : spot (scanLines conf) with
  | none =>
    rw [getIgnoredPackages_build_nil h (.inr hspot)]
    refine iff_of_false (fun hall => ?_) fun hall => (hall hne).1 rfl
    exact absurd ((hall w).mpr hw) not_mem_nil
  | some y =>
    rw [getIgnoredPackages_build h hne hspot]
    split_ifs with hfits
    · simp [hfits]
    · refine iff_of_false (fun hall => ?_) fun hall => hfits (hall hne).2
      exact absurd ((hall w).mpr hw) not_mem_nil

theorem spot_of_unpin (h : ignoredAfter conf names .unpin ≠ []) :
    spot (scanLines conf) ≠ none := by
  obtain ⟨x, hx⟩ := exists_mem_of_ne_nil _ h
  obtain ⟨l, hl, hmem⟩ := mem_flatMap.mp (mem_ignoredAfter.mp hx).1
  intro hnone
  rw [ignoredOf_of_not (not_any_of_spot hnone l hl)] at hmem
  cases hmem

theorem edited_build_iff (hne : names ≠ []) (h : ∀ x ∈ ignoredAfter conf names op, Text.IsWord x) :
    Edited op names conf (buildIgnorePkgConf conf (ignoredAfter conf names op)) ↔
      Editable op names conf := by
  have hignored := ignored_iff h
  have hpacman : ∀ x, x ∈ pacmanIgnored (buildIgnorePkgConf conf (ignoredAfter conf names op)) ↔
      Wanted op (x ∈ getIgnoredPackages conf) (x ∈ names) ∧ Placed conf := fun x =>
    (pacmanIgnored_build h).trans (and_congr_left' mem_ignoredAfter)
  constructor
  · rintro ⟨hread, hpac, hothers⟩
    rw [filter_build h, others_iff] at hothers
    have hplaced : op = .pin → Placed conf := by
      rintro rfl
      obtain ⟨n, hn⟩ := exists_mem_of_ne_nil names hne
      exact ((hpacman n).mp ((hpac n).mpr (.inr hn))).2
    refine ⟨hothers.1, hothers.2, fun hne => (hignored.mp hread hne).2, hplaced, fun x hx => ?_⟩
    have hboth := (hpacman x).symm.trans (hpac x)
    cases op with
    | pin => simpa [Wanted, hx] using hboth.symm
    | unpin => simpa [Wanted, hx] using hboth.symm
  · rintro ⟨hplain, hscanned, hfits, hplaced, hagree⟩
    refine ⟨hignored.mpr fun hne => ⟨?_, hfits hne⟩, fun x => (hpacman x).trans ?_, ?_⟩
    · cases op with
      | pin =>
        obtain ⟨u, v, hsome, -⟩ := hplaced rfl
        rw [hsome]
        exact Option.some_ne_none _
      | unpin => exact spot_of_unpin hne
    · by_cases hx : x ∈ names
      · cases op with
        | pin => exact iff_of_true ⟨.inr hx, hplaced rfl⟩ (.inr hx)
        | unpin => exact iff_of_false (fun hw => hw.1.2 hx) fun hw => hw.2 hx
      · cases op with
        | pin => simpa [Wanted, hx] using (hagree x hx).symm
        | unpin => simpa [Wanted, hx] using (hagree x hx).symm
    · rw [filter_build h, others_iff]
      exact ⟨hplain, hscanned⟩

/-- The file and the output of `cat` are of the same lines. -/
theorem fileLines_readConf (h : Exec.total byteCount (fileLines conf) ≤ Exec.maxOutputBytes) :
    fileLines (readConf conf) = fileLines conf := by
  rw [readConf, Exec.stdout, Exec.captured_of_le h]
  exact fileLines_unlines fun l hl => notMem_of_mem_fileLines hl

/-- A successful `Pin` or `Unpin` of a file within the runner's cap edits the set of pinned packages,
and nothing else, if and only if no package is named or the file can be edited. -/
theorem edited_iff {op : Op}
    (hcap : names ≠ [] → Exec.total byteCount (fileLines conf) ≤ Exec.maxOutputBytes)
    (h : edit op names conf = .ok conf') :
    Edited op names conf conf' ↔ (names ≠ [] → Editable op names conf) := by
  rw [edit] at h
  split at h
  · cases h
  split_ifs at h with hnil
  · cases h
    refine iff_of_true ⟨fun x => ?_, fun x => ?_, rfl⟩ fun hne => absurd hnil hne
    all_goals cases op <;> simp [Wanted, hnil]
  split at h
  · cases h
  rename_i hcheck
  cases h
  -- the editor looks at the lines only
  have hscan : scanLines (readConf conf) = scanLines conf := by
    rw [scanLines, fileLines_readConf (hcap hnil), scanLines]
  have hseen : getIgnoredPackages (readConf conf) = getIgnoredPackages conf := by
    rw [getIgnoredPackages, hscan, getIgnoredPackages]
  have hafter : ignoredAfter (readConf conf) names op = ignoredAfter conf names op := by
    cases op <;> simp only [ignoredAfter, hseen]
  rw [buildIgnorePkgConf_eq, hscan, hafter, ← buildIgnorePkgConf_eq, edited_build_iff hnil (isWord_ignoredAfter hcheck)]
  exact ⟨fun h _ => h, fun h => h hnil⟩

end

/-! ## A pin that pacman does not see -/

def commented : Str :=
  "# see [options]\n[options]\nHoldPkg = pacman\n"

/-- The mention in a comment is taken for the section. -/
theorem pin_in_comment :
    accepted commented = true ∧
      edit .pin ["linux"] commented =
        .ok "# see [options]\nIgnorePkg = linux\n[options]\nHoldPkg = pacman\n" ∧
      ¬ Edited .pin ["linux"] commented
        "# see [options]\nIgnorePkg = linux\n[options]\nHoldPkg = pacman\n" := by
  refine ⟨by decide +kernel, by decide +kernel, fun h => ?_⟩
  have hpacman := (h.pacman "linux").mpr (.inr (mem_singleton_self _))
  revert hpacman
  decide +kernel

def stock : Str := "[options]\nHoldPkg = pacman\n"

/-- A package pinned in the configuration as it comes. -/
theorem pin_in_options :
    Exec.total byteCount (fileLines stock) ≤ Exec.maxOutputBytes ∧
    ∃ conf', edit .pin ["linux"] stock = .ok conf' ∧
      Edited .pin ["linux"] stock conf' := by
  have hedit : edit .pin ["linux"] stock =
      .ok "[options]\nIgnorePkg = linux\nHoldPkg = pacman\n" := by
    decide +kernel
  have hcap : Exec.total byteCount (fileLines stock) ≤ Exec.maxOutputBytes := by decide +kernel
  refine ⟨hcap, _, hedit, (edited_iff (fun _ => hcap) hedit).mpr fun _ => ?_⟩
  have hold : getIgnoredPackages stock = [] ∧ pacmanIgnored stock = [] := by decide +kernel
  refine ⟨?_, ?_, fun _ => by decide +kernel, fun _ => ?_, fun x _ => ?_⟩
  · have hall : (fileLines stock).all fun l => isDirective l || (!isIgnorePkg l && dropCR l = l) := by
      decide +kernel
    intro l hl hd
    simpa [hd] using all_eq_true.mp hall l hl
  · have hnil : (fileLines stock).dropWhile fits = [] := by decide +kernel
    rw [hnil]
    simp
  · exact ⟨["[options]"], ["HoldPkg = pacman"], by decide +kernel, by decide +kernel⟩
  · rw [hold.1, hold.2]
    simp

end PowerManage.Pkg.Pin
