import PowerManage.Repo.Rendered

/-!
# Applying apt repositories

`Apply` first removes every other source file that contains the URL, with the keyrings it names, then
its own files of older forms, and writes the keyring and the source file of the repository.

Whether a file is in conflict is decided by a search in its text.  So it removes the file of a
repository whose URL only begins with the applied one, or which mentions it in a comment, and it
removes keyrings without a look at the files that stay (`url_within_url`).
-/

namespace PowerManage.Repo.Apt

open PathName Sections Stanzas Transition List Function Option

/-! ## The host -/

/-- What an entry of the directory is. -/
inductive Node
  | dir
  | file (content : Str)
deriving DecidableEq

/-- The sources and keyrings of a host. -/
structure Host where
  main : Option Str
  sources : List (Str × Node)
  /-- The files in the directories of keyrings, by their paths. -/
  keys : Str → Option (List UInt8)

variable (h : Host)

def Host.lookup (filename : Str) : Option Node :=
  (h.sources.find? fun e => e.1 = filename).map Prod.snd

def Host.read (filename : Str) : Option Str :=
  match h.lookup filename with
  | some (.file content) => some content
  | _ => none

def Host.remove (filename : Str) : Host :=
  { h with sources := h.sources.filter fun e => e.1 ≠ filename }

def Host.write (filename content : Str) : Host :=
  { h with sources := (filename, .file content) :: (h.remove filename).sources }

def Host.removeKey (path : Str) : Host :=
  { h with keys := Function.update h.keys path none }

def Host.writeKey (path : Str) (key : List UInt8) : Host :=
  { h with keys := Function.update h.keys path (some key) }

/-! ## Names of files -/

def aptSourcesDir : Str := "/etc/apt/sources.list.d"

def aptKeyringDir : Str := "/etc/apt/keyrings"

def aptLegacyKeyDir : Str := "/etc/apt/trusted.gpg.d"

def sourcePath (filename : Str) : Str := aptSourcesDir ++ '/' :: filename

def repoFile (name : Str) : Str := name ++ ".sources"

def legacyFile (name : Str) : Str := name ++ ".list"

def aptLegacyKeyFile (name : Str) : Str :=
  aptLegacyKeyDir ++ "/" ++ name ++ ".gpg"

def childOf (dir p : Str) : Option Bool :=
  if hasPrefix p (dir ++ ['/']) then
    let rest := p.drop (dir.length + 1)
    some (!(rest = [] || rest.contains '/' || Text.contains rest ".."))
  else none

def isAptKeyringPath (p : Str) : Bool :=
  ((childOf aptKeyringDir p).or (childOf aptLegacyKeyDir p)).getD false

/-! ## The clean-up -/

/-- A call under way: the host, its log, and whether it has changed anything. -/
structure Work where
  host : Host
  log : Str
  changed : Bool

def Work.say (w : Work) (pre s : String) (arg : Str) : Work :=
  { w with log := w.log ++ pre.toList ++ arg ++ s.toList }

/-- A character of the value in `signed-by=([^\s\]]+)`. -/
def isSignedByChar (c : Char) : Bool :=
  !(c = '\t' || c = '\n' || c.toNat = 12 || c = '\r' || c = ' ' || c = ']')

/-- All the matches of `signed-by=([^\s\]]+)`, after `n` characters that belong to the last one. -/
def aptListSignedBy : Nat → Str → List Str
  | _, [] => []
  | n + 1, _ :: s => aptListSignedBy n s
  | 0, c :: s =>
    let value := ((c :: s).drop 10).takeWhile isSignedByChar
    if hasPrefix (c :: s) "signed-by=" && value ≠ [] then
      value :: aptListSignedBy (9 + value.length) s
    else aptListSignedBy 0 s

def signedByLine (line : Str) : Option Str :=
  if hasPrefix (trimSpace line) "Signed-By:" then
    some (trimSpace ((trimSpace line).drop 10))
  else none

/-- The keyrings that `removeConflictKeys` finds in a source file. -/
def keyPaths (filename content : Str) : List Str :=
  if Text.hasSuffix filename ".sources" then (lines content).filterMap signedByLine
  else aptListSignedBy 0 content

/-- Keys outside of the keyrings stay. -/
def removeConflictKey (skipKeyFile : Str) (w : Work) (keyPath : Str) : Work :=
  if keyPath = skipKeyFile ∨ hasPrefix keyPath ['/'] = false then w
  else if isAptKeyringPath keyPath = false then
    w.say "refusing to remove out-of-jail Signed-By key: " "\n" keyPath
  else
    let w := w.say "removing associated GPG key: " "\n" keyPath
    { w with host := w.host.removeKey keyPath }

def isSource (filename : Str) : Bool :=
  Text.hasSuffix filename ".sources" || Text.hasSuffix filename ".list"

def skipped (name filename : Str) : Bool :=
  sourcePath filename = sourcePath (repoFile name) ||
    trimSuffix (sourcePath filename) ".list" ++ ".sources" =
      sourcePath (repoFile name)

/-- The text of a source file of another repository in which the URL occurs. -/
def conflict (url name filename : Str) : Option Str :=
  if isSource filename && !skipped name filename then
    (h.read filename).filter fun content => Text.contains content url
  else none

/-- A source for the same URL goes, and its keys with it. -/
def cleanupFile (url name : Str) (w : Work) (filename : Str) : Work :=
  match conflict w.host url name filename with
  | none => w
  | some content =>
    let w := w.say "removing conflicting repository config: " "\n" (sourcePath filename)
    let w := (keyPaths filename content).foldl (removeConflictKey (aptKeyFile name)) w
    { w with host := w.host.remove filename, changed := true }

def cleanupConflictingApt (url name : Str) : Work :=
  (h.sources.map Prod.fst).foldl (cleanupFile url name) ⟨h, [], false⟩

/-! ## Apply -/

def removeLegacyFile (name : Str) (w : Work) : Work :=
  if (w.host.lookup (legacyFile name)).isSome then
    let w := w.say "removing legacy repository file: " "\n" (sourcePath (legacyFile name))
    { w with host := w.host.remove (legacyFile name), changed := true }
  else w

def removeLegacyKey (name : Str) (w : Work) : Work :=
  if (w.host.keys (aptLegacyKeyFile name)).isSome then
    let w := w.say "removing legacy GPG key: " "\n" (aptLegacyKeyFile name)
    { w with host := w.host.removeKey (aptLegacyKeyFile name), changed := true }
  else w

/-- `updateAptKey` with what `gpg --dearmor` makes of the key. -/
def updateAptKey (keyFile : Str) (newKey : List UInt8) (w : Work) : Work :=
  match w.host.keys keyFile with
  | some existing =>
    if existing = newKey then
      { w with log := w.log ++ ("GPG key already installed and matches\n" ++
        "GPG key unchanged\n").toList }
    else
      ⟨w.host.writeKey keyFile newKey,
        w.log ++ "GPG key differs, updating\nGPG key updated\n", true⟩
  | none =>
    ⟨w.host.writeKey keyFile newKey,
      w.log ++ "GPG key not found, installing\nGPG key updated\n", true⟩

variable (dearmor : List UInt8 → List UInt8)

def importKey (name : Str) (c : AptConfig) (w : Work) :
    Work :=
  if c.gpgKey ≠ [] then updateAptKey (aptKeyFile name) (dearmor c.gpgKey) w else w

def desired (name : Str) (c : AptConfig) : Str :=
  buildAptSources name c (aptKeyFile name)

def writeSource (name : Str) (c : AptConfig) (w : Work) : Work :=
  if (w.host.read (repoFile name)).getD [] = desired name c then
    if w.changed then w
    else w.say "repository already up to date: " "\n" name
  else
    let w := w.say "configured repository: " "\n" name
    { w with host := w.host.write (repoFile name) (desired name c), changed := true }

/-- An `Apply` in which every operation succeeds. It fails if the source file is a directory. -/
def applyApt (update : Str) (name : Str)
    (c : AptConfig) (h : Host) : Option (Pacman.Outcome × Host) :=
  let w := cleanupConflictingApt h c.url name
  let w := importKey dearmor name c (removeLegacyKey name (removeLegacyFile name w))
  if w.host.lookup (repoFile name) = some .dir then none
  else
    let w := writeSource name c w
    some (⟨if w.changed then w.log ++ update else w.log, w.changed⟩, w.host)

/-! ## What apt reads of a source file -/

def valuesOf (key : Str) (ds : List Directive) : List Str :=
  ds.flatMap fun d => if d.1 = key then d.2 else []

/-- Not switched off with `Enabled`. -/
def isEnabled (ds : List Directive) : Bool :=
  (valuesOf "enabled".toList ds).all fun v =>
    v.map Text.toLower ∉ ["no".toList, "false".toList, "without".toList, "off".toList,
      "disable".toList, "0".toList]

def uncomment : Bool → Str → Str
  | _, [] => []
  | within, c :: s =>
    if c = '#' && !within then []
    else c :: uncomment ((within || (c = '[' && s.contains ']')) && c ≠ ']') s

/-- The options and the URI of a line `deb [options] uri …`. -/
def listEntry (line : Str) : Option (List Str × Str) :=
  let l := strip (uncomment false line)
  let type := l.takeWhile fun c => !isBlank c
  let rest := strip (l.drop type.length)
  if type = "deb" ∨ type = "deb-src" then
    match rest with
    | '[' :: s =>
      (Text.cut ']' s).map fun x =>
        (Text.words isBlank x.1, (strip x.2).takeWhile fun c => !isBlank c)
    | _ => some ([], rest.takeWhile fun c => !isBlank c)
  else none

def listEntries (content : Str) : List (List Str × Str) :=
  (lines content).filterMap listEntry

/-- The URIs of the entries that are not commented out. -/
def activeURIs (filename content : Str) : List Str :=
  if Text.hasSuffix filename ".sources" then
    ((aptRead content).getD []).flatMap fun st =>
      if isEnabled st.2 then valuesOf "uris" st.2 else []
  else (listEntries content).map Prod.snd

/-- The keyrings that a source names. -/
def signedBy (filename content : Str) : List Str :=
  if Text.hasSuffix filename ".sources" then
    ((aptRead content).getD []).flatMap fun st => valuesOf "signed-by" st.2
  else
    (listEntries content).flatMap fun e =>
      e.1.flatMap fun opt =>
        if hasPrefix opt "signed-by=" then (opt.drop 10).splitOn ',' else []

/-- A file that apt reads, and its content. -/
def IsSourceFile (filename content : Str) : Prop :=
  filename = "sources.list" ∧ h.main = some content ∨
    isSource filename = true ∧ h.lookup filename = some (.file content)

/-! ## What should hold -/

/-- The host has the source and the key of the repository. -/
structure Configured (dearmor : List UInt8 → List UInt8) (h : Host) (r : Str × AptConfig) :
    Prop where
  source : h.lookup (repoFile r.1) = some (.file (desired r.1 r.2))
  keyring : r.2.gpgKey ≠ [] → h.keys (aptKeyFile r.1) = some (dearmor r.2.gpgKey)

/-- Another source file is removed only if it has an active entry with the URL, and no keyring that
a remaining file refers to. -/
structure Framed (name : Str) (c : AptConfig) (h h' : Host) : Prop where
  foreign : ∀ f, f ≠ repoFile name → f ≠ legacyFile name → h.lookup f ≠ none → h'.lookup f = none →
    ∃ content, h.lookup f = some (.file content) ∧ c.url ∈ activeURIs f content
  keyring : ∀ p, h.keys p ≠ none → h'.keys p = none →
    ∀ f content, IsSourceFile h' f content → p ∉ signedBy f content

/-- The keyrings that an `Apply` removes if they are there. -/
def Doomed (name : Str) (c : AptConfig) (p : Str) : Prop :=
  p = aptLegacyKeyFile name ∨
    p ≠ aptKeyFile name ∧ hasPrefix p ['/'] = true ∧ isAptKeyringPath p = true ∧
      ∃ f content, conflict h c.url name f = some content ∧ p ∈ keyPaths f content

/-- A file that an `Apply` leaves alone. -/
def Stays (name : Str) (c : AptConfig) (filename content : Str) : Prop :=
  filename = "sources.list" ∧ h.main = some content ∨
    isSource filename = true ∧ h.lookup filename = some (.file content) ∧
      filename ≠ repoFile name ∧ filename ≠ legacyFile name ∧ conflict h c.url name filename = none

/-- Other source files with the URL in them have an active entry with it, and no file that stays
uses the keyrings that go. -/
structure Tidy (h : Host) (r : Str × AptConfig) : Prop where
  url : ∀ f content, conflict h r.2.url r.1 f = some content → r.2.url ∈ activeURIs f content
  keyring : ∀ p, h.keys p ≠ none → Doomed h r.1 r.2 p →
    ∀ f content, Stays h r.1 r.2 f content → p ∉ signedBy f content

/-! ## Files that are removed -/

section

variable {h h' h'' : Host} {f g p url name content : Str}

theorem lookup_remove (h : Host) (f g : Str) :
    (h.remove f).lookup g = if g = f then none else h.lookup g := by
  rw [Host.lookup, Host.remove, find?_filter]
  split_ifs with heq
  · subst heq
    rw [find?_eq_none.mpr, map_none]
    intro e _
    by_cases he : e.1 = g <;> simp [he]
  · congr 2
    funext e
    by_cases he : e.1 = g <;> simp [he, heq]

theorem lookup_write (h : Host) (f content g : Str) :
    (h.write f content).lookup g = if g = f then some (.file content) else h.lookup g := by
  have hremove := lookup_remove h f g
  rw [Host.lookup] at hremove ⊢
  rw [Host.write, find?_cons]
  split_ifs at hremove ⊢ with heq
  · simp [heq]
  · rw [decide_eq_false (Ne.symm heq), hremove]

theorem read_eq_some_iff : h.read f = some content ↔ h.lookup f = some (.file content) := by
  unfold Host.read
  split
  · rename_i content' heq
    rw [heq, some_inj, some_inj, Node.file.injEq]
  · rename_i hnone
    refine iff_of_false (fun h => some_ne_none _ h.symm) fun heq => ?_
    exact hnone content heq

/-- From `h` to `h'`, the source files `S` and the keyrings `K` are gone, and nothing else is changed. -/
structure Cleaned (S K : Str → Prop) (h h' : Host) : Prop where
  main : h'.main = h.main
  gone : ∀ f, S f → h'.lookup f = none
  kept : ∀ f, ¬S f → h'.lookup f = h.lookup f
  keyGone : ∀ p, K p → h'.keys p = none
  keyKept : ∀ p, ¬K p → h'.keys p = h.keys p

variable {S S' K K' : Str → Prop}

theorem Cleaned.refl (h : Host) : Cleaned (fun _ => False) (fun _ => False) h h :=
  ⟨rfl, fun _ => False.elim, fun _ _ => rfl, fun _ => False.elim, fun _ _ => rfl⟩

theorem Cleaned.trans (h₁ : Cleaned S K h h') (h₂ : Cleaned S' K' h' h'') :
    Cleaned (fun f => S f ∨ S' f) (fun p => K p ∨ K' p) h h'' where
  main := h₂.main.trans h₁.main
  gone f hf := by
    by_cases hf' : S' f
    · exact h₂.gone f hf'
    · rw [h₂.kept f hf']
      exact h₁.gone f (hf.resolve_right hf')
  kept f hf := by
    rw [not_or] at hf
    rw [h₂.kept f hf.2, h₁.kept f hf.1]
  keyGone p hp := by
    by_cases hp' : K' p
    · exact h₂.keyGone p hp'
    · rw [h₂.keyKept p hp']
      exact h₁.keyGone p (hp.resolve_right hp')
  keyKept p hp := by
    rw [not_or] at hp
    rw [h₂.keyKept p hp.2, h₁.keyKept p hp.1]

theorem Cleaned.congr (h₁ : Cleaned S K h h') (hS : ∀ f, S f ↔ S' f) (hK : ∀ p, K p ↔ K' p) :
    Cleaned S' K' h h' := by
  obtain rfl : S = S' := funext fun f => propext (hS f)
  obtain rfl : K = K' := funext fun p => propext (hK p)
  exact h₁

theorem cleaned_remove (h : Host) (f : Str) :
    Cleaned (· = f) (fun _ => False) h (h.remove f) where
  main := rfl
  gone g hg := by rw [lookup_remove, if_pos hg]
  kept g hg := by rw [lookup_remove, if_neg hg]
  keyGone p hp := hp.elim
  keyKept p _ := rfl

theorem cleaned_removeKey (h : Host) (p : Str) :
    Cleaned (fun _ => False) (· = p) h (h.removeKey p) where
  main := rfl
  gone f hf := hf.elim
  kept f _ := rfl
  keyGone q hq := by rw [hq]; exact update_self ..
  keyKept q hq := update_of_ne hq ..

/-! ## The clean-up -/

/-- A key that the clean-up may remove. -/
def Removable (skipKeyFile p : Str) : Prop :=
  p ≠ skipKeyFile ∧ hasPrefix p ['/'] = true ∧ isAptKeyringPath p = true

theorem cleaned_removeConflictKey (skip : Str) (w : Work) (p : Str) :
    Cleaned (fun _ => False) (fun q => q = p ∧ Removable skip q) w.host
      (removeConflictKey skip w p).host := by
  rw [removeConflictKey]
  split_ifs with hskip hjail
  · refine (Cleaned.refl w.host).congr (fun _ => Iff.rfl) fun q => ?_
    refine iff_of_false id ?_
    rintro ⟨rfl, hq⟩
    exact hskip.elim hq.1 fun hrel => by rw [hq.2.1] at hrel; cases hrel
  · refine (Cleaned.refl w.host).congr (fun _ => Iff.rfl) fun q => ?_
    refine iff_of_false id ?_
    rintro ⟨rfl, hq⟩
    rw [hq.2.2] at hjail
    cases hjail
  · rw [not_or, Bool.not_eq_false] at hskip
    rw [Bool.not_eq_false] at hjail
    refine (cleaned_removeKey w.host p).congr (fun _ => Iff.rfl) fun q => ?_
    refine ⟨?_, And.left⟩
    rintro rfl
    exact ⟨rfl, hskip.1, hskip.2, hjail⟩

theorem cleaned_removeConflictKeys (skip : Str) (ps : List Str) (w : Work) :
    Cleaned (fun _ => False) (fun q => q ∈ ps ∧ Removable skip q) w.host
      (ps.foldl (removeConflictKey skip) w).host := by
  induction ps generalizing w with
  | nil => exact (Cleaned.refl w.host).congr (fun _ => Iff.rfl) fun q => by simp
  | cons p ps ih =>
    refine ((cleaned_removeConflictKey skip w p).trans (ih _)).congr (fun _ => or_self_iff) ?_
    intro q
    rw [mem_cons]
    tauto

/-- The source files, and the keyrings, that the clean-up removes when it looks at the files `fs`. -/
def Hit (h : Host) (url name : Str) (fs : List Str) (f : Str) : Prop :=
  f ∈ fs ∧ conflict h url name f ≠ none

/-- Some conflicting source names this key. -/
def KeyHit (h : Host) (url name : Str) (fs : List Str) (p : Str) : Prop :=
  Removable (aptKeyFile name) p ∧
    ∃ f ∈ fs, ∃ content, conflict h url name f = some content ∧ p ∈ keyPaths f content

theorem cleaned_cleanupFile (url name : Str) (w : Work) (f : Str) :
    Cleaned (Hit w.host url name [f]) (KeyHit w.host url name [f]) w.host
      (cleanupFile url name w f).host := by
  rw [cleanupFile]
  split
  · rename_i hnone
    refine (Cleaned.refl w.host).congr (fun g => ?_) fun p => ?_
    · refine iff_of_false id fun hg => hg.2 ?_
      rw [mem_singleton.mp hg.1, hnone]
    · refine iff_of_false id ?_
      rintro ⟨-, g, hg, content, hsome, -⟩
      rw [mem_singleton.mp hg, hnone] at hsome
      cases hsome
  · rename_i content hsome
    have hkeys := cleaned_removeConflictKeys (aptKeyFile name) (keyPaths f content)
      (w.say "removing conflicting repository config: " "\n" (sourcePath f))
    refine Cleaned.congr (hkeys.trans (cleaned_remove _ f)) (fun g => ?_) fun p => ?_
    · rw [false_or, Hit, mem_singleton]
      refine ⟨?_, And.left⟩
      rintro rfl
      exact ⟨rfl, by rw [hsome]; exact some_ne_none _⟩
    · rw [or_false]
      constructor
      · rintro ⟨hmem, hp⟩
        exact ⟨hp, f, mem_singleton_self f, content, hsome, hmem⟩
      · rintro ⟨hp, g, hg, content', hsome', hmem⟩
        rw [mem_singleton] at hg
        subst hg
        rw [hsome, some_inj] at hsome'
        subst hsome'
        exact ⟨hmem, hp⟩

theorem conflict_congr (hlookup : h'.lookup f = h.lookup f) :
    conflict h' url name f = conflict h url name f := by
  rw [conflict, conflict, Host.read, Host.read, hlookup]

theorem conflict_of_lookup_none (hlookup : h.lookup f = none) : conflict h url name f = none := by
  rw [conflict, Host.read, hlookup]
  simp

theorem cleaned_cleanupFiles (url name : Str) (fs : List Str) (w : Work) :
    Cleaned (Hit w.host url name fs) (KeyHit w.host url name fs) w.host
      (fs.foldl (cleanupFile url name) w).host := by
  induction fs generalizing w with
  | nil =>
    refine (Cleaned.refl w.host).congr (fun f => ?_) fun p => ?_
    · simp [Hit]
    · simp [KeyHit]
  | cons f₀ fs ih =>
    have hfirst := cleaned_cleanupFile url name w f₀
    -- the first file is gone or as it was, and the others are as they were
    have hconflict : ∀ f content, conflict (cleanupFile url name w f₀).host url name f = some content →
        conflict w.host url name f = some content := by
      intro f content hsome
      by_cases hf : Hit w.host url name [f₀] f
      · rw [conflict_of_lookup_none (hfirst.gone f hf)] at hsome
        cases hsome
      · rwa [conflict_congr (hfirst.kept f hf)] at hsome
    have hback : ∀ f content, conflict w.host url name f = some content → f ≠ f₀ →
        conflict (cleanupFile url name w f₀).host url name f = some content := by
      intro f content hsome hne
      rwa [conflict_congr (hfirst.kept f fun hf => hne (mem_singleton.mp hf.1))]
    refine (hfirst.trans (ih _)).congr (fun f => ?_) fun p => ?_
    · constructor
      · rintro (hf | hf)
        · exact ⟨by simp [mem_singleton.mp hf.1], hf.2⟩
        · obtain ⟨content, hsome⟩ := ne_none_iff_exists'.mp hf.2
          refine ⟨mem_cons_of_mem _ hf.1, ?_⟩
          rw [hconflict f content hsome]
          exact some_ne_none _
      · rintro ⟨hmem, hne⟩
        obtain ⟨content, hsome⟩ := ne_none_iff_exists'.mp hne
        by_cases hf : f = f₀
        · exact .inl ⟨by simp [hf], hne⟩
        · refine .inr ⟨(mem_cons.mp hmem).resolve_left hf, ?_⟩
          rw [hback f content hsome hf]
          exact some_ne_none _
    · constructor
      · rintro (⟨hp, f, hf, content, hsome, hmem⟩ | ⟨hp, f, hf, content, hsome, hmem⟩)
        · exact ⟨hp, f, by simp [mem_singleton.mp hf], content, hsome, hmem⟩
        · exact ⟨hp, f, mem_cons_of_mem _ hf, content, hconflict f content hsome, hmem⟩
      · rintro ⟨hp, f, hf, content, hsome, hmem⟩
        by_cases hf₀ : f = f₀
        · exact .inl ⟨hp, f, by simp [hf₀], content, hsome, hmem⟩
        · exact .inr ⟨hp, f, (mem_cons.mp hf).resolve_left hf₀, content,
            hback f content hsome hf₀, hmem⟩

theorem mem_sources_of_lookup {n : Node} (hf : h.lookup f = some n) : f ∈ h.sources.map Prod.fst := by
  rw [Host.lookup, map_eq_some_iff] at hf
  obtain ⟨e, he, -⟩ := hf
  have hname := find?_some he
  exact mem_map.mpr ⟨e, mem_of_find?_eq_some he, by simpa using hname⟩

theorem lookup_of_conflict (hf : conflict h url name f = some content) :
    isSource f = true ∧ skipped name f = false ∧ h.lookup f = some (.file content) ∧
      Text.contains content url = true := by
  rw [conflict] at hf
  split_ifs at hf with hsource
  rw [Bool.and_eq_true, Bool.not_eq_true'] at hsource
  rw [filter_eq_some_iff] at hf
  exact ⟨hsource.1, hsource.2, read_eq_some_iff.mp hf.1, hf.2⟩

theorem cleaned_cleanupConflictingApt (h : Host) (url name : Str) :
    Cleaned (fun f => conflict h url name f ≠ none)
      (fun p => Removable (aptKeyFile name) p ∧
        ∃ f content, conflict h url name f = some content ∧ p ∈ keyPaths f content)
      h (cleanupConflictingApt h url name).host := by
  have hmem : ∀ f content, conflict h url name f = some content → f ∈ h.sources.map Prod.fst :=
    fun f content hsome => mem_sources_of_lookup (lookup_of_conflict hsome).2.2.1
  refine (cleaned_cleanupFiles url name (h.sources.map Prod.fst) ⟨h, [], false⟩).congr
    (fun f => ?_) fun p => ?_
  · refine ⟨And.right, fun hne => ⟨?_, hne⟩⟩
    obtain ⟨content, hsome⟩ := ne_none_iff_exists'.mp hne
    exact hmem f content hsome
  · refine and_congr_right fun _ => exists_congr fun f => ?_
    constructor
    · rintro ⟨-, hrest⟩
      exact hrest
    · rintro ⟨content, hsome, hp⟩
      exact ⟨hmem f content hsome, content, hsome, hp⟩

/-! ## What an `Apply` does -/

/-- What one `Apply` leaves. -/
structure Applied (dearmor : List UInt8 → List UInt8) (name : Str) (c : AptConfig)
    (h h' : Host) : Prop where
  main : h'.main = h.main
  source : h'.lookup (repoFile name) = some (.file (desired name c))
  gone : ∀ f, f ≠ repoFile name → f = legacyFile name ∨ conflict h c.url name f ≠ none →
    h'.lookup f = none
  kept : ∀ f, f ≠ repoFile name → f ≠ legacyFile name → conflict h c.url name f = none →
    h'.lookup f = h.lookup f
  key : h'.keys (aptKeyFile name) =
    if c.gpgKey ≠ [] then some (dearmor c.gpgKey) else h.keys (aptKeyFile name)
  keyGone : ∀ p, p ≠ aptKeyFile name → Doomed h name c p → h'.keys p = none
  keyKept : ∀ p, p ≠ aptKeyFile name → ¬Doomed h name c p → h'.keys p = h.keys p

theorem legacyFile_ne_repoFile (a b : Str) : legacyFile a ≠ repoFile b := by
  intro heq
  have hlast := congrArg getLast? heq
  rw [legacyFile, repoFile, getLast?_append_of_ne_nil _ (by decide),
    getLast?_append_of_ne_nil _ (by decide)] at hlast
  revert hlast
  decide

theorem repoFile_inj {a b : Str} (heq : repoFile a = repoFile b) : a = b :=
  append_cancel_right heq

theorem aptKeyFile_inj {a b : Str} (heq : aptKeyFile a = aptKeyFile b) : a = b :=
  append_cancel_left (append_cancel_right heq)

theorem aptLegacyKeyFile_ne (a b : Str) : aptLegacyKeyFile a ≠ aptKeyFile b := by
  intro heq
  have htake := congrArg (take 10) heq
  unfold aptLegacyKeyFile aptKeyFile at htake
  rw [append_assoc, append_assoc, append_assoc, append_assoc,
    take_append_of_le_length (by decide), take_append_of_le_length (by decide)] at htake
  revert htake
  decide

theorem cleaned_removeLegacyFile (name : Str) (w : Work) :
    Cleaned (· = legacyFile name) (fun _ => False) w.host (removeLegacyFile name w).host := by
  rw [removeLegacyFile]
  split_ifs with hsome
  · exact cleaned_remove w.host (legacyFile name)
  · refine ⟨rfl, ?_, fun _ _ => rfl, fun _ => False.elim, fun _ _ => rfl⟩
    simpa using hsome

theorem cleaned_removeLegacyKey (name : Str) (w : Work) :
    Cleaned (fun _ => False) (· = aptLegacyKeyFile name) w.host (removeLegacyKey name w).host := by
  rw [removeLegacyKey]
  split_ifs with hsome
  · exact cleaned_removeKey w.host (aptLegacyKeyFile name)
  · refine ⟨rfl, fun _ => False.elim, fun _ _ => rfl, ?_, fun _ _ => rfl⟩
    simpa using hsome

theorem updateAptKey_host (keyFile : Str) (newKey : List UInt8) (w : Work) :
    (updateAptKey keyFile newKey w).host = w.host.writeKey keyFile newKey := by
  unfold updateAptKey
  split
  · rename_i existing heq
    split_ifs with hsame
    · subst hsame
      rw [Host.writeKey, ← heq, update_eq_self]
    · rfl
  · rfl

theorem desired_ne_nil (name : Str) (c : AptConfig) : desired name c ≠ [] := by
  rw [desired, buildAptSources_eq]
  simp

variable (c : AptConfig)

theorem lookup_writeSource (w : Work) (f : Str) :
    (writeSource name c w).host.lookup f =
      if f = repoFile name then some (.file (desired name c)) else w.host.lookup f := by
  by_cases hread : (w.host.read (repoFile name)).getD [] = desired name c
  · have hhost : (writeSource name c w).host = w.host := by
      rw [writeSource]
      split_ifs <;> rfl
    have hlookup : w.host.lookup (repoFile name) = some (.file (desired name c)) := by
      rw [← read_eq_some_iff]
      cases hsome : w.host.read (repoFile name) with
      | some content => rw [← hread, hsome, getD_some]
      | none =>
        rw [hsome] at hread
        exact absurd hread.symm (desired_ne_nil name c)
    rw [hhost]
    split_ifs with heq
    · rw [heq, hlookup]
    · rfl
  · rw [writeSource, if_neg hread]
    exact lookup_write w.host (repoFile name) (desired name c) f

theorem keys_writeSource (w : Work) :
    (writeSource name c w).host.keys = w.host.keys ∧
      (writeSource name c w).host.main = w.host.main := by
  rw [writeSource]
  split_ifs <;> exact ⟨rfl, rfl⟩

theorem keys_importKey (w : Work) :
    (importKey dearmor name c w).host.keys =
      if c.gpgKey ≠ [] then update w.host.keys (aptKeyFile name) (some (dearmor c.gpgKey))
      else w.host.keys := by
  rw [importKey]
  split_ifs
  · rw [updateAptKey_host]
    rfl
  · rfl

theorem sources_importKey (w : Work) :
    (importKey dearmor name c w).host.sources = w.host.sources ∧
      (importKey dearmor name c w).host.main = w.host.main := by
  rw [importKey]
  split_ifs
  · rw [updateAptKey_host]
    exact ⟨rfl, rfl⟩
  · exact ⟨rfl, rfl⟩

theorem skipped_legacyFile (name : Str) : skipped name (legacyFile name) = true := by
  have htrim : trimSuffix (sourcePath (legacyFile name)) ".list" = sourcePath name :=
    Text.trimSuffix_append (sourcePath name) ".list"
  have hpath : sourcePath name ++ ".sources" = sourcePath (repoFile name) := by
    rw [sourcePath, sourcePath, repoFile, append_assoc, cons_append]
  rw [skipped, htrim, decide_eq_true hpath, Bool.or_true]

theorem skipped_repoFile (name : Str) : skipped name (repoFile name) = true := by
  rw [skipped, decide_eq_true rfl, Bool.true_or]

theorem applied_of_applyApt {dearmor : List UInt8 → List UInt8} {update : Str} {c : AptConfig}
    {o : Pacman.Outcome} (happly : applyApt dearmor update name c h = some (o, h')) :
    Applied dearmor name c h h' := by
  simp only [applyApt] at happly
  rw [ite_none_left_eq_some, some_inj] at happly
  obtain ⟨-, heq⟩ := happly
  obtain rfl := congrArg Prod.snd heq
  have hclean := ((cleaned_cleanupConflictingApt h c.url name).trans
    (cleaned_removeLegacyFile name _)).trans (cleaned_removeLegacyKey name _)
  generalize removeLegacyKey name (removeLegacyFile name (cleanupConflictingApt h c.url name)) = w
    at hclean
  have hlookup : ∀ f, f ≠ repoFile name →
      (writeSource name c (importKey dearmor name c w)).host.lookup f = w.host.lookup f := by
    intro f hf
    rw [lookup_writeSource, if_neg hf, Host.lookup, (sources_importKey dearmor c w).1, Host.lookup]
  have hkeys : ∀ p, p ≠ aptKeyFile name →
      (writeSource name c (importKey dearmor name c w)).host.keys p = w.host.keys p := by
    intro p hp
    rw [(keys_writeSource c _).1, keys_importKey]
    split_ifs
    · exact update_of_ne hp ..
    · rfl
  have hdoomed : ∀ p, Doomed h name c p ↔ ((Removable (aptKeyFile name) p ∧
      ∃ f content, conflict h c.url name f = some content ∧ p ∈ keyPaths f content) ∨ False) ∨
        p = aptLegacyKeyFile name := by
    intro p
    rw [Doomed, Removable, or_false, or_comm]
    simp only [and_assoc]
  refine ⟨?_, ?_, fun f hf hgone => ?_, fun f hf hlegacy hnone => ?_, ?_, fun p hp hdoom => ?_,
    fun p hp hdoom => ?_⟩
  · exact ((keys_writeSource c _).2.trans (sources_importKey dearmor c w).2).trans hclean.main
  · rw [lookup_writeSource, if_pos rfl]
  · exact (hlookup f hf).trans (hclean.gone f (.inl hgone.symm))
  · refine (hlookup f hf).trans (hclean.kept f ?_)
    rintro ((hne | rfl) | hfalse)
    · exact hne hnone
    · exact hlegacy rfl
    · exact hfalse
  · rw [(keys_writeSource c _).1, keys_importKey]
    split_ifs
    · exact update_self ..
    refine hclean.keyKept _ ?_
    rintro ((⟨hremovable, -⟩ | hfalse) | hlegacy)
    · exact hremovable.1 rfl
    · exact hfalse
    · exact aptLegacyKeyFile_ne name name hlegacy.symm
  · exact (hkeys p hp).trans (hclean.keyGone p ((hdoomed p).mp hdoom))
  · exact (hkeys p hp).trans (hclean.keyKept p fun h => hdoom ((hdoomed p).mpr h))

/-! ## When an `Apply` keeps to its own -/

theorem valuesOf_aptDirectives (name : Str) (c : AptConfig) :
    valuesOf "uris" (aptDirectives name c) = [c.url] ∧
      valuesOf "enabled" (aptDirectives name c) = [] ∧
      valuesOf "signed-by" (aptDirectives name c) =
        if c.gpgKey ≠ [] then [aptKeyFile name] else [] := by
  unfold aptDirectives
  refine ⟨?_, ?_, ?_⟩
  all_goals
    split_ifs <;> rfl

theorem hasSuffix_repoFile (name : Str) :
    Text.hasSuffix (repoFile name) ".sources" = true :=
  Text.hasSuffix_append name _

theorem isSource_repoFile (name : Str) : isSource (repoFile name) = true := by
  rw [isSource, hasSuffix_repoFile, Bool.true_or]

theorem activeURIs_desired {c : AptConfig} (hc : AptTokens name c) :
    activeURIs (repoFile name) (desired name c) = [c.url] := by
  obtain ⟨huris, henabled, -⟩ := valuesOf_aptDirectives name c
  have hactive : isEnabled (aptDirectives name c) = true := by
    rw [isEnabled, henabled]
    rfl
  rw [activeURIs, if_pos (hasSuffix_repoFile name), desired, aptRead_buildAptSources hc,
    getD_some, flatMap_singleton, if_pos hactive, huris]

theorem signedBy_desired {c : AptConfig} (hc : AptTokens name c) :
    signedBy (repoFile name) (desired name c) =
      if c.gpgKey ≠ [] then [aptKeyFile name] else [] := by
  rw [signedBy, if_pos (hasSuffix_repoFile name), desired, aptRead_buildAptSources hc,
    getD_some, flatMap_singleton]
  exact (valuesOf_aptDirectives name c).2.2

variable {dearmor : List UInt8 → List UInt8} {c : AptConfig}

theorem Applied.isSourceFile_iff (ha : Applied dearmor name c h h') :
    IsSourceFile h' f content ↔
      f = repoFile name ∧ content = desired name c ∨ Stays h name c f content := by
  rw [IsSourceFile, ha.main]
  constructor
  · rintro (hmain | ⟨hsource, hlookup⟩)
    · exact .inr (.inl hmain)
    · by_cases hown : f = repoFile name
      · rw [hown, ha.source] at hlookup
        cases hlookup
        exact .inl ⟨hown, rfl⟩
      · have hstays : f ≠ legacyFile name ∧ conflict h c.url name f = none := by
          by_contra hgone
          rw [not_and_or, not_ne_iff] at hgone
          rw [ha.gone f hown hgone] at hlookup
          cases hlookup
        rw [ha.kept f hown hstays.1 hstays.2] at hlookup
        exact .inr (.inr ⟨hsource, hlookup, hown, hstays⟩)
  · rintro (⟨rfl, rfl⟩ | hmain | ⟨hsource, hlookup, hown, hlegacy, hnone⟩)
    · exact .inr ⟨isSource_repoFile name, ha.source⟩
    · exact .inl hmain
    · exact .inr ⟨hsource, (ha.kept f hown hlegacy hnone).trans hlookup⟩

theorem aptKeyFile_not_doomed (h : Host) (name : Str) (c : AptConfig) :
    ¬Doomed h name c (aptKeyFile name) := by
  rintro (hlegacy | ⟨hne, -⟩)
  · exact aptLegacyKeyFile_ne name name hlegacy.symm
  · exact hne rfl

theorem Applied.keyGone_iff (ha : Applied dearmor name c h h') (hp : h.keys p ≠ none) :
    h'.keys p = none ↔ Doomed h name c p := by
  by_cases hown : p = aptKeyFile name
  · subst hown
    refine iff_of_false ?_ (aptKeyFile_not_doomed h name c)
    rw [ha.key]
    split_ifs
    · exact not_false
    · exact hp
  · by_cases hdoom : Doomed h name c p
    · exact iff_of_true (ha.keyGone p hown hdoom) hdoom
    · refine iff_of_false ?_ hdoom
      rwa [ha.keyKept p hown hdoom]

theorem Applied.framed_iff (ha : Applied dearmor name c h h') (hc : AptTokens name c) :
    Framed name c h h' ↔ Tidy h (name, c) := by
  constructor
  · intro hframed
    refine ⟨fun f content hsome => ?_, fun p hp hdoom f content hstays => ?_⟩
    · -- a file in conflict is none of the repository's own, and is removed
      obtain ⟨-, hskipped, hlookup, -⟩ := lookup_of_conflict hsome
      have hown : f ≠ repoFile name := by
        rintro rfl
        rw [skipped_repoFile] at hskipped
        cases hskipped
      have hlegacy : f ≠ legacyFile name := by
        rintro rfl
        rw [skipped_legacyFile] at hskipped
        cases hskipped
      have hgone := ha.gone f hown (.inr (by rw [hsome]; exact some_ne_none _))
      obtain ⟨content', hlookup', hactive⟩ := hframed.foreign f hown hlegacy
        (by rw [hlookup]; exact some_ne_none _) hgone
      rw [hlookup] at hlookup'
      cases hlookup'
      exact hactive
    · exact hframed.keyring p hp ((ha.keyGone_iff hp).mpr hdoom) f content
        (ha.isSourceFile_iff.mpr (.inr hstays))
  · intro htidy
    refine ⟨fun f hown hlegacy hsome hgone => ?_, fun p hp hgone f content hfile => ?_⟩
    · cases hconflict : conflict h c.url name f with
      | none =>
        rw [ha.kept f hown hlegacy hconflict] at hgone
        exact absurd hgone hsome
      | some content =>
        exact ⟨content, (lookup_of_conflict hconflict).2.2.1, htidy.url f content hconflict⟩
    · have hdoom := (ha.keyGone_iff hp).mp hgone
      rcases ha.isSourceFile_iff.mp hfile with ⟨rfl, rfl⟩ | hstays
      · rw [signedBy_desired hc]
        split_ifs
        · rw [mem_singleton]
          rintro rfl
          exact aptKeyFile_not_doomed h name c hdoom
        · exact not_mem_nil
      · exact htidy.keyring p hp hdoom f content hstays

/-! ## Runs -/

/-- One `Apply`, with the output of `apt-get update`. -/
structure Call where
  repo : Str × AptConfig
  update : Str
deriving DecidableEq

def step (parse : UrlParser) (dearmor : List UInt8 → List UInt8) (h : Host) (call : Call) :
    Option Host :=
  if validate parse (.apt call.repo.1 call.repo.2) = none then
    (applyApt dearmor call.update call.repo.1 call.repo.2 h).map Prod.snd
  else none

variable {parse : UrlParser} {call : Call}

theorem step_eq_some (hstep : step parse dearmor h call = some h') :
    AptTokens call.repo.1 call.repo.2 ∧ Applied dearmor call.repo.1 call.repo.2 h h' := by
  rw [step] at hstep
  split_ifs at hstep with hvalid
  rw [map_eq_some_iff] at hstep
  obtain ⟨⟨o, host⟩, happly, rfl⟩ := hstep
  exact ⟨aptTokens_of_validate hvalid, applied_of_applyApt happly⟩

theorem configured_of_applied (ha : Applied dearmor name c h h') :
    Configured dearmor h' (name, c) := by
  refine ⟨ha.source, fun hne => ?_⟩
  rw [ha.key, if_pos hne]

theorem Configured.applied {r : Str × AptConfig} (hr : Configured dearmor h r)
    (htokens : AptTokens r.1 r.2) (ha : Applied dearmor name c h h') (htidy : Tidy h (name, c))
    (hname : r.1 ≠ name) (hurl : r.2.url ≠ c.url) : Configured dearmor h' r := by
  have hown : repoFile r.1 ≠ repoFile name := fun heq => hname (repoFile_inj heq)
  have hlegacy : repoFile r.1 ≠ legacyFile name := (legacyFile_ne_repoFile name r.1).symm
  have hconflict : conflict h c.url name (repoFile r.1) = none := by
    rw [eq_none_iff_forall_ne_some]
    intro content hsome
    have hlookup := (lookup_of_conflict hsome).2.2.1
    rw [hr.source] at hlookup
    cases hlookup
    have hactive := htidy.url _ _ hsome
    rw [activeURIs_desired htokens, mem_singleton] at hactive
    exact hurl hactive.symm
  refine ⟨(ha.kept _ hown hlegacy hconflict).trans hr.source, fun hne => ?_⟩
  have hkey := hr.keyring hne
  have hdoom : ¬Doomed h name c (aptKeyFile r.1) := by
    intro hdoom
    have hstays : Stays h name c (repoFile r.1) (desired r.1 r.2) :=
      .inr ⟨isSource_repoFile r.1, hr.source, hown, hlegacy, hconflict⟩
    refine htidy.keyring _ (by rw [hkey]; exact some_ne_none _) hdoom _ _ hstays ?_
    rw [signedBy_desired htokens, if_pos hne]
    exact mem_singleton_self _
  exact (ha.keyKept _ (fun heq => hname (aptKeyFile_inj heq)) hdoom).trans hkey

/-- No two share a name or a URL. -/
def Distinct (repos : List (Str × AptConfig)) : Prop :=
  ∀ r ∈ repos, ∀ r' ∈ repos, r ≠ r' → r.1 ≠ r'.1 ∧ r.2.url ≠ r'.2.url

theorem distinct_pair {r r' : Str × AptConfig} (hname : r.1 ≠ r'.1) (hurl : r.2.url ≠ r'.2.url) :
    Distinct [r, r'] := by
  intro s hs s' hs' hne
  simp only [mem_cons, not_mem_nil, or_false] at hs hs'
  rcases hs with rfl | rfl <;> rcases hs' with rfl | rfl
  · exact absurd rfl hne
  · exact ⟨hname, hurl⟩
  · exact ⟨hname.symm, hurl.symm⟩
  · exact absurd rfl hne

theorem configured_of_exec {repos : List (Str × AptConfig)} (hdistinct : Distinct repos)
    {calls : List Call} (hcalls : ∀ call ∈ calls, call.repo ∈ repos)
    (hrun : exec (step parse dearmor) h calls = some h')
    (htidy : Along (step parse dearmor) (fun h call => Tidy h call.repo) h calls)
    {r : Str × AptConfig} (hr : r ∈ repos)
    (hcase : (∃ call ∈ calls, call.repo = r) ∨ AptTokens r.1 r.2 ∧ Configured dearmor h r) :
    Configured dearmor h' r := by
  induction calls generalizing h with
  | nil =>
    rw [exec_nil, some_inj] at hrun
    subst hrun
    rcases hcase with ⟨call, hcall, -⟩ | hcase
    · cases hcall
    · exact hcase.2
  | cons call calls ih =>
    obtain ⟨h₁, hstep, hrest⟩ := exec_cons_eq_some.mp hrun
    rw [forall_mem_cons] at hcalls
    obtain ⟨htokens, happlied⟩ := step_eq_some hstep
    refine ih hcalls.2 hrest (htidy.2 h₁ hstep) ?_
    by_cases hsame : call.repo = r
    · subst hsame
      exact .inr ⟨htokens, configured_of_applied happlied⟩
    rcases hcase with ⟨call', hcall', heq⟩ | ⟨htokens', hconf⟩
    · rcases mem_cons.mp hcall' with rfl | hcall'
      · exact absurd heq hsame
      · exact .inl ⟨call', hcall', heq⟩
    · obtain ⟨hname, hurl⟩ := hdistinct r hr call.repo hcalls.1 (Ne.symm hsame)
      exact .inr ⟨htokens', hconf.applied htokens' happlied htidy.1 hname hurl⟩

/-- In any run, an `Apply` removes what it may and no more if and only if it finds the host tidy; and
if every one does, all the repositories that have been applied are configured at the end. -/
theorem apply_frame {repos : List (Str × AptConfig)} (hdistinct : Distinct repos)
    {calls : List Call} (hcalls : ∀ call ∈ calls, call.repo ∈ repos)
    (hrun : exec (step parse dearmor) h calls = some h') :
    (Along (step parse dearmor) (fun h call => Tidy h call.repo) h calls →
      ∀ call ∈ calls, Configured dearmor h' call.repo) ∧
    ∀ call h'', step parse dearmor h' call = some h'' →
      (Framed call.repo.1 call.repo.2 h' h'' ↔ Tidy h' call.repo) := by
  refine ⟨fun htidy call hcall => ?_, fun call h'' hstep => ?_⟩
  · exact configured_of_exec hdistinct hcalls hrun htidy (hcalls call hcall) (.inl ⟨call, hcall, rfl⟩)
  · obtain ⟨htokens, happlied⟩ := step_eq_some hstep
    exact happlied.framed_iff htokens

end

/-! ## A URL that begins with another one -/

def anyURL : UrlParser := fun path => .ok ⟨"https", "h", false, path⟩

def security : Call :=
  ⟨("security", ⟨"https://h/debian-security", "stable", [], [], [1], false⟩), []⟩

def debian : Call :=
  ⟨("debian", ⟨"https://h/debian", "stable", [], [], [2], false⟩), []⟩

def bare : Host := ⟨none, [], fun _ => none⟩

/-- The second of two repositories with URLs of their own removes the file and the keyring of the
first, which has no entry with its URL. -/
theorem url_within_url :
    Distinct [security.repo, debian.repo] ∧
      ((exec (step anyURL id) bare [security]).map fun h =>
        (h.lookup (repoFile "security"),
          h.keys (aptKeyFile "security"))) =
        some (some (.file (desired security.repo.1 security.repo.2)), some [1]) ∧
      ((exec (step anyURL id) bare [security, debian]).map fun h =>
        (h.lookup (repoFile "security"), h.keys (aptKeyFile "security"))) =
        some (none, none) ∧
      debian.repo.2.url ∉
        activeURIs (repoFile "security") (desired security.repo.1 security.repo.2) := by
  exact ⟨distinct_pair (by decide +kernel) (by decide +kernel), by decide +kernel,
    by decide +kernel, by decide +kernel⟩

/-! ## Two repositories on a host that is in use -/

/-- Whether a host is tidy is seen from the files that it has. -/
theorem tidy_of_sources {h : Host} {r : Str × AptConfig}
    (hlegacy : h.keys (aptLegacyKeyFile r.1) = none)
    (hsources : ∀ f ∈ h.sources.map Prod.fst, ∀ content ∈ conflict h r.2.url r.1 f,
      r.2.url ∈ activeURIs f content ∧ ∀ p ∈ keyPaths f content,
        (∀ main ∈ h.main, p ∉ signedBy "sources.list" main) ∧
        ∀ g ∈ h.sources.map Prod.fst, ∀ content' ∈ h.read g, conflict h r.2.url r.1 g = none →
          p ∉ signedBy g content') : Tidy h r := by
  have hconflict : ∀ f content, conflict h r.2.url r.1 f = some content →
      f ∈ h.sources.map Prod.fst := fun f content hsome =>
    mem_sources_of_lookup (lookup_of_conflict hsome).2.2.1
  refine ⟨fun f content hsome => ?_, fun p hp hdoom f content hstays => ?_⟩
  · exact (hsources f (hconflict f content hsome) content hsome).1
  · rcases hdoom with rfl | ⟨-, -, -, g, text, hsome, hkey⟩
    · exact absurd hlegacy hp
    obtain ⟨hmain, hother⟩ := (hsources g (hconflict g text hsome) text hsome).2 p hkey
    rcases hstays with ⟨rfl, hcontent⟩ | ⟨-, hlookup, -, -, hnone⟩
    · exact hmain content hcontent
    · exact hother f (mem_sources_of_lookup hlookup) content (read_eq_some_iff.mpr hlookup) hnone

/-- A list with an active entry for the URL of `extra`, and the file of a vendor. -/
def used : Host where
  main := some "deb https://h/debian stable main\n"
  sources :=
    [("old.list", .file "deb [signed-by=/etc/apt/keyrings/old.gpg] https://h/extra stable main\n"),
      ("vendor.sources", .file
        "Types: deb\nURIs: https://v/apt\nSuites: stable\nSigned-By: /etc/apt/keyrings/vendor.gpg\n")]
  keys p :=
    if p = "/etc/apt/keyrings/old.gpg" then some [7]
    else if p = "/etc/apt/keyrings/vendor.gpg" then some [8]
    else none

def extra : Call := ⟨("extra", ⟨"https://h/extra", "stable", [], [], [1], false⟩), []⟩

def tools : Call := ⟨("tools", ⟨"https://h/tools", "stable", [], [], [2], false⟩), []⟩

/-- The host when the first of the two has been applied. -/
def usedExtra : Host := (step anyURL id used extra).getD used

theorem tidy_used : Tidy used extra.repo ∧ Tidy usedExtra tools.repo :=
  ⟨tidy_of_sources (by decide +kernel) (by decide +kernel),
    tidy_of_sources (by decide +kernel) (by decide +kernel)⟩

/-- Two repositories on a host with an old one. -/
theorem two_repositories :
    ∃ h, exec (step anyURL id) used [extra, tools] = some h ∧
      Configured id h extra.repo ∧ Configured id h tools.repo ∧
      (h.lookup "old.list", h.keys "/etc/apt/keyrings/old.gpg",
        h.keys "/etc/apt/keyrings/vendor.gpg") = (none, none, some [8]) := by
  have hend : (exec (step anyURL id) used [extra, tools]).map (fun h =>
      (h.lookup "old.list", h.keys "/etc/apt/keyrings/old.gpg",
        h.keys "/etc/apt/keyrings/vendor.gpg")) = some (none, none, some [8]) := by decide +kernel
  obtain ⟨h, hrun, hfiles⟩ := map_eq_some_iff.mp hend
  have hdistinct : Distinct [extra.repo, tools.repo] :=
    distinct_pair (by decide +kernel) (by decide +kernel)
  have htidy : Along (step anyURL id) (fun h call => Tidy h call.repo) used [extra, tools] := by
    refine ⟨tidy_used.1, fun h₁ hstep => ⟨?_, fun _ _ => trivial⟩⟩
    have heq : usedExtra = h₁ := by rw [usedExtra, hstep, getD_some]
    exact heq ▸ tidy_used.2
  have hcalls : ∀ call ∈ [extra, tools], call.repo ∈ [extra.repo, tools.repo] := by simp
  have hconfigured := (apply_frame hdistinct hcalls hrun).1 htidy
  exact ⟨h, hrun, hconfigured extra (by simp), hconfigured tools (by simp), hfiles⟩

end PowerManage.Repo.Apt
