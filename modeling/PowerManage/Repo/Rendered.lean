import PowerManage.Lib.Stanzas
import PowerManage.Repo.Pacman

/-!
# What the package managers read

The files that `Apply` writes, and what apt, dnf and pacman read from them: `aptRead`, `dnfRead` and
`pacmanRead` give the stanzas of a text, each directive with its list of values.  A configuration that
has been validated should be what is read, with nothing beside it (`Faithful`).

For apt and pacman it always is.  dnf splits the values of `baseurl` and `gpgkey` at commas too, which
the validation lets pass, so that one accepted URL may be read as two, the second one without https
(`second_url`); and a key is not written at all if signatures are not to be checked.
-/

namespace PowerManage.Repo

open Sections Stanzas List

/-! ## Rendering -/

def aptKeyFile (name : Str) : Str :=
  "/etc/apt/keyrings" ++ "/" ++ name ++ ".gpg"

def deb822Line (key value : Str) : Str :=
  key ++ ": " ++ value ++ "\n"

/-- The `.sources` file of a repository. -/
def buildAptSources (name : Str) (c : AptConfig) (keyFile : Str) : Str :=
  "# Repository: " ++ name ++ "\n" ++
    deb822Line "Types" "deb" ++
    deb822Line "URIs" c.url ++
    (if c.distribution ≠ [] then deb822Line "Suites" c.distribution
    else deb822Line "Suites" "/") ++
    (if c.components ≠ [] then
      deb822Line "Components" ([' '].intercalate c.components)
    else []) ++
    (if c.arch ≠ [] then deb822Line "Architectures" c.arch else []) ++
    (if c.gpgKey ≠ [] then deb822Line "Signed-By" keyFile
    else if c.trusted then deb822Line "Trusted" "yes"
    else [])

def iniLine (key value : Str) : Str := key ++ "=" ++ value ++ "\n"

/-- The `.repo` file of a repository. -/
def dnfContent (name : Str) (c : DnfConfig) : Str :=
  header name ++ "\n" ++
    (if c.description ≠ [] then iniLine "name" c.description
    else iniLine "name" name) ++
    iniLine "baseurl" c.baseURL ++
    (if c.enabled then iniLine "enabled" "1"
    else iniLine "enabled" "0") ++
    (if c.gpgCheck then
      iniLine "gpgcheck" "1" ++
        (if c.gpgKey ≠ [] then iniLine "gpgkey" c.gpgKey else [])
    else iniLine "gpgcheck" "0") ++
    (if c.moduleHotfixes then iniLine "module_hotfixes" "1" else [])

/-! ## Reading -/

def aptSplit (_ value : Str) : List Str := Text.words isBlank value

def aptRead : Str → Option (List (Option Str × List Directive)) :=
  readWith deb822Item aptSplit

def isListSep (c : Char) : Bool := isBlank c || c = ','

def dnfSplit (key value : Str) : List Str :=
  if key = "baseurl" ∨ key = "gpgkey" then Text.words isListSep value else [value]

def dnfRead : Str → Option (List (Option Str × List Directive)) :=
  readWith iniItem dnfSplit

def pacmanSplit (key value : Str) : List Str :=
  if key = "SigLevel" then Text.words isBlank value else [value]

def pacmanRead : Str → Option (List (Option Str × List Directive)) :=
  readWith confItem pacmanSplit

/-! ## What should be read -/

/-- A repository of any kind. -/
inductive Repository
  | apt (name : Str) (c : AptConfig)
  | dnf (name : Str) (c : DnfConfig)
  | pacman (name : Str) (c : PacmanConfig)
deriving DecidableEq

def validate (parse : UrlParser) : Repository → Option Str
  | .apt name c => (validateName name).or (validateApt parse c)
  | .dnf name c => (validateName name).or (validateDnf parse c)
  | .pacman name c => (validateName name).or ((validatePacmanName name).or (validatePacman parse c))

/-- `Trusted` is for a repository without a key. -/
def aptDirectives (name : Str) (c : AptConfig) : List Directive :=
  [("types".toList, ["deb".toList]), ("uris".toList, [c.url])] ++
    (if c.distribution ≠ [] then [("suites".toList, [c.distribution])]
    else [("suites".toList, ["/".toList])]) ++
    (if c.components ≠ [] then [("components".toList, c.components)] else []) ++
    (if c.arch ≠ [] then [("architectures".toList, [c.arch])] else []) ++
    (if c.gpgKey ≠ [] then [("signed-by".toList, [aptKeyFile name])]
    else if c.trusted then [("trusted".toList, ["yes".toList])]
    else [])

def dnfDirectives (name : Str) (c : DnfConfig) : List Directive :=
  (if c.description ≠ [] then [("name".toList, [strip c.description])]
    else [("name".toList, [name])]) ++
    [("baseurl".toList, [c.baseURL])] ++
    (if c.enabled then [("enabled".toList, ["1".toList])] else [("enabled".toList, ["0".toList])]) ++
    ((if c.gpgCheck then [("gpgcheck".toList, ["1".toList])]
      else [("gpgcheck".toList, ["0".toList])]) ++
      (if c.gpgKey ≠ [] then [("gpgkey".toList, [c.gpgKey])] else [])) ++
    (if c.moduleHotfixes then [("module_hotfixes".toList, ["1".toList])] else [])

def pacmanDirectives (c : PacmanConfig) : List Directive :=
  (if c.sigLevel ≠ [] then [("SigLevel".toList, Text.words isBlank c.sigLevel)] else []) ++
    [("Server".toList, [c.server])]

def Https (parse : UrlParser) (s : Str) : Prop :=
  ∃ u, parse s = .ok u ∧ u.scheme = "https"

/-- The package manager reads what was configured, over TLS. -/
def Faithful (parse : UrlParser) : Repository → Prop
  | .apt name c => aptRead (buildAptSources name c (aptKeyFile name)) =
      some [(none, aptDirectives name c)]
  | .dnf name c => dnfRead (dnfContent name c) = some [(some name, dnfDirectives name c)] ∧
      Https parse c.baseURL
  | .pacman name c => pacmanRead (Pacman.sectionText name c) =
      some [(some name, pacmanDirectives c)] ∧ Https parse c.server

/-- For dnf, there are no commas, and a key only if signatures are checked. -/
def Plain : Repository → Prop
  | .dnf _ c => ',' ∉ c.baseURL ∧ (c.gpgKey ≠ [] → c.gpgCheck = true ∧ ',' ∉ c.gpgKey)
  | _ => True

/-! ## Tokens -/

/-- A text of visible characters. -/
@[mk_iff]
structure Token (s : Str) : Prop where
  ne_nil : s ≠ []
  visible : ∀ c ∈ s, 32 < c.toNat

variable {c : DnfConfig} {key value : Str}

section

variable {parse : UrlParser} {name s t : Str}

theorem Token.notMem (h : Token s) : '\n' ∉ s := fun hmem =>
  absurd (h.visible _ hmem) (by decide)

theorem Token.isBlank_eq_false (h : Token s) : ∀ c ∈ s, isBlank c = false := fun c hc =>
  isBlank_of_lt (h.visible c hc)

theorem Token.words (h : Token s) : Text.words isBlank s = [s] :=
  Text.words_word h.ne_nil h.isBlank_eq_false

theorem Token.strip (h : Token s) : strip s = s := strip_of_forall h.isBlank_eq_false

theorem Token.append (hs : Token s) (ht : Token t) : Token (s ++ t) where
  ne_nil := by simp [hs.ne_nil]
  visible c hc := (mem_append.mp hc).elim (hs.visible c) (ht.visible c)

theorem token_of_all (h : (s ≠ [] && s.all fun c => 32 < c.toNat) = true) : Token s := by
  simpa [token_iff] using h

theorem token_of_hasCtrlOrSpace (h : s ≠ [] ∧ hasCtrlOrSpace s = false) : Token s :=
  ⟨h.1, fun c hc => (notMem_of_hasCtrlOrSpace h.2 c hc).1⟩

theorem token_of_validName (h : validName s = true) : Token s := by
  obtain ⟨hne, hchars⟩ := nameChar_of_validName h
  refine ⟨hne, fun c hc => ?_⟩
  have hrange := toNat_of_isNameChar (hchars c hc)
  omega

theorem token_of_validAptArch (h : validAptArch s = true) : Token s := by
  cases s with
  | nil => cases h
  | cons c s =>
    have hvisible : ∀ d : Char, (isLower d || isDigit d || d = ',' || d = '_' || d = '-') = true →
        32 < d.toNat := by
      intro d hd
      simp only [isLower, isDigit, Bool.or_eq_true, Bool.and_eq_true, decide_eq_true_eq] at hd
      rcases hd with (((hd | hd) | rfl) | rfl) | rfl
      · omega
      · omega
      all_goals decide
    rw [validAptArch, shaped, Bool.and_eq_true, all_eq_true] at h
    refine ⟨cons_ne_nil _ _, forall_mem_cons.mpr ⟨?_, fun d hd => hvisible d (h.2 d hd)⟩⟩
    exact hvisible c (by rw [h.1]; rfl)

theorem token_aptKeyFile (h : Token name) : Token (aptKeyFile name) := by
  have hdir : Token ("/etc/apt/keyrings" ++ "/") := token_of_all (by decide)
  have hext : Token ".gpg" := token_of_all (by decide)
  exact (hdir.append h).append hext

/-! ## What apt reads -/

def aptFields (c : AptConfig) (keyFile : Str) : List Field :=
  [("Types".toList, "deb".toList), ("URIs".toList, c.url)] ++
    (if c.distribution ≠ [] then [("Suites".toList, c.distribution)]
    else [("Suites".toList, "/".toList)]) ++
    (if c.components ≠ [] then [("Components".toList, [' '].intercalate c.components)] else []) ++
    (if c.arch ≠ [] then [("Architectures".toList, c.arch)] else []) ++
    (if c.gpgKey ≠ [] then [("Signed-By".toList, keyFile)]
    else if c.trusted then [("Trusted".toList, "yes".toList)]
    else [])

def aptLine (f : Field) : Line := f.1 ++ ':' :: ' ' :: f.2

theorem deb822Line_eq (key value : Str) :
    deb822Line key value = unlines [aptLine (key, value)] := by
  have hcolon : ": " = [':', ' '] := rfl
  have hend : "\n" = ['\n'] := rfl
  rw [deb822Line, hcolon, hend, unlines_cons, aptLine, append_assoc, append_assoc,
    append_assoc]
  rfl

theorem buildAptSources_eq (name : Str) (c : AptConfig) (keyFile : Str) :
    buildAptSources name c keyFile =
      unlines (("# Repository: " ++ name) :: (aptFields c keyFile).map aptLine) := by
  have hend : "\n" = ['\n'] := rfl
  unfold buildAptSources
  simp only [aptFields, map_append, unlines_append, apply_ite (map aptLine),
    apply_ite unlines, map_cons, map_nil, deb822Line_eq, unlines_cons, hend,
    append_assoc, cons_append, nil_append, unlines_nil]

/-- What `validateApt` makes sure of. -/
structure AptTokens (name : Str) (c : AptConfig) : Prop where
  name : Token name
  url : Token c.url
  distribution : c.distribution ≠ [] → Token c.distribution
  components : ∀ comp ∈ c.components, Token comp
  arch : c.arch ≠ [] → Token c.arch

theorem aptTokens_of_validate {c : AptConfig} (h : validate parse (.apt name c) = none) :
    AptTokens name c := by
  rw [validate, Option.or_eq_none_iff] at h
  obtain ⟨hurl, hdist, hcomps, harch⟩ := of_validateApt h.2
  exact ⟨token_of_validName (validName_of_validateName h.1),
    token_of_hasCtrlOrSpace (of_validateAptURL hurl),
    fun hne => token_of_validName (of_checkShape hdist hne),
    fun comp hcomp => token_of_validName (hcomps comp hcomp),
    fun hne => token_of_validAptArch (of_checkShape harch hne)⟩

theorem written_apt {key' : Str} {values : List Str}
    (hkey : isName ':' ['#'] key = true ∧ '\n' ∉ key ∧ key.map Text.toLower = key')
    (hvalue : '\n' ∉ value) (hvalues : Text.words isBlank value = values) :
    Written deb822Item aptSplit aptLine (key, value) (key', values) := by
  refine ⟨by simp [aptLine, hkey.2.1, hvalue], key', strip value, ?_, ?_⟩
  · rw [aptLine, deb822Item_field hkey.1, strip_cons (by decide), hkey.2.2]
  · rw [aptSplit, words_strip fun _ => id, hvalues]

theorem Token.written_apt {key' : Str} (hvalue : Token value)
    (hkey : isName ':' ['#'] key = true ∧ '\n' ∉ key ∧ key.map Text.toLower = key') :
    Written deb822Item aptSplit aptLine (key, value) (key', [value]) :=
  Repo.written_apt hkey hvalue.notMem hvalue.words

theorem aptFields_written {c : AptConfig} (h : AptTokens name c) :
    Forall₂ (Written deb822Item aptSplit aptLine)
      (aptFields c (aptKeyFile name)) (aptDirectives name c) := by
  have hcomps : '\n' ∉ [' '].intercalate c.components := by
    intro hmem
    rcases Text.mem_intercalate hmem with heq | ⟨comp, hcomp, hmem⟩
    · exact absurd heq (by decide)
    · exact (h.components comp hcomp).notMem hmem
  have hwords : Text.words isBlank ([' '].intercalate c.components) = c.components :=
    Text.words_intercalate (by decide) fun comp hcomp =>
      ⟨(h.components comp hcomp).ne_nil, (h.components comp hcomp).isBlank_eq_false⟩
  have hdeb : Token "deb" := token_of_all (by decide)
  have hflat : Token "/" := token_of_all (by decide)
  have hyes : Token "yes" := token_of_all (by decide)
  refine rel_append (rel_append (rel_append (rel_append ?_ ?_) ?_) ?_) ?_
  · exact .cons (hdeb.written_apt (by decide)) (.cons (h.url.written_apt (by decide)) .nil)
  · exact forall₂_ite (fun hne => .cons ((h.distribution hne).written_apt (by decide)) .nil)
      fun _ => .cons (hflat.written_apt (by decide)) .nil
  · exact forall₂_ite (fun _ => .cons (written_apt (by decide) hcomps hwords) .nil) fun _ => .nil
  · exact forall₂_ite (fun hne => .cons ((h.arch hne).written_apt (by decide)) .nil) fun _ => .nil
  · exact forall₂_ite (fun _ => .cons ((token_aptKeyFile h.name).written_apt (by decide)) .nil)
      fun _ => forall₂_ite (fun _ => .cons (hyes.written_apt (by decide)) .nil) fun _ => .nil

theorem aptRead_buildAptSources {c : AptConfig} (h : AptTokens name c) :
    aptRead (buildAptSources name c (aptKeyFile name)) = some [(none, aptDirectives name c)] := by
  rw [buildAptSources_eq]
  refine readWith_fields ["# Repository: " ++ name] (aptFields_written h) ?_ ?_ rfl
  · exact cons_ne_nil _ _
  · refine forall_mem_singleton.mpr ⟨?_, ?_⟩
    · rw [mem_append, not_or]
      exact ⟨by decide, h.name.notMem⟩
    · have hhash : "# Repository: " = '#' :: " Repository: " := by decide
      rw [hhash, cons_append, deb822Item_comment]

/-! ## What dnf reads -/

def dnfLine (f : Field) : Line := f.1 ++ '=' :: f.2

def dnfFields (name : Str) (c : DnfConfig) : List Field :=
  (if c.description ≠ [] then [("name".toList, c.description)] else [("name".toList, name)]) ++
    [("baseurl".toList, c.baseURL)] ++
    (if c.enabled then [("enabled".toList, "1".toList)] else [("enabled".toList, "0".toList)]) ++
    (if c.gpgCheck then
      [("gpgcheck".toList, "1".toList)] ++
        (if c.gpgKey ≠ [] then [("gpgkey".toList, c.gpgKey)] else [])
    else [("gpgcheck".toList, "0".toList)]) ++
    (if c.moduleHotfixes then [("module_hotfixes".toList, "1".toList)] else [])

def dnfWritten (name : Str) (c : DnfConfig) : List Directive :=
  (if c.description ≠ [] then [("name".toList, [strip c.description])]
    else [("name".toList, [name])]) ++
    [("baseurl".toList, Text.words isListSep c.baseURL)] ++
    (if c.enabled then [("enabled".toList, ["1".toList])] else [("enabled".toList, ["0".toList])]) ++
    (if c.gpgCheck then
      [("gpgcheck".toList, ["1".toList])] ++
        (if c.gpgKey ≠ [] then [("gpgkey".toList, Text.words isListSep c.gpgKey)] else [])
    else [("gpgcheck".toList, ["0".toList])]) ++
    (if c.moduleHotfixes then [("module_hotfixes".toList, ["1".toList])] else [])

theorem iniLine_eq (key value : Str) : iniLine key value = unlines [dnfLine (key, value)] := by
  have heq : "=" = ['='] := rfl
  have hend : "\n" = ['\n'] := rfl
  rw [iniLine, heq, hend, unlines_cons, dnfLine, append_assoc, append_assoc,
    append_assoc]
  rfl

theorem dnfContent_eq (name : Str) (c : DnfConfig) :
    dnfContent name c = unlines ([] ++ header name :: (dnfFields name c).map dnfLine) := by
  have hend : "\n" = ['\n'] := rfl
  unfold dnfContent dnfFields
  simp only [map_append, unlines_append, apply_ite (map dnfLine), apply_ite unlines,
    map_cons, map_nil, iniLine_eq, unlines_cons, hend, append_assoc,
    cons_append, nil_append, unlines_nil]

/-- What `validateDnf` makes sure of. -/
structure DnfTokens (name : Str) (c : DnfConfig) : Prop where
  name : Token name
  description : '\n' ∉ c.description
  baseURL : Token c.baseURL
  gpgKey : c.gpgKey ≠ [] → Token c.gpgKey

theorem dnfTokens_of_validate (h : validate parse (.dnf name c) = none) : DnfTokens name c := by
  rw [validate, Option.or_eq_none_iff] at h
  obtain ⟨hdesc, hurl, hkey⟩ := of_validateDnf h.2
  refine ⟨token_of_validName (validName_of_validateName h.1), ?_, ?_, fun hne => ?_⟩
  · exact fun hmem => absurd (of_rejectControl hdesc _ hmem).1 (by decide)
  · exact token_of_hasCtrlOrSpace ⟨(of_validateRepoBaseURL hurl).1, (of_validateRepoBaseURL hurl).2.1⟩
  · exact token_of_hasCtrlOrSpace (of_validateGpgKeyRef (hkey hne))

/-- A key that begins a line of the file, and how its value is split. -/
def IsKey (key : Str) (isList : Bool) : Prop :=
  isName '=' ['#', ';', '['] key = true ∧ '\n' ∉ key ∧ strip key = key ∧
    (isList = true ↔ key = "baseurl" ∨ key = "gpgkey")

instance (key : Str) (isList : Bool) : Decidable (IsKey key isList) := by
  unfold IsKey
  infer_instance

theorem written_dnf (hkey : IsKey key false) (hvalue : '\n' ∉ value) :
    Written iniItem dnfSplit dnfLine (key, value) (key, [strip value]) := by
  obtain ⟨hname, hline, hstrip, hlist⟩ := hkey
  refine ⟨by simp [dnfLine, hline, hvalue], key, strip value, ?_, ?_⟩
  · rw [dnfLine, iniItem_field hname, hstrip]
  · rw [dnfSplit, if_neg fun h => Bool.false_ne_true (hlist.mpr h)]

theorem Token.written_dnf (hvalue : Token value) (hkey : IsKey key false) :
    Written iniItem dnfSplit dnfLine (key, value) (key, [value]) := by
  have h := Repo.written_dnf hkey hvalue.notMem
  rwa [hvalue.strip] at h

theorem Token.written_list (hvalue : Token value) (hkey : IsKey key true) :
    Written iniItem dnfSplit dnfLine (key, value) (key, Text.words isListSep value) := by
  obtain ⟨hname, hline, hstrip, hlist⟩ := hkey
  refine ⟨by simp [dnfLine, hline, hvalue.notMem], key, value, ?_, ?_⟩
  · rw [dnfLine, iniItem_field hname, hstrip, hvalue.strip]
  · rw [dnfSplit, if_pos (hlist.mp rfl)]

theorem dnfFields_written (h : DnfTokens name c) :
    Forall₂ (Written iniItem dnfSplit dnfLine) (dnfFields name c) (dnfWritten name c) := by
  have hzero : Token "0" := token_of_all (by decide)
  have hone : Token "1" := token_of_all (by decide)
  refine rel_append (rel_append (rel_append (rel_append ?_ ?_) ?_) ?_) ?_
  · exact forall₂_ite (fun _ => .cons (written_dnf (by decide) h.description) .nil)
      fun _ => .cons (h.name.written_dnf (by decide)) .nil
  · exact .cons (h.baseURL.written_list (by decide)) .nil
  · exact forall₂_ite (fun _ => .cons (hone.written_dnf (by decide)) .nil)
      fun _ => .cons (hzero.written_dnf (by decide)) .nil
  · refine forall₂_ite (fun _ => ?_) fun _ => .cons (hzero.written_dnf (by decide)) .nil
    refine rel_append (.cons (hone.written_dnf (by decide)) .nil) ?_
    exact forall₂_ite (fun hne => .cons ((h.gpgKey hne).written_list (by decide)) .nil)
      fun _ => .nil
  · exact forall₂_ite (fun _ => .cons (hone.written_dnf (by decide)) .nil) fun _ => .nil

theorem dnfRead_dnfContent (h : DnfTokens name c) (hname : validName name = true) :
    dnfRead (dnfContent name c) = some [(some name, dnfWritten name c)] := by
  have hline : '\n' ∉ header name := by simpa [header] using h.name.notMem
  have hheader : iniItem (header name) = .header name :=
    iniItem_header (notMem_of_validName hname (by decide))
  rw [dnfContent_eq]
  exact readWith_header [] hheader hline (dnfFields_written h) (by simp) rfl

theorem Token.listWords_iff (h : Token s) : Text.words isListSep s = [s] ↔ ',' ∉ s := by
  rw [Text.words_eq_singleton_iff]
  constructor
  · intro hwords hmem
    exact absurd (hwords.2 _ hmem) (by decide)
  · intro hcomma
    refine ⟨h.ne_nil, fun c hc => ?_⟩
    rw [isListSep, h.isBlank_eq_false c hc]
    exact decide_eq_false fun heq => hcomma (heq ▸ hc)

theorem dnfWritten_iff (h : DnfTokens name c) :
    dnfWritten name c = dnfDirectives name c ↔ Plain (.dnf name c) := by
  have hurl : Text.words isListSep c.baseURL = [c.baseURL] ↔ ',' ∉ c.baseURL :=
    h.baseURL.listWords_iff
  unfold dnfWritten dnfDirectives Plain
  rw [append_cancel_right_eq]
  simp only [append_assoc, append_cancel_left_eq, cons_append, nil_append,
    cons.injEq, Prod.mk.injEq, true_and, hurl]
  by_cases hkey : c.gpgKey = []
  · cases c.gpgCheck <;> simp [hkey]
  · have hgpg := (h.gpgKey hkey).listWords_iff
    cases c.gpgCheck <;> simp [hkey, hgpg]

/-! ## What pacman reads -/

def pacmanLine (f : Field) : Line := f.1 ++ ' ' :: '=' :: ' ' :: f.2

def pacmanFields (c : PacmanConfig) : List Field :=
  (if c.sigLevel ≠ [] then [("SigLevel".toList, c.sigLevel)] else []) ++
    [("Server".toList, c.server)]

theorem body_eq (c : PacmanConfig) :
    Pacman.body c = (pacmanFields c).map pacmanLine ++ [[]] := by
  have hsig : "SigLevel = " = "SigLevel" ++ [' ', '=', ' '] := by decide
  have hserver : "Server = " = "Server" ++ [' ', '=', ' '] := by decide
  unfold Pacman.body pacmanFields
  rw [hsig, hserver]
  split_ifs <;> simp only [map_cons, map_nil, pacmanLine, append_assoc,
    cons_append, nil_append]

theorem sectionText_eq_unlines (name : Str) (c : PacmanConfig) :
    Pacman.sectionText name c =
      unlines ([[]] ++ header name :: (pacmanFields c).map pacmanLine) := by
  rw [Pacman.sectionText_eq, body_eq, ← cons_append, join_concat_nil, singleton_append,
    unlines_cons []]
  rfl

/-- What `validatePacman` makes sure of. -/
structure PacmanTokens (name : Str) (c : PacmanConfig) : Prop where
  name : Token name
  sigLevel : '\n' ∉ c.sigLevel
  server : Token c.server

variable {c : PacmanConfig}

theorem pacmanTokens_of_validate (h : validate parse (.pacman name c) = none) :
    PacmanTokens name c := by
  rw [validate, Option.or_eq_none_iff, Option.or_eq_none_iff] at h
  obtain ⟨hcontrol, -, hurl⟩ := of_validatePacman h.2.2
  have hserver := of_validateRepoBaseURL hurl
  exact ⟨token_of_validName (validName_of_validateName h.1),
    fun hmem => absurd (of_rejectControl hcontrol _ hmem).1 (by decide),
    token_of_hasCtrlOrSpace ⟨hserver.1, hserver.2.1⟩⟩

theorem pacmanFields_written (h : PacmanTokens name c) :
    Forall₂ (Written confItem pacmanSplit pacmanLine) (pacmanFields c)
      (pacmanDirectives c) := by
  have hsig := confItem_spaced (show _ ∧ strip _ = "SigLevel" by decide) c.sigLevel
  have hserver := confItem_spaced (show _ ∧ strip _ = "Server" by decide) c.server
  refine rel_append (forall₂_ite (fun _ => .cons ?_ .nil) fun _ => .nil) (.cons ?_ .nil)
  · refine ⟨?_, _, _, hsig, ?_⟩
    · simp [pacmanLine, h.sigLevel]
    · rw [pacmanSplit, if_pos rfl, words_strip fun _ => id]
  · refine ⟨?_, _, _, hserver, ?_⟩
    · simp [pacmanLine, h.server.notMem]
    · rw [pacmanSplit, if_neg (by decide), h.server.strip]

theorem pacmanRead_sectionText (h : PacmanTokens name c) :
    pacmanRead (Pacman.sectionText name c) = some [(some name, pacmanDirectives c)] := by
  have hline : '\n' ∉ header name := by simpa [header] using h.name.notMem
  rw [sectionText_eq_unlines]
  refine readWith_header [[]] (confItem_header name) hline (pacmanFields_written h) ?_ rfl
  exact forall_mem_singleton.mpr ⟨by simp, rfl⟩

/-! ## The three of them -/

theorem https_of_validateRepoBaseURL (h : validateRepoBaseURL parse s = none) : Https parse s := by
  obtain ⟨-, -, u, hparse, hscheme, -⟩ := of_validateRepoBaseURL h
  exact ⟨u, hparse, hscheme⟩

/-- Of every accepted repository, the package manager reads what was configured and nothing else, if
and only if, for dnf, there is no comma in the URL and the key, and no key that goes unused. -/
theorem faithful_iff {r : Repository} (h : validate parse r = none) :
    Faithful parse r ↔ Plain r := by
  cases r with
  | apt name c => exact iff_of_true (aptRead_buildAptSources (aptTokens_of_validate h)) trivial
  | dnf name c =>
    have htokens := dnfTokens_of_validate h
    rw [validate, Option.or_eq_none_iff] at h
    have hhttps := https_of_validateRepoBaseURL (of_validateDnf h.2).2.1
    rw [← dnfWritten_iff htokens, Faithful,
      dnfRead_dnfContent htokens (validName_of_validateName h.1), and_iff_left hhttps]
    simp
  | pacman name c =>
    have htokens := pacmanTokens_of_validate h
    rw [validate, Option.or_eq_none_iff, Option.or_eq_none_iff] at h
    have hhttps := https_of_validateRepoBaseURL (of_validatePacman h.2.2).2.2
    exact iff_of_true ⟨pacmanRead_sectionText htokens, hhttps⟩ trivial

end

/-! ## One URL read as two -/

def smuggled : DnfConfig where
  baseURL := "https://h/a,http://evil/"
  description := []
  enabled := true
  gpgCheck := true
  gpgKey := []
  moduleHotfixes := false

/-- An accepted URL with a comma is two for dnf. -/
theorem second_url :
    validate Pacman.toyParse (.dnf "corp" smuggled) = none ∧
      (dnfRead (dnfContent "corp" smuggled)).map (·.map fun st => st.2[1]?) =
        some [some ("baseurl".toList, ["https://h/a".toList, "http://evil/"])] ∧
      ¬ Faithful Pacman.toyParse (.dnf "corp" smuggled) := by
  have hread : (dnfRead (dnfContent "corp" smuggled)).map (·.map fun st => st.2[1]?) =
      some [some ("baseurl".toList, ["https://h/a".toList, "http://evil/"])] := by
    decide +kernel
  refine ⟨by decide +kernel, hread, fun h => ?_⟩
  rw [h.1] at hread
  revert hread
  decide +kernel

def signed : DnfConfig := { smuggled with baseURL := "https://h/a", gpgKey := "https://h/key" }

/-- A signed repository. -/
theorem plain_url :
    validate Pacman.toyParse (.dnf "corp" signed) = none ∧
      Faithful Pacman.toyParse (.dnf "corp" signed) := by
  have haccepted : validate Pacman.toyParse (.dnf "corp" signed) = none := by decide +kernel
  exact ⟨haccepted, (faithful_iff haccepted).mpr ⟨by decide, fun _ => ⟨rfl, by decide⟩⟩⟩

end PowerManage.Repo
