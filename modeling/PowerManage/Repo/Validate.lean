import PowerManage.Lib.Text

/-!
# Repository configurations and their validation

A repository has a name and a configuration for each package manager; `Validate` checks the name and
the configuration of the backend at hand.  The fields with a narrow grammar are matched against it.
A URL has no white space and no control characters, and the rest is up to `url.Parse`, which is a
parameter here.
-/

namespace PowerManage.Repo

open PathName

/-! ## Configurations -/

/-- An apt repository. -/
structure AptConfig where
  url : Str
  distribution : Str
  components : List Str
  arch : Str
  gpgKey : List UInt8
  trusted : Bool
deriving DecidableEq

/-- A dnf repository. -/
structure DnfConfig where
  baseURL : Str
  description : Str
  enabled : Bool
  gpgCheck : Bool
  gpgKey : Str
  moduleHotfixes : Bool
deriving DecidableEq

/-- A pacman repository. -/
structure PacmanConfig where
  server : Str
  sigLevel : Str
deriving DecidableEq

/-! ## Errors -/

def errInvalidName : Str := "repo: invalid repository name"

def errInvalidConfig : Str := "repo: invalid repository configuration"

def required (field : Str) : Str :=
  errInvalidConfig ++ ": field " ++ Text.quote field ++ " is required"

def badShape (field : Str) : Str :=
  errInvalidConfig ++ ": field " ++ Text.quote field ++ " has an invalid shape"

def hasControl (s : Str) : Bool := s.any fun c => c.toNat < 0x20 || c.toNat = 0x7f

def rejectControl (field s : Str) : Option Str :=
  if hasControl s then
    some (errInvalidConfig ++ ": field " ++ Text.quote field ++
      " contains a control character")
  else none

def checkShape (field : Str) (shape : Str → Bool) (s : Str) :
    Option Str :=
  if s ≠ [] ∧ shape s = false then some (badShape field) else none

/-! ## Shapes -/

def isLower (c : Char) : Bool := 97 ≤ c.toNat && c.toNat ≤ 122

def isUpper (c : Char) : Bool := 65 ≤ c.toNat && c.toNat ≤ 90

def isDigit (c : Char) : Bool := 48 ≤ c.toNat && c.toNat ≤ 57

def isAlnum (c : Char) : Bool := isLower c || isUpper c || isDigit c

/-- One character of `first`, and then any of `rest`. -/
def shaped (first rest : Char → Bool) : Str → Bool
  | [] => false
  | c :: s => first c && s.all rest

def isNameChar (c : Char) : Bool := isAlnum c || c = '.' || c = '_' || c = '-'

/-- `^[a-zA-Z0-9][a-zA-Z0-9._-]*$` -/
def validName : Str → Bool := shaped isAlnum isNameChar

def validAptDistribution : Str → Bool := validName

def validAptComponent : Str → Bool := validName

/-- `^[a-z0-9][a-z0-9,_-]*$` -/
def validAptArch : Str → Bool :=
  shaped (fun c => isLower c || isDigit c)
    fun c => isLower c || isDigit c || c = ',' || c = '_' || c = '-'

/-- `^[a-zA-Z ]+$` -/
def validPacmanSigLevel : Str → Bool :=
  shaped (fun c => isLower c || isUpper c || c = ' ') fun c => isLower c || isUpper c || c = ' '

def maxNameLen : Nat := 128

def byteLen (s : Str) : Nat := (s.map Char.utf8Size).sum

def validateName (name : Str) : Option Str :=
  if name = [] then some (errInvalidName ++ ": name is empty")
  else if byteLen name > maxNameLen then
    some (errInvalidName ++ ": name exceeds " ++ Text.decimal maxNameLen ++
      " characters")
  else if !validName name then
    some (errInvalidName ++ ": name must match [a-zA-Z0-9][a-zA-Z0-9._-]*")
  else none

/-! ## URLs and keys -/

/-- What is looked at of a parsed URL. -/
structure Url where
  scheme : Str
  host : Str
  user : Bool
  path : Str
deriving DecidableEq

abbrev UrlParser := Str → Except Str Url

def isCtrlOrSpace (c : Char) : Bool := c.toNat ≤ 32 || c.toNat = 0x7f

def hasCtrlOrSpace (s : Str) : Bool := s.any isCtrlOrSpace

variable (parse : UrlParser)

def validateAptURL (rawURL : Str) : Option Str :=
  if rawURL = [] then some (required "apt.url")
  else if hasCtrlOrSpace rawURL then some (badShape "apt.url")
  else
    match parse rawURL with
    | .error _ => some (badShape "apt.url")
    | .ok u =>
      if u.scheme ≠ "http" ∧ u.scheme ≠ "https" then some (badShape "apt.url")
      else if u.host = [] then some (badShape "apt.url")
      else if u.user then some (badShape "apt.url")
      else none

/-- TLS only, and with a host. -/
def validateRepoBaseURL (rawURL : Str) : Option Str :=
  if rawURL = [] then some "repository base URL is empty"
  else if hasCtrlOrSpace rawURL then
    some "repository base URL contains whitespace or control characters"
  else
    match parse rawURL with
    | .error err => some ("repository base URL is not a valid URL: " ++ err)
    | .ok u =>
      if u.scheme ≠ "https" then
        some ("repository base URL must use https, got scheme " ++ Text.quote u.scheme)
      else if u.host = [] then some "repository base URL has no host"
      else none

def validateGpgKeyRef (ref : Str) : Option Str :=
  if ref = [] then some "gpg key ref is empty"
  else if hasCtrlOrSpace ref then
    some "gpg key ref contains whitespace or control characters"
  else if hasPrefix ref ['-'] then
    some ("gpg key ref " ++ Text.quote ref ++ " is flag-shaped (leading '-')")
  else if hasPrefix ref "https://" then
    match parse ref with
    | .error err => some ("gpg key ref is not a valid URL: " ++ err)
    | .ok u => if u.host = [] then some "gpg key https ref has no host" else none
  else if hasPrefix ref "file://" then
    match parse ref with
    | .error err => some ("gpg key ref is not a valid URL: " ++ err)
    | .ok u =>
      if u.host ≠ [] then
        some "gpg key file ref must be file:///absolute/path (no host)"
      else if !hasPrefix u.path ['/'] || Text.contains u.path ".." then
        some "gpg key file ref must be an absolute path with no '..'"
      else none
  else if hasPrefix ref ['/'] then
    if Text.contains ref ".." then
      some "gpg key path ref must not contain '..'"
    else none
  else
    some ("gpg key ref " ++ Text.quote ref ++
      (" must be an https URL, a file:// absolute path, or an absolute filesystem path").toList)

/-! ## Validation -/

def validateComponent (comp : Str) : Option Str :=
  (rejectControl "apt.components" comp).or
    (if validAptComponent comp then none else some (badShape "apt.components"))

def validateApt (c : AptConfig) : Option Str :=
  (validateAptURL parse c.url).or <|
  (rejectControl "apt.distribution" c.distribution).or <|
  (checkShape "apt.distribution" validAptDistribution c.distribution).or <|
  (if c.distribution = [] ∧ c.components ≠ [] then
    some (errInvalidConfig ++ (": apt.components requires apt.distribution " ++
      "(a flat repository — empty distribution — must have no components)").toList)
  else none).or <|
  (c.components.findSome? validateComponent).or <|
  (rejectControl "apt.arch" c.arch).or <|
  checkShape "apt.arch" validAptArch c.arch

def validateDnf (c : DnfConfig) : Option Str :=
  if c.baseURL = [] then some (required "dnf.baseurl")
  else
    (rejectControl "dnf.description" c.description).or <|
    (if validateRepoBaseURL parse c.baseURL ≠ none then some (badShape "dnf.baseurl")
    else none).or <|
    if c.gpgKey ≠ [] ∧ validateGpgKeyRef parse c.gpgKey ≠ none then
      some (badShape "dnf.gpgkey")
    else none

/-- A token of a `SigLevel` that turns signature checks off. -/
def isNever (tok : Str) : Bool :=
  tok.map Text.toLower ∈ ["never".toList, "packagenever".toList, "databasenever".toList]

def disablesPacmanSig (sigLevel : Str) : Bool := (Text.fields sigLevel).any isNever

def validatePacman (c : PacmanConfig) : Option Str :=
  if c.server = [] then some (required "pacman.server")
  else
    (rejectControl "pacman.sig_level" c.sigLevel).or <|
    (checkShape "pacman.sig_level" validPacmanSigLevel c.sigLevel).or <|
    (if disablesPacmanSig c.sigLevel then
      some (errInvalidConfig ++ ": field " ++ Text.quote "pacman.sig_level" ++
        " disables signature verification (Never)")
    else none).or <|
    if validateRepoBaseURL parse c.server ≠ none then some (badShape "pacman.server")
    else none

def pacmanReserved : Str := "options"

def validatePacmanName (name : Str) : Option Str :=
  if name.map Text.toLower = pacmanReserved then
    some (errInvalidConfig ++ ": " ++ Text.quote name ++
      " is the reserved pacman.conf section, not a repository")
  else none

/-! ## What has been accepted -/

section

variable {parse : UrlParser} {s name : Str}

theorem nameChar_of_validName (h : validName s = true) : s ≠ [] ∧ ∀ c ∈ s, isNameChar c = true := by
  cases s with
  | nil => cases h
  | cons c t =>
    rw [validName, shaped, Bool.and_eq_true, List.all_eq_true] at h
    refine ⟨List.cons_ne_nil _ _, fun d hd => ?_⟩
    rcases List.mem_cons.mp hd with rfl | hd
    · simp [isNameChar, h.1]
    · exact h.2 d hd

theorem validName_of_validateName (h : validateName name = none) : validName name = true := by
  unfold validateName at h
  split_ifs at h with hempty hlong hvalid
  simpa using hvalid

theorem toNat_of_isNameChar {c : Char} (h : isNameChar c = true) :
    45 ≤ c.toNat ∧ c.toNat ≤ 122 := by
  simp only [isNameChar, isAlnum, isLower, isUpper, isDigit, Bool.or_eq_true, Bool.and_eq_true,
    decide_eq_true_eq] at h
  rcases h with ((h | rfl) | rfl) | rfl
  · omega
  all_goals decide

theorem notMem_of_validName (h : validName s = true) {d : Char} (hd : isNameChar d = false) :
    d ∉ s := by
  intro hmem
  rw [(nameChar_of_validName h).2 d hmem] at hd
  cases hd

theorem notMem_of_hasCtrlOrSpace (h : hasCtrlOrSpace s = false) :
    ∀ c ∈ s, 32 < c.toNat ∧ c.toNat ≠ 127 := by
  intro c hc
  have hnot := List.any_eq_false.mp h c hc
  simp only [isCtrlOrSpace, Bool.or_eq_true, decide_eq_true_eq] at hnot
  omega

theorem of_validateRepoBaseURL (h : validateRepoBaseURL parse s = none) :
    s ≠ [] ∧ hasCtrlOrSpace s = false ∧
      ∃ u, parse s = .ok u ∧ u.scheme = "https" ∧ u.host ≠ [] := by
  unfold validateRepoBaseURL at h
  split_ifs at h with hempty hctrl
  split at h
  · cases h
  · rename_i u hu
    split_ifs at h with hscheme hhost
    exact ⟨hempty, by simpa using hctrl, u, hu, by simpa using hscheme, hhost⟩

theorem of_rejectControl {field : Str} (h : rejectControl field s = none) :
    ∀ c ∈ s, 32 ≤ c.toNat ∧ c.toNat ≠ 127 := by
  intro c hc
  have hnot : ¬ hasControl s = true := by simpa [rejectControl] using h
  have hc := List.any_eq_false.mp (Bool.eq_false_iff.mpr hnot) c hc
  simp only [Bool.or_eq_true, decide_eq_true_eq] at hc
  omega

theorem of_checkShape {field : Str} {shape : Str → Bool}
    (h : checkShape field shape s = none) (hs : s ≠ []) : shape s = true := by
  simpa [checkShape, hs] using h

theorem of_validateAptURL (h : validateAptURL parse s = none) :
    s ≠ [] ∧ hasCtrlOrSpace s = false := by
  unfold validateAptURL at h
  split_ifs at h with hempty hctrl
  exact ⟨hempty, by simpa using hctrl⟩

theorem of_validateApt {c : AptConfig} (h : validateApt parse c = none) :
    validateAptURL parse c.url = none ∧
      checkShape "apt.distribution" validAptDistribution c.distribution = none ∧
      (∀ comp ∈ c.components, validAptComponent comp = true) ∧
      checkShape "apt.arch" validAptArch c.arch = none := by
  simp only [validateApt, Option.or_eq_none_iff, List.findSome?_eq_none_iff] at h
  obtain ⟨hurl, -, hdist, -, hcomps, -, harch⟩ := h
  refine ⟨hurl, hdist, fun comp hcomp => ?_, harch⟩
  have hshape := hcomps comp hcomp
  simp only [validateComponent, Option.or_eq_none_iff, ite_eq_left_iff, reduceCtorEq, imp_false,
    not_not] at hshape
  exact hshape.2

theorem of_validateDnf {c : DnfConfig} (h : validateDnf parse c = none) :
    rejectControl "dnf.description" c.description = none ∧
      validateRepoBaseURL parse c.baseURL = none ∧
      (c.gpgKey ≠ [] → validateGpgKeyRef parse c.gpgKey = none) := by
  rw [validateDnf, ite_eq_iff] at h
  obtain ⟨-, hnone⟩ | ⟨-, h⟩ := h
  · cases hnone
  · simp only [Option.or_eq_none_iff, ite_eq_right_iff, reduceCtorEq, imp_false, not_not,
      not_and] at h
    exact h

theorem of_validateGpgKeyRef (h : validateGpgKeyRef parse s = none) :
    s ≠ [] ∧ hasCtrlOrSpace s = false := by
  unfold validateGpgKeyRef at h
  by_cases hempty : s = []
  · rw [if_pos hempty] at h
    cases h
  rw [if_neg hempty] at h
  by_cases hctrl : hasCtrlOrSpace s = true
  · rw [if_pos hctrl] at h
    cases h
  · exact ⟨hempty, by simpa using hctrl⟩

theorem of_validatePacman {c : PacmanConfig} (h : validatePacman parse c = none) :
    rejectControl "pacman.sig_level" c.sigLevel = none ∧
      checkShape "pacman.sig_level" validPacmanSigLevel c.sigLevel = none ∧
      validateRepoBaseURL parse c.server = none := by
  rw [validatePacman, ite_eq_iff] at h
  obtain ⟨-, hnone⟩ | ⟨-, h⟩ := h
  · cases hnone
  · simp only [Option.or_eq_none_iff, ite_eq_right_iff, reduceCtorEq, imp_false, not_not] at h
    exact ⟨h.1, h.2.1, h.2.2.2⟩

end

end PowerManage.Repo
