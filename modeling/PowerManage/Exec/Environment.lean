import PowerManage.Lib.Text

/-!
# The environment of a child

`buildChildEnv` composes what a command sees: a `PATH`, the variables that the caller sets, and those
that the runner forces.  There are three branches.  With a `ChildPath` the child has that path, with
variables of its own it has the parent's, and with neither it inherits the parent's environment
without the names that could hijack it — of which `PATH` is one, so that this child has no `PATH`
(`no_path`).

`boundary_iff` is the rest: on every branch no other name of that kind gets through, in any letter
case, the forced variables win, and so does the last assignment of every other one.
-/

namespace PowerManage.Exec.Environment

open PathName Text List Option

/-- An entry of an environment, which should be `KEY=VALUE`. -/
abbrev Entry := Str

/-- The name of an entry: what is before the first `=`, or all of it. -/
def key (e : Entry) : Str := ((cut '=' e).map Prod.fst).getD e

/-- Why a command is not run in this environment. -/
inductive EnvError
  | invalid (text : Str)
  | blocked (text : Str)
  | reserved (text : Str)
deriving DecidableEq

/-! ## Names -/

def upper (s : Str) : Str := s.map toUpper

def isReservedEnvVar (name : Str) : Bool :=
  ["LANG", "LANGUAGE", "NO_COLOR"].any (fun s => s.toList = upper name) ||
    hasPrefix (upper name) "LC_".toList

def isNameStart (c : Char) : Bool :=
  ('a' ≤ c && c ≤ 'z') || ('A' ≤ c && c ≤ 'Z') || c = '_'

/-- `^[a-zA-Z_][a-zA-Z0-9_]*$` -/
def validEnvVarName : Str → Bool
  | [] => false
  | c :: s => isNameStart c && s.all fun d => isNameStart d || d.isDigit

def blockedEnvVars : List String :=
  ["GCONV_PATH", "HOSTALIASES", "RESOLV_HOST_CONF", "GETCONF_DIR", "NODE_OPTIONS", "PYTHONPATH",
    "PERL5OPT", "PERL5LIB", "RUBYLIB", "PATH", "IFS", "ENV", "BASH_ENV", "CDPATH", "GLOBIGNORE"]

/-- The name can hijack a process: it is on the list, or has one of the prefixes, in any letter
case. -/
def hijacks (name : Str) : Bool :=
  blockedEnvVars.any (fun s => s.toList = upper name) ||
    ["LD_", "BASH_FUNC_", "DYLD_"].any fun s => hasPrefix (upper name) s.toList

def isAllowedEnvVar (name : Str) : Bool := validEnvVarName name && !hijacks name

/-! ## Composition -/

/-- Every entry is an assignment to an allowed name. -/
def validateEnvVars : List Entry → Option EnvError
  | [] => none
  | e :: es =>
    match cut '=' e with
    | none => some (.invalid ("env entry must be KEY=VALUE, got ".toList ++ quote e))
    | some (k, _) =>
      if !isAllowedEnvVar k then
        some (.blocked ("refusing to forward env var ".toList ++ quote k ++ (" to child " ++
          "(hijack-prone names like LD_PRELOAD, PATH, BASH_ENV are refused at this boundary)").toList))
      else validateEnvVars es

def validateCommandEnv (env : List Entry) : Option EnvError :=
  (validateEnvVars env).or
    ((env.find? fun e => isReservedEnvVar (key e)).map fun e =>
      .reserved (quote (key e) ++ (" is forced by the Runner (LC_ALL=C/LANG=C/NO_COLOR=1) and may " ++
        "not be set via Command.Env").toList))

def path : Str := "PATH".toList

def composeEnv (childPath : Str) (envVars : List Entry) : List Entry :=
  (if childPath ≠ [] then ["PATH=".toList ++ childPath] else []) ++ envVars

def forcedEnv : List Entry := ["LC_ALL=C".toList, "LANG=C".toList, "NO_COLOR=1".toList]

/-- `os.Environ`: of entries with one name the first is kept, and empty entries are not there. -/
def environ (seen : List Str) : List Entry → List Entry
  | [] => []
  | e :: es =>
    match cut '=' e with
    | none => if e = [] then environ seen es else e :: environ seen es
    | some (k, _) => if k ∈ seen then environ seen es else e :: environ (k :: seen) es

variable (parent : List Entry)

def lookupEnv (name : Str) : Option Str :=
  ((parent.filterMap (cut '=')).find? fun a => a.1 = name).map Prod.snd

def getenv (name : Str) : Str := (lookupEnv parent name).getD []

/-- The assignments and the search path that a caller gives. -/
structure Command where
  env : List Entry
  childPath : Str
deriving DecidableEq

/-- What a child takes over from its parent. -/
def inherited : List Entry :=
  (environ [] parent).filter fun e =>
    match cut '=' e with
    | some (k, _) => isAllowedEnvVar k
    | none => false

/-- What is forced comes last, so that it counts. -/
def buildChildEnv (c : Command) : Except EnvError (List Entry) :=
  match validateCommandEnv c.env with
  | some err => .error err
  | none =>
    if c.childPath ≠ [] then .ok (composeEnv c.childPath c.env ++ forcedEnv)
    else if c.env ≠ [] then .ok (composeEnv (getenv parent path) c.env ++ forcedEnv)
    else .ok (inherited parent ++ forcedEnv)

/-! ## The boundary -/

def effective (env : List Entry) (name : Str) : Option Str :=
  ((env.filterMap (cut '=')).reverse.find? fun a => a.1 = name).map Prod.snd

/-- What holds of the environment of every child. -/
structure Boundary (parent : List Entry) (c : Command) (child : List Entry) : Prop where
  clean : ∀ e ∈ child, hijacks (key e) = true → key e = path
  once : (child.filter fun e => key e = path).length ≤ 1
  path : effective child path =
    if c.childPath ≠ [] then some c.childPath else lookupEnv parent path
  forced : effective child "LC_ALL".toList = some "C".toList ∧
    effective child "LANG".toList = some "C".toList ∧
    effective child "NO_COLOR".toList = some "1".toList
  assigned : ∀ e ∈ c.env, effective child (key e) = effective c.env (key e)

/-- The child gets its own path or the parent's, which is not empty; or the parent has none. -/
def HasPath (c : Command) : Prop :=
  c.childPath ≠ [] ∨ lookupEnv parent path = none ∨
    (c.env ≠ [] ∧ lookupEnv parent path ≠ some [])

/-! ## Values -/

variable {parent env env' : List Entry} {c : Command} {child : List Entry} {e : Entry}
  {name : Str}

theorem effective_append (env env' : List Entry) (name : Str) :
    effective (env ++ env') name = (effective env' name).or (effective env name) := by
  rw [effective, effective, effective, filterMap_append, reverse_append,
    find?_append]
  cases (env'.filterMap (cut '=')).reverse.find? fun a => a.1 = name <;> rfl

theorem key_of_cut {v : Str} (h : cut '=' e = some (name, v)) : key e = name := by
  rw [key, h]
  rfl

theorem effective_eq_none (h : ∀ e ∈ env, key e ≠ name) : effective env name = none := by
  rw [effective, map_eq_none_iff, find?_eq_none]
  intro a ha
  obtain ⟨e, he, hcut⟩ := mem_filterMap.mp (mem_reverse.mp ha)
  simpa [key_of_cut hcut] using h e he

theorem effective_isSome {v : Str} (he : e ∈ env) (hcut : cut '=' e = some (name, v)) :
    (effective env name).isSome = true := by
  rw [effective, isSome_map, find?_isSome]
  exact ⟨(name, v), mem_reverse.mpr (mem_filterMap.mpr ⟨e, he, hcut⟩), by simp⟩

/-! ## What passes -/

theorem of_validateEnvVars (h : validateEnvVars env = none) (he : e ∈ env) :
    (∃ v, cut '=' e = some (key e, v)) ∧ isAllowedEnvVar (key e) = true := by
  induction env with
  | nil => cases he
  | cons x env ih =>
    rw [validateEnvVars] at h
    cases hcut : cut '=' x with
    | none =>
      rw [hcut] at h
      cases h
    | some a =>
      obtain ⟨k, v⟩ := a
      simp only [hcut] at h
      split_ifs at h with hallowed
      rcases mem_cons.mp he with rfl | he
      · rw [key_of_cut hcut]
        exact ⟨⟨v, hcut⟩, by simpa using hallowed⟩
      · exact ih h he

theorem of_validateCommandEnv (h : validateCommandEnv env = none) (he : e ∈ env) :
    (∃ v, cut '=' e = some (key e, v)) ∧ isAllowedEnvVar (key e) = true ∧
      isReservedEnvVar (key e) = false := by
  rw [validateCommandEnv, or_eq_none_iff, map_eq_none_iff, find?_eq_none] at h
  obtain ⟨hcut, hallowed⟩ := of_validateEnvVars h.1 he
  exact ⟨hcut, hallowed, Bool.eq_false_iff.mpr (h.2 e he)⟩

theorem not_hijacks_of_allowed (h : isAllowedEnvVar name = true) : hijacks name = false := by
  rw [isAllowedEnvVar, Bool.and_eq_true, Bool.not_eq_true'] at h
  exact h.2

theorem ne_path_of_allowed (h : isAllowedEnvVar name = true) : name ≠ path := by
  rintro rfl
  exact absurd (not_hijacks_of_allowed h) (by decide)

theorem of_inherited (he : e ∈ inherited parent) : isAllowedEnvVar (key e) = true := by
  have hkept := (mem_filter.mp he).2
  split at hkept
  · rename_i k v hcut
    rw [key_of_cut hcut]
    exact hkept
  · cases hkept

theorem key_forced (he : e ∈ forcedEnv) : isReservedEnvVar (key e) = true ∧
    hijacks (key e) = false ∧ key e ≠ path := by
  simp only [forcedEnv, mem_cons, not_mem_nil, or_false] at he
  rcases he with rfl | rfl | rfl <;> decide

/-! ## The branches -/

theorem boundary_iff_of_lead {lead : List Entry} (hvalid : validateCommandEnv c.env = none)
    (hlead : ∀ e ∈ lead, hijacks (key e) = true → key e = path)
    (honce : (lead.filter fun e => key e = path).length ≤ 1) :
    Boundary parent c (lead ++ c.env ++ forcedEnv) ↔
      effective lead path = if c.childPath ≠ [] then some c.childPath else lookupEnv parent path := by
  have henv : ∀ e ∈ c.env, isAllowedEnvVar (key e) = true :=
    fun e he => (of_validateCommandEnv hvalid he).2.1
  have hpath : effective (lead ++ c.env ++ forcedEnv) path = effective lead path := by
    rw [effective_append, effective_append,
      effective_eq_none fun e he => (key_forced he).2.2,
      effective_eq_none fun e he => ne_path_of_allowed (henv e he), none_or, none_or]
  constructor
  · intro h
    rw [← hpath, h.path]
  · intro h
    refine ⟨fun e he hhijack => ?_, ?_, hpath.trans h, ?_, fun e he => ?_⟩
    · rcases mem_append.mp he with he | he
      · rcases mem_append.mp he with he | he
        · exact hlead e he hhijack
        · rw [not_hijacks_of_allowed (henv e he)] at hhijack
          cases hhijack
      · rw [(key_forced he).2.1] at hhijack
        cases hhijack
    · have hnone : ∀ es : List Entry, (∀ e ∈ es, key e ≠ path) →
          es.filter (fun e => key e = path) = [] :=
        fun es hes => filter_eq_nil_iff.mpr fun e he => by simpa using hes e he
      rw [filter_append, filter_append,
        hnone c.env fun e he => ne_path_of_allowed (henv e he),
        hnone forcedEnv fun e he => (key_forced he).2.2, append_nil, append_nil]
      exact honce
    · have hforced : effective forcedEnv "LC_ALL" = some "C".toList ∧
          effective forcedEnv "LANG" = some "C".toList ∧
          effective forcedEnv "NO_COLOR" = some "1".toList := by decide
      simp only [effective_append _ forcedEnv, hforced, some_or, and_self]
    · obtain ⟨⟨v, hcut⟩, -, hreserved⟩ := of_validateCommandEnv hvalid he
      have hforced : effective forcedEnv (key e) = none := by
        refine effective_eq_none fun f hf heq => ?_
        rw [← heq, (key_forced hf).1] at hreserved
        cases hreserved
      obtain ⟨w, hw⟩ := isSome_iff_exists.mp (effective_isSome he hcut)
      rw [effective_append, effective_append, hforced, none_or, hw, some_or]

theorem cut_path (p : Str) : cut '=' ("PATH=" ++ p) = some (path, p) :=
  cut_append (show '=' ∉ path by decide) p

theorem effective_lead (p : Str) :
    effective (if p ≠ [] then ["PATH=" ++ p] else []) path =
      if p ≠ [] then some p else none := by
  split_ifs
  · rw [effective, filterMap_cons, cut_path]
    simp
  · rfl

theorem key_lead {p : Str} (he : e ∈ if p ≠ [] then ["PATH=" ++ p] else []) :
    key e = path := by
  split_ifs at he
  · rw [mem_singleton.mp he]
    exact key_of_cut (cut_path p)
  · cases he

theorem length_lead (p : Str) :
    ((if p ≠ [] then ["PATH=" ++ p] else []).filter fun e => key e = path).length ≤ 1 := by
  split_ifs
  · exact le_refl 1
  · exact Nat.zero_le 1

/-- For every environment of the parent and every command that is accepted, the child's environment
keeps to the boundary if and only if it gets a path. -/
theorem boundary_iff (h : buildChildEnv parent c = .ok child) :
    Boundary parent c child ↔ HasPath parent c := by
  unfold buildChildEnv at h
  cases hvalid : validateCommandEnv c.env with
  | some err =>
    rw [hvalid] at h
    cases h
  | none =>
    simp only [hvalid] at h
    by_cases hchild : c.childPath ≠ []
    · rw [if_pos hchild] at h
      cases h
      refine (boundary_iff_of_lead hvalid (fun e he _ => key_lead he) (length_lead _)).trans ?_
      rw [if_pos hchild, if_pos hchild]
      exact iff_of_true rfl (.inl hchild)
    · rw [if_neg hchild] at h
      by_cases henv : c.env ≠ []
      · rw [if_pos henv] at h
        cases h
        refine (boundary_iff_of_lead hvalid (fun e he _ => key_lead he) (length_lead _)).trans ?_
        rw [effective_lead, if_neg hchild, HasPath, or_iff_right hchild, and_iff_right henv, getenv]
        cases lookupEnv parent path with
        | none => simp
        | some p => by_cases hp : p = [] <;> simp [hp]
      · rw [if_neg henv] at h
        cases h
        have hnil : c.env = [] := not_ne_iff.mp henv
        have hlead : ∀ e ∈ inherited parent, key e ≠ path :=
          fun e he => ne_path_of_allowed (of_inherited he)
        have hshape : inherited parent ++ forcedEnv = inherited parent ++ c.env ++ forcedEnv := by
          rw [hnil, append_nil]
        rw [hshape, boundary_iff_of_lead hvalid, effective_eq_none hlead, if_neg hchild, HasPath,
          or_iff_right hchild]
        · simp [hnil, eq_comm]
        · intro e he hhijack
          rw [not_hijacks_of_allowed (of_inherited he)] at hhijack
          cases hhijack
        · rw [filter_eq_nil_iff.mpr fun e he => by simpa using hlead e he]
          exact Nat.zero_le 1

def bare : Command := ⟨[], []⟩

def usrBin : List Entry := ["PATH=/usr/bin".toList, "LD_PRELOAD=x.so".toList, "HOME=/root".toList]

/-- A parent with a `PATH` and a child without one. -/
theorem no_path :
    buildChildEnv usrBin bare = .ok (["HOME=/root".toList] ++ forcedEnv) ∧
      lookupEnv usrBin path = some "/usr/bin".toList ∧
      effective (["HOME=/root".toList] ++ forcedEnv) path = none ∧
      ¬Boundary usrBin bare (["HOME=/root".toList] ++ forcedEnv) := by
  have hnone : effective (["HOME=/root".toList] ++ forcedEnv) path = none := by decide +kernel
  refine ⟨by decide +kernel, by decide +kernel, hnone, fun h => ?_⟩
  have hpath := h.path
  exact absurd hpath (by decide +kernel)

/-- A variable of the caller besides those that are forced. -/
theorem own_variable :
    Boundary usrBin ⟨["TERM=dumb"], []⟩
      (["PATH=/usr/bin".toList, "TERM=dumb"] ++ forcedEnv) :=
  (boundary_iff (by decide +kernel)).mpr (.inr (.inr ⟨by decide, by decide +kernel⟩))

end PowerManage.Exec.Environment
