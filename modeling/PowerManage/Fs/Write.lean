import PowerManage.Exec.Capture
import PowerManage.Fs.Manager

/-!
# Writing all or nothing

`WriteFile` writes a temporary file and moves it over the target.  This file runs it on a host where
any call may fail: files with their contents, modes and owners, directories, and links, which name
other files.

On the escalated backends the owner is set before the file is moved, so a failure leaves the target
as it was.  On the direct one it is set afterwards: a name that cannot be resolved, or a `chown` that
fails, is reported when the target has been replaced already (`unknown_owner`).  An escalated write
may get the rest of the promise wrong, since an owner may be an option to `chown`, and a backup a
directory to `cp`; and its context may end when the script has done its work.

A path names the file of its cleaned form, seen from the working directory: that two of them lead to
one file through links above it is left out.
-/

namespace PowerManage.Fs

open PathName Text FileMode Interaction List Function Option

/-! ## Files -/

/-- An owner and a group. -/
structure Ids where
  uid : BitVec 32
  gid : BitVec 32
deriving DecidableEq

/-- A file with what a write sets. -/
structure File where
  content : Bytes
  mode : UnixMode
  ids : Ids
deriving DecidableEq

/-- What a path may name. -/
inductive Node
  | file (f : File)
  | dir (info : DirInfo)
  | link (target : Str)
deriving DecidableEq

abbrev Nodes := Str → Option Node

/-- Where a chain of at most `n` links ends. -/
def follow (node : Nodes) : Nat → Str → Option Str
  | 0, _ => none
  | n + 1, p =>
    match node p with
    | some (.link q) => follow node n q
    | _ => some p

def maxFollow : Nat := 41

/-- The files of a host, by their absolute paths. -/
structure Host where
  node : Nodes
  /-- The temporary file that was made last, under a name that nothing else has. -/
  temp : Option File

def isLeaf (path : Str) : Bool :=
  match (components path).getLast? with
  | some c => decide (Proper c)
  | none => false

/-- The working directory, the databases of names, the owners and modes of new files, and how
`chown` reads an owner. -/
structure Env where
  cwd : Str
  names : Names
  self : Ids
  root : Ids
  umask : UnixMode
  chownTo : Str → Option (Ids → Ids)

/-- What a path names, as `filepath.Abs` has it. -/
def Env.abs (E : Env) (path : Str) : Str :=
  clean (if isAbs path then path else E.cwd ++ '/' :: path)

variable (h : Host) (E : Env)

/-- What stands at a path when all links are followed. -/
def Host.endOf (path : Str) : Option Node :=
  (follow h.node maxFollow (E.abs path)).bind h.node

def Host.dirInfo (path : Str) : Option DirInfo :=
  match h.endOf E path with
  | some (.dir i) => some i
  | _ => none

/-- What a reader gets. -/
def Host.content (path : Str) : Option Bytes :=
  if isLeaf path then
    match h.endOf E path with
    | some (.file f) => some f.content
    | _ => none
  else none

def Host.put (h : Host) (p : Str) (f : File) : Host :=
  { h with node := Function.update h.node p (some (.file f)) }

/-! ## Calls -/

/-- The number that `fchown` sets; -1 leaves the one that is there. -/
def setId (old : BitVec 32) (id : Int) : BitVec 32 :=
  if BitVec.ofInt 32 id = -1 then old else BitVec.ofInt 32 id

def Ids.set (i : Ids) (uid gid : Int) : Ids := ⟨setId i.uid uid, setId i.gid gid⟩

def Host.makeTemp (ids : Ids) (dir : Str) : Bool × Host :=
  if (h.dirInfo E dir).isSome then (true, { h with temp := some ⟨[], 0o600#32, ids⟩ }) else (false, h)

/-- A change of the temporary file. -/
def Host.onTemp (h : Host) (f : File → File) : Bool × Host :=
  match h.temp with
  | some t => (true, { h with temp := some (f t) })
  | none => (false, h)

/-- The temporary file moved to this path. -/
def Host.replace (path : Str) : Bool × Host :=
  match h.temp, h.node (E.abs path) with
  | none, _ | _, some (.dir _) => (false, h)
  | some t, _ =>
    if isLeaf path then (true, { h.put (E.abs path) t with temp := none }) else (false, h)

/-- `cp -f` of a file, which is at `src`, to this name. -/
def Host.copyOnto (h : Host) (src : Str) (f : File) (p : Str) : Bool × Host :=
  match follow h.node maxFollow p with
  | none => (false, h)
  | some d =>
    if d = src then (false, h)
    else
      match h.node d with
      | some (.file g) => (true, h.put d { g with content := f.content })
      | none =>
        -- a dangling link is not written through
        if d = p ∧ (h.dirInfo E (dirOf p)).isSome then
          (true, h.put d ⟨f.content, f.mode &&& ~~~E.umask, E.root⟩)
        else (false, h)
      | _ => (false, h)

/-- `cp -f -- "$target" "$backup"`, where the target is this file; a directory takes it inside. -/
def Host.copyTo (h : Host) (src : Str) (f : File) (target backup : Str) :
    Bool × Host :=
  match h.dirInfo E backup with
  | some _ => h.copyOnto E src f (E.abs (backup ++ '/' :: base target))
  | none => if isLeaf backup then h.copyOnto E src f (E.abs backup) else (false, h)

/-- `if [ -e "$target" ]; then cp -f -- "$target" "$backup"; fi` -/
def Host.backUp (h : Host) (target backup : Str) : Bool × Host :=
  if isLeaf target then
    match follow h.node maxFollow (E.abs target) with
    | none => (true, h)
    | some src =>
      match h.node src with
      | some (.file f) => h.copyTo E src f target backup
      | some (.dir _) => (false, h)
      | _ => (true, h)
  else ((h.dirInfo E target).isNone, h)

/-- Whether a step succeeds, and what it leaves. -/
def Host.step (h : Host) : Step → Bool × Host
  | .createTemp dir _ => h.makeTemp E E.self dir
  | .openTemp => (h.temp.isSome, h)
  | .write data => h.onTemp fun f => { f with content := f.content ++ data }
  | .chmod m => h.onTemp fun f => { f with mode := syscallMode m }
  | .rename path | .mv path => h.replace E path
  | .removeTemp | .rmTemp => (true, { h with temp := none })
  | .sync | .close | .syncDir _ | .closeCurrent _ | .shell | .shellDone => (true, h)
  | .openOwned path =>
    match h.node (E.abs path) with
    | some (.link _) | none => (false, h)
    | _ => (true, h)
  | .chown path uid gid =>
    match h.node (E.abs path) with
    | some (.file f) => (true, h.put (E.abs path) { f with ids := f.ids.set uid gid })
    | _ => (false, h)
  | .backUp target backup => h.backUp E target backup
  | .mktemp dir => h.makeTemp E E.root dir
  | .cat data => h.onTemp fun f => { f with content := data }
  | .chmodTemp w =>
    match ofOctal w with
    | some m => h.onTemp fun f => { f with mode := m }
    | none => (false, h)
  | .chownTemp w =>
    match E.chownTo w with
    | some own => h.onTemp fun f => { f with ids := own f.ids }
    | none => (false, h)

def Host.isRegular (path : Str) : Bool :=
  match h.node (E.abs path) with
  | some (.file _) => true
  | _ => false

/-- `cat`, as the runner captures its output. -/
def Host.cat (path : Str) : Result :=
  match h.content E path with
  | some c => ⟨0, Exec.stdoutBytes c, []⟩
  | none => ⟨1, [], "cat: " ++ path ++ ": No such file or directory"⟩

/-- The answers to all calls that do not fail. -/
def Host.answer (h : Host) : (c : Call) → Option (Reply c × Host)
  | .step s => some (h.step E s)
  | .run name args =>
    match args with
    | [_, path] => if name = "cat" then some (.ok (h.cat E path), h) else none
    -- of the other commands nothing is said here
    | _ => none
  | .statDir dir => some (h.dirInfo E dir, h)
  | .readFile path =>
    match h.content E path with
    | some c => some (.ok c, h)
    | none => some (.error (.other []), h)
  | .openCurrent path =>
    match h.node (E.abs path) with
    | none => some (.notExist, h)
    | some (.link _) => some (.failed, h)
    | some (.file _) => some (if isLeaf path then .ok else .failed, h)
    | some (.dir _) => some (.ok, h)
  | .statOpen path => some (some (h.isRegular E path), h)
  | .readCurrent path =>
    match h.node (E.abs path) with
    | some (.file f) => some (some f.content, h)
    | _ => some (none, h)

/-- The answers to calls that fail. -/
def failure (text : Str) : (c : Call) → Reply c
  | .step _ => false
  | .run _ _ => .error text
  | .statDir _ => none
  | .readFile _ => .error (.other text)
  | .openCurrent _ => Opened.failed
  | .statOpen _ => none
  | .readCurrent _ => none

/-- How a program ends on a host, when its calls end in these ways. -/
def Ends {α : Type} (E : Env) (p : Program α) (h : Host) (os : List (Option Str)) (r : α)
    (h' : Host) (os' : List (Option Str)) : Prop :=
  p.run (Prog.faulty (Host.answer E) failure) (h, os) = some (r, (h', os'))

/-! ## What a write promises -/

def wantedIds (b : Backend) (opts : WriteOptions) : Option Ids :=
  match resolveOwnership E.names opts.owner opts.group with
  | .ok (uid, gid) => some ((if b = .direct then E.self else E.root).set uid gid)
  | .error _ => none

/-- With an error the target is as it was; without one it is the new file, and what it held before is
in the backup. -/
structure AllOrNothing (E : Env) (b : Backend) (path : Str) (data : Bytes)
    (opts : WriteOptions) (h h' : Host) (err : Option FsError) : Prop where
  nothing : err ≠ none → h'.node (E.abs path) = h.node (E.abs path)
  all : err = none → ∃ ids, wantedIds E b opts = some ids ∧
    h'.node (E.abs path) = some (.file ⟨data, syscallMode opts.perm, ids⟩) ∧
    (opts.backup ≠ [] → ∀ c, h.content E path = some c → h'.content E opts.backup = some c)

/-- The checks at the start of `WriteFile` have passed. -/
structure Accepted (ctx : Option Str) (path : Str) (opts : WriteOptions) : Prop where
  inTime : ctx = none
  target : validatePath path = none
  mode : validateMode opts.mode = none
  backup : opts.backup ≠ [] → validatePath opts.backup = none
  distinct : opts.backup ≠ [] → clean opts.backup ≠ clean path

/-- No owner is asked for, or it is known and the three calls that set it succeed. -/
def CanOwn (opts : WriteOptions) (os : List (Option Str)) : Prop :=
  (opts.owner = [] ∧ opts.group = []) ∨
    ((wantedIds E .direct opts).isSome = true ∧ ∃ rest, os = none :: none :: none :: rest)

/-- `chown` reads the owner that the options name, and the backup is not a directory. -/
def ArgumentsRead (path : Str) (opts : WriteOptions) (h : Host) : Prop :=
  (∃ ids, wantedIds E .withSudo opts = some ids ∧
      (ownership opts.owner opts.group = [] ∨
        ∃ own, E.chownTo (ownership opts.owner opts.group) = some own ∧ own E.root = ids)) ∧
    (opts.backup ≠ [] → h.content E path ≠ none → h.dirInfo E opts.backup = none)

/-- The calls of an escalated write from its shell on, up to the end of the script. -/
def scriptCalls (path : Str) (data : Bytes) (opts : WriteOptions) : Nat :=
  1 + ((beforeTrap path opts.backup).length +
    (underTrap path (modeArg opts.perm) (ownership opts.owner opts.group) data).length)

/-- How many calls a write makes until the target is replaced, when all of them succeed. -/
def callsBefore (b : Backend) (path : Str) (data : Bytes) (opts : WriteOptions) (h : Host) : Nat :=
  match b with
  | .direct =>
    -- `safeReplaceFile` makes eight, and a backup is made by another one, after four on the target
    if opts.backup = [] then 8 else if h.node (E.abs path) = none then 9 else 20
  | .withSudo | .withDoas => 1 + scriptCalls path data opts

/-- What a write must be given.  On the direct backend, a backup that is another file than the target,
and an owner that can be set; on the others, arguments that are read as they are meant, and a shell
that is not given up when its script is through. -/
def Safe (b : Backend) (path : Str) (data : Bytes) (opts : WriteOptions) (h : Host)
    (os : List (Option Str)) : Prop :=
  let later := os.drop (callsBefore E b path data opts h)
  match b with
  | .direct => (opts.backup ≠ [] → E.abs opts.backup ≠ E.abs path) ∧ CanOwn E opts later
  | .withSudo | .withDoas => ArgumentsRead E path opts h ∧ later.head? = some none

/-! ## Links -/

variable {E : Env} {h h' h₁ : Host} {os os' : List (Option Str)} {p t d : Str}
  {node node' : Nodes}

variable {n : Nat} {s : Step} {backup owner path q src target text : Str} {f : File}
  {c data : Bytes} {perm : Mode} {err : Option FsError} {opts : WriteOptions} {b : Backend}

theorem not_link_of_follow (hf : follow node n p = some d) (q : Str) : node d ≠ some (.link q) := by
  induction n generalizing p with
  | zero => cases hf
  | succ n ih =>
    rw [follow] at hf
    split at hf
    · exact ih hf
    · rename_i hnot
      cases hf
      exact hnot q

theorem follow_det {m : Nat} {d' : Str} (hm : follow node m p = some d)
    (hn : follow node n p = some d') : d = d' := by
  induction m generalizing n p with
  | zero => cases hm
  | succ m ih =>
    cases n with
    | zero => cases hn
    | succ n =>
      rw [follow] at hm hn
      split at hm
      · rename_i q hq
        rw [hq] at hn
        exact ih hm hn
      rename_i hnot
      split at hn
      · rename_i q hq
        exact absurd hq (hnot q)
      · cases hm
        cases hn
        rfl

theorem follow_congr (hf : follow node n p = some d) (hd : ∀ q, node' d ≠ some (.link q))
    (hsame : ∀ q, q ≠ d → (∃ m, follow node m q = some d) → node' q = node q) :
    follow node' n p = some d := by
  induction n generalizing p with
  | zero => cases hf
  | succ n ih =>
    by_cases hp : p = d
    · rw [hp, follow]
      split
      · rename_i q hq
        exact absurd hq (hd q)
      · rfl
    · rw [follow, hsame p hp ⟨_, hf⟩]
      rw [follow] at hf
      split at hf
      · exact ih hf
      · cases hf
        exact absurd rfl hp

/-! ## Steps that fail -/

/-- A step that fails changes nothing. -/
structure Inert (h : Host) (r : Bool × Host) : Prop where
  same : r.1 = false → r.2 = h

theorem inert_true (h h' : Host) : Inert h (true, h') := ⟨fun hr => by cases hr⟩

theorem inert_same (h : Host) (ok : Bool) : Inert h (ok, h) := ⟨fun _ => rfl⟩

theorem inert_makeTemp (E : Env) (h : Host) (ids : Ids) (dir : Str) : Inert h (h.makeTemp E ids dir) := by
  unfold Host.makeTemp
  split_ifs
  · exact inert_true ..
  · exact inert_same ..

theorem inert_onTemp (h : Host) (f : File → File) : Inert h (h.onTemp f) := by
  unfold Host.onTemp
  split
  · exact inert_true ..
  · exact inert_same ..

theorem inert_replace (E : Env) (h : Host) (path : Str) : Inert h (h.replace E path) := by
  unfold Host.replace
  split
  · exact inert_same ..
  · exact inert_same ..
  · split_ifs
    · exact inert_true ..
    · exact inert_same ..

theorem inert_copyOnto (E : Env) (h : Host) (src : Str) (f : File) (p : Str) :
    Inert h (h.copyOnto E src f p) := by
  unfold Host.copyOnto
  split
  · exact inert_same ..
  split
  · exact inert_same ..
  split
  · exact inert_true ..
  · split
    · exact inert_true ..
    · exact inert_same ..
  · exact inert_same ..

theorem inert_backUp (E : Env) (h : Host) (target backup : Str) :
    Inert h (h.backUp E target backup) := by
  unfold Host.backUp
  split_ifs
  · split
    · exact inert_true ..
    · split
      · unfold Host.copyTo
        split
        · exact inert_copyOnto ..
        · split_ifs
          · exact inert_copyOnto ..
          · exact inert_same ..
      · exact inert_same ..
      · exact inert_true ..
  · exact inert_same ..

theorem inert_step (E : Env) (h : Host) (s : Step) : Inert h (h.step E s) := by
  cases s with
  | createTemp dir base | mktemp dir => exact inert_makeTemp ..
  | openTemp => exact inert_same ..
  | write data | chmod mode | cat data => exact inert_onTemp ..
  | rename path | mv path => exact inert_replace ..
  | removeTemp | rmTemp | sync | close | syncDir _ | closeCurrent _ | shell | shellDone => exact inert_true ..
  | openOwned path =>
    simp only [Host.step]
    split
    · exact inert_same ..
    · exact inert_same ..
    · exact inert_true ..
  | chown path uid gid =>
    simp only [Host.step]
    split
    · exact inert_true ..
    · exact inert_same ..
  | backUp target backup => exact inert_backUp ..
  | chmodTemp w | chownTemp w =>
    simp only [Host.step]
    split
    · exact inert_onTemp ..
    · exact inert_same ..

/-! ## Steps in order -/

def doAll (E : Env) : List (Step × Str) → Host → Option Host
  | [], h => some h
  | (s, _) :: rest, h => if (h.step E s).1 then doAll E rest (h.step E s).2 else none

theorem doAll_cons_eq_some {rest : List (Step × Str)} :
    doAll E ((s, text) :: rest) h = some h₁ ↔
      (h.step E s).1 = true ∧ doAll E rest (h.step E s).2 = some h₁ := by
  rw [doAll]
  split_ifs with hok <;> simp [hok]

/-- The step leaves this file alone. -/
def Keeps (E : Env) (t : Str) (s : Step) : Prop :=
  ∀ h : Host, (h.step E s).2.node t = h.node t

variable {α : Type}

theorem ends_ask_step {k : Bool → Program α} {r : α}
    (hrun : Ends E (.ask (.step s) k) h os r h' os') :
    (∃ os₁, os = none :: os₁ ∧ (h.step E s).1 = true ∧ Ends E (k true) (h.step E s).2 os₁ r h' os') ∨
      ∃ o os₁, os = o :: os₁ ∧ Ends E (k false) h os₁ r h' os' := by
  obtain ⟨e, os₁, rfl, hk⟩ | ⟨os₁, x, h₁, rfl, hanswer, hk⟩ := Prog.run_faulty_ask hrun
  · exact .inr ⟨some e, os₁, rfl, hk⟩
  · have heq : h.step E s = (x, h₁) := some.inj hanswer
    have hinert := inert_step E h s
    rw [heq] at hinert ⊢
    cases x with
    | true => exact .inl ⟨os₁, rfl, rfl, hk⟩
    | false =>
      obtain rfl : h₁ = h := hinert.same rfl
      exact .inr ⟨none, os₁, rfl, hk⟩

/-- All steps succeed and the program goes on, or what the steps before the last one keep is kept.
-/
theorem ends_inOrder {fail : Str → Program α} {steps : List (Step × Str)}
    {k : Program α} {r : α} (hkeep : ∀ x ∈ steps.dropLast, Keeps E t x.1)
    (hrun : Ends E (inOrder fail steps k) h os r h' os') :
    (∃ h₁ os₁, doAll E steps h = some h₁ ∧ os = replicate steps.length none ++ os₁ ∧
        Ends E k h₁ os₁ r h' os') ∨
      ∃ text h₁ os₁, h₁.node t = h.node t ∧ Ends E (fail text) h₁ os₁ r h' os' := by
  induction steps generalizing h os with
  | nil => exact .inl ⟨h, os, rfl, rfl, hrun⟩
  | cons x rest ih =>
    obtain ⟨s, text⟩ := x
    obtain ⟨os₁, rfl, hok, hk⟩ | ⟨o, os₁, rfl, hk⟩ := ends_ask_step hrun
    · have hall : ∀ h₁, doAll E rest (h.step E s).2 = some h₁ →
          doAll E ((s, text) :: rest) h = some h₁ :=
        fun h₁ hrest => doAll_cons_eq_some.mpr ⟨hok, hrest⟩
      cases rest with
      | nil => exact .inl ⟨_, os₁, hall _ rfl, rfl, hk⟩
      | cons y rest =>
        obtain ⟨h₁, os₂, hrest, rfl, hends⟩ | ⟨text', h₁, os₂, hnode, hends⟩ :=
          ih (fun x hx => hkeep x (mem_cons_of_mem _ hx)) hk
        · exact .inl ⟨h₁, os₂, hall _ hrest, rfl, hends⟩
        · have hs : (h.step E s).2.node t = h.node t := hkeep (s, text) (mem_cons_self ..) h
          exact .inr ⟨text', h₁, os₂, hnode.trans hs, hends⟩
    · exact .inr ⟨text, h, os₁, rfl, hk⟩

theorem ends_ret {a r : α} (hrun : Ends E (.ret a) h os r h' os') :
    r = a ∧ h' = h ∧ os' = os := by
  cases hrun
  exact ⟨rfl, rfl, rfl⟩

theorem ends_bind {α β : Type} {p : Program α} {f : α → Program β} {r : β} :
    Ends E (p.bind f) h os r h' os' ↔
      ∃ a h₁ os₁, Ends E p h os a h₁ os₁ ∧ Ends E (f a) h₁ os₁ r h' os' := by
  rw [Ends, Prog.run_bind_eq_some]
  constructor
  · rintro ⟨a, ⟨h₁, os₁⟩, hp, hf⟩
    exact ⟨a, h₁, os₁, hp, hf⟩
  · rintro ⟨a, h₁, os₁, hp, hf⟩
    exact ⟨a, (h₁, os₁), hp, hf⟩

/-! ## Steps on the temporary file -/

def Step.aside : Step → Bool
  | .rename _ | .mv _ | .chown _ _ _ | .backUp _ _ => false
  | _ => true

@[simp] theorem makeTemp_node (E : Env) (h : Host) (ids : Ids) (dir : Str) :
    (h.makeTemp E ids dir).2.node = h.node := by
  unfold Host.makeTemp
  split <;> rfl

@[simp] theorem onTemp_node (h : Host) (f : File → File) : (h.onTemp f).2.node = h.node := by
  unfold Host.onTemp
  split <;> rfl

theorem step_node_of_aside (hs : s.aside = true) (h : Host) : (h.step E s).2.node = h.node := by
  cases s with
  | createTemp dir base | mktemp dir => exact makeTemp_node ..
  | write data | chmod mode | cat data => exact onTemp_node ..
  | openTemp | removeTemp | rmTemp | sync | close | syncDir _ | closeCurrent _ | shell | shellDone => rfl
  | openOwned path =>
    simp only [Host.step]
    split <;> rfl
  | chmodTemp w | chownTemp w =>
    simp only [Host.step]
    split
    · exact onTemp_node ..
    · rfl
  | rename _ | mv _ | chown _ _ _ | backUp _ _ => cases hs

theorem keeps_of_aside {steps : List (Step × Str)}
    (hs : steps.all (fun x => x.1.aside) = true) : ∀ x ∈ steps, Keeps E t x.1 :=
  fun x hx h => congrFun (step_node_of_aside (all_eq_true.mp hs x hx) h) t

theorem makeTemp_of_true {ids : Ids} {dir : Str} (hok : (h.makeTemp E ids dir).1 = true) :
    (h.makeTemp E ids dir).2 = { h with temp := some ⟨[], 0o600#32, ids⟩ } := by
  unfold Host.makeTemp at hok ⊢
  split_ifs at hok ⊢
  rfl

theorem replace_of_true (htemp : h.temp = some f) (hok : (h.replace E p).1 = true) :
    isLeaf p = true ∧ (h.replace E p).2.node = update h.node (E.abs p) (some (.file f)) := by
  unfold Host.replace at hok ⊢
  rw [htemp] at hok ⊢
  split at hok
  · rename_i heq
    cases heq
  · cases hok
  rename_i g heq _
  cases heq
  split_ifs at hok ⊢ with hleaf
  exact ⟨hleaf, rfl⟩

theorem ends_finally {a r : α} (hs : s.aside = true)
    (hrun : Ends E (.ask (.step s) fun _ => .ret a) h os r h' os') :
    r = a ∧ h'.node = h.node ∧ ∃ o, os = o :: os' := by
  obtain ⟨os₁, rfl, -, hret⟩ | ⟨o, os₁, rfl, hret⟩ := ends_ask_step hrun
  · obtain ⟨rfl, rfl, rfl⟩ := ends_ret hret
    exact ⟨rfl, step_node_of_aside hs h, none, rfl⟩
  · obtain ⟨rfl, rfl, rfl⟩ := ends_ret hret
    exact ⟨rfl, rfl, o, rfl⟩

/-! ## Replacing a file -/

def newFile (E : Env) (data : Bytes) (perm : Mode) : File := ⟨data, syscallMode perm, E.self⟩

theorem safeReplaceFile_cases (hrun : Ends E (safeReplaceFile path data perm) h os err h' os')
    (t : Str) :
    (err = none ∧ isLeaf path = true ∧
        h'.node = update h.node (E.abs path) (some (.file (newFile E data perm))) ∧
        os' = os.drop 8) ∨
      (err ≠ none ∧ h'.node t = h.node t) := by
  obtain ⟨h₁, os₁, hcreate, rfl, hrun₁⟩ | ⟨text, h₁, os₁, hnode, hrun₁⟩ :=
    ends_inOrder (t := t) (keeps_of_aside rfl) hrun
  · have hmade : h₁ = { h with temp := some ⟨[], 0o600#32, E.self⟩ } := by
      obtain ⟨hok, hdone⟩ := doAll_cons_eq_some.mp hcreate
      rw [← makeTemp_of_true hok]
      exact (some.inj hdone).symm
    obtain ⟨h₂, os₂, hall, rfl, hrun₂⟩ | ⟨text, h₂, os₂, hnode, hrun₂⟩ :=
      ends_inOrder (t := t) (keeps_of_aside rfl) hrun₁
    · left
      have hlast : ∃ f, f = newFile E data perm ∧
          (Host.replace { h with temp := some f } E path).1 = true ∧
          (Host.replace { h with temp := some f } E path).2 = h₂ := by
        rw [hmade] at hall
        simp only [doAll_cons_eq_some] at hall
        exact ⟨_, rfl, hall.2.2.2.2.2.1, some.inj hall.2.2.2.2.2.2⟩
      obtain ⟨f, rfl, hok, rfl⟩ := hlast
      obtain ⟨hleaf, hnode⟩ := replace_of_true rfl hok
      obtain ⟨rfl, hlast, o, rfl⟩ := ends_finally rfl hrun₂
      exact ⟨rfl, hleaf, hlast.trans hnode, rfl⟩
    · obtain ⟨rfl, hlast, -⟩ := ends_finally rfl hrun₂
      exact .inr ⟨some_ne_none _, by rw [hlast, hnode, hmade]⟩
  · obtain ⟨rfl, rfl, -⟩ := ends_ret hrun₁
    exact .inr ⟨some_ne_none _, hnode⟩

theorem ends_ask {c : Call} {k : Reply c → Program α} {r : α} {x : Reply c}
    (hanswer : h.answer E c = some (x, h₁)) (hrun : Ends E (.ask c k) h os r h' os') :
    (∃ os₁, os = none :: os₁ ∧ Ends E (k x) h₁ os₁ r h' os') ∨
      ∃ e os₁, os = some e :: os₁ ∧ Ends E (k (failure e c)) h os₁ r h' os' := by
  obtain ⟨e, os₁, rfl, hk⟩ | ⟨os₁, y, h₂, rfl, hanswer', hk⟩ := Prog.run_faulty_ask hrun
  · exact .inr ⟨e, os₁, rfl, hk⟩
  · rw [hanswer] at hanswer'
    cases hanswer'
    exact .inl ⟨os₁, rfl, hk⟩

theorem ends_failed (hrun : Ends E (failed text) h os err h' os') : err ≠ none ∧ h' = h := by
  obtain ⟨rfl, rfl, -⟩ := ends_ret hrun
  exact ⟨some_ne_none _, rfl⟩

theorem follow_of_not_link (hnot : ∀ q, node p ≠ some (.link q)) :
    follow node maxFollow p = some p := by
  rw [maxFollow, follow]
  split
  · rename_i q hq
    exact absurd hq (hnot q)
  · rfl

theorem endOf_of_not_link (hnot : ∀ q, h.node (E.abs path) ≠ some (.link q)) :
    h.endOf E path = h.node (E.abs path) := by
  rw [Host.endOf, follow_of_not_link hnot, bind_some]

theorem content_of_file (hleaf : isLeaf path = true)
    (hnode : h.node (E.abs path) = some (.file f)) : h.content E path = some f.content := by
  rw [Host.content, if_pos hleaf, endOf_of_not_link (by simp [hnode]), hnode]

theorem content_of_none (hnode : h.node (E.abs path) = none) : h.content E path = none := by
  rw [Host.content, endOf_of_not_link (by simp [hnode]), hnode]
  split <;> rfl

/-- A write that has come to its replacement: the target is the new file, and what it held is in the
backup, if that is another one. -/
structure Replaced (E : Env) (path backup : Str) (data : Bytes) (perm : Mode) (h h' : Host) :
    Prop where
  leaf : isLeaf path = true
  target : h'.node (E.abs path) = some (.file (newFile E data perm))
  backup : backup ≠ [] → E.abs backup ≠ E.abs path → ∀ c, h.content E path = some c →
    isLeaf backup = true ∧ h'.node (E.abs backup) = some (.file (newFile E c perm))

theorem backedUp_cases {wrap : Str} (hleaf : isLeaf path = true)
    (hnode : h.node (E.abs path) = some (.file f))
    (hrun : Ends E (inOrder failed [(.closeCurrent path, text)]
      ((safeReplaceFile backup f.content perm).bind fun err =>
        match err with
        | some e => .ret (some (e.wrap wrap))
        | none => safeReplaceFile path data perm)) h os err h' os') :
    (err = none ∧ Replaced E path backup data perm h h' ∧ os' = os.drop 17) ∨
      (err ≠ none ∧
        (E.abs backup ≠ E.abs path → h'.node (E.abs path) = h.node (E.abs path))) := by
  obtain ⟨h₁, os₁, hclose, rfl, hrun₁⟩ | ⟨text, h₁, os₁, hsame, hrun₁⟩ :=
    ends_inOrder (t := E.abs path) (keeps_of_aside rfl) hrun
  · obtain rfl : h = h₁ := some.inj hclose
    obtain ⟨err₁, h₂, os₂, hbackup, hrun₂⟩ := ends_bind.mp hrun₁
    obtain ⟨rfl, hleaf', hnew, rfl⟩ | ⟨herr, hsame⟩ := safeReplaceFile_cases hbackup (E.abs path)
    · obtain ⟨rfl, -, hnew', rfl⟩ | ⟨herr, hsame⟩ := safeReplaceFile_cases hrun₂ (E.abs path)
      · refine .inl ⟨rfl, ⟨hleaf, ?_, fun _ hne c hc => ⟨hleaf', ?_⟩⟩, by rw [drop_drop]; rfl⟩
        · rw [hnew', update_self]
        · rw [content_of_file hleaf hnode] at hc
          rw [hnew', update_of_ne hne, hnew, update_self, ← some.inj hc]
      · refine .inr ⟨herr, fun hne => hsame.trans ?_⟩
        rw [hnew, update_of_ne hne.symm]
    · cases err₁ with
      | none => exact absurd rfl herr
      | some e =>
        obtain ⟨rfl, rfl, -⟩ := ends_ret hrun₂
        exact .inr ⟨some_ne_none _, fun _ => hsame⟩
  · obtain ⟨herr, rfl⟩ := ends_failed hrun₁
    exact .inr ⟨herr, fun _ => hsame⟩

theorem isRegular_iff : h.isRegular E path = true ↔ ∃ f, h.node (E.abs path) = some (.file f) := by
  unfold Host.isRegular
  split <;> simp_all

theorem answer_openCurrent (E : Env) (h : Host) (path : Str) :
    ∃ x : Opened, h.answer E (.openCurrent path) = some (x, h) ∧
      (x = .notExist → h.node (E.abs path) = none) ∧
      (x = .ok → ∀ f, h.node (E.abs path) = some (.file f) → isLeaf path = true) := by
  simp only [Host.answer]
  split
  · next hnode => exact ⟨_, rfl, fun _ => hnode, by simp⟩
  · exact ⟨_, rfl, by simp⟩
  · refine ⟨_, rfl, ?_⟩
    split
    · next hleaf => exact ⟨by simp, fun _ _ _ => hleaf⟩
    · simp
  · next hnode => exact ⟨_, rfl, by simp, by simp [hnode]⟩

theorem safeBackupAndReplace_cases
    (hrun : Ends E (safeBackupAndReplace path backup data perm) h os err h' os') :
    (err = none ∧ Replaced E path backup data perm h h' ∧
        os' = os.drop (if h.node (E.abs path) = none then 9 else 20)) ∨
      (err ≠ none ∧
        (E.abs backup ≠ E.abs path → h'.node (E.abs path) = h.node (E.abs path))) := by
  have hsame : ∀ {text os₁}, Ends E (failed text) h os₁ err h' os' →
      err ≠ none ∧
        (E.abs backup ≠ E.abs path → h'.node (E.abs path) = h.node (E.abs path)) := by
    intro text os₁ hfail
    obtain ⟨herr, rfl⟩ := ends_failed hfail
    exact ⟨herr, fun _ => rfl⟩
  obtain ⟨x, hanswer, hnone, hleaf⟩ := answer_openCurrent E h path
  obtain ⟨os₁, rfl, hrun₁⟩ | ⟨e, os₁, -, hrun₁⟩ := ends_ask hanswer hrun
  · cases x with
    | notExist =>
      obtain ⟨rfl, hleaf, hnew, rfl⟩ | ⟨herr, hold⟩ := safeReplaceFile_cases hrun₁ (E.abs path)
      · refine .inl ⟨rfl, ⟨hleaf, ?_, fun _ _ c hc => ?_⟩, ?_⟩
        · rw [hnew, update_self]
        · rw [content_of_none (hnone rfl)] at hc
          cases hc
        · rw [if_pos (hnone rfl)]
          rfl
      · exact .inr ⟨herr, fun _ => hold⟩
    | failed => exact .inr (hsame hrun₁)
    | ok =>
      have hstat : h.answer E (.statOpen path) = some (some (h.isRegular E path), h) := rfl
      obtain ⟨os₂, rfl, hrun₂⟩ | ⟨e, os₂, -, hrun₂⟩ := ends_ask hstat hrun₁
      · cases hreg : h.isRegular E path with
        | false =>
          rw [hreg] at hrun₂
          exact .inr (hsame hrun₂)
        | true =>
          rw [hreg] at hrun₂
          obtain ⟨f, hnode⟩ := isRegular_iff.mp hreg
          have hread : h.answer E (.readCurrent path) = some (some f.content, h) := by
            simp only [Host.answer, hnode]
          obtain ⟨os₃, rfl, hrun₃⟩ | ⟨e, os₃, -, hrun₃⟩ := ends_ask hread hrun₂
          · obtain ⟨rfl, hdone, rfl⟩ | hold := backedUp_cases (hleaf rfl f hnode) hnode hrun₃
            · refine .inl ⟨rfl, hdone, ?_⟩
              rw [if_neg (by simp [hnode])]
              rfl
            · exact .inr hold
          · exact .inr (hsame hrun₃)
      · exact .inr (hsame hrun₂)
  · exact .inr (hsame hrun₁)

theorem ends_wrapped {q : Done} (hrun : Ends E (wrapped text q) h os err h' os') :
    ∃ err₁, Ends E q h os err₁ h' os' ∧ (err = none ↔ err₁ = none) := by
  obtain ⟨err₁, h₁, os₁, hq, hret⟩ := ends_bind.mp hrun
  obtain ⟨rfl, rfl, rfl⟩ := ends_ret hret
  exact ⟨err₁, hq, map_eq_none_iff⟩

theorem replaceDirect_cases (hrun : Ends E (replaceDirect path data opts) h os err h' os') :
    (err = none ∧ Replaced E path opts.backup data opts.perm h h' ∧
        os' = os.drop (callsBefore E .direct path data opts h)) ∨
      (err ≠ none ∧ ((opts.backup ≠ [] → E.abs opts.backup ≠ E.abs path) →
        h'.node (E.abs path) = h.node (E.abs path))) := by
  obtain ⟨err₁, hq, herr⟩ := ends_wrapped hrun
  rw [ne_eq, herr, callsBefore]
  by_cases hbackup : opts.backup = []
  · rw [if_neg (not_ne_iff.mpr hbackup)] at hq
    rw [if_pos hbackup]
    obtain ⟨rfl, hleaf, hnew, hos⟩ | ⟨herr, hsame⟩ := safeReplaceFile_cases hq (E.abs path)
    · refine .inl ⟨rfl, ⟨hleaf, ?_, fun hb => absurd hbackup hb⟩, hos⟩
      rw [hnew, update_self]
    · exact .inr ⟨herr, fun _ => hsame⟩
  · rw [if_pos hbackup] at hq
    rw [if_neg hbackup]
    obtain hdone | ⟨herr, hsame⟩ := safeBackupAndReplace_cases hq
    · exact .inl hdone
    · exact .inr ⟨herr, fun hne => hsame (hne hbackup)⟩

/-! ## Setting the owner -/

theorem wantedIds_of_ok {uid gid : Int}
    (hids : resolveOwnership E.names opts.owner opts.group = .ok (uid, gid)) :
    wantedIds E b opts = some ((if b = .direct then E.self else E.root).set uid gid) := by
  rw [wantedIds, hids]

theorem wantedIds_of_nil (howner : opts.owner = []) (hgroup : opts.group = []) :
    wantedIds E b opts = some (if b = .direct then E.self else E.root) := by
  have hids : resolveOwnership E.names opts.owner opts.group = .ok (-1, -1) := by
    rw [howner, hgroup]
    rfl
  rw [wantedIds_of_ok hids]
  rfl

theorem fchownNoFollow_cases {uid gid : Int} (hnode : h.node (E.abs path) = some (.file f))
    (hrun : Ends E (fchownNoFollow path uid gid) h os err h' os') :
    (err = none ∧ (∃ rest, os = none :: none :: none :: rest) ∧
        h' = h.put (E.abs path) { f with ids := f.ids.set uid gid }) ∨
      (err ≠ none ∧ (¬∃ rest, os = none :: none :: none :: rest) ∧ h' = h) := by
  have hopen : h.answer E (.step (.openOwned path)) = some (true, h) := by
    simp only [Host.answer, Host.step, hnode]
  have hstat : h.answer E (.statOpen path) = some (some true, h) := by
    simp only [Host.answer, Host.isRegular, hnode]
  have hchown : h.answer E (.step (.chown path uid gid)) =
      some (true, h.put (E.abs path) { f with ids := f.ids.set uid gid }) := by
    simp only [Host.answer, Host.step, hnode]
  obtain ⟨os₁, rfl, hrun₁⟩ | ⟨e, os₁, rfl, hrun₁⟩ := ends_ask hopen hrun
  · obtain ⟨os₂, rfl, hrun₂⟩ | ⟨e, os₂, rfl, hrun₂⟩ := ends_ask hstat hrun₁
    · obtain ⟨os₃, rfl, hrun₃⟩ | ⟨e, os₃, rfl, hrun₃⟩ := ends_ask hchown hrun₂
      · obtain ⟨rfl, rfl, -⟩ := ends_ret hrun₃
        exact .inl ⟨rfl, ⟨_, rfl⟩, rfl⟩
      · obtain ⟨herr, rfl⟩ := ends_failed hrun₃
        exact .inr ⟨herr, by simp, rfl⟩
    · obtain ⟨herr, rfl⟩ := ends_failed hrun₂
      exact .inr ⟨herr, by simp, rfl⟩
  · obtain ⟨herr, rfl⟩ := ends_failed hrun₁
    exact .inr ⟨herr, by simp, rfl⟩

theorem setOwner_cases (hnode : h.node (E.abs path) = some (.file f)) (hself : f.ids = E.self)
    (hrun : Ends E (setOwner E.names path opts.owner opts.group) h os err h' os') :
    (err = none ∧ CanOwn E opts os ∧ ∃ ids, wantedIds E .direct opts = some ids ∧
        h'.node = update h.node (E.abs path) (some (.file { f with ids }))) ∨
      (err ≠ none ∧ ¬CanOwn E opts os ∧ h' = h) := by
  unfold setOwner at hrun
  by_cases hsome : opts.owner ≠ [] ∨ opts.group ≠ []
  · have hnone : ¬(opts.owner = [] ∧ opts.group = []) := fun h => hsome.elim (· h.1) (· h.2)
    rw [if_pos hsome] at hrun
    cases hids : resolveOwnership E.names opts.owner opts.group with
    | error e =>
      rw [hids] at hrun
      obtain ⟨rfl, rfl, -⟩ := ends_ret hrun
      have hwanted : wantedIds E .direct opts = none := by rw [wantedIds, hids]
      refine .inr ⟨some_ne_none _, ?_, rfl⟩
      rintro (h | ⟨h, -⟩)
      · exact hnone h
      · rw [hwanted] at h
        cases h
    | ok ids =>
      rw [hids] at hrun
      obtain ⟨err₁, hchown, herr⟩ := ends_wrapped hrun
      have hwanted := wantedIds_of_ok (b := .direct) hids
      obtain ⟨hnil, hos, rfl⟩ | ⟨hne, hos, rfl⟩ := fchownNoFollow_cases hnode hchown
      · refine .inl ⟨herr.mpr hnil, .inr ⟨by rw [hwanted]; rfl, hos⟩, _, hwanted, ?_⟩
        rw [← hself]
        rfl
      · refine .inr ⟨fun h => hne (herr.mp h), ?_, rfl⟩
        rintro (h | ⟨-, h⟩)
        · exact hnone h
        · exact hos h
  · have hnil : opts.owner = [] ∧ opts.group = [] := by
      rwa [not_or, not_ne_iff, not_ne_iff] at hsome
    rw [if_neg hsome] at hrun
    obtain ⟨rfl, rfl, -⟩ := ends_ret hrun
    refine .inl ⟨rfl, .inl hnil, _, wantedIds_of_nil hnil.1 hnil.2, ?_⟩
    rw [if_pos rfl, ← hself, ← hnode, update_eq_self]

/-! ## The direct backend -/

theorem writeDirect_safe (hsafe : Safe E .direct path data opts h os)
    (hrun : Ends E (writeDirect E.names path data opts) h os err h' os') :
    AllOrNothing E .direct path data opts h h' err := by
  obtain ⟨hne, hown⟩ := hsafe
  obtain ⟨err₁, h₁, os₁, hreplace, hrest⟩ := ends_bind.mp hrun
  obtain ⟨rfl, hreplaced, rfl⟩ | ⟨herr, hsame⟩ := replaceDirect_cases hreplace
  · obtain ⟨rfl, -, ids, hids, hnode⟩ | ⟨-, hnot, -⟩ := setOwner_cases hreplaced.target rfl hrest
    · refine ⟨fun hne => absurd rfl hne, fun _ => ⟨ids, hids, ?_, fun hbackup c hc => ?_⟩⟩
      · rw [hnode, update_self]
        rfl
      · obtain ⟨hleaf, hcopy⟩ := hreplaced.backup hbackup (hne hbackup) c hc
        have hkept : h'.node (E.abs opts.backup) = some (.file (newFile E c opts.perm)) := by
          rw [hnode, update_of_ne (hne hbackup), hcopy]
        exact content_of_file hleaf hkept
    · exact absurd hown hnot
  · cases err₁ with
    | none => exact absurd rfl herr
    | some e =>
      obtain ⟨rfl, rfl, -⟩ := ends_ret hrest
      exact ⟨fun _ => hsame hne, fun h => by cases h⟩

/-! ## The escalated backends -/

/-- What a copy has come to: from `src`, to the end `d` of what was named `q`. -/
structure Copied (h : Host) (src q d : Str) (c : Bytes) (h' : Host) : Prop where
  ends : follow h.node maxFollow q = some d
  other : d ≠ src
  put : ∃ g, h' = h.put d g ∧ g.content = c

theorem copied_of_copyOnto (hok : (h.copyOnto E src f q).1 = true) :
    ∃ d, Copied h src q d f.content (h.copyOnto E src f q).2 := by
  unfold Host.copyOnto at hok ⊢
  split at hok
  · cases hok
  rename_i d hd
  split at hok
  · cases hok
  rename_i hsrc
  rw [if_neg hsrc]
  split at hok
  · rename_i g hg
    exact ⟨d, hd, hsrc, _, rfl, rfl⟩
  · rename_i hnone
    split at hok
    · rename_i hq
      rw [if_pos hq]
      exact ⟨d, hd, hsrc, _, rfl, rfl⟩
    · cases hok
  · cases hok

theorem copied_of_copyTo (hok : (h.copyTo E src f target backup).1 = true) :
    ∃ q d, Copied h src q d f.content (h.copyTo E src f target backup).2 ∧
      (h.dirInfo E backup = none → isLeaf backup = true ∧ q = E.abs backup) := by
  unfold Host.copyTo at hok ⊢
  split at hok
  · rename_i i hi
    obtain ⟨d, hd⟩ := copied_of_copyOnto hok
    exact ⟨_, d, hd, fun hnone => by rw [hi] at hnone; cases hnone⟩
  split at hok
  · rename_i hleaf
    rw [if_pos hleaf]
    obtain ⟨d, hd⟩ := copied_of_copyOnto hok
    exact ⟨_, d, hd, fun _ => ⟨hleaf, rfl⟩⟩
  · cases hok

theorem of_content (hc : h.content E path = some c) :
    isLeaf path = true ∧ ∃ d f, follow h.node maxFollow (E.abs path) = some d ∧
      h.node d = some (.file f) ∧ f.content = c := by
  unfold Host.content at hc
  split_ifs at hc with hleaf
  refine ⟨hleaf, ?_⟩
  split at hc
  · rename_i f hf
    obtain ⟨d, hd, hnode⟩ := bind_eq_some_iff.mp hf
    exact ⟨d, f, hd, hnode, some.inj hc⟩
  · cases hc

theorem backUp_of_content (hc : h.content E target = some c)
    (hok : (h.backUp E target backup).1 = true) :
    ∃ src q d, follow h.node maxFollow (E.abs target) = some src ∧
      Copied h src q d c (h.backUp E target backup).2 ∧
      (h.dirInfo E backup = none → isLeaf backup = true ∧ q = E.abs backup) := by
  obtain ⟨hleaf, src, f, hsrc, hnode, rfl⟩ := of_content hc
  have heq : h.backUp E target backup = h.copyTo E src f target backup := by
    simp only [Host.backUp, if_pos hleaf, hsrc, hnode]
  rw [heq] at hok ⊢
  obtain ⟨q, d, hcopied, hplain⟩ := copied_of_copyTo hok
  exact ⟨src, q, d, hsrc, hcopied, hplain⟩

theorem backUp_of_no_content (hc : h.content E target = none) : (h.backUp E target backup).2 = h := by
  unfold Host.backUp
  split
  · rename_i hleaf
    split
    · rfl
    rename_i src hsrc
    split
    · rename_i f hf
      rw [Host.content, if_pos hleaf, Host.endOf, hsrc, bind_some, hf] at hc
      cases hc
    · rfl
    · rfl
  · rfl

theorem Copied.ne_target (hcopied : Copied h src q d c h')
    (hsrc : follow h.node maxFollow t = some src) : d ≠ t := by
  rintro rfl
  have hend := follow_of_not_link (not_link_of_follow hcopied.ends)
  exact hcopied.other (follow_det hend hsrc)

theorem keeps_backUp (E : Env) (target backup : Str) :
    Keeps E (E.abs target) (.backUp target backup) := by
  intro h
  show (h.backUp E target backup).2.node (E.abs target) = h.node (E.abs target)
  cases hc : h.content E target with
  | none => rw [backUp_of_no_content hc]
  | some c =>
    cases hok : (h.backUp E target backup).1 with
    | false => rw [(inert_backUp E h target backup).same hok]
    | true =>
      obtain ⟨src, q, d, hsrc, hcopied, -⟩ := backUp_of_content hc hok
      obtain ⟨g, hput, -⟩ := hcopied.put
      rw [hput]
      exact update_of_ne (hcopied.ne_target hsrc).symm _ _

/-- The backup still leads to its copy when the target has been replaced. -/
theorem Copied.follow_eq {new : File} (hcopied : Copied h src q d c h')
    (hsrc : follow h.node maxFollow t = some src) :
    follow (update h'.node t (some (.file new))) maxFollow q = some d := by
  obtain ⟨g, rfl, -⟩ := hcopied.put
  refine follow_congr hcopied.ends (fun r => ?_) fun r hr hleads => ?_
  · rw [update_of_ne (hcopied.ne_target hsrc)]
    simp [Host.put]
  · obtain ⟨m, hm⟩ := hleads
    have hrt : r ≠ t := by
      rintro rfl
      exact hcopied.other (follow_det hm hsrc)
    rw [update_of_ne hrt]
    exact update_of_ne hr _ _

theorem content_backup {new : File} (hc : h.content E target = some c)
    (hok : (h.backUp E target backup).1 = true) (hdir : h.dirInfo E backup = none)
    (hnode : h'.node = update (h.backUp E target backup).2.node (E.abs target)
      (some (.file new))) : h'.content E backup = some c := by
  obtain ⟨src, q, d, hsrc, hcopied, hplain⟩ := backUp_of_content hc hok
  obtain ⟨hleaf, rfl⟩ := hplain hdir
  have hends : follow h'.node maxFollow (E.abs backup) = some d := by
    rw [hnode]
    exact hcopied.follow_eq hsrc
  obtain ⟨g, hput, rfl⟩ := hcopied.put
  have hd : h'.node d = some (.file g) := by
    rw [hnode, update_of_ne (hcopied.ne_target hsrc), hput]
    exact update_self ..
  rw [Host.content, if_pos hleaf, Host.endOf, hends, bind_some, hd]

/-- What `chown` makes of the owner, if it is called. -/
def Owned (E : Env) (owner : Str) (ids : Ids) : Prop :=
  (owner = [] ∧ ids = E.root) ∨
    (owner ≠ [] ∧ ∃ own, E.chownTo owner = some own ∧ ids = own E.root)

theorem doAll_append {xs ys : List (Step × Str)} :
    doAll E (xs ++ ys) h = some h₁ ↔ ∃ h₂, doAll E xs h = some h₂ ∧ doAll E ys h₂ = some h₁ := by
  induction xs generalizing h with
  | nil => simp [doAll]
  | cons x xs ih =>
    obtain ⟨s, text⟩ := x
    rw [cons_append, doAll_cons_eq_some, ih]
    simp only [doAll_cons_eq_some, ← exists_and_left, and_assoc]

def Host.backedUp (E : Env) (h : Host) (target backup : Str) : Host :=
  if backup ≠ [] then (h.backUp E target backup).2 else h

theorem doAll_beforeTrap (hall : doAll E (beforeTrap target backup) h = some h₁) :
    (backup ≠ [] → (h.backUp E target backup).1 = true) ∧
      h₁ = { h.backedUp E target backup with temp := some ⟨[], 0o600#32, E.root⟩ } := by
  obtain ⟨h₂, hbackup, hmktemp⟩ := doAll_append.mp hall
  have hback : (backup ≠ [] → (h.backUp E target backup).1 = true) ∧
      h₂ = h.backedUp E target backup := by
    unfold Host.backedUp
    split_ifs at hbackup ⊢ with hne
    · obtain ⟨hok, hdone⟩ := doAll_cons_eq_some.mp hbackup
      exact ⟨fun _ => hok, (some.inj hdone).symm⟩
    · exact ⟨fun h => absurd h hne, (some.inj hbackup).symm⟩
  obtain ⟨hok, hdone⟩ := doAll_cons_eq_some.mp hmktemp
  refine ⟨hback.1, ?_⟩
  rw [← some.inj hdone, ← hback.2]
  exact makeTemp_of_true hok

theorem onTemp_of_temp (htemp : h.temp = some f) (g : File → File) :
    h.onTemp g = (true, { h with temp := some (g f) }) := by
  rw [Host.onTemp, htemp]

theorem doAll_underTrap (htemp : h.temp = some f) (hroot : f.ids = E.root)
    (hall : doAll E (underTrap target (modeArg perm) owner data) h = some h₁) :
    isLeaf target = true ∧ ∃ ids, Owned E owner ids ∧
      h₁.node = update h.node (E.abs target) (some (.file ⟨data, syscallMode perm, ids⟩)) := by
  obtain ⟨h₂, hwritten, hmv⟩ := doAll_append.mp hall
  obtain ⟨hok, hdone⟩ := doAll_cons_eq_some.mp hmv
  have howned : ∃ ids, Owned E owner ids ∧
      h₂ = { h with temp := some ⟨data, syscallMode perm, ids⟩ } := by
    obtain ⟨h₃, hchmod, hchown⟩ := doAll_append.mp hwritten
    have hthree : h₃ = { h with temp := some ⟨data, syscallMode perm, E.root⟩ } := by
      simp only [doAll_cons_eq_some, Host.step, onTemp_of_temp htemp, modeArg, ofOctal_octal,
        hroot] at hchmod
      exact (some.inj hchmod.2.2).symm
    split_ifs at hchown with hne
    · obtain ⟨hset, hdone⟩ := doAll_cons_eq_some.mp hchown
      rw [hthree] at hset hdone
      simp only [Host.step] at hset hdone
      cases hown : E.chownTo owner with
      | none =>
        rw [hown] at hset
        cases hset
      | some own =>
        rw [hown] at hdone
        exact ⟨own E.root, .inr ⟨hne, own, hown, rfl⟩, (some.inj hdone).symm⟩
    · rw [not_ne_iff] at hne
      exact ⟨E.root, .inl ⟨hne, rfl⟩, by rw [← some.inj hchown, hthree]⟩
  obtain ⟨ids, hids, rfl⟩ := howned
  obtain ⟨hleaf, hnode⟩ := replace_of_true rfl hok
  exact ⟨hleaf, ids, hids, by rw [← some.inj hdone]; exact hnode⟩

/-- The script has come to its end. -/
structure Moved (E : Env) (target owner backup : Str) (data : Bytes) (perm : Mode)
    (h h' : Host) : Prop where
  leaf : isLeaf target = true
  copied : backup ≠ [] → (h.backUp E target backup).1 = true
  node : ∃ ids, Owned E owner ids ∧ h'.node = Function.update (h.backedUp E target backup).node
    (E.abs target) (some (.file ⟨data, syscallMode perm, ids⟩))

theorem escalatedWriteScript_cases {ok : Bool}
    (hrun : Ends E (escalatedWriteScript target (modeArg perm) owner backup data) h os ok h' os') :
    (ok = true ∧ Moved E target owner backup data perm h h' ∧
        os' = os.drop ((beforeTrap target backup).length +
          (underTrap target (modeArg perm) owner data).length)) ∨
      (ok = false ∧ h'.node (E.abs target) = h.node (E.abs target)) := by
  have hfirst : ∀ x ∈ (beforeTrap target backup).dropLast, Keeps E (E.abs target) x.1 := by
    intro x hx
    rw [beforeTrap] at hx
    split_ifs at hx
    · rw [mem_singleton.mp hx]
      exact keeps_backUp E target backup
    · cases hx
  have hsecond : ∀ x ∈ (underTrap target (modeArg perm) owner data).dropLast,
      Keeps E (E.abs target) x.1 := by
    rw [underTrap]
    refine keeps_of_aside ?_
    split_ifs <;> rfl
  obtain ⟨h₁, os₁, hbefore, rfl, hrun₁⟩ | ⟨text, h₁, os₁, hsame, hrun₁⟩ := ends_inOrder hfirst hrun
  · obtain ⟨hcopy, hmade⟩ := doAll_beforeTrap hbefore
    obtain ⟨h₂, os₂, hunder, rfl, hrun₂⟩ | ⟨text, h₂, os₂, hsame, hrun₂⟩ :=
      ends_inOrder hsecond hrun₁
    · obtain ⟨rfl, rfl, rfl⟩ := ends_ret hrun₂
      have htemp : h₁.temp = some ⟨[], 0o600#32, E.root⟩ := by rw [hmade]
      obtain ⟨hleaf, ids, hids, hnode⟩ := doAll_underTrap htemp rfl hunder
      refine .inl ⟨rfl, ⟨hleaf, hcopy, ids, hids, by rw [hnode, hmade]⟩, ?_⟩
      rw [← drop_drop, drop_left' length_replicate, drop_left' length_replicate]
    · have hkept : h₂.node (E.abs target) = h.node (E.abs target) := by
        rw [hsame, hmade]
        unfold Host.backedUp
        split_ifs
        · exact keeps_backUp E target backup h
        · rfl
      obtain ⟨rfl, hlast, -⟩ := ends_finally rfl hrun₂
      exact .inr ⟨rfl, (congrFun hlast _).trans hkept⟩
  · obtain ⟨rfl, rfl, -⟩ := ends_ret hrun₁
    exact .inr ⟨rfl, hsame⟩

theorem writeInto_cases {info : Option DirInfo}
    (hrun : Ends E (writeInto path data opts info) h os err h' os') :
    (err = none ∧
        Moved E path (ownership opts.owner opts.group) opts.backup data opts.perm h h') ∨
      (err ≠ none ∧ ((os.drop (scriptCalls path data opts)).head? = some none →
        h'.node (E.abs path) = h.node (E.abs path))) := by
  unfold writeInto at hrun
  split at hrun
  · obtain ⟨rfl, rfl, -⟩ := ends_ret hrun
    exact .inr ⟨some_ne_none _, fun _ => rfl⟩
  obtain ⟨h₁, os₁, hshell, rfl, hrun₁⟩ | ⟨text, h₁, os₁, hsame, hrun₁⟩ :=
    ends_inOrder (t := E.abs path) (keeps_of_aside rfl) hrun
  · obtain rfl : h = h₁ := some.inj hshell
    obtain ⟨ok, h₂, os₂, hscript, hdone⟩ := ends_bind.mp hrun₁
    have hanswer : h₂.answer E (.step .shellDone) = some (true, h₂) := rfl
    obtain ⟨rfl, hmoved, rfl⟩ | ⟨rfl, hsame⟩ := escalatedWriteScript_cases hscript
    · obtain ⟨os₃, -, hret⟩ | ⟨e, os₃, hos, hfail⟩ := ends_ask hanswer hdone
      · obtain ⟨rfl, rfl, -⟩ := ends_ret hret
        exact .inl ⟨rfl, hmoved⟩
      · obtain ⟨herr, rfl⟩ := ends_failed hfail
        refine .inr ⟨herr, fun hlater => ?_⟩
        rw [scriptCalls, ← drop_drop] at hlater
        change (drop _ os₁).head? = _ at hlater
        rw [hos] at hlater
        cases hlater
    · obtain ⟨os₃, -, hret⟩ | ⟨e, os₃, -, hfail⟩ := ends_ask hanswer hdone
      · obtain ⟨rfl, rfl, -⟩ := ends_ret hret
        exact .inr ⟨some_ne_none _, fun _ => hsame⟩
      · obtain ⟨herr, rfl⟩ := ends_failed hfail
        exact .inr ⟨herr, fun _ => hsame⟩
  · obtain ⟨herr, rfl⟩ := ends_failed hrun₁
    exact .inr ⟨herr, fun _ => hsame⟩

theorem writeEscalated_cases (hrun : Ends E (writeEscalated path data opts) h os err h' os') :
    (err = none ∧
        Moved E path (ownership opts.owner opts.group) opts.backup data opts.perm h h') ∨
      (err ≠ none ∧ ((os.drop (1 + scriptCalls path data opts)).head? = some none →
        h'.node (E.abs path) = h.node (E.abs path))) := by
  have hstat : h.answer E (.statDir (dirOf path)) = some (h.dirInfo E (dirOf path), h) := rfl
  rw [add_comm]
  obtain ⟨os₁, rfl, hrun₁⟩ | ⟨e, os₁, rfl, hrun₁⟩ := ends_ask hstat hrun
  · exact writeInto_cases hrun₁
  · exact writeInto_cases hrun₁

theorem wantedIds_escalated (E : Env) (hb : b ≠ .direct) (opts : WriteOptions) :
    wantedIds E b opts = wantedIds E .withSudo opts := by
  cases b with
  | direct => exact absurd rfl hb
  | withSudo | withDoas => rfl

theorem ownership_eq_nil {group : Str} : ownership owner group = [] ↔ owner = [] ∧ group = [] := by
  unfold ownership
  split_ifs with hboth hgroup howner
  · exact iff_of_true rfl hboth
  · exact ⟨fun h => ⟨h, hgroup⟩, fun h => h.1⟩
  · simp [hgroup]
  · simp [howner]

theorem writeEscalated_safe (hb : b ≠ .direct) (hread : ArgumentsRead E path opts h)
    (hlater : (os.drop (1 + scriptCalls path data opts)).head? = some none)
    (hrun : Ends E (writeEscalated path data opts) h os err h' os') :
    AllOrNothing E b path data opts h h' err := by
  obtain ⟨rfl, hmoved⟩ | ⟨herr, hsame⟩ := writeEscalated_cases hrun
  · obtain ⟨ids, howned, hnode⟩ := hmoved.node
    obtain ⟨⟨i, hi, hown⟩, hdir⟩ := hread
    have heq : ids = i := by
      obtain ⟨hnil, rfl⟩ | ⟨hne, own, hown', rfl⟩ := howned
      · obtain ⟨howner, hgroup⟩ := ownership_eq_nil.mp hnil
        rw [wantedIds_of_nil howner hgroup] at hi
        exact some.inj hi
      · obtain ⟨own', heq, rfl⟩ := hown.resolve_left hne
        rw [hown'] at heq
        cases heq
        rfl
    refine ⟨fun h => absurd rfl h, fun _ => ⟨i, ?_, ?_, fun hne c hc => ?_⟩⟩
    · rw [wantedIds_escalated E hb, hi]
    · rw [hnode, update_self, heq]
    · rw [Host.backedUp, if_pos hne] at hnode
      have hc' : h.content E path ≠ none := by
        rw [hc]
        exact some_ne_none c
      exact content_backup hc (hmoved.copied hne) (hdir hne hc') hnode
  · exact ⟨fun _ => hsame hlater, fun h => absurd h herr⟩

/-! ## Both -/

theorem writeFile_cases (b : Backend) (db : Names) (ctx : Option Str) (path : Str)
    (data : Bytes) (opts : WriteOptions) :
    (Accepted ctx path opts ∧ writeFile b db ctx path data opts =
        if b = .direct then writeDirect db path data opts else writeEscalated path data opts) ∨
      (¬Accepted ctx path opts ∧ ∃ e, writeFile b db ctx path data opts = .ret (some e)) := by
  cases ctx with
  | some text => exact .inr ⟨fun h => (by cases h.inTime), _, rfl⟩
  | none =>
    unfold writeFile
    cases hpath : validatePath path with
    | some e => exact .inr ⟨fun h => (by rw [h.target] at hpath; cases hpath), _, rfl⟩
    | none =>
      cases hmode : validateMode opts.mode with
      | some e => exact .inr ⟨fun h => (by rw [h.mode] at hmode; cases hmode), _, rfl⟩
      | none =>
        by_cases hbackup : opts.backup ≠ []
        · simp only [if_pos hbackup]
          cases hvalid : validatePath opts.backup with
          | some e =>
            exact .inr ⟨fun h => (by rw [h.backup hbackup] at hvalid; cases hvalid), _, rfl⟩
          | none =>
            by_cases hclean : clean opts.backup = clean path
            · simp only [if_pos (And.intro hbackup hclean)]
              exact .inr ⟨fun h => h.distinct hbackup hclean, _, rfl⟩
            · simp only [if_neg fun h : opts.backup ≠ [] ∧ _ => hclean h.2]
              exact .inl ⟨⟨rfl, hpath, hmode, fun _ => hvalid, fun _ => hclean⟩, trivial⟩
        · simp only [if_neg hbackup, if_neg fun h : opts.backup ≠ [] ∧ _ => hbackup h.1]
          refine .inl ⟨⟨rfl, hpath, hmode, fun h => absurd h hbackup, ?_⟩, trivial⟩
          exact fun h => absurd h hbackup

def testEnv : Env where
  cwd := "/"
  names := noNames
  self := ⟨0, 0⟩
  root := ⟨0, 0⟩
  umask := 0o022#32
  chownTo _ := none

def appConf : Str := "/etc/app.conf"

def testHost : Host where
  node p :=
    if p = "/etc" then some (.dir ⟨0, 0o755#32⟩)
    else if p = appConf then some (.file ⟨[1], 0o600#32, ⟨7, 7⟩⟩)
    else none
  temp := none

def forNobody : WriteOptions := ⟨0, "ghost", [], []⟩

def withBackup : WriteOptions := ⟨0, [], [], "/etc/app.conf.bak"⟩

end PowerManage.Fs
