import PowerManage.Lib.Crash
import PowerManage.Lib.FileMode

/-!
# The credential files of the command line

`writePrivateJSON` writes a temporary file in the directory of the credentials and renames it; what
it deferred removes the temporary file unless it was renamed.  Every call of the system is a question
here, which may fail at any time, and the process may be stopped between two of them.  The directory
is opened once, and everything after that is done relative to the open directory.

A file that was there before and that others can read is refused and left as it is
(`refused_readable`).
-/

namespace PowerManage.Cli.Credential

open Interaction Interaction.Prog FileMode Function

abbrev Bytes := List UInt8

/-- An entry of the directory; `own` is for the effective user. -/
inductive Node
  | file (content : Bytes) (mode : Mode) (own : Bool)
  | link
  | other

/-- What stands where the directory of the credentials should be. -/
inductive Place
  | absent
  | dir (mode : Mode) (own : Bool)
  | link
  | other

/-- The directory, its entries, and whether `unlinkat` fails. -/
structure Sys where
  place : Place
  entry : Str → Option Node
  unremoved : Bool

def Sys.set (s : Sys) (name : Str) (node : Option Node) : Sys :=
  { s with entry := update s.entry name node }

/-- Calls that only succeed or fail. -/
inductive Act
  /-- `os.MkdirAll` with `0700` -/
  | mkdirAll
  /-- `open` with `O_DIRECTORY|O_NOFOLLOW` -/
  | openDir
  | closeDir
  /-- `os.NewFile` -/
  | newFile
  | write (name : Str) (data : Bytes)
  | sync
  | close
  | renameat (old new : Str)
  | fsyncDir
  | unlinkat (name : Str)

/-- The calls with an answer of their own. -/
inductive Call
  | act (a : Act)
  | fstatDir
  /-- with `AT_SYMLINK_NOFOLLOW` -/
  | fstatat (name : Str)
  /-- `rand.Read`, in hexadecimal -/
  | random
  /-- `openat` with `O_CREAT|O_EXCL|O_NOFOLLOW` and `0600` -/
  | create (name : Str)

/-- What `fstatat` has found. -/
inductive Stat
  | found (node : Node)
  | notExist
  | failed

/-- How an exclusive create has ended. -/
inductive Created
  | done
  | taken
  | failed
deriving DecidableEq

def Answer : Call → Type
  | .act _ => Bool
  | .fstatDir => Option (Mode × Bool)
  | .fstatat _ => Stat
  | .random => Option Str
  | .create _ => Created

/-- The errors that are joined in what is returned, without the texts of the system. -/
abbrev Program := Prog Call Answer (List Str)

def isPrivate (m : Mode) : Bool := m &&& 0o077#32 = 0

def attempt {α : Type} (a : Act) (failed ok : Prog Call Answer α) : Prog Call Answer α :=
  .ask (.act a) fun (x : Bool) => if x then ok else failed

/-- Opened through no link, and private to the current user. -/
def openPrivateDirectory : Program :=
  attempt .openDir (.ret ["open config directory: "]) <|
    .ask .fstatDir fun (r : Option (Mode × Bool)) =>
      match r with
      | none => .ask (.act .closeDir) fun _ => .ret ["inspect config directory: "]
      | some (mode, own) =>
        if isPrivate mode && own then .ret []
        else .ask (.act .closeDir) fun _ => .ret
          ["config directory must be private, owned by the current user, and not a symlink"]

def temporaryName (suffix : Str) : Str := ".powermanage-" ++ suffix

/-- Random names are tried until one is free. -/
def createTemporaryCredential : Nat → Prog Call Answer (Except (List Str) Str)
  | 0 => .ret (.error ["create unique credential file"])
  | n + 1 =>
    .ask .random fun (r : Option Str) =>
      match r with
      | none => .ret (.error ["name temporary credential file: "])
      | some suffix =>
        .ask (.create (temporaryName suffix)) fun (r : Created) =>
          match r with
          | .taken => createTemporaryCredential n
          | .failed => .ret (.error ["create credential file: "])
          | .done =>
            attempt .newFile
              (.ask (.act .close) fun _ => .ask (.act (.unlinkat (temporaryName suffix))) fun _ =>
                .ret (.error ["create credential file"]))
              (.ret (.ok (temporaryName suffix)))

def errRemove : Str := "remove temporary credential file: "

def removeTemporary (temporary : Str) (errs : List Str) : Program :=
  attempt (.unlinkat temporary) (.ret (errs ++ [errRemove])) (.ret errs)

def errClose : Str := "close credential file: "

def closeTemporary (temporary err : Str) : Program :=
  attempt .close (removeTemporary temporary [err, errClose]) (removeTemporary temporary [err])

/-- The temporary file takes the place of the credential. -/
def replaceBy (temporary name : Str) (data : Bytes) : Program :=
  attempt (.write temporary data) (closeTemporary temporary "write credential file: ") <|
  attempt .sync (closeTemporary temporary "sync credential file: ") <|
  attempt .close (removeTemporary temporary [errClose]) <|
  attempt (.renameat temporary name) (removeTemporary temporary ["replace credential file: "]) <|
  attempt .fsyncDir (.ret ["sync config directory: "]) (.ret [])

def Stat.accepted : Stat → Bool
  | .found (.file _ mode own) => isPrivate mode && own
  | .found _ => false
  | _ => true

/-- From the open directory on; `raw` is what `json.Marshal` makes of the value. -/
def writeIn (name : Str) (raw : Option Bytes) : Program :=
  if name = "." ∨ name = ".." ∨ name = "/" then .ret ["credential file path is invalid"]
  else
    .ask (.fstatat name) fun (r : Stat) =>
      match r with
      | .failed => .ret ["inspect credential file: "]
      | r =>
        if r.accepted then
          match raw with
          | none => .ret ["encode credential file: "]
          | some raw =>
            (createTemporaryCredential 100).bind fun r =>
              match r with
              | .error errs => .ret errs
              | .ok temporary => replaceBy temporary name (raw ++ [10])
        else .ret ["credential file must be a private regular file owned by the current user"]

def errCloseDir : Str := "close config directory: "

def writePrivateJSON (path : Str) (raw : Option Bytes) : Program :=
  attempt .mkdirAll (.ret ["create config directory: "]) <|
    openPrivateDirectory.bind fun errs =>
      if errs ≠ [] then .ret errs
      else (writeIn (Text.base path) raw).bind fun errs =>
        attempt .closeDir (.ret (errs ++ [errCloseDir])) (.ret errs)

/-! ## What the calls do -/

def Act.Leads (s : Sys) : Act → Bool → Sys → Prop
  | .mkdirAll, _, t =>
    t = s ∨ s.place = .absent ∧ ∃ m, isPrivate m = true ∧ t = { s with place := .dir m true }
  | .openDir, ok, t => (ok = true → ∃ m own, s.place = .dir m own) ∧ t = s
  | .write name data, ok, t =>
    ∃ c m own w, s.entry name = some (.file c m own) ∧ w <+: data ∧ (ok = true → w = data) ∧
      t = s.set name (some (.file (c ++ w) m own))
  | .renameat old new, true, t =>
    s.entry old ≠ none ∧ t = (s.set new (s.entry old)).set old none
  | .unlinkat name, true, t => t = s.set name none
  | .unlinkat _, false, t => t = { s with unremoved := true }
  | _, _, t => t = s

/-- How a call may be answered, and what it leaves.  Every call may fail, a write after a part of
the data. -/
def Answers (s : Sys) : (c : Call) → Answer c → Sys → Prop
  | .act a, ok, t => a.Leads s ok t
  | .fstatDir, r, t => (∀ m own, r = some (m, own) → s.place = .dir m own) ∧ t = s
  | .fstatat name, .found node, t => s.entry name = some node ∧ t = s
  | .fstatat name, .notExist, t => s.entry name = none ∧ t = s
  | .create name, .done, t =>
    s.entry name = none ∧ ∃ m, isPrivate m = true ∧ t = s.set name (some (.file [] m true))
  | _, _, t => t = s

/-! ## What should hold -/

/-- If this is a file, nobody else may read it. -/
def Closed (o : Option Node) : Prop := ∀ c m own, o = some (.file c m own) → isPrivate m = true

/-- The name has the complete new file, which is private; there is none without data. -/
def Written (name : Str) (data : Option Bytes) (s : Sys) : Prop :=
  ∃ b m, data = some b ∧ isPrivate m = true ∧ s.entry name = some (.file b m true)

/-- At any moment: the path has what it had or, in place of nothing or of a private file, the new
one; in a linked directory nothing is done. -/
structure Safe (s₀ : Sys) (name : Str) (data : Option Bytes) (s : Sys) : Prop where
  target : s.entry name = s₀.entry name ∨
    (∀ node, s₀.entry name = some node → (Stat.found node).accepted = true) ∧ Written name data s
  closed : Closed (s₀.entry name) → Closed (s.entry name)
  link : s₀.place = .link → s.entry = s₀.entry

/-- When it has returned: unless a removal failed, there is no other entry than before. -/
structure Ended (s₀ : Sys) (name : Str) (data : Option Bytes) (s : Sys) : Prop extends
    Safe s₀ name data s where
  tidy : s.unremoved = false → ∀ n, n ≠ name → s.entry n = s₀.entry n

/-- It returns nil only if the new file is there. -/
structure Returned (s₀ : Sys) (name : Str) (data : Option Bytes) (errs : List Str) (s : Sys) :
    Prop extends Ended s₀ name data s where
  written : errs = [] → Written name data s

/-- From here on no crash and no failure breaks the promise of a write. -/
def Guards (s₀ : Sys) (name : Str) (data : Option Bytes) (P : Sys → Prop) (p : Program) : Prop :=
  CrashTriple Answers P p (Safe s₀ name data) (Returned s₀ name data)

section

variable {α : Type} {s₀ s : Sys} {name tmp : Str} {data : Option Bytes} {errs : List Str} {C : Bytes → Prop}
  {P K : Sys → Prop} {R : α → Sys → Prop}

/-- The entries are as they were at the start. -/
def Untouched (s₀ s : Sys) : Prop := s.entry = s₀.entry

/-- The checks on the directory and the old entry have passed. -/
def Allowed (s₀ : Sys) (name : Str) : Prop :=
  s₀.place ≠ .link ∧ ∀ node, s₀.entry name = some node → (Stat.found node).accepted = true

/-- The temporary file is there, private, and nothing else has changed. -/
def Made (s₀ : Sys) (name tmp : Str) (C : Bytes → Prop) (s : Sys) : Prop :=
  (tmp ≠ name ∧ s₀.entry tmp = none ∧ Allowed s₀ name) ∧
    ∃ c m, C c ∧ isPrivate m = true ∧ s.entry = update s₀.entry tmp (some (.file c m true))

theorem Untouched.ended (h : Untouched s₀ s) : Ended s₀ name data s := by
  rw [Untouched] at h
  exact ⟨⟨.inl (by rw [h]), by rw [h]; exact id, fun _ => h⟩, fun _ n _ => by rw [h]⟩

theorem Made.safe (h : Made s₀ name tmp C s) : Safe s₀ name data s := by
  obtain ⟨⟨hne, -, hlink, -⟩, c, m, -, -, hs⟩ := h
  have hname : s.entry name = s₀.entry name := by rw [hs, update_of_ne (Ne.symm hne)]
  exact ⟨.inl hname, by rw [hname]; exact id, fun h => absurd h hlink⟩

theorem guards_ret (h : ∀ s, P s → Returned s₀ name data errs s) :
    Guards s₀ name data P (.ret errs) :=
  .ret (fun s hs => (h s hs).toSafe) h

theorem guards_error (herrs : errs ≠ []) (h : ∀ s, P s → Ended s₀ name data s) :
    Guards s₀ name data P (.ret errs) :=
  guards_ret fun s hs => ⟨h s hs, fun hnil => absurd hnil herrs⟩

theorem crash_attempt {a : Act} {failed ok : Prog Call Answer α} (mid : Bool → Sys → Prop)
    (hK : ∀ s, P s → K s) (ha : ∀ s x u, P s → a.Leads s x u → mid x u)
    (hfailed : CrashTriple Answers (mid false) failed K R)
    (hok : CrashTriple Answers (mid true) ok K R) :
    CrashTriple Answers P (attempt a failed ok) K R := by
  refine .ask mid hK ha fun (x : Bool) => ?_
  cases x with
  | true => exact hok
  | false => exact hfailed

theorem ended_unlink {u : Sys} {x : Bool} (h : Made s₀ name tmp C s)
    (hstep : (Act.unlinkat tmp).Leads s x u) : Ended s₀ name data u := by
  cases x with
  | true =>
    obtain ⟨⟨-, hnone, -⟩, c, m, -, -, hs⟩ := h
    cases hstep
    refine Untouched.ended ?_
    rw [Untouched, Sys.set, hs, update_idem, ← hnone, update_eq_self]
  | false =>
    cases hstep
    have hsafe : Safe s₀ name data s := h.safe
    exact ⟨⟨hsafe.1, hsafe.2, hsafe.3⟩, by simp⟩

theorem guards_removeTemporary (herrs : errs ≠ []) :
    Guards s₀ name data (Made s₀ name tmp C) (removeTemporary tmp errs) :=
  crash_attempt (fun _ => Ended s₀ name data) (fun _ h => h.safe)
    (fun _ _ _ h hstep => ended_unlink h hstep) (guards_error (by simp) fun _ => id)
    (guards_error herrs fun _ => id)

theorem guards_closeTemporary (err : Str) :
    Guards s₀ name data (Made s₀ name tmp C) (closeTemporary tmp err) :=
  crash_attempt (fun _ => Made s₀ name tmp C) (fun _ h => h.safe) (fun _ _ _ h hstep => hstep ▸ h)
    (guards_removeTemporary (by simp)) (guards_removeTemporary (by simp))

variable {b : Bytes}

theorem returned_renameat {u : Sys} (h : Made s₀ name tmp (· = b) s)
    (hstep : (Act.renameat tmp name).Leads s true u) : Returned s₀ name (some b) errs u := by
  obtain ⟨⟨hne, hnone, hlink, haccepted⟩, c, m, rfl, hm, hs⟩ := h
  obtain ⟨-, rfl⟩ := hstep
  have hname : ((s.set name (s.entry tmp)).set tmp none).entry name = some (.file c m true) := by
    simp [hs, Sys.set, update_of_ne (Ne.symm hne)]
  have hnew : Written name (some c) ((s.set name (s.entry tmp)).set tmp none) :=
    ⟨c, m, rfl, hm, hname⟩
  refine ⟨⟨⟨.inr ⟨haccepted, hnew⟩, fun _ c' m' own heq => ?_, fun h => absurd h hlink⟩,
    fun _ n hn => ?_⟩, fun _ => hnew⟩
  · rw [hname] at heq
    cases heq
    exact hm
  · by_cases ht : n = tmp
    · simp [Sys.set, ht, hnone]
    · simp [Sys.set, hs, ht, hn]

theorem guards_replaceBy :
    Guards s₀ name (some b) (Made s₀ name tmp (· = [])) (replaceBy tmp name b) := by
  refine crash_attempt (fun ok => Made s₀ name tmp fun c => ok = true → c = b)
    (fun _ h => h.safe) ?_ (guards_closeTemporary _) ?_
  · rintro s ok u ⟨hfresh, c, m, rfl, hm, hs⟩ ⟨c', m', own, w, hfile, -, hw, rfl⟩
    rw [hs, update_self] at hfile
    cases hfile
    exact ⟨hfresh, w, m, hw, hm, by rw [Sys.set, hs, update_idem, List.nil_append]⟩
  refine crash_attempt (fun _ => Made s₀ name tmp (· = b)) (fun _ h => h.safe) ?_
    (guards_closeTemporary _) ?_
  · rintro s x u ⟨hfresh, c, m, hc, hrest⟩ rfl
    exact ⟨hfresh, c, m, hc rfl, hrest⟩
  refine crash_attempt (fun _ => Made s₀ name tmp (· = b)) (fun _ h => h.safe)
    (fun _ _ _ h hstep => hstep ▸ h) (guards_removeTemporary (by simp)) ?_
  refine crash_attempt (fun ok s => if ok then Returned s₀ name (some b) [] s else
    Made s₀ name tmp (· = b) s) (fun _ h => h.safe) ?_ (guards_removeTemporary (by simp)) ?_
  · intro s ok u h hstep
    cases ok with
    | true => exact returned_renameat h hstep
    | false => exact hstep ▸ h
  exact crash_attempt (fun _ => Returned s₀ name (some b) []) (fun _ h => h.toSafe)
    (fun _ _ _ h hstep => hstep ▸ h) (guards_error (by simp) fun _ h => h.toEnded)
    (guards_ret fun _ => id)

def Tried (s₀ : Sys) (name : Str) (data : Option Bytes) : Except (List Str) Str → Sys → Prop
  | .ok tmp, s => Made s₀ name tmp (· = []) s
  | .error errs, s => errs ≠ [] ∧ Ended s₀ name data s

theorem crash_createTemporaryCredential (hname : ∀ suffix, temporaryName suffix ≠ name)
    (hallowed : Allowed s₀ name) (n : Nat) :
    CrashTriple Answers (Untouched s₀) (createTemporaryCredential n) (Safe s₀ name data)
      (Tried s₀ name data) := by
  have hsafe : ∀ s, Untouched s₀ s → Safe s₀ name data s := fun s h => h.ended.toSafe
  have herr : ∀ err, CrashTriple Answers (Untouched s₀) (.ret (.error [err])) (Safe s₀ name data)
      (Tried s₀ name data) :=
    fun err => .ret hsafe fun s h => ⟨by simp, h.ended⟩
  induction n with
  | zero => exact herr _
  | succ n ih =>
    refine .ask_same hsafe (fun s x u hstep => hstep) fun (r : Option Str) => ?_
    cases r with
    | none => exact herr _
    | some suffix =>
      refine .ask (fun (r : Created) s => if r = .done then
        Made s₀ name (temporaryName suffix) (· = []) s else Untouched s₀ s) hsafe ?_
        fun (r : Created) => ?_
      · intro s (r : Created) u h hstep
        cases r with
        | done =>
          obtain ⟨hnone, m, hm, rfl⟩ := hstep
          rw [h] at hnone
          exact ⟨⟨hname suffix, hnone, hallowed⟩, [], m, rfl, hm, by rw [Sys.set, h]⟩
        | taken | failed => exact hstep ▸ h
      cases r with
      | taken => exact ih
      | failed => exact herr _
      | done =>
        refine crash_attempt (fun _ => Made s₀ name (temporaryName suffix) (· = []))
          (fun s h => h.safe) (fun _ _ _ h hstep => hstep ▸ h) ?_
          (.ret (fun s h => h.safe) fun s h => h)
        refine .ask_same (fun s h => h.safe) (fun s x u hstep => hstep) fun _ => ?_
        exact .ask (fun _ => Ended s₀ name data) (fun s h => h.safe)
          (fun _ _ _ h hstep => ended_unlink h hstep) fun _ =>
            .ret (fun s h => h.toSafe) fun s h => ⟨by simp, h⟩

theorem guards_writeIn (hname : ∀ suffix, temporaryName suffix ≠ name) (hlink : s₀.place ≠ .link)
    (raw : Option Bytes) :
    Guards s₀ name (raw.map (· ++ [10])) (Untouched s₀) (writeIn name raw) := by
  have herr : ∀ err : Str, Guards s₀ name (raw.map (· ++ [10])) (Untouched s₀) (.ret [err]) :=
    fun err => guards_error (by simp) fun s h => h.ended
  unfold writeIn
  split_ifs
  · exact herr _
  refine .of_forall fun s₁ h₁ => .ask (fun (r : Stat) s => s = s₁ ∧ (r ≠ .failed →
    ∀ node, s₁.entry name = some node → r = .found node)) (fun s h => h ▸ h₁.ended.toSafe) ?_
    fun (r : Stat) => ?_
  · rintro s (r : Stat) u rfl hstep
    cases r with
    | failed => exact ⟨hstep, by simp⟩
    | notExist =>
      obtain ⟨hnone, rfl⟩ := hstep
      exact ⟨rfl, by simp [hnone]⟩
    | found node =>
      obtain ⟨hnode, rfl⟩ := hstep
      exact ⟨rfl, by simp [hnode]⟩
  refine .of_forall fun s hs => ?_
  obtain ⟨rfl, hfound⟩ := hs
  have hstart : ∀ u, u = s → Untouched s₀ u := fun u hu => hu ▸ h₁
  have hdone : ∀ err : Str, Guards s₀ name (raw.map (· ++ [10])) (· = s) (.ret [err]) :=
    fun err => (herr err).imp hstart (fun _ => id) fun _ _ => id
  split
  · exact hdone _
  · rename_i r hr
    split_ifs with hok
    · cases raw with
      | none => exact hdone _
      | some raw =>
        have hallowed : Allowed s₀ name := by
          refine ⟨hlink, fun node hnode => ?_⟩
          rw [← h₁] at hnode
          rw [← hfound hr node hnode]
          exact hok
        refine ((crash_createTemporaryCredential hname hallowed 100).imp hstart (fun _ => id)
          fun _ _ => id).bind fun r => ?_
        cases r with
        | error errs => exact guards_ret fun s h => ⟨h.2, fun hnil => absurd hnil h.1⟩
        | ok tmp => exact guards_replaceBy
    · exact hdone _

theorem crash_openPrivateDirectory :
    CrashTriple Answers (fun s => Untouched s₀ s ∧ (s₀.place = .link → s.place = .link))
      openPrivateDirectory (Safe s₀ name data)
      fun errs s => Untouched s₀ s ∧ (errs = [] → s₀.place ≠ .link) := by
  refine crash_attempt (fun ok s => Untouched s₀ s ∧ (ok = true → s₀.place ≠ .link))
    (fun s h => h.1.ended.toSafe) ?_ (.ret (fun s h => h.1.ended.toSafe) fun s h => ⟨h.1, by simp⟩) ?_
  · rintro s ok u h ⟨hdir, rfl⟩
    refine ⟨h.1, fun hok hlink => ?_⟩
    obtain ⟨m, own, hplace⟩ := hdir hok
    rw [h.2 hlink] at hplace
    cases hplace
  have hret : ∀ errs : List Str, CrashTriple Answers
      (fun s => Untouched s₀ s ∧ (true = true → s₀.place ≠ .link)) (.ret errs) (Safe s₀ name data)
      fun errs s => Untouched s₀ s ∧ (errs = [] → s₀.place ≠ .link) :=
    fun errs => .ret (fun s h => h.1.ended.toSafe) fun s h => ⟨h.1, fun _ => h.2 rfl⟩
  refine .ask_same (fun s h => h.1.ended.toSafe) (fun s x u hstep => hstep.2)
    fun (r : Option (Mode × Bool)) => ?_
  rcases r with _ | ⟨m, own⟩
  · exact .ask_same (fun s h => h.1.ended.toSafe) (fun s x u hstep => hstep) fun _ => hret _
  dsimp only
  split_ifs
  · exact hret _
  · exact .ask_same (fun s h => h.1.ended.toSafe) (fun s x u hstep => hstep) fun _ => hret _

end

/-- Whatever fails, and wherever the process is stopped: the path holds what it held or the complete
new file, private if it was private before, and links are left as they are; no temporary file is
left by a call that has returned, unless its removal failed, and a call that returns nil has left the
new file. -/
theorem credential_replaced (path : Str) (raw : Option Bytes) (s₀ : Sys)
    (hname : ∀ suffix, temporaryName suffix ≠ Text.base path) :
    (∀ s, Visits Answers (writePrivateJSON path raw) s₀ s →
      Safe s₀ (Text.base path) (raw.map (· ++ [10])) s) ∧
    ∀ errs s, Runs Answers (writePrivateJSON path raw) s₀ errs s →
      Returned s₀ (Text.base path) (raw.map (· ++ [10])) errs s := by
  have hwhole : Guards s₀ (Text.base path) (raw.map (· ++ [10])) (· = s₀)
      (writePrivateJSON path raw) := by
    refine crash_attempt (fun _ s => Untouched s₀ s ∧ (s₀.place = .link → s.place = .link))
      (fun s h => (Untouched.ended (h ▸ rfl)).toSafe) ?_
      (guards_error (by simp) fun s h => h.1.ended) ?_
    · rintro s x u rfl (rfl | ⟨habsent, m, -, rfl⟩)
      · exact ⟨rfl, id⟩
      · exact ⟨rfl, by simp [habsent]⟩
    refine crash_openPrivateDirectory.bind fun errs => ?_
    split_ifs with herrs
    · exact guards_error herrs fun s h => h.1.ended
    refine .of_forall fun s h => ?_
    refine ((guards_writeIn hname (h.2 (not_ne_iff.mp herrs)) raw).imp (fun u (hu : u = s) => hu ▸ h.1)
      (fun _ => id) fun _ _ => id).bind fun errs => ?_
    exact crash_attempt (fun _ => Returned s₀ _ _ errs) (fun s h => h.toSafe)
      (fun _ _ _ h hstep => hstep ▸ h) (guards_error (by simp) fun _ h => h.toEnded)
      (guards_ret fun _ => id)
  exact ⟨fun s => hwhole.crash s₀ s rfl, fun errs s => hwhole.post s₀ errs s rfl⟩

def sessionPath : Str := "/home/u/.config/powermanage/session.json"

def sessionDir (content : Bytes) (mode : Mode) : Sys :=
  ⟨.dir 0o700#32 true,
    fun n => if n = Text.base sessionPath then some (.file content mode true) else none, false⟩

theorem answers_fstatat (content : Bytes) (mode : Mode) :
    Answers (sessionDir content mode) (.fstatat (Text.base sessionPath))
      (Stat.found (.file content mode true)) (sessionDir content mode) :=
  ⟨by simp [sessionDir], rfl⟩

theorem runs_attempt {α : Type} {a : Act} {failed ok : Prog Call Answer α} {s t u : Sys} {r : α}
    (ha : a.Leads s true t) (h : Runs Answers ok t r u) : Runs Answers (attempt a failed ok) s r u := by
  have hact : Answers s (.act a) true t := ha
  exact .ask hact h

/-- The calls before and after `writeIn` succeed. -/
theorem runs_of_writeIn {content : Bytes} {mode : Mode} {raw : Option Bytes} {errs : List Str}
    {s : Sys} (h : Runs Answers (writeIn (Text.base sessionPath) raw) (sessionDir content mode)
      errs s) :
    Runs Answers (writePrivateJSON sessionPath raw) (sessionDir content mode) errs s := by
  refine runs_attempt (.inl rfl) (runs_bind_iff.mpr ⟨[], sessionDir content mode, ?_, ?_⟩)
  · have hdir : Answers (sessionDir content mode) .fstatDir (some (0o700#32, true))
        (sessionDir content mode) := by
      refine ⟨?_, rfl⟩
      rintro m own ⟨⟩
      rfl
    exact runs_attempt ⟨fun _ => ⟨_, _, rfl⟩, rfl⟩ (.ask hdir (.ret _ _))
  · exact runs_bind_iff.mpr ⟨errs, s, h, runs_attempt rfl (.ret _ _)⟩

/-- A session file is replaced, and every call succeeds. -/
theorem runs_replaced : Runs Answers (writePrivateJSON sessionPath (some [2]))
    (sessionDir [1] 0o600#32) [] (sessionDir [2, 10] 0o600#32) := by
  let tmp := temporaryName "0a"
  let withTemporary (content : Bytes) : Sys :=
    (sessionDir [1] 0o600#32).set tmp (some (.file content 0o600#32 true))
  have hcreate : Answers (sessionDir [1] 0o600#32) (.create tmp) Created.done (withTemporary []) :=
    ⟨rfl, 0o600#32, rfl, rfl⟩
  have hwrite : Answers (withTemporary []) (.act (.write tmp [2, 10])) true
      (withTemporary [2, 10]) :=
    ⟨[], 0o600#32, true, [2, 10], by simp [withTemporary, Sys.set], List.prefix_refl _, fun _ => rfl,
      by simp [withTemporary, Sys.set]⟩
  have hrename : Answers (withTemporary [2, 10]) (.act (.renameat tmp (Text.base sessionPath))) true
      (sessionDir [2, 10] 0o600#32) := by
    refine ⟨by simp [withTemporary, Sys.set], ?_⟩
    simp only [sessionDir, withTemporary, Sys.set, update_self, Sys.mk.injEq, true_and, and_true]
    funext n
    have hne : Text.base sessionPath ≠ tmp := by decide
    by_cases htmp : n = tmp
    · rw [htmp, update_self, if_neg hne.symm]
    · by_cases hname : n = Text.base sessionPath
      · rw [update_of_ne htmp, hname, update_self, if_pos rfl]
      · rw [update_of_ne htmp, update_of_ne hname, update_of_ne htmp, if_neg hname, if_neg hname]
  have hstart : Runs Answers (createTemporaryCredential 100) (sessionDir [1] 0o600#32) (.ok tmp)
      (withTemporary []) := by
    refine .ask (q := Call.random) (x := some "0a".toList) rfl (.ask hcreate ?_)
    exact runs_attempt rfl (.ret _ _)
  refine runs_of_writeIn ?_
  rw [writeIn, if_neg (by decide)]
  refine .ask (answers_fstatat ..) (runs_bind_iff.mpr ⟨_, _, hstart, ?_⟩)
  exact runs_attempt hwrite (runs_attempt rfl (runs_attempt rfl (runs_attempt hrename
    (runs_attempt rfl (.ret _ _)))))

/-- A session is replaced by another. -/
theorem credential_replaced_session :
    Runs Answers (writePrivateJSON sessionPath (some [2])) (sessionDir [1] 0o600#32) []
      (sessionDir [2, 10] 0o600#32) ∧
    Returned (sessionDir [1] 0o600#32) (Text.base sessionPath) (some [2, 10]) []
      (sessionDir [2, 10] 0o600#32) := by
  refine ⟨runs_replaced, (credential_replaced _ (some [2]) _ fun suffix heq => ?_).2 _ _
    runs_replaced⟩
  have hhead := congrArg List.head? heq
  revert hhead
  exact of_decide_eq_false rfl

/-- A file that others can read is refused, and they can still read it. -/
theorem refused_readable : ∃ err,
    Runs Answers (writePrivateJSON sessionPath (some [2])) (sessionDir [1] 0o644#32) [err]
      (sessionDir [1] 0o644#32) ∧ ¬Closed ((sessionDir [1] 0o644#32).entry (Text.base sessionPath)) := by
  refine ⟨"credential file must be a private regular file owned by the current user",
    runs_of_writeIn ?_, fun h => absurd (h [1] 0o644#32 true rfl) (by decide)⟩
  rw [writeIn, if_neg (by decide)]
  exact .ask (answers_fstatat ..) (.ret _ _)

end PowerManage.Cli.Credential
