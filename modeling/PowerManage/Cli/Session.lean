import PowerManage.Lib.Str
import PowerManage.Lib.Transition

/-!
# The session file of the command line

Every `powermanage` process of a user works on one `session.json`.  An authenticated command reads
it, and refreshes it under a lock when the access token is about to expire or the server has said
that it has; `login` replaces it; `logout` revokes it at the server and removes it.  A process is
modelled at the steps that others can see: taking and releasing the lock, reading the file, the
answer of the server, replacing the file (a rename, so at once) and removing it.

The lock is only taken by a refresh, which can therefore be overtaken by a `logout` or a `login`, and
then writes the session of the earlier login over what those left (`overtaken_refresh`).
-/

namespace PowerManage.Cli

open Transition

/-! ## The model -/

/-- What the server hands out in one answer. `login` is the family of the tokens, which a refresh
stays in. -/
structure Grant where
  login : Nat
  serial : Nat
  expiresAt : Nat
deriving DecidableEq

/-- What the credential file holds. -/
structure SessionFile where
  serverURL : Str
  grant : Grant
deriving DecidableEq

def SessionFile.login (f : SessionFile) : Str × Nat := (f.serverURL, f.grant.login)

def refreshSkew : Nat := 30

def SessionFile.fresh (f : SessionFile) (now : Nat) : Bool := now + refreshSkew < f.grant.expiresAt

/-- `force` and `retried` say that the server has refused the access token of this command as
expired. -/
inductive Phase
  | idle
  | reading
  /-- The request is on its way with the session's access token. -/
  | calling (f : SessionFile) (retried : Bool)
  | waiting (force : Bool)
  | locked (force : Bool)
  | refreshing (force : Bool) (f : SessionFile)
  | replacing (force : Bool) (f : SessionFile)
  /-- `refreshSession` returns, with a session or an error. -/
  | closing (force : Bool) (result : Option SessionFile)
  | exchanging (serverURL : Str)
  | storing (f : SessionFile)
  | leaving
  | revoking (f : SessionFile)
  | removing
deriving DecidableEq

/-- The file, its lock, the processes, and what the server has granted. -/
structure Host where
  file : Option SessionFile
  lock : Option Nat
  phase : Nat → Phase
  logins : Nat
  grants : Nat
  /-- The last login that has completed, and none after a logout has. -/
  current : Option (Str × Nat)
  /-- The refresh token presented in each refresh, and the one returned. -/
  refreshes : List (Nat × Option Nat)
  held : List SessionFile
  /-- What the file held when the process started its command, as an index of `held`. -/
  began : Nat → Nat

/-- A step of one process. -/
inductive Act
  | command
  | login (serverURL : Str)
  | logout
  /-- A process without the lock reads the file, at a time of its clock. -/
  | read (now : Nat)
  /-- The server answers a request; `expired` is its `token_expired`. -/
  | respond (expired : Bool)
  | acquire
  | readLocked (now : Nat)
  /-- The server answers a refresh: with the expiry of a new grant, or with an error or an
  incomplete grant. -/
  | refreshed (answer : Option Nat)
  | replace
  | close
  | exchanged (answer : Option Nat)
  | store
  | revoked (ok : Bool)
  | remove
deriving DecidableEq

namespace Host

def move (s : Host) (p : Nat) (x : Phase) : Host := { s with phase := Function.update s.phase p x }

def write (s : Host) (f : SessionFile) : Host :=
  { s with file := some f, held := s.held ++ [f] }

end Host

def Phase.found (now : Nat) : Option SessionFile → Phase
  | none => .idle
  | some f => if f.fresh now then .calling f false else .waiting false

def Phase.foundLocked (force : Bool) (now : Nat) : Option SessionFile → Phase
  | none => .closing force none
  | some f => if !force && f.fresh now then .closing force (some f) else .refreshing force f

def Phase.returned (force : Bool) : Option SessionFile → Phase
  | none => .idle
  | some f => .calling f force

/-- The process `p` takes a step, if it is where it can. -/
def act (s : Host) (p : Nat) (a : Act) : Option Host :=
  match s.phase p, a with
  | .idle, .command =>
    some { s.move p .reading with began := Function.update s.began p (s.held.length - 1) }
  | .reading, .read now => some (s.move p (.found now s.file))
  | .calling _ retried, .respond expired =>
    some (s.move p (if expired && !retried then .waiting true else .idle))
  | .waiting force, .acquire =>
    if s.lock = none then some { s.move p (.locked force) with lock := some p } else none
  | .locked force, .readLocked now => some (s.move p (.foundLocked force now s.file))
  | .refreshing force f, .refreshed none =>
    some { s.move p (.closing force none) with
      refreshes := s.refreshes ++ [(f.grant.serial, none)] }
  | .refreshing force f, .refreshed (some expiresAt) =>
    some { s.move p (.replacing force ⟨f.serverURL, ⟨f.grant.login, s.grants + 1, expiresAt⟩⟩) with
      grants := s.grants + 1
      refreshes := s.refreshes ++ [(f.grant.serial, some (s.grants + 1))] }
  | .replacing force f, .replace => some ((s.write f).move p (.closing force (some f)))
  | .closing force result, .close => some { s.move p (.returned force result) with lock := none }
  | .idle, .login serverURL => some (s.move p (.exchanging serverURL))
  | .exchanging _, .exchanged none => some (s.move p .idle)
  | .exchanging serverURL, .exchanged (some expiresAt) =>
    some { s.move p (.storing ⟨serverURL, ⟨s.logins + 1, s.grants + 1, expiresAt⟩⟩) with
      logins := s.logins + 1
      grants := s.grants + 1 }
  | .storing f, .store => some { (s.write f).move p .idle with current := some f.login }
  | .idle, .logout => some (s.move p .leaving)
  | .leaving, .read _ => some (s.move p (s.file.elim .idle .revoking))
  | .revoking _, .revoked ok => some (s.move p (if ok then .removing else .idle))
  | .removing, .remove => some { s.move p .idle with file := none, current := none }
  | _, _ => none

def step (s : Host) (x : Nat × Act) : Option Host := act s x.1 x.2

def quiet (file : Option SessionFile) : Host where
  file := file
  lock := none
  phase := fun _ => .idle
  logins := file.elim 0 fun f => f.grant.login
  grants := file.elim 0 fun f => f.grant.serial
  current := file.map SessionFile.login
  refreshes := []
  held := file.toList
  began := fun _ => 0

/-! ## The file and the logins -/

/-- The file belongs to the last login that has completed, and is absent after a logout. -/
def Follows (s : Host) : Prop := s.file.map SessionFile.login = s.current

instance (s : Host) : Decidable (Follows s) := inferInstanceAs (Decidable (_ = _))

/-- A refresh replaces a file of the login that it read: none has been completed since, and no
logout either. -/
def allowed (s : Host) : Nat × Act → Bool
  | (p, .replace) =>
    match s.phase p with
    | .replacing _ f => s.file.map SessionFile.login = some f.login
    | _ => true
  | _ => true

section

variable {s t : Host} {p : Nat} {a : Act}

/-- What a step does to the file: nothing, or one of three writes. -/
inductive Touch (s : Host) (p : Nat) (a : Act) (t : Host) : Prop
  | none (h : t.file = s.file) (hcurrent : t.current = s.current) (ha : a ≠ .replace)
  | replace (force : Bool) (f : SessionFile) (ha : a = .replace)
      (hphase : s.phase p = .replacing force f) (h : t.file = some f)
      (hcurrent : t.current = s.current)
  | store (f : SessionFile) (h : t.file = some f) (hcurrent : t.current = some f.login)
      (ha : a ≠ .replace)
  | remove (h : t.file = .none) (hcurrent : t.current = .none) (ha : a ≠ .replace)

theorem touch_of_act (h : act s p a = some t) : Touch s p a t := by
  unfold act at h
  split at h
  case h_4 =>
    split_ifs at h
    cases h
    exact .none rfl rfl (by simp)
  case h_8 hphase =>
    cases h
    exact .replace _ _ rfl hphase rfl rfl
  case h_13 =>
    cases h
    exact .store _ rfl rfl (by simp)
  case h_17 =>
    cases h
    exact .remove rfl rfl (by simp)
  case h_18 => cases h
  all_goals
    cases h
    exact .none rfl rfl (by simp)

theorem allowed_of_ne (ha : a ≠ .replace) : allowed s (p, a) = true := by
  cases a with
  | replace => exact absurd rfl ha
  | _ => rfl

theorem follows_act (h : act s p a = some t) (hs : Follows s) :
    Follows t ↔ allowed s (p, a) = true := by
  unfold Follows at hs ⊢
  cases touch_of_act h with
  | none hfile hcurrent ha => simp [hfile, hcurrent, hs, allowed_of_ne ha]
  | store f hfile hcurrent ha => simp [hfile, hcurrent, allowed_of_ne ha]
  | remove hfile hcurrent ha => simp [hfile, hcurrent, allowed_of_ne ha]
  | replace force f ha hphase hfile hcurrent =>
    subst ha
    simp only [allowed, hphase, hfile, hcurrent, ← hs, decide_eq_true_eq]
    exact eq_comm

end

/-- In every run in which each refresh replaces a file of the login that it read, the file belongs
to the last completed login; and then a step leaves it there exactly if it is not a refresh that
was overtaken. -/
theorem file_follows_logins {file : Option SessionFile} {as : List (Nat × Act)} {t : Host}
    (hallowed : Along step (fun s x => allowed s x = true) (quiet file) as)
    (h : exec step (quiet file) as = some t) :
    Follows t ∧ ∀ x u, step t x = some u → (Follows u ↔ allowed t x = true) := by
  have hfollows : Follows t :=
    exec_induction_along (I := Follows)
      (fun _ _ _ hstep hx hs => (follows_act hstep hs).mpr hx) hallowed h rfl
  exact ⟨hfollows, fun x u hstep => follows_act hstep hfollows⟩

def exampleSession : SessionFile := ⟨"https://control", ⟨1, 1, 0⟩⟩

def refreshStarted (p : Nat) : List (Nat × Act) :=
  [(p, .command), (p, .read 0), (p, .acquire), (p, .readLocked 0), (p, .refreshed (some 90))]

def logoutCompleted (p : Nat) : List (Nat × Act) :=
  [(p, .logout), (p, .read 0), (p, .revoked true), (p, .remove)]

def loginCompleted (p : Nat) (serverURL : Str) : List (Nat × Act) :=
  [(p, .login serverURL), (p, .exchanged (some 90)), (p, .store)]

/-- A refresh, then a logout and a login of another process. -/
theorem file_follows_logins_refresh :
    Follows ((exec step (quiet (some exampleSession))
      (refreshStarted 0 ++ [(0, .replace)] ++ logoutCompleted 1 ++
        loginCompleted 1 "https://other")).getD (quiet none)) := by
  have hrun : (exec step (quiet (some exampleSession))
      (refreshStarted 0 ++ [(0, .replace)] ++ logoutCompleted 1 ++
        loginCompleted 1 "https://other")).isSome = true := by decide +kernel
  obtain ⟨t, ht⟩ := Option.isSome_iff_exists.mp hrun
  rw [ht]
  exact (file_follows_logins (by decide +kernel) ht).1

/-- A refresh that a logout overtakes brings the session back, and one that a login to another
server overtakes puts the earlier session in place of the new one. -/
theorem overtaken_refresh :
    (exec step (quiet (some exampleSession))
        (refreshStarted 0 ++ logoutCompleted 1 ++ [(0, .replace)])).map
          (fun t => (t.file.map SessionFile.login, t.current)) =
      some (some ("https://control".toList, 1), none) ∧
    (exec step (quiet (some exampleSession))
        (refreshStarted 0 ++ loginCompleted 1 "https://other" ++ [(0, .replace)])).map
          (fun t => (t.file.map SessionFile.login, t.current)) =
      some (some ("https://control".toList, 1), some ("https://other".toList, 2)) := by
  decide +kernel

end PowerManage.Cli
