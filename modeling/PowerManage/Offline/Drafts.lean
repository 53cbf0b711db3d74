import PowerManage.Lib.Str
import PowerManage.Lib.Transition

/-!
# Drafts of the web client

`ts/offline.ts` keeps drafts in IndexedDB and a copy of them in memory.  Every method asks for the
database, issues one operation on it and changes the copy when that has resolved; the constructor
starts a load in the same way, which replaces the copy.  Calls overlap at will, so the model lets any
call go on at any time.  What it takes from the database is that operations take effect and resolve
in the order in which they were issued.

So the copy lags behind the database by the results on their way, and nothing else:
`Store.Mirrors` says that the copy, once they have arrived, is what the database holds.
-/

namespace PowerManage.Offline

open Transition List

/-- What may be drafted. -/
inductive DraftType
  | createToken
  | createDefinition
  | createUser
  | deviceLabel
  | dispatchAction
deriving DecidableEq

def DraftType.text : DraftType → Str
  | .createToken => "create-token"
  | .createDefinition => "create-definition"
  | .createUser => "create-user"
  | .deviceLabel => "device-label"
  | .dispatchAction => "dispatch-action"

def key (type : DraftType) (id : Str) : Str := type.text ++ ':' :: id

variable {α : Type}

/-- A record of the object store, under its `id`. -/
structure Draft (α : Type) where
  type : DraftType
  data : α
  updatedAt : Nat
deriving DecidableEq

/-- The methods of the store. -/
inductive Call (α : Type)
  /-- `loadDrafts`, which the constructor calls. -/
  | load
  | save (type : DraftType) (data : α) (id : Str) (now : Nat)
  | clear (type : DraftType) (id : Str)
  | clearAll
deriving DecidableEq

abbrev Database (α : Type) := Str → Option (Draft α)

variable (db : Database α)

def Call.perform : Call α → Database α
  | .load => db
  | .save type data id now => Function.update db (key type id) (some ⟨type, data, now⟩)
  | .clear type id => Function.update db (key type id) none
  | .clearAll => fun _ => none

/-- What an operation resolves with: a success, with the drafts that a load has read, or an error. -/
inductive Result (α : Type)
  | done (call : Call α) (drafts : Str → Option α)
  | failed (call : Call α)

/-- The rest of a call, which replaces the map by a changed copy, or throws and leaves it. -/
def Result.resume (drafts : Str → Option α) : Result α → Str → Option α
  | .done .load read => read
  | .done (.save type data id _) _ => Function.update drafts (key type id) (some data)
  | .done (.clear type id) _ => Function.update drafts (key type id) none
  | .done .clearAll _ => fun _ => none
  | .failed _ => drafts

/-- What `loadDrafts` makes of the records. -/
def loaded : Str → Option α := fun k => (db k).map Draft.data

/-- The drafts in memory, the database, and the calls between them. -/
structure Store (α : Type) where
  drafts : Str → Option α
  db : Database α
  /-- Calls that wait for `getDB`. -/
  called : List (Call α)
  issued : List (Call α)
  results : List (Result α)

/-- A step of the store or of the database. -/
inductive Act (α : Type)
  | call (c : Call α)
  /-- `getDB` resolves for one of the calls that wait, which issues its operation, or rejects. -/
  | getDB (c : Call α) (ok : Bool)
  /-- The first of the operations takes effect, or fails. -/
  | perform (ok : Bool)
  | resume
deriving DecidableEq

/-- One action; `none` if it cannot happen now. -/
def step [DecidableEq α] (s : Store α) : Act α → Option (Store α)
  | .call c => if c = .load then none else some { s with called := c :: s.called }
  | .getDB c ok =>
    if c ∉ s.called then none
    else if ok then some { s with called := s.called.erase c, issued := s.issued ++ [c] }
    else if c = .load then none
    else some { s with called := s.called.erase c }
  | .perform ok =>
    match s.issued with
    | [] => none
    | c :: rest =>
      if ok then
        some { s with
          db := c.perform s.db, issued := rest, results := s.results ++ [.done c (loaded s.db)] }
      else if c = .load then none
      else some { s with issued := rest, results := s.results ++ [.failed c] }
  | .resume =>
    match s.results with
    | [] => none
    | r :: rest => some { s with drafts := r.resume s.drafts, results := rest }

def opened : Store α := ⟨fun _ => none, db, [.load], [], []⟩

/-- No call is under way. -/
def Store.Idle (s : Store α) : Prop := s.called = [] ∧ s.issued = [] ∧ s.results = []

instance [DecidableEq α] (s : Store α) : Decidable s.Idle :=
  decidable_of_iff (s.called.isEmpty ∧ s.issued.isEmpty ∧ s.results.isEmpty)
    (by simp [Store.Idle])

/-- The load has yet to read, or the drafts are those of the database once all results are in. -/
def Store.Mirrors (s : Store α) : Prop :=
  .load ∈ s.called ∨ .load ∈ s.issued ∨ s.results.foldl Result.resume s.drafts = loaded s.db

theorem resume_done (c : Call α) (db : Database α) :
    (Result.done c (loaded db)).resume (loaded db) = loaded (c.perform db) := by
  cases c with
  | load => rfl
  | clearAll => rfl
  | save type data id now =>
    funext k
    by_cases hk : k = key type id <;> simp [Result.resume, Call.perform, loaded, hk]
  | clear type id =>
    funext k
    by_cases hk : k = key type id <;> simp [Result.resume, Call.perform, loaded, hk]

variable [DecidableEq α] {s t : Store α} {a : Act α}

theorem mirrors_step (hstep : step s a = some t) (h : s.Mirrors) : t.Mirrors := by
  cases a with
  | call c =>
    rw [step, Option.ite_none_left_eq_some] at hstep
    cases hstep.2
    exact h.imp_left (mem_cons_of_mem c)
  | getDB c ok =>
    rw [step, Option.ite_none_left_eq_some] at hstep
    obtain ⟨-, hstep⟩ := hstep
    -- a load that waits is the call that goes on, or waits still
    have hload : .load ∈ s.called → c ≠ .load → .load ∈ s.called.erase c :=
      fun hmem hne => (mem_erase_of_ne (Ne.symm hne)).mpr hmem
    cases ok with
    | true =>
      cases hstep
      rcases h with h | h | h
      · by_cases hc : c = .load
        · exact .inr (.inl (by simp [hc]))
        · exact .inl (hload h hc)
      · exact .inr (.inl (mem_append_left _ h))
      · exact .inr (.inr h)
    | false =>
      rw [if_neg Bool.false_ne_true, Option.ite_none_left_eq_some] at hstep
      cases hstep.2
      exact h.imp_left fun hmem => hload hmem hstep.1
  | perform ok =>
    rw [step] at hstep
    cases hissued : s.issued with
    | nil => rw [hissued] at hstep; cases hstep
    | cons c rest =>
      rw [hissued] at hstep
      rw [Store.Mirrors, hissued, mem_cons] at h
      cases ok with
      | true =>
        cases hstep
        rcases h with h | (rfl | h) | h
        · exact .inl h
        · exact .inr (.inr (by simp [foldl_append, Result.resume, Call.perform]))
        · exact .inr (.inl h)
        · exact .inr (.inr (by rw [foldl_append, h]; exact resume_done c s.db))
      | false =>
        simp only [Bool.false_eq_true, if_false, Option.ite_none_left_eq_some] at hstep
        cases hstep.2
        rcases h with h | (hc | h) | h
        · exact .inl h
        · exact absurd hc.symm hstep.1
        · exact .inr (.inl h)
        · exact .inr (.inr (by rw [foldl_append, h]; rfl))
  | resume =>
    rw [step] at hstep
    cases hresults : s.results with
    | nil => rw [hresults] at hstep; cases hstep
    | cons r rest =>
      rw [hresults] at hstep
      cases hstep
      rw [Store.Mirrors, hresults] at h
      exact h

/-- Whatever calls are made and however they overlap and fail, the drafts in memory are those of the
database whenever nothing is pending, and they change only when a call that has succeeded goes on. -/
theorem drafts_mirror {as : List (Act α)}
    (hrun : exec step (opened db) as = some s) :
    (s.Idle → s.drafts = loaded s.db) ∧
    ∀ a t, step s a = some t → t.drafts ≠ s.drafts →
      a = .resume ∧ ∃ c read, s.results.head? = some (.done c read) := by
  have hmirrors : s.Mirrors :=
    exec_induction (fun _ _ _ hstep h => mirrors_step hstep h) hrun (.inl (by simp [opened]))
  refine ⟨fun ⟨hcalled, hissued, hresults⟩ => ?_, fun a t hstep hne => ?_⟩
  · rw [Store.Mirrors, hcalled, hissued, hresults] at hmirrors
    simpa using hmirrors
  · cases a with
    | resume =>
      refine ⟨rfl, ?_⟩
      rw [step] at hstep
      cases hresults : s.results with
      | nil => rw [hresults] at hstep; cases hstep
      | cons r rest =>
        rw [hresults] at hstep
        cases hstep
        cases r with
        | done c read => exact ⟨c, read, rfl⟩
        | failed c => exact absurd rfl hne
    | call c =>
      rw [step, Option.ite_none_left_eq_some] at hstep
      cases hstep.2
      exact absurd rfl hne
    | getDB c ok =>
      have hsame : t.drafts = s.drafts := by
        rw [step] at hstep
        split_ifs at hstep <;> cases hstep <;> rfl
      exact absurd hsame hne
    | perform ok =>
      have hsame : t.drafts = s.drafts := by
        rw [step] at hstep
        split at hstep
        · cases hstep
        · split_ifs at hstep <;> cases hstep <;> rfl
      exact absurd hsame hne

/-- A draft is saved while the load is on its way, and removing it fails. -/
theorem drafts_mirror_overlap : ∃ s : Store Nat,
    exec step (opened fun _ => none) [.call (.save .createUser 7 "default" 0), .getDB .load true,
      .getDB (.save .createUser 7 "default" 0) true, .perform true, .perform true, .resume,
      .call (.clear .createUser "default"), .getDB (.clear .createUser "default") true, .resume,
      .perform false, .resume] = some s ∧ s.drafts = loaded s.db := by
  obtain ⟨s, hrun, hidle⟩ : ∃ s : Store Nat,
      exec step (opened fun _ => none) [.call (.save .createUser 7 "default" 0), .getDB .load true,
        .getDB (.save .createUser 7 "default" 0) true, .perform true, .perform true, .resume,
        .call (.clear .createUser "default"), .getDB (.clear .createUser "default") true, .resume,
        .perform false, .resume] = some s ∧ s.Idle := by decide +kernel
  exact ⟨s, hrun, (drafts_mirror _ hrun).1 hidle⟩

end PowerManage.Offline
