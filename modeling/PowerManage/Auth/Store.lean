import PowerManage.Lib.Transition

/-!
# The sign-in state of the web client

`ts/auth.ts` keeps the tokens and the user of a session in memory and in the browser's storage.  Its
methods run to their next `await` without interruption; what they wait for, the server's answer to a
refresh or a logout, arrives whenever it does, and in the meantime the other methods run.  A step of
the model is one such stretch: a call, the firing of the refresh timer, or the arrival of an answer.

What the server hands out is marked with the login it belongs to (`Issued`): the tokens of a refresh
belong to the login whose refresh token it was started with.  That is also what goes wrong: the answer
is written into whatever state is there when it arrives (`late_refresh`).  `one_session` says that
nothing else can mix sessions.
-/

namespace PowerManage.Auth

open Transition

/-! ## The model -/

/-- A token, an expiry or a user, as the server handed it out for a login. -/
structure Issued where
  login : Nat
  serial : Nat
deriving DecidableEq

/-- The part of the state that goes to storage. -/
structure StoredAuth where
  accessToken : Option Issued
  refreshToken : Option Issued
  expiresAt : Option Issued
  user : Option Issued
deriving DecidableEq

def emptyAuth : StoredAuth := ⟨none, none, none, none⟩

def StoredAuth.held (a : StoredAuth) : List Issued :=
  a.accessToken.toList ++ a.refreshToken.toList ++ a.expiresAt.toList ++ a.user.toList

/-- What the store was created with and where it runs. -/
structure Config where
  window : Bool
  refreshFn : Bool
  logoutFn : Bool
deriving DecidableEq

/-- The store, the two storages of the browser and its timer. -/
structure Store where
  state : StoredAuth
  localStorage : Option StoredAuth
  sessionStorage : Option StoredAuth
  persist : Bool
  timer : Bool
  refreshPromise : Bool
  /-- The login that the call of `refreshFn` in flight was started from. -/
  inFlight : Option Nat
  /-- How many calls of `logoutFn` are in flight. -/
  logouts : Nat
  logins : Nat
  /-- A logout has completed, and no `setAuth` came after it. -/
  loggedOut : Bool
deriving DecidableEq

section

variable (cfg : Config)

def Store.saveAuth (s : Store) : Store :=
  if cfg.window = false then s
  else if s.persist then { s with localStorage := some s.state }
  else { s with sessionStorage := some s.state }

/-- The end of `logout`: the empty state and `clearAuth`. -/
def Store.clear (s : Store) : Store :=
  if cfg.window = false then { s with state := emptyAuth, loggedOut := true }
  else
    { s with
      state := emptyAuth
      localStorage := none
      sessionStorage := none
      persist := false
      loggedOut := true }

/-- `refresh` up to its first `await`. -/
def Store.refresh (s : Store) : Store :=
  match s.state.user, s.state.refreshToken with
  | some _, some token =>
    if s.refreshPromise then s
    else
      { s with
        refreshPromise := true
        inFlight := if cfg.refreshFn then some token.login else none }
  | _, _ => s

/-- `due` says that the time of the refresh has come already. -/
def Store.scheduleRefresh (due : Bool) (s : Store) : Store :=
  let s := { s with timer := false }
  if s.state.expiresAt = none ∨ s.state.user = none then s
  else if due then s.refresh cfg
  else { s with timer := true }

/-- What may happen to a store, in the order of the event loop. -/
inductive Action
  | setAuth (serial : Nat) (due : Bool)
  | updateUser (serial : Nat)
  | refresh
  | timerFires
  /-- `refreshFn` resolves with tokens, or with `none`: with null, or by a rejection. -/
  | refreshResolves (result : Option Nat) (due : Bool)
  /-- The `finally` of `refresh`. -/
  | refreshSettles
  | logout
  /-- `logoutFn` resolves or is rejected. -/
  | logoutResolves
deriving DecidableEq

def StoredAuth.refreshed (a : StoredAuth) (x : Issued) : StoredAuth :=
  { a with accessToken := some x, refreshToken := some x, expiresAt := some x }

/-- One action; `none` if it cannot happen now. -/
def step (s : Store) : Action → Option Store
  | .setAuth serial due =>
    let x : Issued := ⟨s.logins + 1, serial⟩
    let s := { s with
      state := ⟨some x, some x, some x, some x⟩
      logins := s.logins + 1
      loggedOut := false }
    some ((s.saveAuth cfg).scheduleRefresh cfg due)
  | .updateUser serial =>
    match s.state.user with
    | none => none
    | some u => some ({ s with state := { s.state with user := some ⟨u.login, serial⟩ } }.saveAuth cfg)
  | .refresh => some (s.refresh cfg)
  | .timerFires => if s.timer then some ({ s with timer := false }.refresh cfg) else none
  | .refreshResolves result due =>
    match s.inFlight with
    | none => none
    | some login =>
      match result with
      | none => some { s with inFlight := none }
      | some serial =>
        let s := { s with inFlight := none, state := s.state.refreshed ⟨login, serial⟩ }
        some ((s.saveAuth cfg).scheduleRefresh cfg due)
  | .refreshSettles =>
    if s.refreshPromise ∧ s.inFlight = none then some { s with refreshPromise := false } else none
  | .logout =>
    let s := { s with timer := false }
    if s.state.user.isSome && cfg.logoutFn then some { s with logouts := s.logouts + 1 }
    else some (s.clear cfg)
  | .logoutResolves =>
    if 0 < s.logouts then some ({ s with logouts := s.logouts - 1 }.clear cfg) else none

end

/-- A store that has just been constructed, over what an earlier page left in the storage that it
reads first. -/
def opened (cfg : Config) (persist due : Bool) (saved : Option StoredAuth) : Store :=
  let s : Store :=
    { state := if cfg.window then saved.getD emptyAuth else emptyAuth
      localStorage := if cfg.window && persist then saved else none
      sessionStorage := if cfg.window && !persist then saved else none
      persist := persist
      timer := false
      refreshPromise := false
      inFlight := none
      logouts := 0
      logins := 0
      loggedOut := false }
  if cfg.window then s.scheduleRefresh cfg due else s

/-! ## What should hold -/

def Store.held (s : Store) : List Issued :=
  s.state.held ++ (s.localStorage.elim [] StoredAuth.held) ++
    s.sessionStorage.elim [] StoredAuth.held

/-- Memory and storage hold one login, and none after a logout. -/
def OneSession (s : Store) : Prop :=
  (∃ login, ∀ x ∈ s.held, x.login = login) ∧ (s.loggedOut = true → s.held = [])

/-- Tokens arrive while the login is current that the refresh was started from. -/
def allowed (s : Store) : Action → Bool
  | .refreshResolves (some _) _ =>
    match s.inFlight, s.state.refreshToken with
    | some login, some token => token.login = login
    | _, _ => false
  | _ => true

/-! ## What is kept -/

/-- Nothing held or stored is of another login than the last. -/
structure Inv (cfg : Config) (s : Store) : Prop where
  current : ∀ x ∈ s.state.held, x.login = s.logins
  stored : ∀ a, s.localStorage = some a ∨ s.sessionStorage = some a →
    ∀ x ∈ a.held, x.login = s.logins
  other : (if s.persist then s.sessionStorage else s.localStorage) = none
  unused : cfg.window = false → s.localStorage = none ∧ s.sessionStorage = none
  gone : s.loggedOut = true → s.state = emptyAuth ∧ s.localStorage = none ∧ s.sessionStorage = none

section

variable {cfg : Config} {s t : Store}

theorem Inv.congr (h : Inv cfg s) (hstate : t.state = s.state)
    (hlocal : t.localStorage = s.localStorage) (hsession : t.sessionStorage = s.sessionStorage)
    (hpersist : t.persist = s.persist) (hlogins : t.logins = s.logins)
    (hout : t.loggedOut = s.loggedOut) : Inv cfg t where
  current := by rw [hstate, hlogins]; exact h.current
  stored := by rw [hlocal, hsession, hlogins]; exact h.stored
  other := by rw [hpersist, hlocal, hsession]; exact h.other
  unused := by rw [hlocal, hsession]; exact h.unused
  gone := by rw [hout, hstate, hlocal, hsession]; exact h.gone

theorem Inv.refresh (h : Inv cfg s) : Inv cfg (s.refresh cfg) := by
  unfold Store.refresh
  split
  · split
    · exact h
    · exact h.congr rfl rfl rfl rfl rfl rfl
  · exact h

theorem Inv.scheduleRefresh (h : Inv cfg s) (due : Bool) : Inv cfg (s.scheduleRefresh cfg due) := by
  have htimer : ∀ b, Inv cfg { s with timer := b } := fun b => h.congr rfl rfl rfl rfl rfl rfl
  unfold Store.scheduleRefresh
  simp only
  split
  · exact htimer false
  · split
    · exact (htimer false).refresh
    · exact htimer true

theorem Inv.clear (h : Inv cfg s) : Inv cfg (s.clear cfg) := by
  unfold Store.clear
  split
  · rename_i hwindow
    exact ⟨(by intro x hx; cases hx), h.stored, h.other, h.unused,
      fun _ => ⟨rfl, h.unused hwindow⟩⟩
  · exact ⟨(by intro x hx; cases hx), (by rintro a (ha | ha) <;> cases ha), rfl,
      fun _ => ⟨rfl, rfl⟩, fun _ => ⟨rfl, rfl, rfl⟩⟩

theorem inv_saveAuth (hcurrent : ∀ x ∈ s.state.held, x.login = s.logins)
    (hother : (if s.persist then s.sessionStorage else s.localStorage) = none)
    (hunused : cfg.window = false → s.localStorage = none ∧ s.sessionStorage = none)
    (hin : s.loggedOut = false) : Inv cfg (s.saveAuth cfg) := by
  have hgone : s.loggedOut = true → False := by
    intro hout
    rw [hin] at hout
    cases hout
  unfold Store.saveAuth
  split
  · rename_i hwindow
    obtain ⟨hlocal, hsession⟩ := hunused hwindow
    refine ⟨hcurrent, ?_, hother, hunused, fun hout => (hgone hout).elim⟩
    rintro a (ha | ha)
    · rw [hlocal] at ha; cases ha
    · rw [hsession] at ha; cases ha
  · rename_i hwindow
    split
    · rename_i hpersist
      rw [if_pos hpersist] at hother
      refine ⟨hcurrent, ?_, ?_, fun h => absurd h hwindow, fun hout => (hgone hout).elim⟩
      · rintro a (ha | ha)
        · cases ha; exact hcurrent
        · rw [hother] at ha; cases ha
      · simp only [hpersist]
        exact hother
    · rename_i hpersist
      rw [if_neg hpersist] at hother
      refine ⟨hcurrent, ?_, ?_, fun h => absurd h hwindow, fun hout => (hgone hout).elim⟩
      · rintro a (ha | ha)
        · rw [hother] at ha; cases ha
        · cases ha; exact hcurrent
      · simp only [hpersist]
        exact hother

theorem mem_held {a : StoredAuth} {x : Issued} :
    x ∈ a.held ↔ a.accessToken = some x ∨ a.refreshToken = some x ∨ a.expiresAt = some x ∨
      a.user = some x := by
  simp only [StoredAuth.held, List.mem_append, Option.mem_toList, or_assoc]

theorem Inv.signedIn (h : Inv cfg s) {x : Issued} (hx : x ∈ s.state.held) :
    s.loggedOut = false := by
  by_contra hout
  rw [(h.gone (Bool.eq_true_of_not_eq_false hout)).1] at hx
  cases hx

theorem inv_step {a : Action} (hstep : step cfg s a = some t) (hallowed : allowed s a = true)
    (h : Inv cfg s) : Inv cfg t := by
  cases a with
  | setAuth serial due =>
    cases hstep
    apply Inv.scheduleRefresh
    refine inv_saveAuth ?_ h.other h.unused rfl
    intro x hx
    rcases mem_held.mp hx with hx | hx | hx | hx <;> cases hx <;> rfl
  | updateUser serial =>
    simp only [step] at hstep
    split at hstep
    · cases hstep
    rename_i u hu
    cases hstep
    have hmem : u ∈ s.state.held := mem_held.mpr (.inr (.inr (.inr hu)))
    refine inv_saveAuth ?_ h.other h.unused (h.signedIn hmem)
    intro x hx
    rcases mem_held.mp hx with hx | hx | hx | hx
    · exact h.current x (mem_held.mpr (.inl hx))
    · exact h.current x (mem_held.mpr (.inr (.inl hx)))
    · exact h.current x (mem_held.mpr (.inr (.inr (.inl hx))))
    · cases hx
      exact h.current u hmem
  | refresh =>
    cases hstep
    exact h.refresh
  | timerFires =>
    simp only [step] at hstep
    split_ifs at hstep
    cases hstep
    exact Inv.refresh (h.congr rfl rfl rfl rfl rfl rfl)
  | refreshResolves result due =>
    simp only [step] at hstep
    split at hstep
    · cases hstep
    rename_i login hflight
    cases result with
    | none =>
      cases hstep
      exact h.congr rfl rfl rfl rfl rfl rfl
    | some serial =>
      cases hstep
      simp only [allowed, hflight] at hallowed
      cases htoken : s.state.refreshToken with
      | none => rw [htoken] at hallowed; cases hallowed
      | some token =>
        rw [htoken] at hallowed
        have hmem : token ∈ s.state.held := mem_held.mpr (.inr (.inl htoken))
        have hlogin : login = s.logins :=
          (of_decide_eq_true hallowed).symm.trans (h.current token hmem)
        apply Inv.scheduleRefresh
        refine inv_saveAuth ?_ h.other h.unused (h.signedIn hmem)
        intro x hx
        rcases mem_held.mp hx with hx | hx | hx | hx
        · cases hx; exact hlogin
        · cases hx; exact hlogin
        · cases hx; exact hlogin
        · exact h.current x (mem_held.mpr (.inr (.inr (.inr hx))))
  | refreshSettles =>
    simp only [step] at hstep
    split_ifs at hstep
    cases hstep
    exact h.congr rfl rfl rfl rfl rfl rfl
  | logout =>
    simp only [step] at hstep
    split_ifs at hstep
    · cases hstep
      exact h.congr rfl rfl rfl rfl rfl rfl
    · cases hstep
      exact Inv.clear (h.congr rfl rfl rfl rfl rfl rfl)
  | logoutResolves =>
    simp only [step] at hstep
    split_ifs at hstep
    cases hstep
    exact Inv.clear (h.congr rfl rfl rfl rfl rfl rfl)

theorem Inv.oneSession (h : Inv cfg s) : OneSession s := by
  refine ⟨⟨s.logins, fun x hx => ?_⟩, fun hout => ?_⟩
  · simp only [Store.held, List.mem_append] at hx
    rcases hx with (hx | hx) | hx
    · exact h.current x hx
    · cases hlocal : s.localStorage with
      | none => rw [hlocal] at hx; cases hx
      | some a => rw [hlocal] at hx; exact h.stored a (.inl hlocal) x hx
    · cases hsession : s.sessionStorage with
      | none => rw [hsession] at hx; cases hx
      | some a => rw [hsession] at hx; exact h.stored a (.inr hsession) x hx
  · obtain ⟨hstate, hlocal, hsession⟩ := h.gone hout
    rw [Store.held, hstate, hlocal, hsession]
    rfl

theorem inv_opened (cfg : Config) (persist due : Bool) {saved : Option StoredAuth}
    (hsaved : ∀ a, saved = some a → ∀ x ∈ a.held, x.login = 0) :
    Inv cfg (opened cfg persist due saved) := by
  have hempty : ∀ x ∈ emptyAuth.held, x.login = 0 := by
    intro x hx
    cases hx
  have hloaded : ∀ x ∈ (saved.getD emptyAuth).held, x.login = 0 := by
    cases saved with
    | none => exact hempty
    | some a => exact hsaved a rfl
  unfold opened
  cases hwindow : cfg.window with
  | false =>
    exact ⟨hempty, (by rintro a (ha | ha) <;> cases ha), (by cases persist <;> rfl),
      fun _ => ⟨rfl, rfl⟩, (by intro hout; cases hout)⟩
  | true =>
    apply Inv.scheduleRefresh
    refine ⟨hloaded, ?_, (by cases persist <;> rfl), ?_, (by intro hout; cases hout)⟩
    · cases persist with
      | false => rintro a (ha | ha); cases ha; exact hsaved a ha
      | true => rintro a (ha | ha); exact hsaved a ha; cases ha
    · intro hfalse
      rw [hwindow] at hfalse
      cases hfalse

end

/-! ## Runs -/

/-- While every refresh resolves under the login it was started from, memory and storage hold one
login, and none after a logout. -/
theorem one_session (cfg : Config) (persist due : Bool) {saved : Option StoredAuth}
    (hsaved : ∀ a, saved = some a → ∀ x ∈ a.held, x.login = 0) {as : List Action} {s : Store}
    (hallowed : Along (step cfg) (fun s a => allowed s a = true) (opened cfg persist due saved) as)
    (hrun : exec (step cfg) (opened cfg persist due saved) as = some s) : OneSession s :=
  Inv.oneSession (exec_induction_along (fun _ _ _ hstep hallowed h => inv_step hstep hallowed h)
    hallowed hrun (inv_opened cfg persist due hsaved))

def browser : Config := ⟨true, true, true⟩

def orderly : List Action :=
  [.setAuth 0 false, .timerFires, .updateUser 1, .refreshResolves (some 2) false, .refresh,
    .refreshSettles, .logout, .setAuth 3 true, .logoutResolves, .refreshResolves none false,
    .refreshSettles, .setAuth 4 false]

/-- Three logins, with a refresh that ends in time. -/
theorem one_session_orderly : ∃ s, exec (step browser) (opened browser true false none) orderly =
    some s ∧ s.logins = 3 ∧ OneSession s := by
  obtain ⟨s, hrun, hlogins⟩ : ∃ s, exec (step browser) (opened browser true false none) orderly =
      some s ∧ s.logins = 3 := by decide +kernel
  refine ⟨s, hrun, hlogins, one_session browser true false ?_ (by decide +kernel) hrun⟩
  intro a ha
  cases ha

def resurrected : List Action :=
  [.setAuth 0 false, .refresh, .logout, .logoutResolves, .refreshResolves (some 1) false]

def mixed : List Action :=
  [.setAuth 0 false, .refresh, .logout, .logoutResolves, .setAuth 1 false,
    .refreshResolves (some 2) false]

/-- A refresh that ends after the logout brings the session back, and one that ends after another
login mixes the two. -/
theorem late_refresh :
    (∃ s, exec (step browser) (opened browser false false none) resurrected = some s ∧
      s.loggedOut = true ∧ s.state.accessToken = some ⟨1, 1⟩ ∧
      s.sessionStorage = some ⟨some ⟨1, 1⟩, some ⟨1, 1⟩, some ⟨1, 1⟩, none⟩ ∧ ¬ OneSession s) ∧
    ∃ s, exec (step browser) (opened browser false false none) mixed = some s ∧
      s.state = ⟨some ⟨1, 2⟩, some ⟨1, 2⟩, some ⟨1, 2⟩, some ⟨2, 1⟩⟩ ∧ ¬ OneSession s := by
  obtain ⟨s, hrun, hout, htoken, hsession, hheld⟩ : ∃ s,
      exec (step browser) (opened browser false false none) resurrected = some s ∧
      s.loggedOut = true ∧ s.state.accessToken = some ⟨1, 1⟩ ∧
      s.sessionStorage = some ⟨some ⟨1, 1⟩, some ⟨1, 1⟩, some ⟨1, 1⟩, none⟩ ∧ s.held ≠ [] := by
    decide +kernel
  obtain ⟨s', hrun', hstate, hone, htwo⟩ : ∃ s,
      exec (step browser) (opened browser false false none) mixed = some s ∧
      s.state = ⟨some ⟨1, 2⟩, some ⟨1, 2⟩, some ⟨1, 2⟩, some ⟨2, 1⟩⟩ ∧
      ⟨1, 2⟩ ∈ s.held ∧ ⟨2, 1⟩ ∈ s.held := by
    decide +kernel
  refine ⟨⟨s, hrun, hout, htoken, hsession, fun h => hheld (h.2 hout)⟩, s', hrun', hstate, ?_⟩
  rintro ⟨⟨login, hlogin⟩, -⟩
  exact absurd ((hlogin _ hone).trans (hlogin _ htwo).symm) (by decide)

/-! ## Reloads

Between the awaits of a page the storages matter to the next page only.  So here an operation is
whole, a refresh among them, and a page may be loaded again after each. -/

/-- What the constructor of a new `AuthStore` finds. -/
def Store.loadAuth (s : Store) : StoredAuth :=
  if s.persist then (s.localStorage.or s.sessionStorage).getD emptyAuth
  else (s.sessionStorage.or s.localStorage).getD emptyAuth

def Store.setPersist (s : Store) (value : Bool) : Store :=
  if value then { s with persist := true } else { s with persist := false, localStorage := none }

/-- A tab that may be reloaded: its store, and what was saved last. -/
structure Tab where
  store : Store
  saved : Option StoredAuth

/-- Operations on a tab that run to their end. -/
inductive Op
  | setAuth (accessToken refreshToken expiresAt user : Issued)
  | refresh (accessToken refreshToken expiresAt : Issued)
  | setPersist (value : Bool)
  | logout
  | reload
deriving DecidableEq

def Tab.save (t : Tab) (a : StoredAuth) : Tab :=
  ⟨{ t.store with state := a }.saveAuth browser, some a⟩

def Tab.step (t : Tab) : Op → Option Tab
  | .setAuth x y e u => some (t.save ⟨some x, some y, some e, some u⟩)
  | .refresh x y e =>
    if t.store.state.user.isSome && t.store.state.refreshToken.isSome then
      some (t.save ⟨some x, some y, some e, t.store.state.user⟩)
    else none
  | .setPersist value => some { t with store := t.store.setPersist value }
  | .logout => some ⟨t.store.clear browser, none⟩
  | .reload => some { t with store := { t.store with
      state := t.store.loadAuth, timer := false, refreshPromise := false, inFlight := none } }

/-- A reload restores the last save or nothing: nothing after a logout, or from `localStorage`
without persistence. -/
def Tab.Coherent (t : Tab) : Prop :=
  (t.store.loadAuth = emptyAuth ∨ t.saved = some t.store.loadAuth) ∧
    (t.store.persist = false → t.store.sessionStorage = none → t.store.loadAuth = emptyAuth)

/-- Persistence is switched off while `sessionStorage` has no copy, or that of the last save. -/
def Tab.Switches (t : Tab) (op : Op) : Prop :=
  op = .setPersist false →
    t.store.sessionStorage.getD emptyAuth = emptyAuth ∨ t.store.sessionStorage = t.saved

instance (t : Tab) (op : Op) : Decidable (t.Switches op) :=
  inferInstanceAs (Decidable (_ → _))

/-- The storage that a reload comes to has the last save or nothing to restore. -/
def Tab.Current (t : Tab) : Prop :=
  (t.store.persist = true ∧ t.store.localStorage.isSome ∧ t.store.localStorage = t.saved) ∨
    t.store.localStorage = none ∧
      (t.store.sessionStorage.getD emptyAuth = emptyAuth ∨ t.store.sessionStorage = t.saved)

section

variable {t u : Tab} {op : Op}

theorem Tab.Current.coherent (h : t.Current) : t.Coherent := by
  rcases h with ⟨hpersist, hsome, hlocal⟩ | ⟨hlocal, hsession⟩
  · obtain ⟨a, ha⟩ := Option.isSome_iff_exists.mp hsome
    have hload : t.store.loadAuth = a := by simp [Store.loadAuth, hpersist, ha]
    exact ⟨.inr (by rw [hload, ← hlocal, ha]), by simp [hpersist]⟩
  · have hload : t.store.loadAuth = t.store.sessionStorage.getD emptyAuth := by
      simp [Store.loadAuth, hlocal]
    rw [Tab.Coherent, hload]
    refine ⟨?_, fun _ hnone => by rw [hnone]; rfl⟩
    rcases hsession with hempty | hsaved
    · exact .inl hempty
    · cases hsome : t.store.sessionStorage with
      | none => exact .inl rfl
      | some a => exact .inr (by rw [← hsaved, hsome]; rfl)

theorem Tab.Current.save (h : t.Current) (a : StoredAuth) : (t.save a).Current := by
  cases hpersist : t.store.persist with
  | true => exact .inl (by simp [Tab.save, Store.saveAuth, browser, hpersist])
  | false =>
    have hlocal : t.store.localStorage = none := by
      rcases h with ⟨hon, -⟩ | ⟨hlocal, -⟩
      · rw [hpersist] at hon
        cases hon
      · exact hlocal
    exact .inr (by simp [Tab.save, Store.saveAuth, browser, hpersist, hlocal])

theorem Tab.current_step (hstep : t.step op = some u) (h : t.Current) (hop : t.Switches op) :
    u.Current := by
  cases op with
  | setAuth x y e w =>
    cases hstep
    exact h.save _
  | refresh x y e =>
    rw [Tab.step, Option.ite_none_right_eq_some] at hstep
    cases hstep.2
    exact h.save _
  | setPersist value =>
    cases hstep
    cases value with
    | true =>
      refine h.imp (fun hon => ⟨rfl, hon.2⟩) id
    | false => exact .inr ⟨rfl, hop rfl⟩
  | logout =>
    cases hstep
    exact .inr ⟨rfl, .inl rfl⟩
  | reload =>
    cases hstep
    exact h

theorem Tab.coherent_setPersist (hstep : t.step (.setPersist false) = some u) (h : u.Coherent) :
    t.Switches (.setPersist false) := by
  cases hstep
  have hload : (t.store.setPersist false).loadAuth = t.store.sessionStorage.getD emptyAuth := by
    simp [Store.loadAuth, Store.setPersist]
  intro
  rcases h.1 with hempty | hsaved
  · exact .inl (hload.symm.trans hempty)
  · cases hsome : t.store.sessionStorage with
    | none => exact .inl rfl
    | some a => exact .inr (by rw [hload, hsome] at hsaved; exact hsaved.symm)

end

def newTab : Tab := ⟨opened browser false false none, none⟩

/-- In every run in which persistence is switched off only while `sessionStorage` has no copy but
that of the last save, a reload is coherent at any time; and only such an operation keeps it so. -/
theorem reload_coherent {ops : List Op} {t : Tab}
    (hops : Along Tab.step Tab.Switches newTab ops) (hrun : exec Tab.step newTab ops = some t) :
    t.Coherent ∧ ∀ op u, t.step op = some u → (u.Coherent ↔ t.Switches op) := by
  have hcurrent : t.Current := exec_induction_along
    (fun _ _ _ hstep hop h => Tab.current_step hstep h hop) hops hrun (.inr ⟨rfl, .inl rfl⟩)
  refine ⟨hcurrent.coherent, fun op u hstep => ⟨fun hu hop => ?_, fun hop => ?_⟩⟩
  · subst hop
    exact Tab.coherent_setPersist hstep hu rfl
  · exact (Tab.current_step hstep hcurrent hop).coherent

/-- A login, persistence, a refresh and a reload. -/
theorem reload_coherent_refreshed : ∃ t,
    exec Tab.step newTab [.setPersist true, .setAuth ⟨1, 0⟩ ⟨1, 0⟩ ⟨1, 0⟩ ⟨1, 0⟩, .reload,
      .refresh ⟨1, 1⟩ ⟨1, 1⟩ ⟨1, 1⟩, .setPersist false, .reload] = some t ∧ t.Coherent := by
  obtain ⟨t, hrun, -⟩ : ∃ t, exec Tab.step newTab [.setPersist true,
      .setAuth ⟨1, 0⟩ ⟨1, 0⟩ ⟨1, 0⟩ ⟨1, 0⟩, .reload, .refresh ⟨1, 1⟩ ⟨1, 1⟩ ⟨1, 1⟩,
      .setPersist false, .reload] = some t ∧ True := by decide +kernel
  exact ⟨t, hrun, (reload_coherent (by decide +kernel) hrun).1⟩

/-- The copy that a save before `setPersist(true)` left comes back once persistence is off. -/
theorem superseded_tokens : ∃ t,
    exec Tab.step newTab [.setAuth ⟨1, 0⟩ ⟨1, 0⟩ ⟨1, 0⟩ ⟨1, 0⟩, .setPersist true,
      .refresh ⟨1, 1⟩ ⟨1, 1⟩ ⟨1, 1⟩, .setPersist false, .reload] = some t ∧
    t.store.state.refreshToken = some ⟨1, 0⟩ ∧
    t.saved = some ⟨some ⟨1, 1⟩, some ⟨1, 1⟩, some ⟨1, 1⟩, some ⟨1, 0⟩⟩ ∧ ¬t.Coherent := by
  obtain ⟨t, hrun, htoken, hsaved, hload⟩ : ∃ t,
      exec Tab.step newTab [.setAuth ⟨1, 0⟩ ⟨1, 0⟩ ⟨1, 0⟩ ⟨1, 0⟩, .setPersist true,
        .refresh ⟨1, 1⟩ ⟨1, 1⟩ ⟨1, 1⟩, .setPersist false, .reload] = some t ∧
      t.store.state.refreshToken = some ⟨1, 0⟩ ∧
      t.saved = some ⟨some ⟨1, 1⟩, some ⟨1, 1⟩, some ⟨1, 1⟩, some ⟨1, 0⟩⟩ ∧
      ¬(t.store.loadAuth = emptyAuth ∨ t.saved = some t.store.loadAuth) := by decide +kernel
  exact ⟨t, hrun, htoken, hsaved, fun h => hload h.1⟩

end PowerManage.Auth
