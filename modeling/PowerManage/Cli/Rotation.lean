import PowerManage.Cli.Session

/-!
# Refresh tokens are rotated

A server takes a refresh token once; presenting one again gives the whole family away.  Here only
authenticated commands run, and each refresh is answered with a grant.  A refresh reads the file,
asks the server and replaces the file under the lock, also when it is forced; so the refreshes form a
chain, each with the token that the one before returned (`refresh_tokens_rotated`).  The first read
of a command takes no lock, but what it finds is what the file holds at that moment.
-/

namespace PowerManage.Cli

open Transition List Function

/-- What processes that only run authenticated commands do while every refresh is answered. -/
def Act.authenticated : Act → Bool
  | .login _ | .logout | .refreshed none => false
  | _ => true

def SessionFile.serial (f : SessionFile) : Nat := f.grant.serial

variable (first : Option Nat) (refreshes : List (Nat × Option Nat))

/-- The refresh token to present next: the one that the last refresh returned. -/
def latest : Option Nat :=
  (refreshes.getLast?.map Prod.snd).getD first

@[simp] theorem latest_concat (r : Nat × Option Nat) : latest first (refreshes ++ [r]) = r.2 := by
  simp [latest]

/-- Each refresh presented the token that was the latest one. -/
def Rotated : Prop :=
  Historic (fun before r => latest first before = some r.1) refreshes

/-- The file held this at some time since the process began. -/
def Seen (s : Host) (p : Nat) (f : SessionFile) : Prop :=
  ∃ i, s.began p ≤ i ∧ s.held[i]? = some f

/-! ## What is kept -/

/-- What a process knows, by its phase, agrees with the file. -/
def Fits (s : Host) (p : Nat) : Phase → Prop
  | .idle | .reading | .waiting _ => True
  | .calling f _ => Seen s p f
  | .locked _ => s.lock = some p
  | .refreshing _ f => s.lock = some p ∧ s.file = some f
  | .replacing _ f => s.lock = some p ∧ latest first s.refreshes = some f.serial
  | .closing _ result => s.lock = some p ∧ ∀ f, result = some f → Seen s p f
  | _ => False

/-- Some process has a new token and has not written it yet. -/
def Replacing (s : Host) : Prop := ∃ p force f, s.phase p = .replacing force f

/-- The file holds the latest token, unless it is being replaced. -/
structure Inv (first : Option Nat) (s : Host) : Prop where
  fits : ∀ p, Fits first s p (s.phase p)
  stored : s.file = s.held.getLast?
  began : ∀ p, s.began p ≤ s.held.length - 1
  current : Replacing s ∨ s.file.map SessionFile.serial = latest first s.refreshes
  rotated : Rotated first s.refreshes
  increasing : (s.refreshes.map Prod.fst).Pairwise (· < ·)
  below : ∀ x, latest first s.refreshes = some x → x ≤ s.grants ∧ ∀ r ∈ s.refreshes, r.1 < x

section

variable {first : Option Nat} {s t : Host} {p q : Nat} {a : Act} {x : Phase} {f : SessionFile}

theorem Seen.grow (h : Seen s p f) (hheld : s.held <+: t.held) (hbegan : t.began p = s.began p) :
    Seen t p f := by
  obtain ⟨i, hi, hf⟩ := h
  obtain ⟨new, hnew⟩ := hheld
  refine ⟨i, hbegan ▸ hi, ?_⟩
  rw [← hnew, getElem?_append_left (List.getElem?_eq_some_iff.mp hf).1]
  exact hf

theorem Inv.seen (h : Inv first s) (hf : s.file = some f) (p : Nat) : Seen s p f := by
  refine ⟨s.held.length - 1, h.began p, ?_⟩
  rw [← getLast?_eq_getElem?, ← h.stored, hf]

theorem Fits.others (h : Fits first s q x)
    (hsame : s.lock ≠ some q ∨
      t.lock = s.lock ∧ t.file = s.file ∧ t.refreshes = s.refreshes)
    (hheld : s.held <+: t.held) (hbegan : t.began q = s.began q) : Fits first t q x := by
  cases x with
  | calling f retried => exact Seen.grow h hheld hbegan
  | locked force =>
    rcases hsame with hq | ⟨hlock, -, -⟩
    · exact absurd h hq
    · exact hlock.trans h
  | refreshing force f =>
    rcases hsame with hq | ⟨hlock, hfile, -⟩
    · exact absurd h.1 hq
    · exact ⟨hlock.trans h.1, hfile.trans h.2⟩
  | replacing force f =>
    rcases hsame with hq | ⟨hlock, -, hrefreshes⟩
    · exact absurd h.1 hq
    · exact ⟨hlock.trans h.1, by rw [hrefreshes]; exact h.2⟩
  | closing force result =>
    rcases hsame with hq | ⟨hlock, -, -⟩
    · exact absurd h.1 hq
    · exact ⟨hlock.trans h.1, fun f hf => (h.2 f hf).grow hheld hbegan⟩
  | idle | reading | waiting _ => trivial
  | exchanging _ | storing _ | leaving | revoking _ | removing => exact h

theorem Inv.not_replacing (h : Inv first s) (hlock : s.lock = none ∨ s.lock = some p)
    (hp : ∀ force f, s.phase p ≠ .replacing force f) : ¬Replacing s := by
  rintro ⟨q, force, f, hq⟩
  have hfits := h.fits q
  rw [hq] at hfits
  rcases hlock with hlock | hlock
  · cases hlock.symm.trans hfits.1
  · obtain rfl : p = q := Option.some.inj (hlock.symm.trans hfits.1)
    exact hp force f hq

theorem Replacing.move (h : Replacing s) (hp : ∀ force f, s.phase p ≠ .replacing force f)
    (hphase : t.phase = update s.phase p x) : Replacing t := by
  obtain ⟨q, force, f, hq⟩ := h
  refine ⟨q, force, f, ?_⟩
  have hne : q ≠ p := by
    rintro rfl
    exact hp force f hq
  rw [hphase, update_of_ne hne]
  exact hq

theorem fits_update (hphase : t.phase = update s.phase p x)
    (hp : Fits first t p x) (hothers : ∀ q, q ≠ p → Fits first t q (s.phase q)) (q : Nat) :
    Fits first t q (t.phase q) := by
  rw [hphase]
  by_cases hq : q = p
  · subst hq
    rw [update_self]
    exact hp
  · rw [update_of_ne hq]
    exact hothers q hq

theorem Inv.move (h : Inv first s) (hp : ∀ force f, s.phase p ≠ .replacing force f)
    (hx : Fits first s p x) : Inv first (s.move p x) where
  fits := by
    refine fits_update rfl (hx.others (.inr ⟨rfl, rfl, rfl⟩) prefix_rfl rfl) fun q _ => ?_
    exact (h.fits q).others (.inr ⟨rfl, rfl, rfl⟩) prefix_rfl rfl
  stored := h.stored
  began := h.began
  current := h.current.imp_left fun hr => hr.move hp rfl
  rotated := h.rotated
  increasing := h.increasing
  below := h.below

theorem Inv.command (h : Inv first s) (hphase : s.phase p = .idle) :
    Inv first { s.move p .reading with
      began := update s.began p (s.held.length - 1) } where
  fits := by
    refine fits_update rfl trivial fun q hq => ?_
    exact (h.fits q).others (.inr ⟨rfl, rfl, rfl⟩) prefix_rfl (update_of_ne hq ..)
  stored := h.stored
  began := by
    intro q
    change update s.began p (s.held.length - 1) q ≤ _
    by_cases hq : q = p
    · subst hq
      rw [update_self]
      exact le_refl _
    · rw [update_of_ne hq]
      exact h.began q
  current := h.current.imp_left fun hr => hr.move (by simp [hphase]) rfl
  rotated := h.rotated
  increasing := h.increasing
  below := h.below

theorem Inv.relock (h : Inv first s) (hp : ∀ force f, s.phase p ≠ .replacing force f)
    (hlock : s.lock = none ∨ s.lock = some p) {holder : Option Nat}
    (hx : Fits first { s.move p x with lock := holder } p x) :
    Inv first { s.move p x with lock := holder } where
  fits := by
    refine fits_update rfl hx fun q hq => (h.fits q).others (.inl ?_) prefix_rfl rfl
    rcases hlock with hlock | hlock <;> rw [hlock]
    · simp
    · exact fun hpq => hq (Option.some.inj hpq).symm
  stored := h.stored
  began := h.began
  current := h.current.imp_left fun hr => hr.move hp rfl
  rotated := h.rotated
  increasing := h.increasing
  below := h.below

/-- Nobody else has the lock, so the token presented is the one that the last refresh returned. -/
theorem Inv.refreshed (h : Inv first s) {force : Bool} (hphase : s.phase p = .refreshing force f)
    {g : SessionFile} (hg : g.serial = s.grants + 1) :
    Inv first { s.move p (.replacing force g) with
      grants := s.grants + 1
      refreshes := s.refreshes ++ [(f.grant.serial, some (s.grants + 1))] } := by
  have hfits := h.fits p
  rw [hphase] at hfits
  obtain ⟨hlock, hfile⟩ := hfits
  have hidle : ¬Replacing s := h.not_replacing (.inr hlock) (by simp [hphase])
  have hpresent : latest first s.refreshes = some f.grant.serial := by
    rw [← h.current.resolve_left hidle, hfile]
    rfl
  obtain ⟨hgrants, hless⟩ := h.below _ hpresent
  refine ⟨?_, h.stored, h.began, .inl ⟨p, force, g, update_self ..⟩, ?_, ?_, ?_⟩
  · refine fits_update rfl ⟨hlock, by simp [hg]⟩ fun q hq => ?_
    refine (h.fits q).others (.inl ?_) prefix_rfl rfl
    rw [hlock]
    exact fun hpq => hq (Option.some.inj hpq).symm
  · exact historic_concat.mpr ⟨h.rotated, hpresent⟩
  · rw [map_append, pairwise_append]
    refine ⟨h.increasing, by simp, ?_⟩
    simp only [mem_map, map_cons, map_nil, mem_singleton]
    rintro _ ⟨r, hr, rfl⟩ _ rfl
    exact hless r hr
  · intro y hy
    rw [latest_concat, Option.some_inj] at hy
    subst hy
    refine ⟨le_refl _, fun r hr => ?_⟩
    rcases mem_append.mp hr with hr | hr
    · have := hless r hr
      omega
    · rw [mem_singleton.mp hr]
      exact Nat.lt_succ_of_le hgrants

theorem Inv.replace (h : Inv first s) {force : Bool} (hphase : s.phase p = .replacing force f) :
    Inv first ((s.write f).move p (.closing force (some f))) := by
  have hfits := h.fits p
  rw [hphase] at hfits
  obtain ⟨hlock, hlatest⟩ := hfits
  have hgrow : s.held <+: s.held ++ [f] := prefix_append ..
  have hbegan : ∀ q, s.began q ≤ (s.held ++ [f]).length - 1 := by
    intro q
    have := h.began q
    rw [length_append]
    omega
  refine ⟨?_, by simp [Host.write, Host.move], hbegan, .inr hlatest.symm, h.rotated, h.increasing,
    h.below⟩
  refine fits_update (s := s.write f) rfl ⟨hlock, ?_⟩ fun q hq => ?_
  · rintro g hg
    cases hg
    exact ⟨(s.held ++ [f]).length - 1, hbegan p, by simp [Host.write, Host.move]⟩
  · refine (h.fits q).others (.inl ?_) hgrow rfl
    rw [hlock]
    exact fun hpq => hq (Option.some.inj hpq).symm

theorem inv_act (h : Inv first s) (hact : act s p a = some t) (ha : a.authenticated = true) :
    Inv first t := by
  have hfits := h.fits p
  unfold act at hact
  split at hact
  case h_1 hphase =>
    cases hact
    exact h.command hphase
  case h_2 hphase =>
    cases hact
    refine h.move (by simp [hphase]) ?_
    cases hfile : s.file with
    | none => trivial
    | some f =>
      rw [Phase.found]
      split_ifs
      · exact h.seen hfile p
      · trivial
  case h_3 hphase =>
    cases hact
    refine h.move (by simp [hphase]) ?_
    split_ifs <;> trivial
  case h_4 hphase =>
    split_ifs at hact with hlock
    cases hact
    exact h.relock (by simp [hphase]) (.inl hlock) rfl
  case h_5 hphase =>
    cases hact
    rw [hphase] at hfits
    refine h.move (by simp [hphase]) ?_
    cases hfile : s.file with
    | none => exact ⟨hfits, by simp⟩
    | some f =>
      rw [Phase.foundLocked]
      split_ifs
      · refine ⟨hfits, ?_⟩
        rintro g hg
        cases hg
        exact h.seen hfile p
      · exact ⟨hfits, hfile⟩
  case h_6 => cases ha
  case h_7 hphase =>
    cases hact
    exact h.refreshed hphase rfl
  case h_8 hphase =>
    cases hact
    exact h.replace hphase
  case h_9 result hphase =>
    cases hact
    rw [hphase] at hfits
    refine h.relock (by simp [hphase]) (.inr hfits.1) ?_
    cases result with
    | none => trivial
    | some f => exact (hfits.2 f rfl).grow prefix_rfl rfl
  case h_10 => cases ha
  case h_14 => cases ha
  case h_18 => cases hact
  -- the phases of `login` and `logout` are not reached
  all_goals
    rename_i hphase
    rw [hphase] at hfits
    exact hfits.elim

theorem inv_quiet (file : Option SessionFile) :
    Inv (file.map SessionFile.serial) (quiet file) where
  fits _ := trivial
  stored := by cases file <;> rfl
  began _ := Nat.zero_le _
  current := .inr rfl
  rotated := historic_nil _
  increasing := Pairwise.nil
  below := by
    intro x hx
    cases file with
    | none => cases hx
    | some f =>
      cases hx
      exact ⟨le_refl _, by simp [quiet]⟩

end

/-- No refresh token is presented twice, each refresh presents the token that the one before
returned, and a session in use was in the file since its command started. The file holds the newest
grant, unless the process with the lock is about to write it. -/
theorem refresh_tokens_rotated {file : Option SessionFile} {as : List (Nat × Act)} {t : Host}
    (hacts : ∀ x ∈ as, x.2.authenticated = true) (h : exec step (quiet file) as = some t) :
    (t.refreshes.map Prod.fst).Nodup ∧
      Rotated (file.map SessionFile.serial) t.refreshes ∧
      (∀ p f retried, t.phase p = .calling f retried → Seen t p f) ∧
      t.file = t.held.getLast? ∧
      ((∃ p force g, t.phase p = .replacing force g ∧ t.lock = some p ∧
          latest (file.map SessionFile.serial) t.refreshes = some g.serial) ∨
        latest (file.map SessionFile.serial) t.refreshes = t.file.map SessionFile.serial) := by
  have hinv : Inv (file.map SessionFile.serial) t :=
    exec_induction_along (I := Inv _) (G := fun _ x => x.2.authenticated = true)
      (fun _ _ _ hstep hx hs => inv_act hs hstep hx) (along_of_forall (fun x hx _ => hacts x hx) _) h
      (inv_quiet file)
  refine ⟨hinv.increasing.imp ne_of_lt, hinv.rotated, ?_, hinv.stored, ?_⟩
  · intro p f retried hphase
    have hfits := hinv.fits p
    rw [hphase] at hfits
    exact hfits
  · rcases hinv.current with ⟨p, force, g, hphase⟩ | hcurrent
    · have hfits := hinv.fits p
      rw [hphase] at hfits
      exact .inl ⟨p, force, g, hphase, hfits⟩
    · exact .inr hcurrent.symm

def twoRefreshes : List (Nat × Act) :=
  [(1, .command), (0, .command), (0, .read 0), (0, .acquire), (0, .readLocked 0),
    (0, .refreshed (some 90)), (0, .replace), (1, .read 0), (0, .close), (1, .respond true),
    (1, .acquire), (1, .readLocked 0), (1, .refreshed (some 180)), (1, .replace), (1, .close)]

/-- Two processes refresh, one after the other. -/
theorem refresh_tokens_rotated_twice :
    ∃ t, exec step (quiet (some exampleSession)) twoRefreshes = some t ∧
      t.refreshes = [(1, some 2), (2, some 3)] ∧ (t.refreshes.map Prod.fst).Nodup ∧
      Rotated (some 1) t.refreshes := by
  obtain ⟨t, ht, hrefreshes⟩ : ∃ t, exec step (quiet (some exampleSession)) twoRefreshes = some t ∧
      t.refreshes = [(1, some 2), (2, some 3)] := by decide +kernel
  have hrotated := refresh_tokens_rotated (by decide) ht
  exact ⟨t, ht, hrefreshes, hrotated.1, hrotated.2.1⟩

end PowerManage.Cli
