import PowerManage.Remote.Paths

/-!
# What `validateDestination` promises

`ResolveAndValidatePath` stats its way up to the first parent that exists, resolves that, and puts
the missing components and the leaf back.  `resolve_eq_location` says that this is where the kernel
puts the leaf when the missing directories are created on the way — for a name without `..`, since
lexical cleaning takes `link/..` for nothing.

From that, `validateDestination_sound`: a name that is accepted, and that is spelled the way the
check reads it, does not lead into a protected subtree, unless it was accepted lexically as a
managed root.
-/

namespace PowerManage.Remote

open PathName FileTree List

/-- Where the kernel finds, or creates, the entry `base` of `pre` once missing directories are made;
through no dangling link. -/
def location (t : Tree) (pre : List Name) (base : Name) : Option Path :=
  match stat t pre with
  | .found q => some (q ++ [base])
  | .gap q rest false => some (q ++ named rest ++ [base])
  | _ => none

variable {path : Str} {pre : List Name} {base : Name}

section

variable {t : Tree}

/-! ## `ResolveAndValidatePath` -/

theorem existingParent_spec {dir tail parent missingTail : List Name}
    (h : existingParent t dir tail = .ok (parent, missingTail)) :
    ∃ ms, dir.reverse = parent ++ ms ∧ missingTail = ms ++ tail ∧
      (parent = [] ∨ ∃ q, stat t parent = .found q) ∧
      ∀ m ms', ms = m :: ms' → ∃ q r l, stat t (parent ++ [m]) = .gap q r l := by
  induction dir generalizing tail with
  | nil =>
    cases h
    exact ⟨[], rfl, rfl, .inl rfl, nofun⟩
  | cons c dir ih =>
    rw [existingParent] at h
    cases hs : stat t (c :: dir).reverse with
    | found q =>
      rw [hs] at h
      cases h
      exact ⟨[], (append_nil _).symm, rfl, .inr ⟨q, hs⟩, nofun⟩
    | gap q r l =>
      rw [hs] at h
      obtain ⟨ms, hdir, htail, hparent, hgap⟩ := ih h
      refine ⟨ms ++ [c], ?_, ?_, hparent, fun m ms' hms => ?_⟩
      · rw [reverse_cons, hdir, append_assoc]
      · rw [htail, append_assoc, singleton_append]
      · cases ms with
        | nil =>
          cases hms
          rw [reverse_cons, hdir, append_nil] at hs
          exact ⟨q, r, l, hs⟩
        | cons m' ms'' =>
          cases hms
          exact hgap m ms'' rfl
    | fail e => rw [hs] at h; cases h

theorem cleanAbs_eq_named (hdd : dotDot ∉ components path) :
    cleanAbs path = named (components path) := by
  rw [cleanAbs, foldl_push_of_noDotDot hdd]
  rfl

theorem named_append (cs ds : List Name) : named (cs ++ ds) = named cs ++ named ds :=
  filter_append ..

theorem cleanAbs_eq (hcs : components path = pre ++ [base]) (hbase : Proper base)
    (hdd : dotDot ∉ pre) : cleanAbs path = named pre ++ [base] := by
  have hall : dotDot ∉ components path := by
    rw [hcs, mem_append, mem_singleton, not_or]
    exact ⟨hdd, fun h => hbase.2.2 h.symm⟩
  rw [cleanAbs_eq_named hall, hcs, named_append, named_cons hbase]
  rfl

theorem resolve_eq_location {r loc : Path} (hclean : cleanAbs path = named pre ++ [base])
    (hdd : dotDot ∉ pre) (hr : resolveAndValidatePath t path = .ok r)
    (hloc : location t pre base = some loc) : r = loc := by
  rw [resolveAndValidatePath, hclean, dropLast_concat, getLast?_concat] at hr
  split at hr
  case isFalse => cases hr
  case isTrue habs =>
    split at hr
    case h_1 => cases hr
    case h_2 parent missingTail hparent =>
      obtain ⟨ms, hdir, rfl, hex, hgap⟩ := existingParent_spec hparent
      rw [reverse_reverse] at hdir
      rw [append_nil] at hr
      -- the parent is found, by the kernel and by `EvalSymlinks`
      obtain ⟨q, hq⟩ : ∃ q, stat t parent = .found q := by
        rcases hex with rfl | hq
        · exact ⟨[], walk_nil ..⟩
        · exact hq
      rw [evalSymlinks, walk_mono (by decide) hq] at hr
      cases hr
      have hsame : SameWalk (stat t pre) (stat t (named pre)) := walk_named hdd
      rw [hdir] at hsame
      rw [location] at hloc
      cases ms with
      | nil =>
        -- nothing is missing, so the kernel finds the parent too
        rw [append_nil] at hsame ⊢
        split at hloc
        case h_1 q' hs =>
          cases hloc
          have := (hsame.found_eq _ hs).symm.trans hq
          cases this
          rfl
        case h_2 q' rest hs =>
          have := (hsame.gap_eq _ _ hs).symm.trans hq
          cases this
        case h_3 => cases hloc
      | cons m ms =>
        obtain ⟨q', r, l, hm⟩ := hgap m ms rfl
        have hfull : stat t (parent ++ m :: ms) = .gap q' (r ++ ms) l := by
          rw [← singleton_append, ← append_assoc]
          exact walk_append_gap ms hm
        split at hloc
        case h_1 q'' hs =>
          have := (hsame.found_eq _ hs).symm.trans hfull
          cases this
        case h_2 q'' rest hs =>
          cases hloc
          have hgapeq := (hsame.gap_eq _ _ hs).symm.trans hfull
          simp only [Walked.gap.injEq] at hgapeq
          obtain ⟨rfl, hrest, rfl⟩ := hgapeq
          obtain ⟨rfl, rfl⟩ := walk_concat_gap hq hm
          rw [hrest]
          simp
        case h_3 => cases hloc

/-! ## Following the leaf -/

theorem look_go {cur p : Path} {c : Name} (hc : Proper c) (h : look t cur c = .go p) :
    p = cur ++ [c] := by
  unfold look at h
  split at h
  · rw [if_neg hc.1] at h
    split at h
    · cases h
    · rw [if_neg hc.2.1, if_neg hc.2.2] at h
      split at h <;> cases h
      rfl
  · cases h

theorem look_follow {cur : Path} {c : Name} {target : Str}
    (h : look t cur c = .follow target) : t (cur ++ [c]) = some (.link target) := by
  unfold look at h
  split at h
  · split at h
    · cases h
    · split at h
      · cases h
      · split at h
        · cases h
        · split at h
          · cases h
          · split at h <;> cases h
            assumption
  · cases h

theorem stat_concat {q : Path} (hbase : Proper base) (h : stat t (pre ++ [base]) = .found q) :
    ∃ q', stat t pre = .found q' ∧ (q = q' ++ [base] ∨ ∃ target,
      t (q' ++ [base]) = some (.link target)) := by
  cases hpre : stat t pre with
  | gap q' r l =>
    rw [stat, walk_append_gap [base] hpre] at h
    cases h
  | fail e =>
    rw [stat, walk_append_fail [base] hpre] at h
    cases h
  | found q' =>
    refine ⟨q', rfl, ?_⟩
    obtain ⟨b, hb⟩ := walk_append_found hpre
    rw [stat, hb] at h
    cases hl : look t q' base with
    | go p =>
      rw [walk_go hl, walk_nil] at h
      cases h
      exact .inl (look_go hbase hl)
    | missing => rw [walk_missing hl] at h; cases h
    | follow target => exact .inr ⟨target, look_follow hl⟩
    | stop e => rw [walk_stop hl] at h; cases h

/-! ## `validateDestination` -/

theorem validateDestination_eq_ok (h : validateDestination t path = .ok ())
    (hm : isManagedRoot (cleanAbs (trimSpace path)) = false) :
    ∃ resolved, resolveAndValidatePath t (trimSpace path) = .ok resolved ∧
      isUnderProtectedPrefix resolved = false ∧
      ∀ target q, lstat t (trimSpace path) = some (.link target) →
        evalSymlinks t (components (trimSpace path)) = .found q →
        isUnderProtectedPrefix q = false := by
  simp only [validateDestination, hm] at h
  split at h
  · cases h
  split at h
  · cases h
  split at h
  · cases h
  rw [if_neg (by simp)] at h
  split at h
  · cases h
  split at h
  · cases h
  rename_i resolved hres
  split at h
  · cases h
  rename_i hun
  refine ⟨resolved, hres, by simpa using hun, fun target q hl he => ?_⟩
  rw [hl, he] at h
  simp only at h
  split at h
  · cases h
  · rename_i hq
    simpa using hq

/-- **Accepted destinations stay out of the protected subtrees.** An accepted name is lexically at
or under a managed root; or, spelled without white space around it, without `..` and with a name at
its end, neither the entry the kernel finds or creates nor what it leads to is at or under a
protected prefix. -/
theorem validateDestination_sound (t : Tree) (path : Str)
    (h : validateDestination t path = .ok ()) :
    isManagedRoot (cleanAbs (trimSpace path)) = true ∨
      ∀ pre base, trimSpace path = path → components path = pre ++ [base] → Proper base →
        dotDot ∉ pre →
        (∀ loc, location t pre base = some loc → isUnderProtectedPrefix loc = false) ∧
        (∀ q, stat t (components path) = .found q → isUnderProtectedPrefix q = false) := by
  cases hm : isManagedRoot (cleanAbs (trimSpace path)) with
  | true => exact .inl rfl
  | false =>
    right
    intro pre base htrim hcs hbase hdd
    obtain ⟨resolved, hres, hun, hleaf⟩ := validateDestination_eq_ok h hm
    rw [htrim] at hres hleaf
    have hnofollow : ∀ loc, location t pre base = some loc →
        isUnderProtectedPrefix loc = false := by
      intro loc hloc
      rw [← resolve_eq_location (cleanAbs_eq hcs hbase hdd) hdd hres hloc]
      exact hun
    refine ⟨hnofollow, fun q hq => ?_⟩
    rw [hcs] at hq
    obtain ⟨q', hpre, hcase⟩ := stat_concat hbase hq
    rcases hcase with rfl | ⟨target, hlink⟩
    · exact hnofollow _ (by rw [location, hpre])
    refine hleaf target q ?_ ?_
    · simp only [lstat, hcs, getLast?_concat, if_pos hbase, dropLast_concat, hpre,
        hlink]
    · rw [hcs]
      exact walk_mono (by decide) hq

end

/-- `/srv/app` is a link, to a place that is not protected. -/
def movedTree : Tree :=
  treeOf [("/", .dir true), ("/srv", .dir true), ("/srv/app", .link "/data/app"),
    ("/data", .dir true), ("/data/app", .dir true)]

/-- A destination behind a link. -/
theorem validateDestination_sound_srv :
    validateDestination movedTree "/srv/app/x" = .ok () ∧
      location movedTree (components "/srv/app") "x" = some (cleanAbs "/data/app/x") ∧
      (isManagedRoot (cleanAbs (trimSpace "/srv/app/x")) = true ∨
        ∀ pre base, trimSpace "/srv/app/x" = "/srv/app/x" →
          components "/srv/app/x" = pre ++ [base] → Proper base → dotDot ∉ pre →
          (∀ loc, location movedTree pre base = some loc → isUnderProtectedPrefix loc = false) ∧
          (∀ q, stat movedTree (components "/srv/app/x") = .found q →
            isUnderProtectedPrefix q = false)) :=
  ⟨by decide +kernel, by decide +kernel, validateDestination_sound _ _ (by decide +kernel)⟩

/-- A managed root is accepted lexically: a link in its place leads to where it points.  And a
top-level directory that only `IsProtectedPath` knows is accepted as well. -/
theorem validateDestination_lexical :
    (let t := treeOf [("/", .dir true), ("/etc", .dir true), ("/etc/cron.d", .dir true),
      ("/etc/power-manage", .link "/etc/cron.d")]
    validateDestination t "/etc/power-manage/x" = .ok () ∧
      location t (components "/etc/power-manage") "x" =
        some (cleanAbs "/etc/cron.d/x") ∧
      isManagedRoot (cleanAbs "/etc/cron.d/x") = false ∧
      isUnderProtectedPrefix (cleanAbs "/etc/cron.d/x") = true) ∧
    (let t := treeOf [("/", .dir true), ("/opt", .dir true)]
    validateDestination t "/opt" = .ok () ∧
      location t (components "/") "opt" = some (cleanAbs "/opt") ∧
      isManagedRoot (cleanAbs "/opt") = false ∧
      isProtectedPath (cleanAbs "/opt") = true) := by
  decide +kernel

end PowerManage.Remote
