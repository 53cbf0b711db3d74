import PowerManage.Remote.Destination
import PowerManage.Lib.Transition
import PowerManage.Lib.TreeEdit

/-!
# Recursive removal over whole histories

`Wipe` and the prunes remove whatever `canWipe` lets through.  Here is the machine they run in: the
file tree, the recorded destinations, and any sequence of successful fetches, wipes, prunes and
changes of the tree by others in between.

`canWipe` looks the cleaned path up among the recorded destinations *before* it resolves anything,
and returns at once when it is there.  So a recorded path is removed wherever its links point by
now: `wipe_through_link` is such a history.  `wipe_confined` says what the histories look like in
which no removal leaves its place.
-/

namespace PowerManage.Remote

open PathName FileTree Transition List

/-- What a removal takes: an entry with all below it, or only what is below a directory. -/
inductive Site
  | entry (loc : Path)
  | below (loc : Path)
deriving DecidableEq

def Site.loc : Site → Path
  | .entry loc | .below loc => loc

/-- Where `os.RemoveAll` goes for the name as given.  Trailing slashes do not count, except that a
final `.` is refused and `./` is not: then, as for `..`, the directory is emptied, through any link,
before its own removal fails. -/
def removalSite (t : Tree) (cwd : Path) (path : Str) : Option Site :=
  let start := if isAbs path then [] else cwd
  match ((components path).rdropWhile (· = [])).reverse with
  | [] => none
  | base :: dir =>
    if Proper base then
      match walk t kernelLinks 0 start dir.reverse with
      | .found q => some (.entry (q ++ [base]))
      | _ => none
    else if (components path).getLast? = some dot then none
    else
      match walk t kernelLinks 0 start (dir.reverse ++ [base]) with
      | .found q => some (.below q)
      | _ => none

/-- Where a prune goes.  `filepath.WalkDir` looks at its root with `Lstat`, which follows a link
only if the name ends in something else than a name, and joins what it finds to the cleaned root. -/
def pruneSite (t : Tree) (cwd : Path) (path : Str) : Option Site :=
  let full := if isAbs path then path else spell cwd ++ '/' :: path
  match lstat t full, stat t (cleanAbs full) with
  | some (.dir _), .found q => some (.below q)
  | _, _ => none

/-- The tree a removal leaves; `gone` are the entries it got to. -/
def removeAll (t : Tree) (site : Option Site) (gone : Path → Bool) : Tree :=
  match site with
  | none => t
  | some site => erase t site.loc fun q => site ≠ .below q && gone q

namespace Wipe

/-- What happened, for the promise about removals. -/
inductive Event
  /-- A fetch succeeded and recorded the destination under these keys. -/
  | fetched (dest : Str) (keys : Finset Path)
  /-- A wipe or prune got past `canWipe`; the tree is the one it found. -/
  | removal (path : Str) (tree : Tree) (site : Option Site)
  | forgot (keys : Finset Path)

/-- The tree, the recorded destinations, and what has happened. -/
structure State where
  tree : Tree
  recordedDests : Finset Path
  trace : List Event

def init (t : Tree) : State := ⟨t, ∅, []⟩

/-- What the sources do, and what others do to links. -/
inductive Action
  | relink (t : Tree)
  | fetch (dest : Str) (t : Tree)
  /-- `Wipe`; `gone` are the entries removed, all of them when the removal succeeds. -/
  | wipe (path : Str) (gone : Option (Path → Bool))
  /-- A prune below `path`. -/
  | prune (path : Str) (gone : Path → Bool)

def forgottenKeys (t : Tree) (path : Str) : Finset Path :=
  destKeys t (cleanAbs (trimSpace path)) path

/-- One action; `none` if it cannot happen now. -/
def step (cwd : Path) (s : State) : Action → Option State
  | .relink t => some { s with tree := t }
  | .fetch dest t =>
    match validateDestination s.tree dest with
    | .error _ => none
    | .ok _ =>
      some ⟨t, recordDest t s.recordedDests dest,
        s.trace ++ [.fetched dest (destKeys t (cleanAbs (trimSpace dest)) (trimSpace dest))]⟩
  | .wipe path gone =>
    match canWipe s.tree s.recordedDests path with
    | .error _ => some s
    | .ok _ =>
      let site := removalSite s.tree cwd path
      match gone with
      | some gone =>
        -- the removal failed on the way, and the record stays
        some { s with
          tree := removeAll s.tree site gone
          trace := s.trace ++ [.removal path s.tree site] }
      | none =>
        let t := removeAll s.tree site fun _ => true
        some ⟨t, forgetDest t s.recordedDests path,
          s.trace ++ [.removal path s.tree site] ++ [.forgot (forgottenKeys t path)]⟩
  | .prune path gone =>
    match canWipe s.tree s.recordedDests path with
    | .error _ => some s
    | .ok _ =>
      let site := pruneSite s.tree cwd path
      some { s with
        tree := removeAll s.tree site gone
        trace := s.trace ++ [.removal path s.tree site] }

/-! ## What `canWipe` has checked -/

variable {path : Str} {s : State}

section

variable {t : Tree} {cwd : Path}

theorem canWipe_abs {recordedDests : Finset Path} (h : canWipe t recordedDests path = .ok ()) :
    isAbs (trimSpace path) = true := by
  simp only [canWipe] at h
  split at h
  · cases h
  split at h
  · cases h
  · rename_i habs
    simpa using habs

theorem canWipe_eq_ok {recordedDests : Finset Path} (h : canWipe t recordedDests path = .ok ())
    (hm : isManagedRoot (cleanAbs (trimSpace path)) = false) :
    cleanAbs (trimSpace path) ∈ recordedDests ∨
      ∃ r, resolveAndValidatePath t (trimSpace path) = .ok r ∧
        isUnderProtectedPrefix r = false ∧ r ∈ recordedDests := by
  simp only [canWipe, hm] at h
  split at h
  · cases h
  split at h
  · cases h
  split at h
  · cases h
  rw [if_neg (by simp)] at h
  split at h
  · cases h
  split at h
  · rename_i hrec
    exact .inl hrec
  split at h
  · rename_i r hr
    split at h
    · cases h
    rename_i hun
    split at h
    · rename_i hrec
      exact .inr ⟨r, hr, by simpa using hun, hrec⟩
    · cases h
  · cases h
  · cases h

section

variable {pre : List Name} {base : Name} {r : Path} {site : Site} (habs : isAbs path = true)
  (hcs : components path = pre ++ [base]) (hbase : Proper base) (hdd : dotDot ∉ pre)
  (hr : resolveAndValidatePath t path = .ok r)

include habs hcs hbase hdd hr

theorem resolve_eq_removalSite (hsite : removalSite t cwd path = some site) : r = site.loc := by
  have hlast : (pre ++ [base]).rdropWhile (· = []) = pre ++ [base] :=
    rdropWhile_concat_neg _ _ _ (by simpa using hbase.1)
  simp only [removalSite, hcs, hlast, reverse_append, reverse_singleton, singleton_append, habs,
    if_true, if_pos hbase, reverse_reverse] at hsite
  split at hsite
  · rename_i q hq
    cases hsite
    refine resolve_eq_location (cleanAbs_eq hcs hbase hdd) hdd hr ?_
    rw [location, stat, hq]
    rfl
  · cases hsite

theorem resolve_eq_pruneSite (hsite : pruneSite t cwd path = some site) : r = site.loc := by
  have hclean := cleanAbs_eq hcs hbase hdd
  simp only [pruneSite, habs, if_true, hclean] at hsite
  split at hsite
  case h_2 => cases hsite
  rename_i w q hl hq
  cases hsite
  obtain ⟨q', hpre', hcase⟩ := stat_concat hbase hq
  simp only [lstat, hcs, getLast?_concat, if_pos hbase, dropLast_concat] at hl
  split at hl
  case h_2 => cases hl
  rename_i q'' hpre
  cases ((walk_named hdd).found_eq _ hpre).symm.trans hpre'
  refine resolve_eq_location hclean hdd hr ?_
  rw [location, hpre]
  -- the entry is a directory, so the walk has not followed it
  rcases hcase with rfl | ⟨target, hlink⟩
  · rfl
  · cases hl.symm.trans hlink

end

/-! ## The record -/

/-- The key was recorded by a fetch, and no wipe has forgotten it since. -/
def RecordedSince (tr : List Event) (k : Path) : Prop :=
  ∃ pre dest keys post, tr = pre ++ .fetched dest keys :: post ∧ k ∈ keys ∧
    ∀ ks, .forgot ks ∈ post → k ∉ ks

theorem RecordedSince.concat {tr : List Event} {k : Path} (h : RecordedSince tr k) {e : Event}
    (he : ∀ ks, e = .forgot ks → k ∉ ks) : RecordedSince (tr ++ [e]) k := by
  obtain ⟨pre, dest, keys, post, rfl, hk, hpost⟩ := h
  refine ⟨pre, dest, keys, post ++ [e], by simp, hk, fun ks hks => ?_⟩
  rcases mem_append.mp hks with hks | hks
  · exact hpost ks hks
  · exact he ks (mem_singleton.mp hks).symm

theorem recordedSince_fetched {tr : List Event} {dest : Str} {keys : Finset Path} {k : Path}
    (hk : k ∈ keys) : RecordedSince (tr ++ [.fetched dest keys]) k :=
  ⟨tr, dest, keys, [], rfl, hk, nofun⟩

theorem step_recorded {u : State} {a : Action}
    (hs : ∀ k ∈ s.recordedDests, RecordedSince s.trace k) (h : step cwd s a = some u) :
    ∀ k ∈ u.recordedDests, RecordedSince u.trace k := by
  cases a with
  | relink t' => cases h; exact hs
  | fetch dest t' =>
    simp only [step] at h
    split at h <;> cases h
    intro k hk
    simp only [recordDest] at hk
    split at hk
    · rcases Finset.mem_union.mp hk with hk | hk
      · exact (hs k hk).concat nofun
      · exact recordedSince_fetched hk
    · exact (hs k hk).concat nofun
  | wipe path gone =>
    simp only [step] at h
    split at h
    · cases h; exact hs
    rename_i hcan
    split at h <;> cases h
    · exact fun k hk => (hs k hk).concat nofun
    intro k hk
    simp only [forgetDest, canWipe_abs hcan, if_true, Finset.mem_sdiff] at hk
    refine ((hs k hk.1).concat (e := .removal path s.tree _) nofun).concat fun ks hks => ?_
    cases hks
    exact hk.2
  | prune path gone =>
    simp only [step] at h
    split at h <;> cases h
    · exact hs
    · exact fun k hk => (hs k hk).concat nofun

/-! ## Confinement -/

/-- What a removal reaches, through the links as they are, is not protected, and was recorded and not
forgotten. -/
def Sandboxed (tr : List Event) (path : Str) (t : Tree) (site : Option Site) : Prop :=
  isManagedRoot (cleanAbs (trimSpace path)) = false →
    (∀ x, site = some x →
      isProtectedPath x.loc = false ∧ isUnderProtectedPrefix x.loc = false) ∧
    ∃ k, (k = cleanAbs (trimSpace path) ∨ resolveAndValidatePath t (trimSpace path) = .ok k) ∧
      RecordedSince tr k

/-- Outside the managed roots the path is spelled as the check reads it, ends in a name and is no
top-level directory; if it is on record, it resolves, and not into a protected subtree. -/
def PlainRemoval (s : State) (path : Str) : Prop :=
  isManagedRoot (cleanAbs (trimSpace path)) = false →
    trimSpace path = path ∧
    (∃ pre base, components path = pre ++ [base] ∧ Proper base ∧ dotDot ∉ pre) ∧
    (∀ r, resolveAndValidatePath s.tree path = .ok r → isProtectedPath r = false) ∧
    (cleanAbs path ∈ s.recordedDests →
      ∃ r, resolveAndValidatePath s.tree path = .ok r ∧ isUnderProtectedPrefix r = false)

def Plain (s : State) : Action → Prop
  | .wipe path _ | .prune path _ => PlainRemoval s path
  | _ => True

theorem sandboxed_of_canWipe (hrec : ∀ k ∈ s.recordedDests, RecordedSince s.trace k)
    (hplain : PlainRemoval s path) (hcan : canWipe s.tree s.recordedDests path = .ok ())
    {site : Option Site}
    (hsite : site = removalSite s.tree cwd path ∨ site = pruneSite s.tree cwd path) :
    Sandboxed s.trace path s.tree site := by
  intro hm
  obtain ⟨htrim, ⟨pre, base, hcs, hbase, hdd⟩, htop, hstop⟩ := hplain hm
  have habs := canWipe_abs hcan
  have hcase := canWipe_eq_ok hcan hm
  rw [htrim] at habs hcase ⊢
  obtain ⟨r, hr, hun⟩ : ∃ r, resolveAndValidatePath s.tree path = .ok r ∧
      isUnderProtectedPrefix r = false := by
    rcases hcase with hclean | ⟨r, hr, hun, -⟩
    · exact hstop hclean
    · exact ⟨r, hr, hun⟩
  refine ⟨fun x hx => ?_, ?_⟩
  · have hloc : r = x.loc := by
      rcases hsite with rfl | rfl
      · exact resolve_eq_removalSite habs hcs hbase hdd hr hx
      · exact resolve_eq_pruneSite habs hcs hbase hdd hr hx
    rw [← hloc]
    exact ⟨htop r hr, hun⟩
  · rcases hcase with hclean | ⟨k, hk, -, hin⟩
    · exact ⟨_, .inl rfl, hrec _ hclean⟩
    · exact ⟨k, .inr hk, hrec k hin⟩

/-- What the trace of a history says about each removal in it. -/
def RemovalsSandboxed : List Event → Prop :=
  Historic fun pre e => ∀ path t site, e = .removal path t site → Sandboxed pre path t site

theorem step_sandboxed {u : State} {a : Action}
    (hrec : ∀ k ∈ s.recordedDests, RecordedSince s.trace k) (hplain : Plain s a)
    (hs : RemovalsSandboxed s.trace) (h : step cwd s a = some u) :
    RemovalsSandboxed u.trace := by
  have hremoval : ∀ path, PlainRemoval s path → canWipe s.tree s.recordedDests path = .ok () →
      ∀ site, site = removalSite s.tree cwd path ∨ site = pruneSite s.tree cwd path →
      RemovalsSandboxed (s.trace ++ [.removal path s.tree site]) := by
    intro path hp hcan site hsite
    refine historic_concat.mpr ⟨hs, fun path' t' site' he => ?_⟩
    cases he
    exact sandboxed_of_canWipe hrec hp hcan hsite
  cases a with
  | relink t' => cases h; exact hs
  | fetch dest t' =>
    simp only [step] at h
    split at h <;> cases h
    exact historic_concat.mpr ⟨hs, nofun⟩
  | wipe path gone =>
    simp only [step] at h
    split at h
    · cases h; exact hs
    rename_i hcan
    split at h <;> cases h
    · exact hremoval path hplain hcan _ (.inl rfl)
    · exact historic_concat.mpr ⟨hremoval path hplain hcan _ (.inl rfl), nofun⟩
  | prune path gone =>
    simp only [step] at h
    split at h <;> cases h
    · exact hs
    · rename_i hcan
      exact hremoval path hplain hcan _ (.inr rfl)

/-- **Recursive removal stays in its sandbox.** In every history whose removals outside the managed
roots are plain, each reaches an entry that is not protected, under a path that a fetch recorded and
no wipe has forgotten since. -/
theorem wipe_confined (cwd : Path) (t : Tree) (as : List Action) (s : State)
    (hplain : Along (step cwd) Plain (init t) as) (h : exec (step cwd) (init t) as = some s) :
    ∀ pre path t' site post, s.trace = pre ++ .removal path t' site :: post →
      Sandboxed pre path t' site := by
  have hinv : (∀ k ∈ s.recordedDests, RecordedSince s.trace k) ∧ RemovalsSandboxed s.trace := by
    refine exec_induction_along
      (I := fun s => (∀ k ∈ s.recordedDests, RecordedSince s.trace k) ∧
        RemovalsSandboxed s.trace) ?_ hplain h ⟨nofun, historic_nil _⟩
    rintro s a u hsu hg ⟨hrec, hsand⟩
    exact ⟨step_recorded hrec hsu, step_sandboxed hrec hg hsand hsu⟩
  intro pre path t' site post htr
  exact hinv.2 pre _ post htr path t' site rfl

end

def plainTree : Tree := treeOf [("/", .dir true), ("/srv", .dir true), ("/srv/app", .dir true)]

def linkedTree : Tree :=
  treeOf [("/", .dir true), ("/etc", .dir true), ("/srv", .dir true),
    ("/srv/app", .link "/etc")]

def srvRun : List Action :=
  [.fetch "/srv/app/x" plainTree, .wipe "/srv/app/x" none]

theorem srvRun_plain : Along (step []) Plain (init plainTree) srvRun := by
  have hfetch : validateDestination plainTree "/srv/app/x" = .ok () := by decide +kernel
  have hresolve : resolveAndValidatePath plainTree "/srv/app/x" =
      .ok (cleanAbs "/srv/app/x") := by decide +kernel
  refine ⟨trivial, fun u hu => ⟨fun _ => ?_, fun _ _ => trivial⟩⟩
  have htree : u.tree = plainTree := by
    simp only [step, init, hfetch, Option.some.injEq] at hu
    rw [← hu]
  refine ⟨by decide +kernel, ⟨components "/srv/app", "x", by decide +kernel⟩, fun r hr => ?_,
    fun _ => ?_⟩
  · rw [htree, hresolve] at hr
    cases hr
    decide +kernel
  · exact ⟨_, htree ▸ hresolve, by decide +kernel⟩

/-- A fetch and its wipe. -/
theorem wipe_confined_srv :
    ∃ s, exec (step []) (init plainTree) srvRun = some s ∧ s.trace.length = 3 ∧
      ∀ pre path t' site post, s.trace = pre ++ .removal path t' site :: post →
        Sandboxed pre path t' site := by
  obtain ⟨s, hs, hlen⟩ : ∃ s, exec (step []) (init plainTree) srvRun = some s ∧
      s.trace.length = 3 := by decide +kernel
  exact ⟨s, hs, hlen, wipe_confined [] plainTree srvRun s srvRun_plain hs⟩

/-- `canWipe` lets a recorded path through without resolving it: here the removal goes to
`/etc/x`. -/
theorem wipe_through_link :
    (exec (step []) (init plainTree) [.fetch "/srv/app/x" plainTree, .relink linkedTree,
        .wipe "/srv/app/x" none]).map
      (fun s => s.trace.any fun e => match e with
        | .removal path _ site =>
          isManagedRoot (cleanAbs (trimSpace path)) = false ∧
            site = some (.entry (cleanAbs "/etc/x")) ∧
            isUnderProtectedPrefix (cleanAbs "/etc/x") = true
        | _ => false) = some true := by
  decide +kernel

end Wipe
end PowerManage.Remote
