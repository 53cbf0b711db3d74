import PowerManage.Remote.Staging

/-!
# What a failed archive leaves behind

A fetch of an archive goes through a few kinds of states, and each call leads from one to another:

* `Clean` — nothing has been done but to make directories on the way to the temporary names;
* `Streaming`, `Downloaded` — the temporary file is there besides, open or not;
* `Staged`, `Unpacking` — the staging directory is there too, empty or with anything below it.

Every return before the swap is from one of them, through the clean-ups that lead back to `Clean`
(`triple_fetchArchive`).  What is left then is a matter of where those directories are.  Without a
slash at the end of the destination they are all above it, and in the last of them there is nothing;
with it the last of them is the destination.
-/

namespace PowerManage.Remote.Staging

open PathName FileTree Text Interaction Prog List Function Option
open Confinement (SysCall PathArg Host Ground ModeDecoders Extracted follow extractor chunks
  writeChunks mkdirAllRev isDirNode)

/-! ## Making directories -/

/-- The path leads somewhere. -/
def Exists (t : Tree) (p : List Name) : Prop := ∃ q, follow [] t ⟨true, p⟩ = .found q

/-- There is an entry of this name, which may be a dangling link. -/
def Present (t : Tree) (p : List Name) : Prop :=
  ∀ pre c, p = pre ++ [c] → ∃ q, follow [] t ⟨true, pre⟩ = .found q ∧ t (q ++ [c]) ≠ none

/-- What making the directories down to `p` may leave: new ones on the way, with nothing in the
last. -/
structure Prepared (t u : Tree) (p : List Name) : Prop where
  grows : ∀ q n, t q = some n → u q = some n
  closed : Closed u
  made : ∀ q, u q ≠ t q → u q = some (.dir true) ∧
    ∃ pre, pre <+: p ∧ ¬Exists t pre ∧ follow [] u ⟨true, pre⟩ = .found q
  bare : u = t ∨
    (¬Exists t p ∧ ∀ q, follow [] u ⟨true, p⟩ = .found q → ∀ c, u (q ++ [c]) = none)

variable {k k' : Disk} {m m' : Machine}

section

variable {t u : Tree} {p : List Name} {c : Name} {q : Path} {mode : Nat}

theorem grows_put {n : Node} (hnone : u q = none) :
    ∀ r m, u r = some m → put u q n r = some m := by
  intro r m hr
  have hne : r ≠ q := by
    rintro rfl
    rw [hnone] at hr
    cases hr
  exact (update_of_ne hne _ _).trans hr

theorem Exists.of_append {r : List Name} (h : Exists t (p ++ r)) : Exists t p := by
  obtain ⟨q, hq⟩ := h
  exact exists_found_of_append hq

theorem Exists.grow (h : Exists t p) (hgrows : ∀ q n, t q = some n → u q = some n) : Exists u p := by
  obtain ⟨q, hq⟩ := h
  exact ⟨q, walk_found_of_extends hgrows hq⟩

theorem Exists.present (h : Exists t p) (hp : ∀ c ∈ p, Proper c) : Present t p := by
  rintro pre c rfl
  obtain ⟨r, hr⟩ := h
  obtain ⟨q, hq⟩ := exists_found_of_append hr
  exact ⟨q, hq, ne_none_of_found_concat hq hr (hp c (by simp))⟩

theorem follow_put (hc : Proper c) (hq : follow [] u ⟨true, p⟩ = .found q)
    (hdir : u q = some (.dir true)) (hnone : u (q ++ [c]) = none) :
    follow [] (put u (q ++ [c]) (.dir true)) ⟨true, p ++ [c]⟩ = .found (q ++ [c]) :=
  walk_concat_found (walk_found_of_extends (grows_put hnone) hq)
    (look_entry (grows_put hnone _ _ hdir) hc (update_self ..) (by simp))

theorem Prepared.refl (hclosed : Closed t) : Prepared t t p where
  grows _ _ h := h
  closed := hclosed
  made _ h := absurd rfl h
  bare := .inl rfl

theorem Prepared.concat (h : Prepared t u p) (hc : Proper c) : Prepared t u (p ++ [c]) where
  grows := h.grows
  closed := h.closed
  made q hq := by
    obtain ⟨hdir, pre, hpre, hrest⟩ := h.made q hq
    exact ⟨hdir, pre, hpre.trans (prefix_append _ _), hrest⟩
  bare := by
    refine h.bare.imp_right fun ⟨hnew, hbare⟩ => ⟨fun hex => hnew hex.of_append, fun q hq => ?_⟩
    obtain ⟨b, hb⟩ := exists_found_of_append hq
    exact absurd (hbare b hb c) (ne_none_of_found_concat hb hq hc)

theorem Prepared.eq_or_not_exists (h : Prepared t u p) (hc : Proper c) :
    u = t ∨ ¬Exists u (p ++ [c]) := by
  refine h.bare.imp_right fun ⟨_, hbare⟩ ⟨r, hr⟩ => ?_
  obtain ⟨q, hq⟩ := exists_found_of_append hr
  exact ne_none_of_found_concat hq hr hc (hbare q hq c)

theorem Prepared.put (h : Prepared t u p) (hc : Proper c)
    (hq : follow [] u ⟨true, p⟩ = .found q) (hdir : u q = some (.dir true))
    (hnone : u (q ++ [c]) = none) :
    Prepared t (put u (q ++ [c]) (.dir true)) (p ++ [c]) := by
  have hgrows := grows_put (n := .dir true) hnone
  have hfound := follow_put hc hq hdir hnone
  have hnew : ¬Exists t (p ++ [c]) := by
    intro hex
    obtain ⟨r, hr⟩ := hex.grow h.grows
    exact ne_none_of_found_concat hq hr hc hnone
  refine ⟨fun r n hr => hgrows r n (h.grows r n hr), h.closed.put hdir hnone, ?_, .inr ⟨hnew, ?_⟩⟩
  · intro r hr
    by_cases heq : r = q ++ [c]
    · subst heq
      exact ⟨update_self .., p ++ [c], prefix_rfl, hnew, hfound⟩
    rw [FileTree.put, update_of_ne heq] at hr
    obtain ⟨hd, pre, hpre, hnot, hf⟩ := h.made r hr
    exact ⟨(update_of_ne heq _ _).trans hd, pre, hpre.trans (prefix_append _ _), hnot,
      walk_found_of_extends hgrows hf⟩
  · intro r hr c'
    rw [hfound] at hr
    cases hr
    have hself : q ++ [c] ++ [c'] ≠ q ++ [c] := by simp
    rw [FileTree.put, update_of_ne hself, h.closed.none_below hnone]

theorem sysStep_cases {q : SysCall} {x : Confinement.Reply q} (hq : ∀ data, q ≠ .write data)
    (hstep : SysStep k q x k') :
    (∃ h, k.host.answer [] q = some (x, h) ∧ k' = .of h) ∨
      (x = Confinement.failed () q ∧ k' = k) := by
  rcases hstep with hreal | ⟨hx, hsame | ⟨data, part, hwrite, -⟩⟩
  · exact .inl hreal
  · exact .inr ⟨hx, hsame⟩
  · exact absurd hwrite (hq data)

theorem sysStep_stat {a : PathArg} {x : Option Bool} (hstep : SysStep k (.stat a) x k') :
    k' = k ∧ ∀ isDir, x = some isDir → ∃ q, follow [] k.tree a = .found q := by
  rcases sysStep_cases (by simp) hstep with ⟨h, hreal, rfl⟩ | ⟨rfl, rfl⟩
  · simp only [Host.answer] at hreal
    split at hreal
    · rename_i q hq
      cases hreal
      exact ⟨rfl, fun isDir hx => ⟨q, hq⟩⟩
    · cases hreal
      exact ⟨rfl, fun isDir hx => by cases hx⟩
  · exact ⟨rfl, fun isDir h => by cases h⟩

theorem sysStep_lstat {x : Option Bool} (hstep : SysStep k (.lstat ⟨true, p ++ [c]⟩) x k') :
    k' = k ∧ ∀ isDir, x = some isDir →
      ∃ q, follow [] k.tree ⟨true, p⟩ = .found q ∧ k.tree (q ++ [c]) ≠ none := by
  rcases sysStep_cases (by simp) hstep with ⟨h, hreal, rfl⟩ | ⟨rfl, rfl⟩
  · cases hreal
    refine ⟨rfl, fun isDir hx => ?_⟩
    unfold Host.lstat at hx
    rw [getLast?_concat] at hx
    simp only [PathArg.dir, dropLast_concat] at hx
    split at hx
    · rename_i q hq
      obtain ⟨n, hn, -⟩ := map_eq_some_iff.mp hx
      exact ⟨q, hq, by rw [show k.tree (q ++ [c]) = some n from hn]; simp⟩
    · cases hx
  · exact ⟨rfl, fun isDir h => by cases h⟩

theorem sysStep_mkdir {x : Bool} (hc : Proper c)
    (hstep : SysStep k (.mkdir ⟨true, p ++ [c]⟩ mode) x k') :
    (x = false ∧ k' = k) ∨
      (x = true ∧ ∃ q, follow [] k.tree ⟨true, p⟩ = .found q ∧ k.tree q = some (.dir true) ∧
        k.tree (q ++ [c]) = none ∧
        k' = ⟨put k.tree (q ++ [c]) (.dir true), k.current⟩) := by
  rcases sysStep_cases (by simp) hstep with ⟨h, hreal, rfl⟩ | ⟨rfl, rfl⟩
  · have hreal : k.host.mkdir [] ⟨true, p ++ [c]⟩ mode = (x, h) := some.inj hreal
    unfold Host.mkdir at hreal
    rw [getLast?_concat] at hreal
    simp only [PathArg.dir, dropLast_concat, if_neg (not_not.mpr hc)] at hreal
    split at hreal
    · rename_i q hq
      split at hreal
      · rename_i hdir
        split at hreal
        · rename_i hnone
          cases hreal
          exact .inr ⟨rfl, q, hq, hdir, hnone, rfl⟩
        · cases hreal
          exact .inl ⟨rfl, rfl⟩
      · cases hreal
        exact .inl ⟨rfl, rfl⟩
    · cases hreal
      exact .inl ⟨rfl, rfl⟩
  · exact .inl ⟨rfl, rfl⟩

/-- What making the directories down to `p` has done. -/
structure Made (k₀ k : Disk) (p : List Name) (ok : Bool) : Prop where
  prepared : Prepared k₀.tree k.tree p
  present : ok = true → Present k.tree p
  absent : ok = false → k.tree = k₀.tree ∨ ¬Exists k.tree p
  current : k.current = k₀.current

/-- **`os.MkdirAll`, on a tree of entries in directories**: whatever fails on the way, what it leaves
is as `Prepared` says; if it succeeds there is an entry at the end, and if it fails there is not,
unless there was one before. -/
theorem triple_mkdirAllRev {k₀ : Disk} (hclosed : Closed k₀.tree) {rev : List Name}
    (hrev : ∀ c ∈ rev, Proper c) :
    Triple SysStep (· = k₀) (mkdirAllRev true mode rev) fun ok k => Made k₀ k rev.reverse ok := by
  induction rev with
  | nil =>
    refine Triple.ask (fun _ => (· = k₀)) ?_ fun x => ?_
    · rintro k x k' rfl hstep
      exact (sysStep_stat hstep).1
    · have hend : ∀ ok, Made k₀ k₀ [] ok := fun ok =>
        ⟨.refl hclosed, fun _ pre c hnil => absurd hnil (by simp), fun _ => .inl rfl, rfl⟩
      cases x with
      | none => exact Triple.ret fun k hk => hk ▸ hend _
      | some isDir => exact Triple.ret fun k hk => hk ▸ hend _
  | cons c parents ih =>
    obtain ⟨hc, hparents⟩ := forall_mem_cons.mp hrev
    have hproper : ∀ c' ∈ parents.reverse ++ [c], Proper c' := by
      intro c' hc'
      exact hrev c' (mem_reverse.mp (by rwa [reverse_cons]))
    rw [mkdirAllRev, reverse_cons]
    refine Triple.ask (fun (x : Option Bool) k => k = k₀ ∧ ∀ isDir, x = some isDir →
      Exists k₀.tree (parents.reverse ++ [c])) ?_ fun x => ?_
    · rintro k x k' rfl hstep
      exact sysStep_stat hstep
    cases x with
    | some isDir =>
      refine Triple.ret ?_
      rintro k ⟨rfl, hstat⟩
      exact ⟨.refl hclosed, fun _ => (hstat _ rfl).present hproper, fun _ => .inl rfl, rfl⟩
    | none =>
      refine Triple.bind ((ih hparents).imp (fun k hk => hk.1) fun _ _ hr => hr) fun ok => ?_
      cases ok with
      | false =>
        refine Triple.ret fun k hmade => ⟨hmade.prepared.concat hc, by simp, fun _ => ?_, hmade.current⟩
        exact (hmade.absent rfl).imp_right fun hnot hex => hnot hex.of_append
      | true =>
        refine Triple.ask (fun (made : Bool) k => Made k₀ k (parents.reverse ++ [c]) made) ?_
          fun made => ?_
        · intro k x k' hmade hstep
          rcases sysStep_mkdir hc hstep with ⟨rfl, rfl⟩ | ⟨rfl, q, hq, hdir, hnone, rfl⟩
          · exact ⟨hmade.prepared.concat hc, by simp, fun _ => hmade.prepared.eq_or_not_exists hc,
              hmade.current⟩
          have hexists : Exists (put k.tree (q ++ [c]) (.dir true)) (parents.reverse ++ [c]) :=
            ⟨_, follow_put hc hq hdir hnone⟩
          exact ⟨hmade.prepared.put hc hq hdir hnone, fun _ => hexists.present hproper, by simp,
            hmade.current⟩
        cases made with
        | true => exact Triple.ret fun k hk => hk
        | false =>
          refine Triple.ask (fun (x : Option Bool) k =>
            Made k₀ k (parents.reverse ++ [c]) false ∧ ∀ isDir, x = some isDir →
              ∃ q, follow [] k.tree ⟨true, parents.reverse⟩ = .found q ∧ k.tree (q ++ [c]) ≠ none)
            ?_ fun x => ?_
          · intro k x k' hmade hstep
            obtain ⟨rfl, hlstat⟩ := sysStep_lstat hstep
            exact ⟨hmade, hlstat⟩
          cases x with
          | none => exact Triple.ret fun k hk => hk.1
          | some isDir =>
            refine Triple.ret ?_
            rintro k ⟨hmade, hlstat⟩
            refine ⟨hmade.prepared, fun _ pre c' heq => ?_, fun _ => hmade.absent rfl, hmade.current⟩
            obtain ⟨rfl, hlast⟩ := append_inj' heq rfl
            obtain rfl := (cons.inj hlast).1
            exact hlstat _ rfl

theorem Prepared.eq_or_put (h : Prepared t u (p ++ [c])) (hc : Proper c)
    (hq : follow [] t ⟨true, p⟩ = .found q) (hdir : t q = some (.dir true))
    (hnone : t (q ++ [c]) = none) : u = t ∨ u = FileTree.put t (q ++ [c]) (.dir true) := by
  have hfound : ∀ r, u r ≠ t r → follow [] u ⟨true, p ++ [c]⟩ = .found r := by
    intro r hr
    obtain ⟨-, pre, hpre, hnew, hfollow⟩ := h.made r hr
    rcases prefix_concat_iff.mp hpre with rfl | ⟨rest, rfl⟩
    · exact hfollow
    · exact absurd (Exists.of_append ⟨q, hq⟩) hnew
  by_cases heq : u = t
  · exact .inl heq
  right
  obtain ⟨r, hr⟩ := ne_iff.mp heq
  have hentry : u (q ++ [c]) = some (.dir true) := by
    refine (h.made _ fun hsame => ?_).1
    rw [hnone] at hsame
    exact ne_none_of_found_concat (walk_found_of_extends h.grows hq) (hfound r hr) hc hsame
  have hplace : follow [] u ⟨true, p ++ [c]⟩ = .found (q ++ [c]) :=
    walk_concat_found (walk_found_of_extends h.grows hq)
      (look_entry (h.grows _ _ hdir) hc hentry (by simp))
  funext s
  by_cases hs : s = q ++ [c]
  · rw [hs, hentry, FileTree.put, update_self]
  rw [FileTree.put, update_of_ne hs]
  by_contra hne
  rw [hfound s hne] at hplace
  exact hs (Walked.found.inj hplace)

end

/-! ## The temporary names -/

section

variable (d : Target) (n : Suffixes)

def Target.downloadName : Name := d.stem ++ (".dl" ++ tmpSuffix n.download)

def Target.stagingName : Name := d.stem ++ (".staging" ++ tmpSuffix n.staging)

theorem proper_of_length {c : Name} (h : 2 < c.length) : Proper c := by
  refine ⟨?_, ?_, ?_⟩
  · rintro rfl
    simp at h
  · rintro rfl
    simp [dot] at h
  · rintro rfl
    simp [dotDot] at h

theorem proper_stagingName : Proper (d.stagingName n) :=
  proper_of_length (by simp [Target.stagingName]; omega)

theorem downloadName_ne : d.downloadName n ≠ d.stagingName n := by
  intro h
  have htail := append_cancel_left h
  simp at htail

theorem Target.proper_parent : ∀ c ∈ d.parent, Proper c := by
  intro c hc
  refine (d.plain c ?_).1
  unfold Target.parent at hc
  split at hc
  · exact hc
  · exact mem_append_left _ hc

/-- The temporary names are free. -/
def Unused (t : Tree) : Prop :=
  ∀ q, follow [] t ⟨true, d.parent⟩ = .found q →
    t (q ++ [d.downloadName n]) = none ∧ t (q ++ [d.stagingName n]) = none

end

/-! ## The stages of a fetch -/

section

variable {d : Target} {n : Suffixes} {t u v : Tree} {revision : Str} {b : Path}

/-- What is left when nothing has been done but to ask for the directory of the temporary names. -/
structure Left (t u : Tree) (d : Target) : Prop where
  prepared : Prepared t u d.parent
  cause : u = t ∨ (validateDestination t d.text = .ok () ∧ ∃ k ok k', k.tree = t ∧ k'.tree = u ∧
    Runs SysStep (Confinement.mkdirAll ⟨true, d.parent⟩ 0o755) k ok k')

theorem Left.refl (hclosed : Closed t) : Left t t d := ⟨.refl hclosed, .inl rfl⟩

/-- Where the fetch works: the parent is there, and the temporary names are free. -/
structure Site (t u : Tree) (d : Target) (n : Suffixes) (b : Path) : Prop where
  left : Left t u d
  found : follow [] u ⟨true, d.parent⟩ = .found b
  dir : u b = some (.dir true)
  download : u (b ++ [d.downloadName n]) = none
  staging : u (b ++ [d.stagingName n]) = none

theorem site_of_found (hunused : Unused d n t) (hleft : Left t u d)
    (hfound : follow [] u ⟨true, d.parent⟩ = .found b) (hdir : u b = some (.dir true)) :
    Site t u d n b := by
  have hnone : u (b ++ [d.downloadName n]) = none ∧ u (b ++ [d.stagingName n]) = none := by
    rcases hleft.prepared.bare with rfl | ⟨-, hbare⟩
    · exact hunused b hfound
    · exact ⟨hbare b hfound _, hbare b hfound _⟩
  exact ⟨hleft, hfound, hdir, hnone.1, hnone.2⟩

def Site.tree (_ : Site t u d n b) (x : Bytes) : Tree := put u (b ++ [d.downloadName n]) (.file x)

theorem Site.closed (h : Site t u d n b) (x : Bytes) : Closed (h.tree x) :=
  h.left.prepared.closed.put h.dir h.download

theorem Site.tree_staging (h : Site t u d n b) (x : Bytes) :
    h.tree x (b ++ [d.stagingName n]) = none := by
  have hne : b ++ [d.stagingName n] ≠ b ++ [d.downloadName n] := by
    intro heq
    exact downloadName_ne d n (cons.inj (append_cancel_left heq)).1.symm
  exact (update_of_ne hne _ _).trans h.staging

/-- No more than directories has been added. -/
def Clean (t : Tree) (revision : Str) (d : Target) (m : Machine) : Prop :=
  Left t m.disk.tree d ∧ m.revision = revision

/-- The download is there besides. -/
def Downloaded (t : Tree) (revision : Str) (d : Target) (n : Suffixes) (m : Machine) : Prop :=
  ∃ u b x, ∃ site : Site t u d n b, m.disk.tree = site.tree x ∧ m.revision = revision

/-- The download is there, and open. -/
def Streaming (t : Tree) (revision : Str) (d : Target) (n : Suffixes) (m : Machine) : Prop :=
  ∃ u b x, ∃ site : Site t u d n b, m.disk.tree = site.tree x ∧
    m.disk.current = some (b ++ [d.downloadName n]) ∧ m.revision = revision

/-- The staging directory may hold anything. -/
def Unpacking (t : Tree) (revision : Str) (d : Target) (n : Suffixes) (m : Machine) : Prop :=
  ∃ u b x, ∃ site : Site t u d n b,
    (∀ q, ¬b ++ [d.stagingName n] <+: q → m.disk.tree q = site.tree x q) ∧ m.revision = revision

theorem Streaming.downloaded (h : Streaming t revision d n m) : Downloaded t revision d n m := by
  obtain ⟨u, b, x, site, htree, -, hrev⟩ := h
  exact ⟨u, b, x, site, htree, hrev⟩

theorem place_eq {p : List Name} {c : Name} (hfound : follow [] v ⟨true, p⟩ = .found b)
    (hdir : v b = some (.dir true)) : place v ⟨true, p ++ [c]⟩ = some (b ++ [c]) := by
  rw [place, getLast?_concat, PathArg.dir, dropLast_concat, hfound]
  exact if_pos hdir

theorem place_eq_some {p : List Name} {c : Name} {q : Path}
    (h : place v ⟨true, p ++ [c]⟩ = some q) :
    ∃ b, follow [] v ⟨true, p⟩ = .found b ∧ v b = some (.dir true) ∧ q = b ++ [c] := by
  rw [place, getLast?_concat, PathArg.dir, dropLast_concat] at h
  cases hf : follow [] v ⟨true, p⟩ with
  | found b =>
    rw [hf] at h
    dsimp only at h
    split at h
    · rename_i hdir
      cases h
      exact ⟨b, rfl, hdir, rfl⟩
    · cases h
  | gap q r l => rw [hf] at h; cases h
  | fail e => rw [hf] at h; cases h

theorem Site.place_download (h : Site t u d n b) (hgrows : ∀ q m, u q = some m → v q = some m) :
    place v (d.download n) = some (b ++ [d.downloadName n]) :=
  place_eq (walk_found_of_extends hgrows h.found) (hgrows _ _ h.dir)

theorem Site.place_staging (h : Site t u d n b) (hgrows : ∀ q m, u q = some m → v q = some m) :
    place v (d.staging n) = some (b ++ [d.stagingName n]) :=
  place_eq (walk_found_of_extends hgrows h.found) (hgrows _ _ h.dir)

theorem clean_of_cleanUp {x : Unit} (h : Downloaded t revision d n m)
    (hstep : Step d m (.cleanUp (d.download n)) x m') : Clean t revision d m' := by
  obtain ⟨u, b, bytes, site, htree, hrev⟩ := h
  have hplace : place m.disk.tree (d.download n) = some (b ++ [d.downloadName n]) := by
    rw [htree]
    exact site.place_download (grows_put site.download)
  have hfile : m.disk.tree (b ++ [d.downloadName n]) = some (.file bytes) := by
    rw [htree]
    exact update_self ..
  have hremovable : Removable m.disk.tree (b ++ [d.downloadName n]) := by
    refine ⟨by rw [hfile]; simp, fun w hw => ?_⟩
    rw [hfile] at hw
    cases hw
  rcases hstep with ⟨q, hq, -, rfl⟩ | ⟨hnot, -⟩
  · rw [hplace] at hq
    cases hq
    refine ⟨?_, hrev⟩
    have herase : erase m.disk.tree (b ++ [d.downloadName n]) (fun _ => true) = u := by
      refine site.left.prepared.closed.erase_of_eq site.download fun q hq => ?_
      rw [htree]
      refine update_of_ne ?_ _ _
      rintro rfl
      exact hq prefix_rfl
    rw [herase]
    exact site.left
  · exact absurd hremovable (hnot _ hplace)

theorem downloaded_of_cleanUpAll {x : Unit} (h : Unpacking t revision d n m)
    (hstep : Step d m (.cleanUpAll (d.staging n)) x m') : Downloaded t revision d n m' := by
  obtain ⟨u, b, bytes, site, htree, hrev⟩ := h
  have hgrows : ∀ q k, u q = some k → m.disk.tree q = some k := by
    intro q k hk
    have hq : ¬b ++ [d.stagingName n] <+: q := by
      intro hpre
      rw [site.left.prepared.closed.none_of_prefix site.staging hpre] at hk
      cases hk
    rw [htree q hq]
    exact grows_put site.download q k hk
  have hplace := site.place_staging hgrows
  rcases hstep with ⟨q, hq, rfl⟩ | ⟨hnone, -⟩
  · rw [hplace] at hq
    cases hq
    refine ⟨u, b, bytes, site, ?_, hrev⟩
    exact (site.closed bytes).erase_of_eq (site.tree_staging bytes) htree
  · rw [hplace] at hnone
    cases hnone

/-! ## The calls of a fetch -/

theorem triple_sys {α : Type} {P : Disk → Prop} {R : α → Disk → Prop} {p : Confinement.Program α}
    (h : Triple SysStep P p R) :
    Triple (Step d) (fun m => P m.disk ∧ m.revision = revision) (lift Ask.sys p)
      fun a m => R a m.disk ∧ m.revision = revision := by
  rintro m a m' ⟨hP, hrev⟩ hrun
  have hrun := runs_lift_iff.mp hrun
  have hkeeps : m'.revision = m.revision := by
    refine hrun.keeps (f := Machine.revision) ?_
    rintro s q x u ⟨-, hu⟩
    rw [hu]
  exact ⟨h _ _ _ hP (hrun.map (f := Machine.disk) fun s q x u hstep => hstep.1), hkeeps.trans hrev⟩

theorem triple_mkdirAll {m₀ : Machine} (hclosed : Closed m₀.disk.tree) {p : List Name}
    (hp : ∀ c ∈ p, Proper c) :
    Triple (Step d) (· = m₀) (mkdirAll ⟨true, p⟩)
      fun ok m => Made m₀.disk m.disk p ok ∧ m.revision = m₀.revision := by
  have hrev : ∀ c ∈ p.reverse, Proper c := fun c hc => hp c (mem_reverse.mp hc)
  have htriple : Triple SysStep _ (mkdirAllRev true 0o755 p.reverse) _ :=
    triple_mkdirAllRev hclosed hrev
  rw [reverse_reverse] at htriple
  rintro m ok m' rfl hrun
  exact triple_sys htriple m ok m' ⟨rfl, rfl⟩ hrun

theorem triple_createTmp (hunused : Unused d n t) :
    Triple (Step d) (Clean t revision d) (createTmp (d.download n))
      fun ok m => (ok = false → Clean t revision d m) ∧
        (ok = true → Streaming t revision d n m) := by
  refine Triple.ask (fun (x : Created) m => x ≠ .present ∧ (x = .failed → Clean t revision d m) ∧
    (x = .made → Streaming t revision d n m)) ?_ fun x => ?_
  · rintro m x m' ⟨hleft, hrev⟩ (⟨rfl, rfl⟩ | ⟨q, hq, hstep⟩)
    · exact ⟨by simp, fun _ => ⟨hleft, hrev⟩, by simp⟩
    · obtain ⟨b, hfound, hdir, rfl⟩ := place_eq_some hq
      have site := site_of_found hunused hleft hfound hdir
      rcases hstep with ⟨hthere, -⟩ | ⟨-, rfl, rfl⟩
      · exact absurd site.download hthere
      · exact ⟨by simp, by simp, fun _ => ⟨_, b, [], site, rfl, rfl, hrev⟩⟩
  · cases x with
    | made => exact Triple.ret fun m hm => ⟨by simp, fun _ => hm.2.2 rfl⟩
    | failed => exact Triple.ret fun m hm => ⟨fun _ => hm.2.1 rfl, by simp⟩
    | present => exact fun m a m' hm => absurd rfl hm.1

def Streamed (t : Tree) (revision : Str) (d : Target) (n : Suffixes) :
    Except FetchError Bytes → Machine → Prop
  | .error _ => Clean t revision d
  | .ok _ => fun m => Downloaded t revision d n m ∧ m.disk.current = none

theorem downloaded_close {x : Bool} (h : Downloaded t revision d n m)
    (hstep : Step d m .close x m') : Downloaded t revision d n m' ∧ m'.disk.current = none := by
  obtain ⟨u, b, bytes, site, htree, hrev⟩ := h
  cases hstep
  exact ⟨⟨u, b, bytes, site, htree, hrev⟩, rfl⟩

theorem triple_discard (e : FetchError) :
    Triple (Step d) (Downloaded t revision d n) (discard (d.download n) e)
      (Streamed t revision d n) := by
  refine Triple.ask (fun _ => Downloaded t revision d n)
    (fun m x m' hm hstep => (downloaded_close hm hstep).1) fun _ => ?_
  refine Triple.ask (fun _ => Clean t revision d) (fun _ _ _ => clean_of_cleanUp) fun _ => ?_
  exact Triple.ret fun m hm => hm

theorem streaming_write {data : Bytes} {x : Bool} {file : Path}
    (hk : (∃ bytes, k.tree = put u file (.file bytes)) ∧ k.current = some file)
    (hstep : SysStep k (.write data) x k') :
    (∃ bytes, k'.tree = put u file (.file bytes)) ∧ k'.current = some file := by
  have hwrite : ∀ data, (∃ bytes, (Disk.of (k.host.write data).2).tree = put u file (.file bytes)) ∧
      (Disk.of (k.host.write data).2).current = some file := by
    intro data
    obtain ⟨⟨bytes, htree⟩, hcurrent⟩ := hk
    have hfile : k.tree file = some (.file bytes) := by
      rw [htree]
      exact update_self ..
    simp only [Host.write, Disk.host, hcurrent, hfile]
    refine ⟨⟨bytes ++ data, ?_⟩, rfl⟩
    rw [htree]
    exact update_idem ..
  rcases hstep with ⟨h, hreal, rfl⟩ | ⟨-, rfl | ⟨data', part, -, -, rfl⟩⟩
  · have heq : (k.host.write data).2 = h := congrArg Prod.snd (some.inj hreal)
    rw [← heq]
    exact hwrite data
  · exact hk
  · exact hwrite part

theorem asks_writeChunks (cs : List Bytes) :
    (writeChunks cs).Asks fun q => ∃ data, q = SysCall.write data := by
  induction cs with
  | nil => exact .ret _
  | cons c cs ih =>
    refine .ask ⟨c, rfl⟩ fun ok => ?_
    cases ok with
    | true => exact ih
    | false => exact .ret _

theorem triple_writeChunks (cs : List Bytes) :
    Triple (Step d) (Streaming t revision d n) (lift Ask.sys (writeChunks cs))
      fun _ => Streaming t revision d n := by
  rintro m a m' ⟨u, b, x, site, htree, hcurrent, hrev⟩ hrun
  have hkeeps : Triple SysStep
      (fun k => (∃ bytes, k.tree = site.tree bytes) ∧
        k.current = some (b ++ [d.downloadName n])) (writeChunks cs)
      fun _ k => (∃ bytes, k.tree = site.tree bytes) ∧
        k.current = some (b ++ [d.downloadName n]) := by
    refine (asks_writeChunks cs).triple ?_
    rintro k q y k' ⟨data, rfl⟩ hk hstep
    exact streaming_write hk hstep
  obtain ⟨⟨⟨bytes, htree'⟩, hcurrent'⟩, hrev'⟩ :=
    triple_sys hkeeps m a m' ⟨⟨⟨x, htree⟩, hcurrent⟩, hrev⟩ hrun
  exact ⟨u, b, bytes, site, htree', hcurrent', hrev'⟩

theorem triple_copyBody (limited : Body) (maxBytes : Int) :
    Triple (Step d) (Streaming t revision d n) (copyBody (d.download n) limited maxBytes)
      (Streamed t revision d n) := by
  refine Triple.bind (triple_writeChunks _) fun ok => ?_
  have hdiscard : ∀ e, Triple (Step d) (Streaming t revision d n) (discard (d.download n) e)
      (Streamed t revision d n) := fun e =>
    (triple_discard e).imp (fun m hm => hm.downloaded) fun _ _ hr => hr
  split
  · exact hdiscard _
  split
  · exact hdiscard _
  refine Triple.ask_same (fun m x m' hstep => hstep) fun ok => ?_
  split
  · exact hdiscard _
  refine Triple.ask (fun _ m => Downloaded t revision d n m ∧ m.disk.current = none)
    (fun m x m' hm => downloaded_close hm.downloaded) fun ok => ?_
  split
  · refine Triple.ask (fun _ => Clean t revision d) (fun m x m' hm => clean_of_cleanUp hm.1)
      fun _ => ?_
    exact Triple.ret fun m hm => hm
  · exact Triple.ret fun m hm => hm

/-- **A download leaves the temporary file, or nothing but directories on the way.** -/
theorem triple_streamToTmp (hclosed : Closed t) (hunused : Unused d n t)
    (hvalid : validateDestination t d.text = .ok ()) (body : Body) (maxBytes : Int) :
    Triple (Step d) (fun m => m.disk.tree = t ∧ m.revision = revision)
      (streamToTmp (d.download n) body maxBytes) (Streamed t revision d n) := by
  have hdir : (d.download n).dir = ⟨true, d.parent⟩ := by
    rw [Target.download, Target.plus, PathArg.dir, dropLast_concat]
  rw [streamToTmp, hdir]
  refine Triple.ask_same (fun m x m' hstep => hstep) fun ok => ?_
  split
  · refine Triple.ret ?_
    rintro m ⟨rfl, rfl⟩
    exact ⟨.refl hclosed, rfl⟩
  have hmkdir : Triple (Step d) (fun m => m.disk.tree = t ∧ m.revision = revision)
      (mkdirAll ⟨true, d.parent⟩) fun _ => Clean t revision d := by
    rintro m ok m' ⟨rfl, rfl⟩ hrun
    obtain ⟨hmade, hrev⟩ := triple_mkdirAll hclosed d.proper_parent m ok m' rfl hrun
    have hdisk : Runs SysStep (Confinement.mkdirAll ⟨true, d.parent⟩ 0o755) m.disk ok m'.disk :=
      (runs_lift_iff.mp hrun).map (f := Machine.disk) fun s q x u hstep => hstep.1
    exact ⟨⟨hmade.prepared, .inr ⟨hvalid, m.disk, ok, m'.disk, rfl, rfl, hdisk⟩⟩, hrev⟩
  refine Triple.bind hmkdir fun ok => ?_
  split
  · exact Triple.ret fun m hm => hm
  refine Triple.bind (triple_createTmp hunused) fun ok => ?_
  split
  · rename_i hok
    exact Triple.ret fun m hm => hm.1 hok
  · rename_i hok
    exact (triple_copyBody _ _).imp (fun m hm => hm.2 (by simpa using hok)) fun _ _ hr => hr

/-! ## The archive -/

/-- The staging directory is there, and empty. -/
def Staged (t : Tree) (revision : Str) (d : Target) (n : Suffixes) (m : Machine) : Prop :=
  ∃ u b x, ∃ site : Site t u d n b,
    m.disk.tree = put (site.tree x) (b ++ [d.stagingName n]) (.dir true) ∧ m.revision = revision

theorem Staged.unpacking (h : Staged t revision d n m) : Unpacking t revision d n m := by
  obtain ⟨u, b, x, site, htree, hrev⟩ := h
  refine ⟨u, b, x, site, fun q hq => ?_, hrev⟩
  rw [htree]
  refine update_of_ne ?_ _ _
  rintro rfl
  exact hq prefix_rfl

theorem triple_mkdir_staging :
    Triple (Step d) (fun m => Downloaded t revision d n m ∧ m.disk.current = none)
      (mkdirAll (d.staging n))
      fun ok m => (ok = false → Downloaded t revision d n m) ∧
        (ok = true → Staged t revision d n m ∧ m.disk.current = none) := by
  rintro m ok m' ⟨⟨u, b, x, site, htree, hrev⟩, hcurrent⟩ hrun
  have hproper : ∀ c ∈ d.parent ++ [d.stagingName n], Proper c := by
    intro c hc
    rcases mem_append.mp hc with hc | hc
    · exact d.proper_parent c hc
    · rw [mem_singleton.mp hc]
      exact proper_stagingName d n
  have hclosed : Closed m.disk.tree := by
    rw [htree]
    exact site.closed x
  obtain ⟨hmade, hrev'⟩ := triple_mkdirAll hclosed hproper m ok m' rfl hrun
  have hnone' := hmade.current.trans hcurrent
  rw [hrev] at hrev'
  obtain ⟨hprepared, hpresent, hfalse, -⟩ := hmade
  rw [htree] at hprepared hfalse
  have hfound : follow [] (site.tree x) ⟨true, d.parent⟩ = .found b :=
    walk_found_of_extends (grows_put site.download) site.found
  have hnone := site.tree_staging x
  rcases hprepared.eq_or_put (proper_stagingName d n) hfound
    (grows_put site.download _ _ site.dir) hnone with hsame | hput
  · refine ⟨fun _ => ⟨u, b, x, site, hsame, hrev'⟩, fun hok => ?_⟩
    obtain ⟨q, hq, hentry⟩ := hpresent hok _ _ rfl
    rw [hsame] at hq hentry
    rw [hq] at hfound
    cases hfound
    exact absurd hnone hentry
  · refine ⟨fun hok => ?_, fun _ => ⟨⟨u, b, x, site, hput, hrev'⟩, hnone'⟩⟩
    rcases hfalse hok with hsame | hnot
    · exact ⟨u, b, x, site, hsame, hrev'⟩
    · refine absurd ⟨b ++ [d.stagingName n], ?_⟩ hnot
      rw [hput]
      exact follow_put (proper_stagingName d n) hfound (grows_put site.download _ _ site.dir) hnone

theorem Target.cleanArg_staging : Confinement.cleanArg (d.staging n).text =
    ⟨true, d.parent ++ [d.stagingName n]⟩ := by
  have hplain : ∀ c ∈ d.parent ++ [d.stagingName n], Proper c ∧ '/' ∉ c := by
    have hcomps : ∀ c ∈ d.parent, Proper c ∧ '/' ∉ c := by
      intro c hc
      unfold Target.parent at hc
      split at hc
      · exact d.plain c hc
      · exact d.plain c (mem_append_left _ hc)
    have hstem : '/' ∉ d.stem := by
      unfold Target.stem
      split
      · simp
      · exact (d.plain d.name (by simp)).2
    intro c hc
    rcases mem_append.mp hc with hc | hc
    · exact hcomps c hc
    · rw [mem_singleton.mp hc]
      refine ⟨proper_stagingName d n, ?_⟩
      simp [Target.stagingName, tmpSuffix, hstem, n.plain.2]
  have htext : (d.staging n).text = spell (d.parent ++ [d.stagingName n]) := rfl
  have habs : isAbs (spell (d.parent ++ [d.stagingName n])) = true := by
    cases d.parent <;> rfl
  rw [htext, Confinement.cleanArg, if_pos habs, cleanAbs_spell hplain]

theorem kept_sysStep {st : PathArg} {dir : Path} (hfresh : Confinement.Fresh t [] st dir)
    {q : SysCall} {x : Confinement.Reply q} (hq : Confinement.Fit st q)
    (hk : Confinement.Kept t st dir k.host) (hstep : SysStep k q x k') :
    Confinement.Kept t st dir k'.host := by
  have hforget : ∀ {h : Host}, Confinement.Kept t st dir h →
      Confinement.Kept t st dir (Disk.of h).host := fun hh =>
    ⟨hh.outside, hh.plain, hh.current, by simp [Disk.host]⟩
  rcases hstep with ⟨h, hreal, rfl⟩ | ⟨-, rfl | ⟨data, part, -, -, rfl⟩⟩
  · exact hforget (Confinement.kept_answer hfresh _ _ _ _ hq hk hreal)
  · exact hk
  · exact hforget (hk.write part)

/-- **An extraction touches only what is below the staging directory, however far it gets.** -/
theorem triple_extract (D : ModeDecoders) (maxBytes : Int) (data : Bytes) (kind : ArchiveKind) :
    Triple (Step d) (fun m => Staged t revision d n m ∧ m.disk.current = none)
      (lift Ask.sys (extractor D ⟨[], (d.staging n).text⟩ maxBytes data kind))
      fun _ => Unpacking t revision d n := by
  rintro m a m' ⟨⟨u, b, x, site, htree, hrev⟩, hcurrent⟩ hrun
  have hfound : follow [] (site.tree x) ⟨true, d.parent⟩ = .found b :=
    walk_found_of_extends (grows_put site.download) site.found
  have hdir : site.tree x b = some (.dir true) := grows_put site.download _ _ site.dir
  have hnone := site.tree_staging x
  have hfresh : Confinement.Fresh m.disk.tree [] ⟨true, d.parent ++ [d.stagingName n]⟩
      (b ++ [d.stagingName n]) := by
    refine ⟨?_, ?_⟩
    · rw [htree]
      exact follow_put (proper_stagingName d n) hfound hdir hnone
    · rintro q ⟨rel, hrel, rfl⟩
      have hne : b ++ [d.stagingName n] ++ rel ≠ b ++ [d.stagingName n] := by simpa using hrel
      rw [htree, put, update_of_ne hne]
      exact (site.closed x).none_below hnone rel
  have hstart : Confinement.Kept m.disk.tree ⟨true, d.parent ++ [d.stagingName n]⟩
      (b ++ [d.stagingName n]) m.disk.host := by
    refine ⟨fun _ _ => rfl, fun q hq target hlink => ?_, fun q hq => ?_, by simp [Disk.host]⟩
    · have hq' : m.disk.tree q = some (.link target) := hlink
      rw [hfresh.empty q hq] at hq'
      cases hq'
    · have hq' : m.disk.current = some q := hq
      rw [hcurrent] at hq'
      cases hq'
  have hasks := Confinement.asks_extractor D ⟨[], (d.staging n).text⟩ maxBytes data kind
  rw [Target.cleanArg_staging] at hasks
  have htriple : Triple SysStep _ _ _ :=
    hasks.triple (I := fun k => Confinement.Kept m.disk.tree ⟨true, d.parent ++ [d.stagingName n]⟩
      (b ++ [d.stagingName n]) k.host) fun k q x k' hq hk => kept_sysStep hfresh hq hk
  obtain ⟨hkept, hrev'⟩ := triple_sys htriple m a m' ⟨hstart, hrev⟩ hrun
  refine ⟨u, b, x, site, fun q hq => ?_, hrev'⟩
  have hout : ¬Below (b ++ [d.stagingName n]) q := by
    rintro ⟨rel, -, rfl⟩
    exact hq (prefix_append _ _)
  have hsame : m'.disk.tree q = m.disk.tree q := hkept.outside q hout
  rw [hsame, htree]
  refine update_of_ne ?_ _ _
  rintro rfl
  exact hq prefix_rfl

/-- An error that is returned before the swap comes with a state. -/
def Refused (P : Machine → Prop) (x : Except Failure Result) (m : Machine) : Prop :=
  ∀ f, x = .error f → f.swapping = false → P m

theorem triple_refuse {P : Machine → Prop} (e : FetchError) :
    Triple (Step d) P (refuse e) (Refused P) :=
  Triple.ret fun _ hm _ _ _ => hm

theorem triple_cleanUpAll (e : FetchError) :
    Triple (Step d) (Unpacking t revision d n)
      (.ask (.cleanUpAll (d.staging n)) fun _ => refuse e)
      (Refused (Downloaded t revision d n)) :=
  Triple.ask (fun _ => Downloaded t revision d n) (fun _ _ _ => downloaded_of_cleanUpAll)
    fun _ => triple_refuse e

variable (j : Job)

theorem gives_swap (r : Response) (data : Bytes) (files : Nat) :
    (j.swap r data files).Gives fun x => ∀ f, x = .error f → f.swapping = true := by
  have herror : ∀ e : FetchError,
      Gives (fun x : Except Failure Result => ∀ f, x = .error f → f.swapping = true)
        (.ret (.error ⟨e, true⟩) : Program (Except Failure Result)) := by
    refine fun e => .ret fun f hf => ?_
    cases hf
    rfl
  have hmkdir : Gives (fun _ => True) (mkdirAll ⟨true, j.dest.parent⟩) := by
    generalize mkdirAll ⟨true, j.dest.parent⟩ = prog
    induction prog with
    | ret a => exact .ret trivial
    | ask q k ih => exact .ask ih
  have hput : (j.putInPlace r data files).Gives fun x => ∀ f, x = .error f → f.swapping = true := by
    refine hmkdir.bind fun ok _ => ?_
    split
    · exact .ask fun _ => herror _
    refine .ask fun ok => ?_
    split
    · exact .ask fun _ => herror _
    refine .ask fun r => ?_
    cases r with
    | some text => exact herror _
    | none =>
      refine .ask fun _ => .ask fun _ => .ret fun f hf => ?_
      cases hf
  refine .ask fun found => ?_
  cases found with
  | none => exact hput
  | some isDir =>
    refine .ask fun ok => ?_
    split
    · exact .ask fun _ => herror _
    · exact hput

/-- **Whatever happens to the archive, an error before the swap leaves the downloaded file only.** -/
theorem triple_unpack (kind : ArchiveKind) (r : Response) (data : Bytes) :
    Triple (Step j.dest)
      (fun m => Downloaded t revision j.dest j.names m ∧ m.disk.current = none)
      (j.unpack kind r data) (Refused (Downloaded t revision j.dest j.names)) := by
  have hrefuse : ∀ e, Triple (Step j.dest) (Downloaded t revision j.dest j.names) (refuse e)
      (Refused (Downloaded t revision j.dest j.names)) := triple_refuse
  refine Triple.ask_same (fun m x m' hstep => hstep) fun ok => ?_
  split
  · exact (hrefuse _).imp (fun m hm => hm.1) fun _ _ hx => hx
  refine Triple.bind triple_mkdir_staging fun ok => ?_
  split
  · rename_i hok
    exact (hrefuse _).imp (fun m hm => hm.1 hok) fun _ _ hx => hx
  rename_i hok
  have hok : ok = true := by simpa using hok
  refine Triple.ask_same (fun m x m' hstep => hstep) fun opened => ?_
  split
  · exact (triple_cleanUpAll _).imp (fun m hm => (hm.2 hok).1.unpacking) fun _ _ hx => hx
  refine Triple.bind ((triple_extract j.decoders j.src.maxBytes data kind).imp
    (fun m hm => hm.2 hok) fun _ _ hx => hx) fun result => ?_
  split
  · exact triple_cleanUpAll _
  · refine (gives_swap j r data result.1).triple.imp (fun m hm => hm) fun x m hx f hf hswap => ?_
    rw [hx f hf] at hswap
    cases hswap

theorem triple_get (hclosed : Closed t) (hunused : Unused j.dest j.names t)
    (hvalid : validateDestination t j.dest.text = .ok ()) (cached : Str) :
    Triple (Step j.dest) (fun m => m.disk.tree = t ∧ m.revision = revision) (j.get cached)
      (Refused (Clean t revision j.dest)) := by
  have hstart : ∀ m : Machine, m.disk.tree = t ∧ m.revision = revision →
      Clean t revision j.dest m := by
    rintro m ⟨rfl, hrev⟩
    exact ⟨Left.refl hclosed, hrev⟩
  have hrefuse : ∀ e, Triple (Step j.dest)
      (fun m => m.disk.tree = t ∧ m.revision = revision) (refuse e)
      (Refused (Clean t revision j.dest)) := fun e =>
    (triple_refuse e).imp hstart fun _ _ hx => hx
  have hok : ∀ {P : Machine → Prop} (res : Result), Triple (Step j.dest) P (.ret (.ok res))
      (Refused (Clean t revision j.dest)) := by
    intro P res
    refine Triple.ret fun m _ f hf => ?_
    cases hf
  refine Triple.ask_same (fun m x m' hstep => hstep) fun answer => ?_
  dsimp only
  split
  · exact hrefuse _
  rename_i r _
  split
  · exact hok _
  split
  · exact hrefuse _
  split
  · exact hrefuse _
  refine Triple.bind (triple_streamToTmp hclosed hunused hvalid r.body j.src.maxBytes) fun streamed => ?_
  cases streamed with
  | error e => exact triple_refuse e
  | ok data =>
    refine Triple.bind (triple_unpack j _ r data) fun result => ?_
    refine Triple.ask (fun _ m => Refused (Clean t revision j.dest) result m) ?_ fun _ => ?_
    · intro m x m' hm hstep f hf hswap
      exact clean_of_cleanUp (hm f hf hswap) hstep
    · exact Triple.ret fun m hm => hm

/-- **A fetch that fails before the swap leaves nothing but directories on the way to the temporary
names.** -/
theorem triple_fetchArchive (hclosed : Closed t) (hunused : Unused j.dest j.names t) :
    Triple (Step j.dest) (fun m => m.disk.tree = t ∧ m.revision = revision) j.fetchArchive
      (Refused (Clean t revision j.dest)) := by
  have hrefuse : ∀ e, Triple (Step j.dest)
      (fun m => m.disk.tree = t ∧ m.revision = revision) (refuse e)
      (Refused (Clean t revision j.dest)) := by
    refine fun e => (triple_refuse e).imp ?_ fun _ _ hx => hx
    rintro m ⟨rfl, hrev⟩
    exact ⟨Left.refl hclosed, hrev⟩
  refine Triple.ask (fun valid m => (m.disk.tree = t ∧ m.revision = revision) ∧
    valid = validateDestination t j.dest.text) ?_ fun valid => ?_
  · rintro m x m' ⟨rfl, hrev⟩ ⟨rfl, rfl⟩
    exact ⟨⟨rfl, hrev⟩, rfl⟩
  cases valid with
  | error e => exact (hrefuse _).imp (fun m hm => hm.1) fun _ _ hx => hx
  | ok _ =>
    by_cases hvalid : validateDestination t j.dest.text = .ok ()
    swap
    · exact fun m x m' hm => absurd hm.2.symm hvalid
    refine Triple.imp (P := fun m => m.disk.tree = t ∧ m.revision = revision) ?_
      (fun m hm => hm.1) fun _ _ hx => hx
    refine Triple.ask_same (fun m x m' hstep => hstep.2) fun cached => ?_
    split
    · exact triple_get j hclosed hunused hvalid cached
    refine Triple.ask_same (fun m x m' hstep => hstep) fun answer => ?_
    split
    · exact hrefuse _
    · refine Triple.ret fun m _ f hf => ?_
      cases hf
    · exact triple_get j hclosed hunused hvalid cached

/-! ## Without a trace -/

def sight (t : Tree) (d : Target) : Option (Path × Tree) :=
  match follow [] t d.path with
  | .found q => some (q, below t q)
  | _ => none

/-- Destination and revision are as before, no temporary name is left, and nothing is gone or
changed. -/
structure Traceless (d : Target) (n : Suffixes) (m m' : Machine) : Prop where
  destination : sight m'.disk.tree d = sight m.disk.tree d
  revision : m'.revision = m.revision
  temporary : Unused d n m'.disk.tree
  kept : ∀ q node, m.disk.tree q = some node → m'.disk.tree q = some node

theorem sight_eq_none (h : ¬Exists t d.comps) : sight t d = none := by
  unfold sight
  split
  · rename_i q hq
    exact absurd ⟨q, hq⟩ h
  · rfl

theorem sight_ne_none (h : Exists t d.comps) : sight t d ≠ none := by
  obtain ⟨q, hq⟩ := h
  have heq : sight t d = some (q, below t q) := by
    rw [sight, show follow [] t d.path = .found q from hq]
  rw [heq]
  exact some_ne_none _

theorem Prepared.unused (h : Prepared t u d.parent) (hunused : Unused d n t) : Unused d n u := by
  intro q hq
  rcases h.bare with rfl | ⟨-, hbare⟩
  · exact hunused q hq
  · exact ⟨hbare q hq _, hbare q hq _⟩

/-- New directories on the way to the temporary names do not show, unless one of them is the
destination. -/
theorem Prepared.sight_eq (h : Prepared t u d.parent)
    (hcond : d.slash = false ∨ Exists t d.comps) : sight u d = sight t d := by
  rcases h.bare with rfl | ⟨hnew, hbare⟩
  · rfl
  rcases hslash : d.slash with _ | _
  · have hparent : d.parent = d.dir := by simp [Target.parent, hslash]
    rw [hparent] at hnew hbare
    have hname : Proper d.name := (d.plain d.name (by simp)).1
    have hu : ¬Exists u d.comps := by
      rintro ⟨r, hr⟩
      obtain ⟨q, hq⟩ := exists_found_of_append hr
      exact ne_none_of_found_concat hq hr hname (hbare q hq d.name)
    rw [sight_eq_none hu, sight_eq_none fun ht => hnew ht.of_append]
  · have hparent : d.parent = d.comps := by simp [Target.parent, hslash]
    rw [hparent] at hnew
    exact absurd (hcond.resolve_left (by simp [hslash])) hnew

theorem Clean.traceless (h : Clean m.disk.tree m.revision d m') (hunused : Unused d n m.disk.tree)
    (hcond : d.slash = false ∨ Exists m.disk.tree d.comps) : Traceless d n m m' :=
  ⟨h.1.prepared.sight_eq hcond, h.2, h.1.prepared.unused hunused, h.1.prepared.grows⟩

/-! ## A destination that is made -/

/-- The destination is accepted, and can be made. -/
def Creatable (t : Tree) (d : Target) : Prop :=
  validateDestination t d.text = .ok () ∧
    ∃ k k', k.tree = t ∧ Exists k'.tree d.comps ∧
      Runs SysStep (Confinement.mkdirAll d.path 0o755) k true k'

theorem Left.sight_eq (h : Left t u d) (hclosed : Closed t) (hnot : ¬Creatable t d) :
    sight u d = sight t d := by
  by_cases hcond : d.slash = false ∨ Exists t d.comps
  · exact h.prepared.sight_eq hcond
  rw [not_or] at hcond
  have hparent : d.parent = d.comps := by simp [Target.parent, hcond.1]
  rcases h.cause with rfl | ⟨hvalid, k, ok, k', rfl, rfl, hrun⟩
  · rfl
  rw [hparent] at hrun
  suffices hu : ¬Exists k'.tree d.comps by rw [sight_eq_none hu, sight_eq_none hcond.2]
  intro hexists
  cases ok with
  | true => exact hnot ⟨hvalid, k, k', rfl, hexists, hrun⟩
  | false =>
    have hproper : ∀ c ∈ d.comps.reverse, Proper c := fun c hc =>
      (d.plain c (mem_reverse.mp hc)).1
    have hmade := triple_mkdirAllRev hclosed hproper k false k' rfl hrun
    rw [reverse_reverse] at hmade
    rcases hmade.absent rfl with hsame | hnone
    · rw [hsame] at hexists
      exact hcond.2 hexists
    · exact hnone hexists

theorem runs_sys {α : Type} {p : Confinement.Program α} {a : α} (h : Runs SysStep p m.disk a k) :
    Runs (Step d) (lift Ask.sys p) m a { m with disk := k } := by
  obtain ⟨disk, revision, recorded⟩ := m
  dsimp only at h
  induction h with
  | ret a s => exact .ret _ _
  | ask hq _ ih =>
    refine .ask ?_ ih
    exact ⟨hq, rfl⟩

def gzipAnswer : Response := ⟨200, [], contentTypeOf .tarGz, ⟨[], false⟩⟩

theorem exists_trace (hslash : j.dest.slash = true) (hnew : ¬Exists t j.dest.comps)
    (hcreatable : Creatable t j.dest) :
    ∃ m m' f, m.disk.tree = t ∧ Runs (Step j.dest) j.fetchArchive m (.error f) m' ∧
      f.swapping = false ∧ ¬Traceless j.dest j.names m m' := by
  obtain ⟨hvalid, k₀, k, rfl, hexists, hmkdir⟩ := hcreatable
  let m : Machine := ⟨k₀, [], false⟩
  have hparent : j.dest.parent = j.dest.comps := by simp [Target.parent, hslash]
  have hdir : (j.dest.download j.names).dir = j.dest.path := by
    rw [Target.download, Target.plus, PathArg.dir, dropLast_concat, hparent]
    rfl
  let e : FetchError := .other ("open tmp " ++ (j.dest.download j.names).text)
  have hstream : Runs (Step j.dest)
      (streamToTmp (j.dest.download j.names) gzipAnswer.body j.src.maxBytes) m (.error e)
      { m with disk := k } := by
    refine Runs.ask (x := true) (rfl : m = m) ?_
    rw [hdir]
    refine runs_bind_iff.mpr ⟨true, { m with disk := k }, runs_sys hmkdir, ?_⟩
    exact Runs.ask (x := Created.failed) (.inl ⟨rfl, rfl⟩) (.ret _ _)
  have hget : Runs (Step j.dest) (j.get []) m (.error ⟨e, false⟩) { m with disk := k } := by
    refine Runs.ask (x := .ok gzipAnswer) (rfl : m = m) ?_
    exact runs_bind_iff.mpr ⟨.error e, _, hstream, .ret _ _⟩
  refine ⟨m, { m with disk := k }, ⟨e, false⟩, rfl, ?_, rfl, fun htraceless => ?_⟩
  · refine Runs.ask (x := .ok ()) ⟨hvalid.symm, rfl⟩ ?_
    refine Runs.ask (x := []) ⟨rfl, rfl⟩ ?_
    exact hget
  · have hsight : sight k.tree j.dest = sight k₀.tree j.dest := htraceless.destination
    rw [sight_eq_none hnew] at hsight
    exact sight_ne_none hexists hsight

end

/-- **Every fetch of an archive that fails before the swap is without a trace, if and only if the
destination is written without a slash at its end, or it is there already, or it is refused or cannot
be made.** -/
theorem traceless_iff (sha256 : Bytes → Bytes) (decoders : ModeDecoders) (src : HTTPSource)
    (d : Target) (t : Tree) (hclosed : Closed t) :
    (∀ (n : Suffixes) (m m' : Machine) (f : Failure), m.disk.tree = t → Unused d n t →
        Runs (Step d) (Job.fetchArchive ⟨sha256, decoders, src, d, n⟩) m (.error f) m' →
        f.swapping = false → Traceless d n m m') ↔
      (d.slash = false ∨ Exists t d.comps ∨ ¬Creatable t d) := by
  constructor
  · intro hall
    by_contra hcond
    rw [not_or, not_or, not_not, Bool.not_eq_false] at hcond
    obtain ⟨hslash, hnew, hcreatable⟩ := hcond
    let n : Suffixes := ⟨[], [], by simp⟩
    have hunused : Unused d n t := by
      intro q hq
      have hparent : d.parent = d.comps := by simp [Target.parent, hslash]
      rw [hparent] at hq
      exact absurd ⟨q, hq⟩ hnew
    obtain ⟨m, m', f, hm, hrun, hswap, htrace⟩ :=
      exists_trace ⟨sha256, decoders, src, d, n⟩ hslash hnew hcreatable
    exact htrace (hall n m m' f hm hunused hrun hswap)
  · rintro hcond n m m' f rfl hunused hrun hswap
    have hclean : Clean m.disk.tree m.revision d m' :=
      triple_fetchArchive ⟨sha256, decoders, src, d, n⟩ hclosed hunused m _ m' ⟨rfl, rfl⟩ hrun f rfl
        hswap
    rcases hcond with hslash | hexists | hnot
    · exact hclean.traceless hunused (.inl hslash)
    · exact hclean.traceless hunused (.inr hexists)
    · exact ⟨hclean.1.sight_eq hclosed hnot, hclean.2, hclean.1.prepared.unused hunused,
        hclean.1.prepared.grows⟩

/-! ## An archive that cannot be read -/

/-- Every call goes well, and the server always answers the same. Of the swap nothing is said. -/
def answer (d : Target) (response : Response) (m : Machine) : (q : Ask) → Option (Reply q × Machine)
  | .validate => some (validateDestination m.disk.tree d.text, m)
  | .revision => some (m.revision, m)
  | .get => some (.ok response, m)
  | .random | .sync | .openArchive => some (true, m)
  | .close => some (true, { m with disk := { m.disk with current := none } })
  | .sys q => (m.disk.host.answer [] q).map fun r => (r.1, { m with disk := .of r.2 })
  | .create p => (place m.disk.tree p).map fun q =>
      if m.disk.tree q = none then
        (.made, { m with disk := ⟨put m.disk.tree q (.file []), some q⟩ })
      else (.present, m)
  | .cleanUp p => (place m.disk.tree p).bind fun q =>
      match m.disk.tree q with
      | some (.file _) => some ((), m.withTree (erase m.disk.tree q fun _ => true))
      | _ => none
  | .cleanUpAll p =>
    (place m.disk.tree p).map fun q => ((), m.withTree (erase m.disk.tree q fun _ => true))
  | _ => none

theorem step_of_answer {d : Target} {response : Response} (m : Machine) (q : Ask) (x : Reply q)
    (u : Machine) (h : answer d response m q = some (x, u)) : Step d m q x u := by
  cases q with
  | validate | revision =>
    cases h
    exact ⟨rfl, rfl⟩
  | get | random | sync | openArchive | close =>
    cases h
    exact rfl
  | sys q =>
    obtain ⟨⟨y, k⟩, hy, heq⟩ := map_eq_some_iff.mp h
    cases heq
    exact ⟨.inl ⟨k, hy, rfl⟩, rfl⟩
  | create p =>
    obtain ⟨q, hq, heq⟩ := map_eq_some_iff.mp h
    split_ifs at heq with hnone
    · cases heq
      exact .inr ⟨q, hq, .inr ⟨hnone, rfl, rfl⟩⟩
    · cases heq
      exact .inr ⟨q, hq, .inl ⟨hnone, rfl, rfl⟩⟩
  | cleanUp p =>
    obtain ⟨q, hq, heq⟩ := bind_eq_some_iff.mp h
    split at heq
    · rename_i content hfile
      cases heq
      exact .inl ⟨q, hq, by simp [Removable, hfile], rfl⟩
    · cases heq
  | cleanUpAll p =>
    obtain ⟨q, hq, heq⟩ := map_eq_some_iff.mp h
    cases heq
    exact .inl ⟨q, hq, rfl⟩
  | setRevision _ | head | remove _ | removeAll _ | rename _ _ | applyMode | recordDest => cases h

def noDecoders : ModeDecoders := ⟨fun _ => .error "unexpected EOF", fun _ => .error []⟩

def srvTarget (slash : Bool) : Target := ⟨["srv"], "x", slash, by decide⟩

def testNames : Suffixes := ⟨"d0", "5a", by decide⟩

def testJob (slash : Bool) : Job :=
  ⟨testWorld.sha256, noDecoders, testSource true, srvTarget slash, testNames⟩

theorem closed_srvTree : Closed srvTree := closed_treeOf (by decide +kernel)

/-- A body that is no archive, for a destination `/srv/x/` that is not there: it is an empty directory
afterwards. -/
theorem trace_of_bad_archive :
    Closed srvTree ∧ Unused (srvTarget true) testNames srvTree ∧
    ∃ m m' f, m.disk.tree = srvTree ∧
      Runs (Step (srvTarget true)) (testJob true).fetchArchive m (.error f) m' ∧
      f.swapping = false ∧ srvTree ["srv", "x"] = none ∧
      m'.disk.tree ["srv", "x"] = some (.dir true) ∧
      ¬Traceless (srvTarget true) testNames m m' := by
  have heval : ((testJob true).fetchArchive.run (answer (srvTarget true) gzipAnswer)
      ⟨⟨srvTree, none⟩, [], false⟩).map (fun r => (r.1, r.2.disk.tree ["srv", "x"],
        follow [] r.2.disk.tree (srvTarget true).path)) =
      some (.error ⟨.other "gzip header: unexpected EOF", false⟩, some (.dir true),
        .found ["srv", "x"]) := by
    decide +kernel
  obtain ⟨⟨res, m'⟩, hrun, heq⟩ := map_eq_some_iff.mp heval
  obtain ⟨rfl, hentry, hfound⟩ := Prod.mk.inj heq |>.imp_right Prod.mk.inj
  have hnew : ¬Exists srvTree (srvTarget true).comps := by
    rintro ⟨q, hq⟩
    cases hq
  refine ⟨closed_srvTree, fun q hq => absurd ⟨q, hq⟩ hnew, _, m', _, rfl,
    runs_of_run step_of_answer hrun, rfl, by decide +kernel, hentry, fun htraceless => ?_⟩
  have hsight := htraceless.destination
  exact sight_ne_none ⟨_, hfound⟩ hsight

/-- Without the slash it is not there afterwards, as before. -/
theorem traceless_beside :
    Closed srvTree ∧ ∀ (n : Suffixes) (m m' : Machine) (f : Failure), m.disk.tree = srvTree →
      Unused (srvTarget false) n srvTree →
      Runs (Step (srvTarget false)) (Job.fetchArchive ⟨testWorld.sha256, noDecoders,
        testSource true, srvTarget false, n⟩) m (.error f) m' →
      f.swapping = false → Traceless (srvTarget false) n m m' :=
  ⟨closed_srvTree, (traceless_iff testWorld.sha256 noDecoders (testSource true) (srvTarget false)
    srvTree closed_srvTree).mpr (.inl rfl)⟩

end PowerManage.Remote.Staging
