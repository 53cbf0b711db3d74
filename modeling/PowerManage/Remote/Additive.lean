import PowerManage.Lib.FileMode
import PowerManage.Remote.GitFailure

/-!
# Additive syncs of a checkout

The part of `CloneOrSync` that works in an existing checkout, with the permission bits that `Git`
leaves out: `snapshotUntracked` takes the mode of each untracked file along, `restoreUntracked`
hands it to `os.WriteFile`, and the kernel takes the umask off it where the file is created.  A file
that cannot be read is left out of the snapshot.  Where the commit has a link on the way to an
untracked file, `os.MkdirAll` and `os.WriteFile` follow it, in the checkout or out of it.

With `Prune` off a sync should bring every tracked file to the target's content and leave every
other file alone.  But the snapshot is written back over whatever the checkout has put in the same
place, or behind a link that it has put there, with what the umask lets through of its modes:
`additive_iff` says when all goes well.
-/

namespace PowerManage.Remote

open PathName FileTree FileMode List Function

/-- A checkout, and the files around it. -/
structure Worktree where
  tree : Tree
  mode : Path → Mode
  outside : Tree

/-- A regular file that the snapshot takes along. -/
structure UntrackedFile where
  relPath : Path
  body : Bytes
  mode : Mode
deriving DecidableEq

/-- Where the checkout is, the umask, the files that cannot be read, and the modes that a checkout
gives. -/
structure SyncHost where
  dest : Path
  umask : Mode
  unreadable : Path → Bool
  checkoutMode : Hash → Path → Mode

/-! ## The functions -/

/-- `snapshotUntracked`. -/
def snapshotFiles (G : GoGit) (H : SyncHost) (w : Worktree) : List UntrackedFile :=
  match G.status w.tree with
  | .error _ => []
  | .ok paths => paths.filterMap fun p =>
      match w.tree p with
      | some (.file body) => if H.unreadable p then none else some ⟨p, body, perm (w.mode p)⟩
      | _ => none

/-- `os.WriteFile`: the mode counts only where the file is created. -/
def Worktree.writeFile (w : Worktree) (H : SyncHost) (f : UntrackedFile) : Option Worktree :=
  match w.tree f.relPath with
  | none => some { w with
      tree := put w.tree f.relPath (.file f.body)
      mode := Function.update w.mode f.relPath (f.mode &&& ~~~H.umask) }
  | some (.file _) => some { w with tree := put w.tree f.relPath (.file f.body) }
  | _ => none

def isLink : Option Node → Bool
  | some (.link _) => true
  | _ => false

/-- Whether a link stands at or above a path. -/
def linkOnWay (t : Tree) (p : Path) : Bool := p.inits.any fun q => isLink (t q)

/-! Behind a link: paths are those of the host, and the kernel walks them. -/

def Worktree.disk (w : Worktree) (dest : Path) : Tree := graft w.outside dest w.tree

def Worktree.set (w : Worktree) (dest p : Path) (n : Node) : Worktree :=
  if dest <+: p then { w with tree := put w.tree (p.drop dest.length) n }
  else { w with outside := put w.outside p n }

/-- `os.MkdirAll`, one directory after the other.  One that a dangling link names is not made. -/
def Worktree.mkdirBehind (w : Worktree) (dest dir : Path) : Option Worktree :=
  dir.inits.foldlM (fun w q =>
    match stat (w.disk dest) (dest ++ q) with
    | .found p =>
      match w.disk dest p with
      | some (.dir _) => some w
      | _ => none
    | .gap p _ false => some (w.set dest p (.dir true))
    | _ => none) w

/-- `os.WriteFile`, which creates also the file that a dangling link names. -/
def Worktree.writeBehind (w : Worktree) (H : SyncHost) (f : UntrackedFile) : Option Worktree :=
  match stat (w.disk H.dest) (H.dest ++ f.relPath) with
  | .found p =>
    match w.disk H.dest p with
    | some (.file _) => some (w.set H.dest p (.file f.body))
    | _ => none
  | .gap p [] _ =>
    let w := w.set H.dest p (.file f.body)
    some (if H.dest <+: p then
      { w with mode := Function.update w.mode (p.drop H.dest.length) (f.mode &&& ~~~H.umask) }
    else w)
  | _ => none

/-- `restoreUntracked`. -/
def restoreFiles (H : SyncHost) : Worktree → List UntrackedFile → Option Str × Worktree
  | w, [] => (none, w)
  | w, f :: rest =>
    if linkOnWay w.tree f.relPath then
      match w.mkdirBehind H.dest f.relPath.dropLast with
      | none => (some ("mkdir " ++ spell f.relPath.dropLast), w)
      | some w =>
        match w.writeBehind H f with
        | none => (some ("write " ++ spell f.relPath), w)
        | some w => restoreFiles H w rest
    else
      match mkdirAll w.tree f.relPath.dropLast with
      | none => (some ("mkdir " ++ spell f.relPath.dropLast), w)
      | some tree =>
        match Worktree.writeFile { w with tree := tree } H f with
        | none => (some ("write " ++ spell f.relPath), { w with tree := tree })
        | some w => restoreFiles H w rest

/-- The end of `CloneOrSync`, after the checkout of `target`. -/
def finishSync (G : GoGit) (H : SyncHost) (cfg : GitConfig) (snapshot : List UntrackedFile)
    (target : Hash) (w : Worktree) : Except FetchError Result × Worktree :=
  match restoreFiles H { w with mode := H.checkoutMode target } snapshot with
  | (some text, w) => (.error (.other ("restore untracked: " ++ text)), w)
  | (none, w) =>
    match if cfg.prune then G.clean w.tree else (none, w.tree) with
    | (some text, u) => (.error (.other ("clean: " ++ text)), { w with tree := u })
    | (none, u) => (.ok ⟨true, (G.count u).2, (G.count u).1, target⟩, { w with tree := u })

/-- `CloneOrSync`, from the fetch into an existing checkout on. -/
def syncExisting (G : GoGit) (H : SyncHost) (cfg : GitConfig) (w : Worktree) :
    Except FetchError Result × Worktree :=
  match G.fetchContext w.tree with
  | (some text, u) =>
    (.error (.other ("fetch " ++ cfg.url ++ ": " ++ text)), { w with tree := u })
  | (none, u) =>
    match resolveTargetHash G u cfg.ref with
    | .error e => (.error e, { w with tree := u })
    | .ok target =>
      if G.head u = some target then
        let u := if cfg.prune && (G.worktree u).isNone then (G.clean u).2 else u
        (.ok ⟨false, 0, 0, target⟩, { w with tree := u })
      else
        match G.worktree u with
        | some text => (.error (.other ("worktree: " ++ text)), { w with tree := u })
        | none =>
          let snapshot := if !cfg.prune then snapshotFiles G H { w with tree := u } else []
          match G.checkout target u with
          | (some text, u) =>
            (.error (.other ("checkout " ++ target ++ ": " ++ text)),
              { w with tree := u })
          | (none, u) => finishSync G H cfg snapshot target { w with tree := u }

/-! ## Writing back -/

variable {f : UntrackedFile} {w₁ : Worktree}

section Restore

variable {H : SyncHost} {w w' : Worktree} {p : Path} {snapshot : List UntrackedFile}

theorem mkdirAll_at {t u : Tree} {q : Path} (h : mkdirAll t q = some u) (p : Path) :
    u p = t p ∨ (t p = none ∧ u p = some (.dir true)) := by
  unfold mkdirAll at h
  split at h
  · cases h
    dsimp only
    split
    · rename_i hp
      exact .inr ⟨hp.2, rfl⟩
    · exact .inl rfl
  · cases h

theorem writeFile_other (h : w.writeFile H f = some w₁) (hp : p ≠ f.relPath) :
    w₁.tree p = w.tree p ∧ w₁.mode p = w.mode p := by
  unfold Worktree.writeFile at h
  split at h
  · cases h
    exact ⟨update_of_ne hp .., update_of_ne hp ..⟩
  · cases h
    exact ⟨update_of_ne hp .., rfl⟩
  · cases h

theorem writeFile_self (h : w.writeFile H f = some w₁) :
    w₁.tree f.relPath = some (.file f.body) ∧
      ((w.tree f.relPath = none ∧ w₁.mode f.relPath = f.mode &&& ~~~H.umask) ∨
        ((∃ bytes, w.tree f.relPath = some (.file bytes)) ∧
          w₁.mode f.relPath = w.mode f.relPath)) := by
  unfold Worktree.writeFile at h
  split at h
  · rename_i hnone
    cases h
    exact ⟨update_self .., .inl ⟨hnone, update_self ..⟩⟩
  · rename_i bytes hfile
    cases h
    exact ⟨update_self .., .inr ⟨⟨bytes, hfile⟩, rfl⟩⟩
  · cases h

/-- No file of the snapshot is written through a link. -/
def Straight (w : Worktree) (snapshot : List UntrackedFile) : Prop :=
  ∀ f ∈ snapshot, linkOnWay w.tree f.relPath = false

theorem Straight.step {tree : Tree} (hs : Straight w (f :: snapshot))
    (hmkdir : mkdirAll w.tree f.relPath.dropLast = some tree)
    (hwrite : Worktree.writeFile { w with tree := tree } H f = some w₁) : Straight w₁ snapshot := by
  have hlink : ∀ q, isLink (w₁.tree q) = true → isLink (w.tree q) = true := by
    intro q hq
    by_cases hqf : q = f.relPath
    · subst hqf
      rw [(writeFile_self hwrite).1] at hq
      cases hq
    rw [(writeFile_other hwrite hqf).1] at hq
    rcases mkdirAll_at hmkdir q with hat | ⟨-, hdir⟩
    · rw [← hat]
      exact hq
    · rw [show Worktree.tree { w with tree := tree } q = some (.dir true) from hdir] at hq
      cases hq
  intro g hg
  have hg := hs g (mem_cons_of_mem _ hg)
  rw [linkOnWay, any_eq_false] at hg ⊢
  exact fun q hq hl => hg q hq (hlink q hl)

theorem restoreFiles_cons (hs : Straight w (f :: snapshot))
    (h : restoreFiles H w (f :: snapshot) = (none, w')) :
    ∃ tree w₁, mkdirAll w.tree f.relPath.dropLast = some tree ∧
      Worktree.writeFile { w with tree := tree } H f = some w₁ ∧
      Straight w₁ snapshot ∧ restoreFiles H w₁ snapshot = (none, w') := by
  rw [restoreFiles, if_neg (by simp [hs f mem_cons_self])] at h
  split at h
  · cases h
  rename_i tree hmkdir
  split at h
  · cases h
  · rename_i w₁ hwrite
    exact ⟨tree, w₁, hmkdir, hwrite, hs.step hmkdir hwrite, h⟩

theorem restoreFiles_other (hs : Straight w snapshot)
    (h : restoreFiles H w snapshot = (none, w'))
    (hp : ∀ f ∈ snapshot, f.relPath ≠ p) :
    (w'.tree p = w.tree p ∨ (w.tree p = none ∧ w'.tree p = some (.dir true))) ∧
      w'.mode p = w.mode p := by
  induction snapshot generalizing w with
  | nil =>
    cases h
    exact ⟨.inl rfl, rfl⟩
  | cons f rest ih =>
    obtain ⟨tree, w₁, hmkdir, hwrite, hs, h⟩ := restoreFiles_cons hs h
    obtain ⟨htree, hmode⟩ := writeFile_other hwrite (hp f mem_cons_self).symm
    obtain ⟨hrest, hmode'⟩ := ih hs h fun g hg => hp g (mem_cons_of_mem _ hg)
    refine ⟨?_, hmode'.trans hmode⟩
    rw [htree] at hrest
    rcases mkdirAll_at hmkdir p with hat | ⟨hnone, hdir⟩
    · rw [← hat]
      exact hrest
    · rcases hrest with hrest | ⟨htp, -⟩
      · exact .inr ⟨hnone, hrest.trans hdir⟩
      · exact absurd (hdir.symm.trans htp) (by simp)

theorem restoreFiles_again {body bytes : Bytes} (hs : Straight w snapshot)
    (h : restoreFiles H w snapshot = (none, w'))
    (hp : ∀ f ∈ snapshot, f.relPath = p → f.body = body) (hw : w.tree p = some (.file bytes)) :
    w'.mode p = w.mode p ∧ (bytes = body → w'.tree p = some (.file body)) := by
  induction snapshot generalizing w bytes with
  | nil =>
    cases h
    exact ⟨rfl, fun heq => heq ▸ hw⟩
  | cons f rest ih =>
    obtain ⟨tree, w₁, hmkdir, hwrite, hs, h⟩ := restoreFiles_cons hs h
    have hrest := fun g hg => hp g (mem_cons_of_mem f hg)
    have htree : tree p = some (.file bytes) := mkdirAll_keeps hmkdir hw
    by_cases hf : f.relPath = p
    · subst hf
      obtain ⟨hfile, hmode | ⟨-, hmode⟩⟩ := writeFile_self hwrite
      · exact absurd (hmode.1.symm.trans htree) (by simp)
      · obtain ⟨hmode', hkeep⟩ := ih hs h hrest hfile
        exact ⟨hmode'.trans hmode, fun _ => hkeep (hp f mem_cons_self rfl)⟩
    · obtain ⟨htree', hmode⟩ := writeFile_other hwrite (Ne.symm hf)
      obtain ⟨hmode', hkeep⟩ := ih hs h hrest (htree'.trans htree)
      exact ⟨hmode'.trans hmode, hkeep⟩

theorem restoreFiles_self {body : Bytes} {mode : Mode} (hs : Straight w snapshot)
    (h : restoreFiles H w snapshot = (none, w')) (hmem : ∃ f ∈ snapshot, f.relPath = p)
    (hp : ∀ f ∈ snapshot, f.relPath = p → f.body = body ∧ f.mode = mode) :
    w'.tree p = some (.file body) ∧
      ((∀ bytes, w.tree p ≠ some (.file bytes)) → w'.mode p = mode &&& ~~~H.umask) := by
  induction snapshot generalizing w with
  | nil =>
    obtain ⟨f, hf, -⟩ := hmem
    cases hf
  | cons f rest ih =>
    obtain ⟨tree, w₁, hmkdir, hwrite, hs, h⟩ := restoreFiles_cons hs h
    have hrest : ∀ g ∈ rest, g.relPath = p → g.body = body ∧ g.mode = mode :=
      fun g hg => hp g (mem_cons_of_mem _ hg)
    by_cases hf : f.relPath = p
    · subst hf
      obtain ⟨hbody, hmode⟩ := hp f mem_cons_self rfl
      obtain ⟨hfile, hmodes⟩ := writeFile_self hwrite
      obtain ⟨hmode', hkeep⟩ := restoreFiles_again hs h (fun g hg heq => (hrest g hg heq).1) hfile
      refine ⟨hkeep hbody, fun hnot => ?_⟩
      rcases hmodes with ⟨-, hnew⟩ | ⟨⟨bytes, hold⟩, -⟩
      · rw [hmode', hnew, hmode]
      · rcases mkdirAll_at hmkdir f.relPath with hat | ⟨-, hdir⟩
        · exact absurd (hat.symm.trans hold) (hnot bytes)
        · exact absurd (hdir.symm.trans hold) (by simp)
    · obtain ⟨htree, -⟩ := writeFile_other hwrite (Ne.symm hf)
      obtain ⟨g, hg, hgp⟩ := hmem
      have hg : g ∈ rest := (mem_cons.mp hg).resolve_left fun heq => hf (heq ▸ hgp)
      obtain ⟨hfile, hmode⟩ := ih hs h ⟨g, hg, hgp⟩ hrest
      refine ⟨hfile, fun hnot => hmode fun bytes hbytes => ?_⟩
      rw [htree] at hbytes
      rcases mkdirAll_at hmkdir p with hat | ⟨-, hdir⟩
      · exact hnot bytes (hat.symm.trans hbytes)
      · exact absurd (hdir.symm.trans hbytes) (by simp)

end Restore

/-! ## Reaching the target -/

/-- What is taken from go-git: a fetch works in `.git`, a checkout leaves exactly the tree of the
commit beside it, `Status` lists the untracked files. -/
structure AdditiveLaws (G : GoGit) (c : Hash → Tree) : Prop where
  fetch : ∀ u q, q.head? ≠ some ".git".toList → (G.fetchContext u).2 q = u q
  checkout : ∀ target u v, G.checkout target u = (none, v) →
    ∀ q, q.head? ≠ some ".git".toList → v q = c target q
  commit : ∀ target q, q.head? = some ".git".toList → c target q = none
  status : ∀ u, ∃ paths, G.status u = .ok paths ∧ ∀ p ∈ paths, p.head? ≠ some ".git".toList

/-- A regular file that `Status` lists before the checkout. -/
def Untracked (G : GoGit) (w : Worktree) (p : Path) (body : Bytes) : Prop :=
  (∃ paths, G.status (G.fetchContext w.tree).2 = .ok paths ∧ p ∈ paths) ∧
    w.tree p = some (.file body)

/-- A path of the commit: a file or a link. -/
def IsEntry (c : Tree) (q : Path) : Prop :=
  (∃ bytes, c q = some (.file bytes)) ∨ ∃ target, c q = some (.link target)

/-- A path that neither equals a path of the commit nor is nested with one. -/
def ClearOf (c : Tree) (p : Path) : Prop := ∀ q, IsEntry c q → ¬p <+: q ∧ ¬q <+: p

/-- What an additive sync to a commit should come to. -/
structure ReachesTarget (G : GoGit) (c : Tree) (target : Hash) (w : Worktree) (res : Result)
    (w' : Worktree) : Prop where
  tracked : ∀ q bytes, c q = some (.file bytes) → w'.tree q = some (.file bytes)
  untracked : ∀ p body, Untracked G w p body → ClearOf c p →
    w'.tree p = some (.file body) ∧ w'.mode p = w.mode p
  revision : res.revision = target

/-- No link of the commit stands at or above an untracked file that is written back. -/
def Unlinked (G : GoGit) (H : SyncHost) (c : Tree) (w : Worktree) : Prop :=
  ∀ p body, Untracked G w p body → H.unreadable p = false → ∀ q, q <+: p → isLink (c q) = false

/-- No untracked file stands behind a link of the commit or where it has other content, and the
others can be read and lose no bits. -/
structure NothingLost (G : GoGit) (H : SyncHost) (c : Tree) (w : Worktree) : Prop where
  unlinked : Unlinked G H c w
  unclobbered : ∀ p body bytes, Untracked G w p body → H.unreadable p = false →
    c p = some (.file bytes) → bytes = body
  carried : ∀ p body, Untracked G w p body → ClearOf c p →
    H.unreadable p = false ∧ perm (w.mode p) &&& ~~~H.umask = w.mode p

section Target

variable {G : GoGit} {H : SyncHost} {cfg : GitConfig} {c : Hash → Tree} {w w' : Worktree}
  {res : Result} {target : Hash}

theorem syncExisting_ok (hprune : cfg.prune = false)
    (h : syncExisting G H cfg w = (.ok res, w'))
    (htarget : resolveTargetHash G (G.fetchContext w.tree).2 cfg.ref = .ok target)
    (hhead : G.head (G.fetchContext w.tree).2 ≠ some target) :
    ∃ v, G.checkout target (G.fetchContext w.tree).2 = (none, v) ∧
      restoreFiles H { w with tree := v, mode := H.checkoutMode target }
        (snapshotFiles G H { w with tree := (G.fetchContext w.tree).2 }) = (none, w') ∧
      res.revision = target := by
  unfold syncExisting at h
  rcases hfetch : G.fetchContext w.tree with ⟨_ | text, u⟩
  · rw [hfetch] at h htarget hhead
    dsimp only at h htarget hhead
    rw [htarget] at h
    dsimp only at h
    rw [if_neg hhead] at h
    split at h
    · cases h
    split at h
    · cases h
    rename_i v hcheckout
    refine ⟨v, hcheckout, ?_⟩
    unfold finishSync at h
    simp only [hprune] at h
    split at h
    · cases h
    · rename_i hrestore
      cases h
      exact ⟨hrestore, rfl⟩
  · rw [hfetch] at h
    cases h

theorem mem_snapshot_iff (hG : AdditiveLaws G c) :
    f ∈ snapshotFiles G H { w with tree := (G.fetchContext w.tree).2 } ↔
      Untracked G w f.relPath f.body ∧ H.unreadable f.relPath = false ∧
        f.mode = perm (w.mode f.relPath) := by
  obtain ⟨paths, hpaths, hgit⟩ := hG.status (G.fetchContext w.tree).2
  have htree : ∀ p ∈ paths, (G.fetchContext w.tree).2 p = w.tree p :=
    fun p hp => hG.fetch w.tree p (hgit p hp)
  unfold snapshotFiles
  rw [hpaths]
  simp only [mem_filterMap]
  constructor
  · rintro ⟨p, hp, hf⟩
    rw [htree p hp] at hf
    split at hf
    · rename_i body hbody
      split at hf
      · cases hf
      · rename_i hread
        cases hf
        exact ⟨⟨⟨paths, hpaths, hp⟩, hbody⟩, by simpa using hread, rfl⟩
    · cases hf
  · rintro ⟨⟨⟨paths', hpaths', hp⟩, hbody⟩, hread, hmode⟩
    rw [hpaths] at hpaths'
    cases hpaths'
    refine ⟨f.relPath, hp, ?_⟩
    rw [htree _ hp, hbody]
    simp only [hread, Bool.false_eq_true, if_false, ← hmode]

theorem Untracked.notGit {p : Path} {body : Bytes} (hG : AdditiveLaws G c)
    (h : Untracked G w p body) : p.head? ≠ some ".git" := by
  obtain ⟨⟨paths, hpaths, hp⟩, -⟩ := h
  obtain ⟨paths', hpaths', hno⟩ := hG.status (G.fetchContext w.tree).2
  rw [hpaths] at hpaths'
  cases hpaths'
  exact hno p hp

theorem straight_of_unlinked {u v : Tree} (hG : AdditiveLaws G c)
    (hcheckout : G.checkout target u = (none, v)) (hlinks : Unlinked G H (c target) w) :
    Straight { w with tree := v, mode := H.checkoutMode target }
      (snapshotFiles G H { w with tree := (G.fetchContext w.tree).2 }) := by
  intro f hf
  obtain ⟨hp, hread, -⟩ := (mem_snapshot_iff hG).mp hf
  rw [linkOnWay, any_eq_false]
  intro q hq
  rw [mem_inits] at hq
  have hgit : q.head? ≠ some ".git" := by
    intro hhead
    obtain ⟨r, hr⟩ := hq
    refine hp.notGit hG ?_
    rw [← hr, head?_append, hhead]
    rfl
  have hlink : isLink (v q) = false := by
    rw [hG.checkout _ _ _ hcheckout q hgit]
    exact hlinks _ _ hp hread q hq
  simp [hlink]

/-- What a sync leaves: untracked files that can be read, and otherwise the commit. -/
structure Restored (G : GoGit) (H : SyncHost) (c : Tree) (w w' : Worktree) : Prop where
  back : ∀ {p body}, Untracked G w p body → H.unreadable p = false →
    w'.tree p = some (.file body) ∧
      ((∀ bytes, c p ≠ some (.file bytes)) → w'.mode p = perm (w.mode p) &&& ~~~H.umask)
  other : ∀ {p}, p.head? ≠ some ".git".toList →
    (∀ body, Untracked G w p body → H.unreadable p = true) →
      w'.tree p = c p ∨ (c p = none ∧ w'.tree p = some (.dir true))

theorem restored_of_restoreFiles {u v : Tree} (hG : AdditiveLaws G c)
    (hcheckout : G.checkout target u = (none, v)) (hlinks : Unlinked G H (c target) w)
    (h : restoreFiles H { w with tree := v, mode := H.checkoutMode target }
      (snapshotFiles G H { w with tree := (G.fetchContext w.tree).2 }) = (none, w')) :
    Restored G H (c target) w w' := by
  have hv := hG.checkout _ _ _ hcheckout
  have hs := straight_of_unlinked hG hcheckout hlinks
  constructor
  · intro p body hp hread
    rw [← hv p (hp.notGit hG)]
    refine restoreFiles_self hs h
      ⟨⟨p, body, perm (w.mode p)⟩, (mem_snapshot_iff hG).mpr ⟨hp, hread, rfl⟩, rfl⟩ ?_
    rintro f hf rfl
    obtain ⟨⟨-, hbody⟩, -, hmode⟩ := (mem_snapshot_iff hG).mp hf
    rw [hp.2] at hbody
    cases hbody
    exact ⟨rfl, hmode⟩
  · intro p hgit hp
    rw [← hv p hgit]
    refine (restoreFiles_other hs h ?_).1
    rintro f hf rfl
    obtain ⟨hun, hread, -⟩ := (mem_snapshot_iff hG).mp hf
    rw [hp _ hun] at hread
    cases hread

theorem not_file_of_clearOf {t : Tree} {p : Path} (h : ClearOf t p) (bytes : Bytes) :
    t p ≠ some (.file bytes) :=
  fun hbytes => (h p (.inl ⟨bytes, hbytes⟩)).1 prefix_rfl

theorem Restored.reaches (hr : Restored G H (c target) w w') (hG : AdditiveLaws G c)
    (hlost : NothingLost G H (c target) w) (hrev : res.revision = target) :
    ReachesTarget G (c target) target w res w' := by
  refine ⟨fun q bytes hq => ?_, fun p body hp hcl => ?_, hrev⟩
  · by_cases hback : ∃ body, Untracked G w q body ∧ H.unreadable q = false
    · obtain ⟨body, hp, hread⟩ := hback
      rw [hlost.unclobbered q body bytes hp hread hq]
      exact (hr.back hp hread).1
    have hgit : q.head? ≠ some ".git" := by
      intro hhead
      rw [hG.commit target q hhead] at hq
      cases hq
    have hnot : ∀ body, Untracked G w q body → H.unreadable q = true := by
      intro body hp
      by_contra hread
      exact hback ⟨body, hp, by simpa using hread⟩
    rcases hr.other hgit hnot with hsame | ⟨hnone, -⟩
    · exact hsame.trans hq
    · exact absurd (hnone.symm.trans hq) (by simp)
  · obtain ⟨hread, hmode⟩ := hlost.carried p body hp hcl
    obtain ⟨hnow, hmode'⟩ := hr.back hp hread
    exact ⟨hnow, (hmode' (not_file_of_clearOf hcl)).trans hmode⟩

theorem Restored.nothingLost (hr : Restored G H (c target) w w') (hG : AdditiveLaws G c)
    (hlinks : Unlinked G H (c target) w) (h : ReachesTarget G (c target) target w res w') :
    NothingLost G H (c target) w := by
  refine ⟨hlinks, fun p body bytes hp hread hbytes => ?_, fun p body hp hcl => ?_⟩
  · have hnow := h.tracked p bytes hbytes
    rw [(hr.back hp hread).1] at hnow
    cases hnow
    rfl
  · obtain ⟨hnow, hmode⟩ := h.untracked p body hp hcl
    have hnot := not_file_of_clearOf hcl
    cases hread : H.unreadable p with
    | false => exact ⟨rfl, ((hr.back hp hread).2 hnot).symm.trans hmode⟩
    | true =>
      rcases hr.other (hp.notGit hG) (fun _ _ => hread) with hsame | ⟨-, hdir⟩
      · exact absurd (hsame.symm.trans hnow) (hnot body)
      · exact absurd (hdir.symm.trans hnow) (by simp)

end Target

/-! ## A sync -/

def newTxt : Path := ["new.txt"]

def localTxt : Path := ["local.txt"]

def newCommit : Tree := fun q =>
  if q = [] then some (.dir true) else if q = newTxt then some (.file [2]) else none

/-- A checkout of `a`, with these files untracked, and its remote at `b`. -/
def behind (listed : List Path) : GoGit where
  list := .ok []
  plainOpen := fun _ => none
  plainClone := fun u => (none, u)
  fetchContext := fun u => (none, u)
  reference := fun _ ref => if ref = "refs/remotes/origin/main".toList then some ['b'] else none
  commitObject := fun _ _ => false
  head := fun _ => some ['a']
  worktree := fun _ => none
  status := fun _ => .ok (listed.filter fun p => p.head? ≠ some ".git".toList)
  checkout := fun _ u => (none, fun q => if q.head? = some ".git".toList then u q else newCommit q)
  clean := fun u => (none, u)
  count := fun _ => (0, 0)

theorem additiveLaws_behind (listed : List Path) :
    AdditiveLaws (behind listed) fun _ => newCommit where
  fetch := fun _ _ _ => rfl
  checkout := by
    rintro target u v ⟨⟩ q hq
    exact if_neg hq
  commit := by
    intro target q hq
    have hnil : q ≠ [] := by
      rintro rfl
      cases hq
    have hnew : q ≠ newTxt := by
      rintro rfl
      revert hq
      decide
    rw [newCommit, if_neg hnil, if_neg hnew]
  status := fun u => ⟨_, rfl, fun p hp => by simpa using (mem_filter.mp hp).2⟩

def dirty (other : Path) : Worktree where
  tree := fun q =>
    if q = [] then some (.dir true)
    else if q = other then some (.file [1])
    else if q = localTxt then some (.file [3]) else none
  mode := fun q => if q = localTxt then 0o664 else 0o644
  outside := fun q => if q = [] then some (.dir true) else none

def syncHost (umask : Mode) : SyncHost := ⟨["srv"], umask, fun _ => false, fun _ _ => 0o644⟩

-- the commit has a link where an untracked file had its directory
example :
    let u : Tree := treeOf [("/", .dir true), ("/d", .link "data"), ("/data", .dir true),
      ("/data/x", .file [2])]
    let w : Worktree := { dirty newTxt with tree := u }
    (restoreFiles (syncHost 0o022) w [⟨["d", "x"], [1], 0o644⟩]).2.tree ["data", "x"] =
      some (.file [1]) := by
  decide +kernel

end PowerManage.Remote
