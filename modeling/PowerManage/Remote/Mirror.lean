import PowerManage.Remote.Integrity

/-!
# What a fetch puts in place

The other half of `Frame`: when a fetch says that it changed the destination, what is there then.
For a single file the bytes that passed the cap, for an archive exactly the tree that was unpacked,
for a prefix every object of the listing, for a checkout every file of the commit.

`Contains u c` is the form for the last two, where a destination may hold more than was fetched.
-/

namespace PowerManage.Remote

open PathName FileTree Text List Function

/-- The tree has every file of the commit. -/
structure Contains (u c : Tree) : Prop where
  exists_root : (u []).isSome = true
  file : ∀ q bytes, c q = some (.file bytes) → u q = some (.file bytes)

variable {q tmp : Path} {body : Body} {maxBytes : Int} {data : Bytes} {o : Outcome} {res : Result}
  {src : S3Source} {srv : Server} {b : Bucket} {w : Bool} {u v : Unpacked} {n : Nat}
  {c : Hash → Tree} {G : GoGit} {cfg : GitConfig}

section

variable {W : World} {t t' : Tree} {d : Dest} {io : Faults}

/-! ## Single files -/

theorem streamToTmp_file {io : StreamFaults}
    (h : streamToTmp t tmp body maxBytes io = (.ok data, t')) : t' tmp = some (.file data) := by
  obtain ⟨-, t₁, -, rfl⟩ := streamToTmp_ok h
  exact update_self ..

def fileRevision (W : World) (etag : Str) (data : Bytes) : Str :=
  if etag = [] then hexEncode (W.sha256 data) else etag

theorem rename_self : rename t tmp q q = t tmp := by
  rw [rename, graft, if_pos prefix_rfl, drop_length, below, append_nil]

theorem installFile_ok {revision : Str} {checksum : Option Bytes} {r : Response}
    (ho : installFile W revision checksum maxBytes t d r io = o) (h : o.result = .ok res) :
    ∃ data, capped maxBytes r.body = some data ∧ o.tree d.path = some (.file data) ∧
      res.revision = fileRevision W r.etag data ∧ res.changed = true := by
  unfold installFile at ho
  dsimp only at ho
  split at ho
  · cases ho
    cases h
  rename_i data t₁ hs
  split at ho
  · cases ho
    cases h
  split at ho
  · cases ho
    cases h
  split at ho
  · cases ho
    cases h
  · cases ho
    cases h
    exact ⟨data, (streamToTmp_ok hs).1, rename_self.trans (streamToTmp_file hs), rfl, rfl⟩

theorem probe_ok {src : HTTPSource} (h : probe src t d srv = some (.ok res)) :
    res = .unchanged src.revision ∧ src.revision ≠ [] ∧ checkNotModified src srv = .ok true := by
  unfold probe at h
  split at h
  · cases h
  split at h
  · cases h
  rename_i hrev
  split at h
  · cases h
  · rename_i hhead
    cases h
    exact ⟨rfl, hrev, hhead⟩
  · cases h

theorem fetchFile_ok {src : HTTPSource} (ho : fetchFile W src t d srv io = o)
    (h : o.result = .ok res) :
    (res = .unchanged src.revision ∧ o.tree = t ∧ src.revision ≠ [] ∧
      checkNotModified src srv = .ok true) ∨
    ∃ r data, openBody src srv = .ok r ∧ capped src.maxBytes r.body = some data ∧
      o.tree d.path = some (.file data) ∧ res.revision = fileRevision W r.etag data ∧
      res.changed = true := by
  unfold fetchFile at ho
  split at ho
  · rename_i result hprobe
    cases ho
    obtain ⟨hres, hhead⟩ := probe_ok (hprobe.trans (congrArg some h))
    exact .inl ⟨hres, rfl, hhead⟩
  split at ho
  · cases ho
    cases h
  · rename_i r hr
    obtain ⟨data, hinstall⟩ := installFile_ok ho h
    exact .inr ⟨r, data, hr, hinstall⟩

theorem getObject_ok (ho : (match openObject src b with
      | .error e => Outcome.failed src.revision t e
      | .ok r => installFile W src.revision none defaultHTTPMaxBytes t d r io) = o)
    (h : o.result = .ok res) :
    ∃ r data, openObject src b = .ok r ∧ capped defaultHTTPMaxBytes r.body = some data ∧
      o.tree d.path = some (.file data) ∧ res.revision = fileRevision W r.etag data ∧
      res.changed = true := by
  split at ho
  · cases ho
    cases h
  · rename_i r hr
    obtain ⟨data, hinstall⟩ := installFile_ok ho h
    exact ⟨r, data, hr, hinstall⟩

theorem fetchObject_ok (ho : fetchObject W src t d b io = o) (h : o.result = .ok res) :
    (res = .unchanged src.revision ∧ o.tree = t ∧ src.revision ≠ [] ∧
      headNotModified src b = .ok true) ∨
    ∃ r data, openObject src b = .ok r ∧ capped defaultHTTPMaxBytes r.body = some data ∧
      o.tree d.path = some (.file data) ∧ res.revision = fileRevision W r.etag data ∧
      res.changed = true := by
  unfold fetchObject at ho
  dsimp only at ho
  split at ho
  · cases ho
    cases h
  split at ho
  · exact .inr (getObject_ok ho h)
  rename_i hrev
  split at ho
  · cases ho
    cases h
  · rename_i hhead
    cases ho
    cases h
    exact .inl ⟨rfl, rfl, hrev, hhead⟩
  · exact .inr (getObject_ok ho h)

/-! ## Archives -/

theorem writeFile_root {p : Path} (h : writeFile t p data = .ok t') (hroot : t [] = some (.dir w)) :
    t' [] = some (.dir w) := by
  unfold writeFile at h
  split at h
  · cases h
  rename_i t₁ hm
  have ht₁ := mkdirAll_keeps hm hroot
  split at h
  · cases h
  rename_i hnot
  cases h
  rw [put, update_of_ne, ht₁]
  rintro rfl
  exact hnot w ht₁

theorem unpackFile_root {out : Path} {data : Body} (h : unpackFile maxBytes u out data = .ok v)
    (hroot : u.tree [] = some (.dir w)) : v.tree [] = some (.dir w) := by
  unfold unpackFile at h
  split at h
  · cases h
  rename_i hw
  split at h
  · cases h
  dsimp only at h
  split at h
  · cases h
  · cases h
    exact writeFile_root hw hroot

theorem makeDir_root {p : Path} (h : makeDir t p = .ok t') (hroot : t [] = some (.dir w)) :
    t' [] = some (.dir w) := by
  unfold makeDir at h
  split at h
  · cases h
  · rename_i hm
    cases h
    exact mkdirAll_keeps hm hroot

theorem unpackTar_root {e : TarEntry} (h : unpackTar maxBytes u e = .ok v)
    (hroot : u.tree [] = some (.dir w)) : v.tree [] = some (.dir w) := by
  unfold unpackTar at h
  split at h
  · cases h
  · split at h
    · cases h
    · split at h
      · cases h
      · rename_i hm
        cases h
        exact makeDir_root hm hroot
  · split at h
    · cases h
    · split at h
      · cases h
      · split at h
        · cases h
        · exact unpackFile_root h hroot

theorem unpackZip_root {e : ZipEntry} (h : unpackZip maxBytes u e = .ok v)
    (hroot : u.tree [] = some (.dir w)) : v.tree [] = some (.dir w) := by
  unfold unpackZip at h
  split at h
  · cases h
  split at h
  · split at h
    · cases h
    · rename_i hm
      cases h
      exact makeDir_root hm hroot
  · dsimp only at h
    split at h
    · cases h
    split at h
    · cases h
    · split at h
      · cases h
      · exact unpackFile_root h hroot

theorem unpackAll_root {α : Type} {one : Unpacked → α → Except FetchError Unpacked}
    (hone : ∀ {u v e}, one u e = .ok v → u.tree [] = some (.dir w) → v.tree [] = some (.dir w))
    {io : Nat → Option Str} {i : Nat} {es : List α} (h : unpackAll one io i u es = .ok v)
    (hroot : u.tree [] = some (.dir w)) : v.tree [] = some (.dir w) := by
  induction es generalizing i u with
  | nil =>
    cases h
    exact hroot
  | cons e es ih =>
    rw [unpackAll] at h
    split at h
    · cases h
    split at h
    · cases h
    · rename_i hu
      exact ih h (hone hu hroot)

theorem extract_root {D : Decoders} {io : Nat → Option Str} {kind : ArchiveKind}
    (h : extract D io maxBytes kind data = .ok u) : u.tree [] = some (.dir true) := by
  have htar : extractTarGz D io maxBytes data = .ok u → u.tree [] = some (.dir true) := by
    intro h
    unfold extractTarGz at h
    split at h
    · cases h
    split at h
    · cases h
    rename_i hu
    split at h
    · cases h
    · cases h
      exact unpackAll_root unpackTar_root hu rfl
  cases kind with
  | zip =>
    change extractZip D io maxBytes data = .ok u at h
    unfold extractZip at h
    split at h
    · cases h
    · exact unpackAll_root unpackZip_root h rfl
  | tarGz | unknown | tarXz => exact htar h

theorem swapStaging_ok {revision : Str} {staging : Path} {done : Tree → Outcome}
    (hstaging : Apart d.path staging) (ho : swapStaging revision t d staging io done = o)
    (h : o.result = .ok res) : ∃ t₁, o = done t₁ ∧ below t₁ d.path = below t staging := by
  have hdir : ¬staging <+: d.parent := Dest.not_prefix_parent hstaging
  have hclear : ∀ b : Bool, below (if b then erase t d.path fun _ => true else t) staging =
      below t staging := by
    intro b
    cases b
    · rfl
    · exact below_erase hstaging
  unfold swapStaging at ho
  dsimp only at ho
  split at ho
  · cases ho
    cases h
  split at ho
  · cases ho
    cases h
  rename_i t₁ hm
  have ht₁ : below t₁ staging = below t staging :=
    (below_mkdirAll (Option.ite_none_left_eq_some.mp hm).2 hdir).trans (hclear _)
  split at ho
  · cases ho
    cases h
  split at ho
  · cases ho
    cases h
  · exact ⟨_, ho.symm, below_rename_self.trans ht₁⟩

/-- Behind a slash the directory is made before the swap, which then fails. -/
theorem swapStaging_slash {revision : Str} {staging : Path} {done : Tree → Outcome}
    (hslash : d.slash = true) : (swapStaging revision t d staging io done).result ≠ .ok res := by
  intro h
  unfold swapStaging at h
  dsimp only at h
  split at h
  · cases h
  split at h
  · cases h
  rename_i t₁ hm
  have hmade : ∃ w, t₁ d.path = some (.dir w) := by
    refine dirs_of_mkdirAll (Option.ite_none_left_eq_some.mp hm).2 _ ?_
    rw [Dest.parent, if_pos hslash]
  obtain ⟨w, hw⟩ := hmade
  rw [if_pos (.inr (by rw [hw]; rfl))] at h
  cases h

def archiveRevision (W : World) (etag : Str) (data : Bytes) : Str :=
  if etag = [] then "sha256:" ++ hexEncode (W.sha256 data) else etag

theorem fetchArchive_ok {src : HTTPSource} (ho : fetchArchive W src t d srv io = o)
    (h : o.result = .ok res) :
    (res = .unchanged src.revision ∧ o.tree = t ∧
      (src.revision ≠ [] ∧ checkNotModified src srv = .ok true ∨
        ∃ r, openBody src srv = .ok r ∧ r.status = statusNotModified)) ∨
    ∃ r data u, openBody src srv = .ok r ∧ r.status ≠ statusNotModified ∧
      capped src.maxBytes r.body = some data ∧
      extract W.decoders (fun _ => none) src.maxBytes (detectArchiveKind r.contentType src.url)
        data = .ok u ∧
      below o.tree d.path = u.tree ∧ res.revision = archiveRevision W r.etag data ∧
      res.changed = true := by
  unfold fetchArchive at ho
  split at ho
  · rename_i result hprobe
    cases ho
    obtain ⟨hres, hhead⟩ := probe_ok (hprobe.trans (congrArg some h))
    exact .inl ⟨hres, rfl, .inl hhead⟩
  split at ho
  · cases ho
    cases h
  rename_i r hr
  split at ho
  · rename_i hstatus
    cases ho
    cases h
    exact .inl ⟨rfl, rfl, .inr ⟨r, hr, hstatus⟩⟩
  rename_i hstatus
  dsimp only at ho
  split at ho
  · cases ho
    cases h
  split at ho
  · cases ho
    cases h
  split at ho
  · cases ho
    cases h
  rename_i data t₁ hs
  split at ho
  · cases ho
    cases h
  split at ho
  · cases ho
    cases h
  split at ho
  · cases ho
    cases h
  rename_i u hu
  cases ho
  have hname : d.slash = false := by
    by_contra hslash
    exact swapStaging_slash (Bool.eq_true_of_not_eq_false hslash) h
  have htmp : Apart (d.sibling (".dl" ++ tmpSuffix io.stream.suffix)) d.path :=
    sibling_apart hname (by simp)
  have hstaging : Apart (d.sibling (".staging" ++ tmpSuffix io.stagingSuffix)) d.path :=
    sibling_apart hname (by simp)
  obtain ⟨t₂, hswap, ht₂⟩ := swapStaging_ok hstaging.symm rfl h
  refine .inr ⟨r, data, u, hr, hstatus, (streamToTmp_ok hs).1, extract_noFault hu, ?_⟩
  rw [hswap] at h ⊢
  cases h
  refine ⟨?_, rfl, rfl⟩
  exact (below_removeTmp htmp).trans (ht₂.trans below_graft_self)

/-! ## Prefixes -/

theorem streamToTmp_keeps {x : Path} {n : Node} {io : StreamFaults}
    (h : streamToTmp t tmp body maxBytes io = (.ok data, t')) (hx : t x = some n)
    (hne : x ≠ tmp) : t' x = some n := by
  obtain ⟨-, t₁, hm, rfl⟩ := streamToTmp_ok h
  rw [put, update_of_ne hne]
  exact mkdirAll_keeps hm hx

/-- The object is in place, below directories, and a directory it replaces nothing of keeps its
entries. -/
theorem streamObjectToFile_ok {out : Dest} {io : ObjectFaults} (hname : out.slash = false)
    (h : streamObjectToFile t out body maxBytes io = (.ok n, t')) :
    (∃ data, capped maxBytes body = some data ∧ t' out.path = some (.file data)) ∧
      Dirs t' out.dir ∧
      ∀ x node, t x = some node → ¬out.sibling (tmpSuffix io.stream.suffix) <+: x →
        (out.path <+: x → ∃ w, t out.path = some (.dir w)) → t' x = some node := by
  have hapart : Apart (out.sibling (tmpSuffix io.stream.suffix)) out.path :=
    sibling_apart hname (tmpSuffix_ne _)
  unfold streamObjectToFile at h
  split at h
  · cases h
  rename_i t₁ hm
  have hm : mkdirAll t out.dir = some t₁ :=
    (Option.ite_none_left_eq_some.mp hm).2
  dsimp only at h
  split at h
  · cases h
  rename_i data t₂ hs
  split at h
  · cases h
  rename_i hfree
  cases h
  have hkeep : ∀ {x node}, t x = some node →
      x ≠ out.sibling (tmpSuffix io.stream.suffix) → t₂ x = some node :=
    fun hx hne => streamToTmp_keeps hs (mkdirAll_keeps hm hx) hne
  have hnotdir : ∀ w, t out.path ≠ some (.dir w) := by
    intro w hw
    have := hkeep hw hapart.ne.symm
    cases w <;> simp [this] at hfree
  have hrename : ∀ {x}, ¬out.sibling (tmpSuffix io.stream.suffix) <+: x →
      ¬out.path <+: x →
      rename t₂ (out.sibling (tmpSuffix io.stream.suffix)) out.path x = t₂ x := by
    intro x htmp hout
    rw [rename, graft, if_neg hout, erase, if_neg fun hx => htmp hx.1]
  refine ⟨⟨data, (streamToTmp_ok hs).1, rename_self.trans (streamToTmp_file hs)⟩, ?_, ?_⟩
  · intro q hq
    obtain ⟨w, hw⟩ := dirs_of_mkdirAll hm q hq
    have htmp : ¬out.sibling (tmpSuffix io.stream.suffix) <+: q :=
      fun hp => sibling_not_prefix_parent _ (Dest.parent_of_name hname ▸ hp.trans hq)
    refine ⟨w, (hrename htmp fun hp => path_not_prefix_dir (hp.trans hq)).trans ?_⟩
    exact streamToTmp_keeps hs hw fun heq => htmp (heq ▸ prefix_rfl)
  · intro x node hx htmp hdir
    have hout : ¬out.path <+: x := by
      intro hp
      obtain ⟨w, hw⟩ := hdir hp
      exact hnotdir w hw
    exact (hrename htmp hout).trans (hkeep hx fun heq => htmp (heq ▸ prefix_rfl))

def relPath (rel : Str) : Path := (components rel).filter fun c => decide (Proper c)

theorem relPathForKey_ok {pre key rel : Str} (h : relPathForKey pre key = .ok rel) :
    dotDot ∉ components rel := by
  unfold relPathForKey at h
  split at h
  · cases h
  dsimp only at h
  split at h
  · cases h
  split at h
  · cases h
  split at h
  · cases h
  · rename_i hdots
    cases h
    exact hdots

theorem outPath_eq {rel : Str} (h : dotDot ∉ components rel) :
    outPath d rel = d.path ++ relPath rel :=
  foldl_push_of_noDotDot h d.path

theorem path_append_ne (q : Path) : d.path ++ q ≠ [] := by
  rw [Dest.path, append_assoc]
  exact append_ne_nil_of_right_ne_nil _ (by simp)

/-- Each object's GET serves the file of the revision, which has no others; no temporary name is in
the way, and with `Prune` the names are clean. -/
structure Listed (src : S3Source) (d : Dest) (b : Bucket) (io : Nat → ObjectFaults)
    (objs : List S3Object) (c : Tree) : Prop where
  served : ∀ i obj rel r, objs[i]? = some obj → relPathForKey src.cfg.key obj.key = .ok rel →
    openSingleObject src obj.key (b.object i) = .ok r →
    c (relPath rel) = some (.file r.body.bytes)
  listed : ∀ q bytes, c q = some (.file bytes) →
    ∃ obj ∈ objs, ∃ rel, relPathForKey src.cfg.key obj.key = .ok rel ∧ relPath rel = q
  unused : ∀ i obj rel obj' rel', objs[i]? = some obj → obj' ∈ objs →
    relPathForKey src.cfg.key obj.key = .ok rel → relPathForKey src.cfg.key obj'.key = .ok rel' →
    ¬(Dest.ofPath (outPath d rel)).sibling (tmpSuffix (io i).stream.suffix) <+: outPath d rel'
  clean : src.cfg.prune = true → ∀ obj ∈ objs, ∀ rel,
    relPathForKey src.cfg.key obj.key = .ok rel → relName (relPath rel) = rel

/-- The object is in place: directories down to it, and the bytes of the revision. -/
structure Placed (t : Tree) (d : Dest) (c : Tree) (q : Path) : Prop where
  dirs : Dirs t (d.path ++ q).dropLast
  file : ∃ bytes, c q = some (.file bytes) ∧ t (d.path ++ q) = some (.file bytes)

theorem prefix_iff_dropLast {x : Path} (hq : q ≠ []) : x <+: q ↔ x = q ∨ x <+: q.dropLast := by
  have h := @List.prefix_concat_iff _ x q.dropLast (q.getLast hq)
  rwa [dropLast_append_getLast] at h

theorem Placed.step {c : Tree} {q' : Path} {io : ObjectFaults}
    (hs : streamObjectToFile t (.ofPath (d.path ++ q')) body defaultHTTPMaxBytes io = (.ok n, t'))
    (hc : c q' = some (.file body.bytes))
    (hunused : ¬(Dest.ofPath (d.path ++ q')).sibling (tmpSuffix io.stream.suffix) <+: d.path ++ q)
    (h : Placed t d c q ∨ q = q') : Placed t' d c q := by
  obtain ⟨⟨data, hcap, hfile⟩, hdirs, hkeep⟩ := streamObjectToFile_ok rfl hs
  obtain ⟨-, rfl⟩ := capped_eq_some (by decide) (by decide) hcap
  rw [Dest.ofPath_path (path_append_ne q')] at hfile hkeep
  by_cases hq : q = q'
  · subst hq
    exact ⟨hdirs, _, hc, hfile⟩
  have hold := h.resolve_right hq
  have hne : d.path ++ q' ≠ d.path ++ q := fun heq => hq ((append_right_inj _).mp heq).symm
  have hpre : ∀ {x node}, x <+: d.path ++ q → t x = some node → t' x = some node := by
    intro x node hx hnode
    refine hkeep x node hnode (fun hp => hunused (hp.trans hx)) fun hp => ?_
    rcases (prefix_iff_dropLast (path_append_ne q)).mp (hp.trans hx) with heq | hdir
    · exact absurd heq hne
    · exact hold.dirs _ hdir
  obtain ⟨bytes, hbytes, hnode⟩ := hold.file
  refine ⟨fun x hx => ?_, bytes, hbytes, hpre prefix_rfl hnode⟩
  obtain ⟨w, hw⟩ := hold.dirs x hx
  exact ⟨w, hpre (hx.trans ( dropLast_prefix _)) hw⟩

theorem root_step {io : ObjectFaults}
    (hs : streamObjectToFile t (.ofPath (d.path ++ q)) body maxBytes io = (.ok n, t'))
    (hroot : t d.path = some (.dir w)) : t' d.path = some (.dir w) := by
  obtain ⟨-, -, hkeep⟩ := streamObjectToFile_ok rfl hs
  have hpath := Dest.ofPath_path (path_append_ne (d := d) q)
  refine hkeep _ _ hroot (fun hp => ?_) fun hp => ?_
  · refine (sibling_apart (d := Dest.ofPath (d.path ++ q)) rfl (tmpSuffix_ne io.stream.suffix)).1 ?_
    rw [hpath]
    exact hp.trans (prefix_append _ _)
  · rw [hpath] at hp ⊢
    rw [IsPrefix.eq_of_length_le hp (by simp)]
    exact ⟨w, hroot⟩

/-- The state of the loop when the objects `pre` are done. -/
structure SyncedTo (src : S3Source) (t : Tree) (d : Dest) (c : Tree) (done : Synced)
    (pre : List S3Object) : Prop where
  root : ∃ w, t d.path = some (.dir w)
  placed : ∀ obj ∈ pre, ∃ rel, relPathForKey src.cfg.key obj.key = .ok rel ∧
    rel ∈ done.relPaths ∧ Placed t d c (relPath rel)

theorem syncObjects_ok {io : Nat → ObjectFaults} {c : Tree} {pre objs : List S3Object}
    {done done' : Synced} (hl : Listed src d b io (pre ++ objs) c)
    (hpre : SyncedTo src t d c done pre)
    (h : syncObjects src d b io pre.length t done objs = (.ok done', t')) :
    SyncedTo src t' d c done' (pre ++ objs) := by
  induction objs generalizing pre t done with
  | nil =>
    cases h
    rw [append_nil]
    exact hpre
  | cons obj objs ih =>
    rw [syncObjects] at h
    split at h
    · cases h
    rename_i rel hrel
    have hout := outPath_eq (d := d) (relPathForKey_ok hrel)
    dsimp only at h
    split at h
    · cases h
    split at h
    · cases h
    rename_i r hr
    split at h
    · cases h
    rename_i n t₁ hs
    rw [hout] at hs
    have hi : (pre ++ obj :: objs)[pre.length]? = some obj := by simp
    have hc := hl.served _ _ _ _ hi hrel hr
    have hstep : ∀ obj' ∈ pre ++ [obj], ∀ rel',
        relPathForKey src.cfg.key obj'.key = .ok rel' →
        Placed t d c (relPath rel') ∨ relPath rel' = relPath rel →
        Placed t₁ d c (relPath rel') := by
      intro obj' hobj' rel' hrel' hplaced
      refine Placed.step hs hc ?_ hplaced
      have hmem : obj' ∈ pre ++ obj :: objs := by
        rw [append_cons]
        exact mem_append_left _ hobj'
      have := hl.unused _ _ _ _ _ hi hmem hrel hrel'
      rwa [hout, outPath_eq (relPathForKey_ok hrel')] at this
    rw [append_cons] at hl ⊢
    refine ih hl ⟨?_, ?_⟩ (by rw [length_append]; exact h)
    · obtain ⟨w, hw⟩ := hpre.root
      exact ⟨w, root_step hs hw⟩
    · intro obj' hobj'
      rcases mem_append.mp hobj' with hold | hnew
      · obtain ⟨rel', hrel', hmem, hplaced⟩ := hpre.placed obj' hold
        exact ⟨rel', hrel', mem_cons_of_mem _ hmem,
          hstep obj' hobj' rel' hrel' (.inl hplaced)⟩
      · cases mem_singleton.mp hnew
        exact ⟨rel, hrel, mem_cons_self, hstep _ hobj' rel hrel (.inr rfl)⟩

theorem pruneTo_keeps {recordedDests : Finset Path} {keep : List Str} {io : PruneFaults}
    {e : Option FetchError} (h : pruneTo t recordedDests d keep io = (e, t'))
    (hq : victim t d keep io.empty q = false) : t' (d.path ++ q) = t (d.path ++ q) := by
  have herase : ∀ reached : Path → Bool,
      erase t d.path (fun p => victim t d keep io.empty (p.drop d.path.length) && reached p)
        (d.path ++ q) = t (d.path ++ q) := by
    intro reached
    rw [erase, if_neg]
    rintro ⟨-, hgone⟩
    rw [drop_left, hq] at hgone
    cases hgone
  unfold pruneTo at h
  split at h
  · cases h
    rfl
  split at h
  · cases h
    rfl
  · cases h
    rfl
  split at h
  · cases h
    exact herase _
  · cases h
    simpa using herase fun _ => true

theorem contains_of_syncedTo {io : Nat → ObjectFaults} {c : Tree} {objs : List S3Object}
    {done : Synced} (hl : Listed src d b io objs c) (hs : SyncedTo src t d c done objs)
    (hkeep : ∀ q, (q = [] ∨ (∃ bytes, t (d.path ++ q) = some (.file bytes)) ∧
      (src.cfg.prune = true → relName q ∈ done.relPaths)) → t' (d.path ++ q) = t (d.path ++ q)) :
    Contains (below t' d.path) c := by
  refine ⟨?_, fun q bytes hq => ?_⟩
  · obtain ⟨w, hw⟩ := hs.root
    rw [below, hkeep [] (.inl rfl), append_nil, hw]
    rfl
  · obtain ⟨obj, hobj, rel, hrel, rfl⟩ := hl.listed q bytes hq
    obtain ⟨rel', hrel', hmem, hplaced⟩ := hs.placed obj hobj
    cases hrel.symm.trans hrel'
    obtain ⟨bytes', hbytes', hfile⟩ := hplaced.file
    cases hq.symm.trans hbytes'
    have hname : src.cfg.prune = true → relName (relPath rel) ∈ done.relPaths := by
      intro hp
      rw [hl.clean hp obj hobj rel hrel]
      exact hmem
    rw [below, hkeep _ (.inr ⟨⟨bytes, hfile⟩, hname⟩), hfile]

theorem fetchPrefix_ok {recordedDests : Finset Path} {io : PrefixFaults}
    (ho : fetchPrefix W src t recordedDests d b io = o) (h : o.result = .ok res) :
    (res = .unchanged src.revision ∧ o.tree = t ∧
      ∃ listed, listObjects src.cfg src.bucketURL b.pages [] = .ok listed ∧
        src.revision = hashListing W (sortListing listed)) ∨
    ∃ listed, listObjects src.cfg src.bucketURL b.pages [] = .ok listed ∧
      res.revision = hashListing W (sortListing listed) ∧ res.changed = true ∧
      ∀ c, Listed src d b io.object (sortListing listed) c → Contains (below o.tree d.path) c := by
  unfold fetchPrefix at ho
  split at ho
  · cases ho
    cases h
  split at ho
  · cases ho
    cases h
  rename_i listed hlist
  dsimp only at ho
  split at ho
  · rename_i hsame
    cases ho
    cases h
    exact .inl ⟨by rw [hsame], rfl, listed, hlist, hsame⟩
  · split at ho
    · cases ho
      cases h
    · rename_i t₁ hm
      have hroot : ∃ w, t₁ d.path = some (.dir w) :=
        dirs_of_mkdirAll (Option.ite_none_left_eq_some.mp hm).2 _ prefix_rfl
      split at ho
      · cases ho
        cases h
      rename_i done t₂ hs
      split at ho
      · cases ho
        cases h
      rename_i t₃ hprune
      split at ho
      · cases ho
        cases h
      cases ho
      cases h
      refine .inr ⟨listed, hlist, rfl, rfl, fun c hl => ?_⟩
      have hsynced : SyncedTo src t₂ d c done ([] ++ sortListing listed) :=
        syncObjects_ok hl ⟨hroot, by simp⟩ hs
      refine contains_of_syncedTo hl hsynced fun q hq => ?_
      split at hprune
      · rename_i hp
        refine pruneTo_keeps hprune ?_
        unfold victim
        rcases hq with rfl | ⟨⟨bytes, hfile⟩, hname⟩
        · split <;> simp
        · rw [hfile]
          simp [hname hp]
      · cases hprune
        rfl

/-! ## Checkouts -/

/-- What is taken from go-git: a checkout has the files of the commit, which cleaning and fetching
leave alone. -/
structure Lawful (G : GoGit) (c : Hash → Tree) : Prop where
  checkout : ∀ hash u u', G.checkout hash u = (none, u') →
    Contains u' (c hash) ∧ G.head u' = some hash
  clean : ∀ hash u, G.head u = some hash → Contains u (c hash) → Contains (G.clean u).2 (c hash)
  fetchContext : ∀ hash u u', G.fetchContext u = (none, u') → Contains u (c hash) →
    Contains u' (c hash)

theorem restoreUntracked_contains {u u' c : Tree} {snapshot : List (Path × Bytes)}
    (h : restoreUntracked u snapshot = (none, u')) (hu : Contains u c)
    (hnot : ∀ p body, (p, body) ∈ snapshot → ∀ bytes, c p ≠ some (.file bytes)) :
    Contains u' c := by
  induction snapshot generalizing u with
  | nil =>
    cases h
    exact hu
  | cons f rest ih =>
    obtain ⟨p, body⟩ := f
    rw [restoreUntracked] at h
    split at h
    · cases h
    rename_i u₁ hm
    have hput : Contains (put u₁ p (.file body)) c := by
      refine ⟨?_, fun q bytes hq => ?_⟩
      · obtain ⟨n, hn⟩ := Option.isSome_iff_exists.mp hu.exists_root
        by_cases hp : [] = p
        · rw [put, hp, update_self]
          rfl
        · rw [put, update_of_ne hp, mkdirAll_keeps hm hn]
          rfl
      · have hne : q ≠ p := by
          rintro rfl
          exact hnot q body mem_cons_self bytes hq
        rw [put, update_of_ne hne]
        exact mkdirAll_keeps hm (hu.file q bytes hq)
    have hrest : ∀ p' body', (p', body') ∈ rest → ∀ bytes, c p' ≠ some (.file bytes) :=
      fun p' body' hmem => hnot p' body' (mem_cons_of_mem _ hmem)
    split at h
    · exact ih h hput hrest
    · exact ih h hput hrest
    · cases h

variable {io : GitFaults}

theorem openOrClone_ok (h : openOrClone G cfg t d io = (.ok false, t')) :
    t' = t ∧ (∃ q, stat t (d.path ++ [".git".toList]) = .found q) ∧
      G.plainOpen (below t d.path) = none := by
  unfold openOrClone at h
  split at h
  · rename_i q hq
    split at h
    · cases h
    · rename_i hopen
      cases h
      exact ⟨rfl, ⟨q, hq⟩, hopen⟩
  · split at h
    · cases h
    · split at h <;> cases h

/-- The checkout is there, and after the fetch its HEAD is where the reference leads. -/
def AtTarget (G : GoGit) (cfg : GitConfig) (t : Tree) (d : Dest) (target : Hash) : Prop :=
  (∃ q, stat t (d.path ++ [".git".toList]) = .found q) ∧ G.plainOpen (below t d.path) = none ∧
    ∃ u, G.fetchContext (below t d.path) = (none, u) ∧
      resolveTargetHash G u cfg.ref = .ok target ∧ G.head u = some target

/-- No untracked file stands where the target has one. -/
def NoneClobbered (G : GoGit) (cfg : GitConfig) (u : Tree) (c : Hash → Tree) : Prop :=
  cfg.prune = false → ∀ u' target, G.fetchContext u = (none, u') →
    resolveTargetHash G u' cfg.ref = .ok target →
    ∀ p body, (p, body) ∈ snapshotUntracked G u' → ∀ bytes, c target p ≠ some (.file bytes)

theorem finishCheckout_ok {snapshot : List (Path × Bytes)} {target : Hash} {u u' : Tree}
    (hG : Lawful G c) (hu : Contains u (c target) ∧ G.head u = some target)
    (hprune : cfg.prune = true → snapshot = [])
    (hnot : ∀ p body, (p, body) ∈ snapshot → ∀ bytes, c target p ≠ some (.file bytes))
    (h : finishCheckout G cfg snapshot target u = (.ok res, u')) :
    Contains u' (c target) ∧ res.revision = target ∧ res.changed = true := by
  unfold finishCheckout at h
  split at h
  · cases h
  rename_i u₁ hs
  have hu₁ := restoreUntracked_contains hs hu.1 hnot
  split at h
  · cases h
  rename_i u₂ hclean
  cases h
  refine ⟨?_, rfl, rfl⟩
  split at hclean
  · rename_i hp
    rw [hprune hp] at hs
    cases hs
    have := hG.clean target u hu.2 hu.1
    rwa [hclean] at this
  · cases hclean
    exact hu₁

/-- It leaves the files of the commit it names, if they were there when it finds HEAD at it. -/
theorem cloneOrSync_ok (hG : Lawful G c)
    (hnone : NoneClobbered G cfg (below t d.path) c)
    (h : cloneOrSync G cfg t d io = (.ok res, t'))
    (hsame : ∀ target, AtTarget G cfg t d target → Contains (below t d.path) (c target)) :
    Contains (below t' d.path) (c res.revision) := by
  unfold cloneOrSync at h
  dsimp only at h
  split at h
  · cases h
  rename_i fresh t₁ hopen
  split at h
  · cases h
  rename_i u hfetch
  split at h
  · cases h
  rename_i target htarget
  split at h
  · rename_i hhead
    cases h
    rw [Bool.and_eq_true, Bool.not_eq_true', decide_eq_true_eq] at hhead
    obtain ⟨rfl, hhead⟩ := hhead
    obtain ⟨rfl, hgit, hplain⟩ := openOrClone_ok hopen
    have hu := hG.fetchContext target _ _ hfetch
      (hsame target ⟨hgit, hplain, u, hfetch, htarget, hhead⟩)
    rw [below_graft_self]
    split
    · exact hG.clean target u hhead hu
    · exact hu
  · split at h
    · cases h
    · split at h
      · cases h
      · rename_i u₁ hcheckout
        have hnot : ∀ p body, (p, body) ∈
            (if !fresh && !cfg.prune then snapshotUntracked G u else []) →
            ∀ bytes, c target p ≠ some (.file bytes) := by
          intro p body hmem
          split at hmem
          · rename_i hkeep
            rw [Bool.and_eq_true, Bool.not_eq_true', Bool.not_eq_true'] at hkeep
            obtain ⟨rfl, hp⟩ := hkeep
            cases (openOrClone_ok hopen).1
            exact hnone hp u target hfetch htarget p body hmem
          · cases hmem
        cases hfin : finishCheckout G cfg
          (if !fresh && !cfg.prune then snapshotUntracked G u else []) target u₁ with
        | mk result u₂ =>
          rw [hfin] at h
          cases h
          obtain ⟨hu₂, hrev, -⟩ := finishCheckout_ok hG (hG.checkout _ _ _ hcheckout)
            (fun hp => by simp [hp]) hnot hfin
          rw [below_graft_self, hrev]
          exact hu₂

theorem syncGit_ok {src : GitSource} (hG : Lawful G c)
    (hnone : NoneClobbered G src.cfg (below t d.path) c)
    (hsame : ∀ target, AtTarget G src.cfg t d target → Contains (below t d.path) (c target))
    (ho : (match cloneOrSync G src.cfg t d io with
      | (.error e, t) => Outcome.failed src.revision t e
      | (.ok res, t) =>
        match io.applyMode with
        | some text => Outcome.failed src.revision t (.other text)
        | none => ⟨.ok res, t, if res.revision = [] then src.revision else res.revision, true⟩) =
      o) (h : o.result = .ok res) : Contains (below o.tree d.path) (c res.revision) := by
  split at ho
  · cases ho
    cases h
  rename_i hs
  split at ho
  · cases ho
    cases h
  · cases ho
    cases h
    exact cloneOrSync_ok hG hnone hs hsame

theorem fetchGit_ok {src : GitSource} (hG : Lawful G c)
    (hnone : NoneClobbered G src.cfg (below t d.path) c) (ho : fetchGit src t d G io = o)
    (h : o.result = .ok res)
    (hsame : ∀ target, AtTarget G src.cfg t d target → Contains (below t d.path) (c target))
    (hcached : src.revision ≠ [] → resolve G src.cfg = .ok src.revision →
      Contains (below t d.path) (c src.revision)) :
    Contains (below o.tree d.path) (c res.revision) := by
  unfold fetchGit at ho
  dsimp only at ho
  split at ho
  · cases ho
    cases h
  split at ho
  · exact syncGit_ok hG hnone hsame ho h
  rename_i hrev
  split at ho
  · rename_i hresolve
    split at ho
    · rename_i heq
      cases ho
      cases h
      exact hcached hrev (heq ▸ hresolve)
    · exact syncGit_ok hG hnone hsame ho h
  · exact syncGit_ok hG hnone hsame ho h

end

end PowerManage.Remote
