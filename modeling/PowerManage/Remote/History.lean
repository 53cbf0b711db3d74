import PowerManage.Remote.Mirror
import PowerManage.Remote.Wipe

/-!
# Histories of one source

A source keeps one cached revision, whatever destinations it has been asked to fill.  Here is what
becomes of that over any sequence of `Fetch` and `Wipe` calls on one source, of any of its five
forms: a single file or an archive over HTTP, an S3 object or prefix, a Git checkout.

The question is whether a fetch that returns without an error leaves its destination with the
content of the revision it returns.  What content a revision stands for is the upstream's affair: a
*catalog*.  When a fetch answers that nothing changed, it looked at the revision only, never at the
destination — so the answer is right as long as that revision is what the last call to touch the
destination put there (`State.current`).
-/

namespace PowerManage.Remote

open PathName FileTree Text Transition

/-- The three kinds of sources. -/
inductive Source
  | http (src : HTTPSource)
  | s3 (src : S3Source)
  | git (src : GitSource)

/-- All that comes from outside in one `Fetch`; each source reads its own part. -/
structure Env where
  server : Server
  bucket : Bucket
  goGit : GoGit
  io : Faults
  prefixIO : PrefixFaults
  gitIO : GitFaults

def fetchS3 (W : World) (src : S3Source) (t : Tree) (recordedDests : Finset Path) (d : Dest)
    (e : Env) : Outcome :=
  if hasSuffix src.cfg.key ['/'] then fetchPrefix W src t recordedDests d e.bucket e.prefixIO
  else fetchObject W src t d e.bucket e.io

/-- `Source.Fetch`, with the cached revision apart. -/
def Source.fetch (W : World) (source : Source) (revision : Str) (t : Tree)
    (recordedDests : Finset Path) (d : Dest) (e : Env) : Outcome :=
  match source with
  | .http src => Remote.fetch W { src with revision := revision } t d e.server e.io
  | .s3 src => fetchS3 W { src with revision := revision } t recordedDests d e
  | .git src => fetchGit { src with revision := revision } t d e.goGit e.gitIO

/-! ## The machine -/

def Source.suffixes (e : Env) : Source → Set Str
  | .http src =>
    if src.extract then
      { ".dl" ++ tmpSuffix e.io.stream.suffix,
        ".staging" ++ tmpSuffix e.io.stagingSuffix }
    else {tmpSuffix e.io.stream.suffix}
  | .s3 src =>
    if hasSuffix src.cfg.key ['/'] then
      Set.range fun i => tmpSuffix (e.prefixIO.object i).stream.suffix
    else {tmpSuffix e.io.stream.suffix}
  | .git _ => ∅

/-- Away from the destination and from its temporary siblings.  An object of a prefix that is the
destination itself has them beside it, slash or not. -/
def Source.Away (source : Source) (d : Dest) (e : Env) (p : Path) : Prop :=
  Apart d.path p ∧ ∀ suffix ∈ source.suffixes e,
    Apart (d.sibling suffix) p ∧ Apart ((Dest.ofPath d.path).sibling suffix) p

namespace History

/-- A call that has succeeded, and the tree after it. -/
structure Answer where
  dest : Dest
  result : Result
  tree : Tree

/-- A host on which one source is fetched again and again. -/
structure State where
  tree : Tree
  revision : Str
  recordedDests : Finset Path
  /-- The revision that the last call to touch the path was a fetch of, to just that path. -/
  current : Path → Str → Prop
  answers : List Answer

/-- A new source.  `known` are the destinations that are up to date from before. -/
def init (t : Tree) (recordedDests : Finset Path) (known : Path → Str → Prop) : State :=
  ⟨t, [], recordedDests, known, []⟩

/-- A call, or whatever else happens to the tree. -/
inductive Action
  | fetch (d : Dest) (e : Env)
  /-- `Wipe`; `gone` are the entries removed, all of them when the removal succeeds. -/
  | wipe (path : Str) (gone : Option (Path → Bool))

def answer (d : Dest) (o : Outcome) : List Answer :=
  match o.result with
  | .ok res => [⟨d, res, o.tree⟩]
  | .error _ => []

/-- A fetch that leaves the tree as it was touches nothing; any other may touch whatever it is not
away from. -/
def step (W : World) (source : Source) (cwd : Path) (s : State) : Action → Option State
  | .fetch d e =>
    let o := source.fetch W s.revision s.tree s.recordedDests d e
    some {
      tree := o.tree
      revision := o.revision
      recordedDests :=
        if o.recorded then recordDest o.tree s.recordedDests (d.text) else s.recordedDests
      current := fun p revision =>
        (p = d.path ∧ ∃ res, o.result = .ok res ∧ revision = res.revision) ∨
          (s.current p revision ∧ (o.tree = s.tree ∨ source.Away d e p))
      answers := s.answers ++ answer d o }
  | .wipe path gone =>
    match canWipe s.tree s.recordedDests path with
    | .error _ => some s
    | .ok _ =>
      let t := removeAll s.tree (removalSite s.tree cwd path) (gone.getD fun _ => true)
      some { s with
        tree := t
        recordedDests :=
          if gone = none then forgetDest t s.recordedDests path else s.recordedDests
        current := fun p revision =>
          s.current p revision ∧
            ∀ site, removalSite s.tree cwd path = some site → Apart site.loc p }

/-! ## What calls leave alone -/

section

variable {W : World} {source : Source} {cwd : Path} {revision : Str} {t : Tree}
  {recordedDests : Finset Path} {d : Dest} {e : Env} {p : Path}

theorem fetch_below (h : source.Away d e p) :
    below (source.fetch W revision t recordedDests d e).tree p = below t p := by
  obtain ⟨hd, hsuffix⟩ := h
  cases source with
  | http src =>
    simp only [Source.fetch, Remote.fetch, Source.suffixes] at hsuffix ⊢
    split
    · rename_i hx
      rw [if_pos hx] at hsuffix
      exact fetchArchive_below hd (hsuffix _ (.inl rfl)).1 (hsuffix _ (.inr rfl)).1
    · rename_i hx
      rw [if_neg hx] at hsuffix
      exact fetchFile_below hd (hsuffix _ rfl).1
  | s3 src =>
    simp only [Source.fetch, fetchS3, Source.suffixes] at hsuffix ⊢
    split
    · rename_i hx
      rw [if_pos hx] at hsuffix
      exact fetchPrefix_below hd fun i => (hsuffix _ ⟨i, rfl⟩).2
    · rename_i hx
      rw [if_neg hx] at hsuffix
      exact fetchObject_below hd (hsuffix _ rfl).1
  | git src => exact fetchGit_below hd

theorem removeAll_below {site : Option Site} {gone : Path → Bool}
    (h : ∀ x, site = some x → Apart x.loc p) : below (removeAll t site gone) p = below t p := by
  unfold removeAll
  split
  · rfl
  · rename_i x
    exact below_erase (h x rfl)

end

/-! ## Content -/

/-- What the upstream's revisions stand for, as trees at the destination. -/
abbrev Catalog := Str → Tree

def fileTree (bytes : Bytes) : Tree := fun q => if q = [] then some (.file bytes) else none

/-- The tree holds the content of a revision, exactly for an archive, and among other things for the
rest. -/
def Held (catalog : Catalog) (source : Source) (u : Tree) (revision : Str) : Prop :=
  match source with
  | .http src =>
    if src.extract then u = catalog revision ∧ (u []).isSome = true
    else Contains u (catalog revision)
  | _ => Contains u (catalog revision)

def Capped : Source → Prop
  | .http src => 0 < src.maxBytes ∧ src.maxBytes < 2 ^ 63 - 1
  | _ => True

/-- The upstream and go-git agree with the catalog; a GET of a file is not answered with 304, and no
untracked file is in the way. -/
def Serves (W : World) (catalog : Catalog) (source : Source) (t : Tree) (d : Dest) (e : Env) :
    Prop :=
  match source with
  | .http src =>
    if src.extract then
      ∀ r u, openBody src e.server = .ok r → r.status ≠ statusNotModified →
        extract W.decoders (fun _ => none) src.maxBytes (detectArchiveKind r.contentType src.url)
          r.body.bytes = .ok u →
        catalog (archiveRevision W r.etag r.body.bytes) = u.tree
    else
      ∀ r, openBody src e.server = .ok r → r.status ≠ statusNotModified ∧
        catalog (fileRevision W r.etag r.body.bytes) = fileTree r.body.bytes
  | .s3 src =>
    if hasSuffix src.cfg.key ['/'] then
      ∀ listed, listObjects src.cfg src.bucketURL e.bucket.pages [] = .ok listed →
        Listed src d e.bucket e.prefixIO.object (sortListing listed)
          (catalog (hashListing W (sortListing listed)))
    else
      ∀ r, openObject src e.bucket = .ok r → r.status ≠ statusNotModified ∧
        catalog (fileRevision W r.etag r.body.bytes) = fileTree r.body.bytes
  | .git src => Lawful e.goGit catalog ∧ NoneClobbered e.goGit src.cfg (below t d.path) catalog

/-- The upstream confirms the cached revision, by a 304, an equal listing or an equal reference, or
the checkout at the destination is at the target already: there is nothing to fetch. -/
def Confirms (W : World) (source : Source) (cached : Str) (t : Tree) (d : Dest) (e : Env)
    (revision : Str) : Prop :=
  match source with
  | .http src =>
    revision = cached ∧ (cached ≠ [] ∧ e.server.head = .ok statusNotModified ∨
      src.extract = true ∧ ∃ r, e.server.get = .ok r ∧ r.status = statusNotModified)
  | .s3 src =>
    revision = cached ∧
      if hasSuffix src.cfg.key ['/'] then
        ∃ listed, listObjects src.cfg src.bucketURL e.bucket.pages [] = .ok listed ∧
          cached = hashListing W (sortListing listed)
      else cached ≠ [] ∧ e.bucket.head = .ok statusNotModified
  | .git src =>
    revision = cached ∧ cached ≠ [] ∧ resolve e.goGit src.cfg = .ok cached ∨
      AtTarget e.goGit src.cfg t d revision

/-- A fetch is from an upstream that serves the catalog, and where the upstream confirms a revision
the destination is current with it. -/
def Guard (W : World) (catalog : Catalog) (source : Source) (s : State) : Action → Prop
  | .fetch d e =>
    Serves W catalog source s.tree d e ∧
      ∀ revision, Confirms W source s.revision s.tree d e revision → s.current d.path revision
  | .wipe _ _ => True

section

variable {W : World} {catalog : Catalog} {source : Source} {cwd : Path} {revision : Str}
  {t : Tree} {recordedDests : Finset Path} {d : Dest} {e : Env}

theorem contains_fileTree {u : Tree} {bytes : Bytes} (h : u [] = some (.file bytes)) :
    Contains u (fileTree bytes) := by
  refine ⟨by rw [h]; rfl, fun q bytes' hq => ?_⟩
  unfold fileTree at hq
  split at hq
  · rename_i hnil
    cases hq
    rw [hnil, h]
  · cases hq

theorem contains_file {o : Tree} {maxBytes : Int} {r : Response} {data : Bytes} {rev : Str}
    (hpos : 0 < maxBytes) (hlt : maxBytes < 2 ^ 63 - 1)
    (hcap : capped maxBytes r.body = some data) (hfile : o d.path = some (.file data))
    (hrev : rev = fileRevision W r.etag data)
    (hcat : catalog (fileRevision W r.etag r.body.bytes) = fileTree r.body.bytes) :
    Contains (below o d.path) (catalog rev) := by
  obtain ⟨-, rfl⟩ := capped_eq_some hpos hlt hcap
  rw [hrev, hcat]
  exact contains_fileTree (by rw [below, List.append_nil, hfile])

theorem head_of_checkNotModified {src : HTTPSource} {srv : Server}
    (h : checkNotModified src srv = .ok true) : srv.head = .ok statusNotModified := by
  unfold checkNotModified at h
  split at h
  · cases h
  · rename_i hhead
    simpa [hhead] using h

theorem head_of_headNotModified {src : S3Source} {b : Bucket}
    (h : headNotModified src b = .ok true) : b.head = .ok statusNotModified := by
  unfold headNotModified at h
  split at h
  · cases h
  rename_i hhead
  split at h
  · rename_i hstatus
    rw [hhead, hstatus]
  · repeat' split at h
    all_goals cases h

theorem get_of_openBody {src : HTTPSource} {srv : Server} {r : Response}
    (h : openBody src srv = .ok r) : ∃ r', srv.get = .ok r' ∧ r'.status = r.status := by
  unfold openBody at h
  split at h
  · cases h
  rename_i r' hget
  refine ⟨r', hget, ?_⟩
  split at h
  · cases h
    rfl
  · split at h <;> cases h
    rfl

theorem fetch_held {o : Outcome} {res : Result} (hsource : Capped source)
    (hserves : Serves W catalog source t d e)
    (ho : source.fetch W revision t recordedDests d e = o) (h : o.result = .ok res)
    (hsame : ∀ rev, Confirms W source revision t d e rev →
      Held catalog source (below t d.path) rev) :
    Held catalog source (below o.tree d.path) res.revision := by
  cases source with
  | http src =>
    simp only [Source.fetch, Remote.fetch, Held, Serves] at ho hserves hsame ⊢
    split at ho
    · rename_i hx
      simp only [if_pos hx] at hserves hsame ⊢
      rcases fetchArchive_ok ho h with ⟨rfl, htree, hconfirm⟩ |
        ⟨r, data, u, hr, hstatus, hcap, hu, hbelow, hrev, -⟩
      · rw [htree]
        refine hsame _ ⟨rfl, ?_⟩
        rcases hconfirm with ⟨hne, hhead⟩ | ⟨r, hr, hstatus⟩
        · exact .inl ⟨hne, head_of_checkNotModified hhead⟩
        · obtain ⟨r', hget, hr'⟩ := get_of_openBody hr
          exact .inr ⟨hx, r', hget, hr'.trans hstatus⟩
      · obtain ⟨-, rfl⟩ := capped_eq_some hsource.1 hsource.2 hcap
        rw [hbelow, hrev, hserves r u hr hstatus hu, extract_root hu]
        exact ⟨rfl, rfl⟩
    · rename_i hx
      simp only [if_neg hx] at hserves hsame ⊢
      rcases fetchFile_ok ho h with ⟨rfl, htree, hne, hhead⟩ | ⟨r, data, hr, hcap, hfile, hrev, -⟩
      · rw [htree]
        exact hsame _ ⟨rfl, .inl ⟨hne, head_of_checkNotModified hhead⟩⟩
      · exact contains_file hsource.1 hsource.2 hcap hfile hrev (hserves r hr).2
  | s3 src =>
    simp only [Source.fetch, fetchS3, Serves, Confirms] at ho hserves hsame ⊢
    split at ho
    · rename_i hx
      simp only [if_pos hx] at hserves hsame
      rcases fetchPrefix_ok ho h with ⟨rfl, htree, hlisted⟩ | ⟨listed, hlist, hrev, -, hcontains⟩
      · rw [htree]
        exact hsame _ ⟨rfl, hlisted⟩
      · have hl := hserves listed hlist
        rw [hrev]
        exact hcontains _ ⟨hl.served, hl.listed, hl.unused, hl.clean⟩
    · rename_i hx
      simp only [if_neg hx] at hserves hsame
      rcases fetchObject_ok ho h with ⟨rfl, htree, hne, hhead⟩ |
        ⟨r, data, hr, hcap, hfile, hrev, -⟩
      · rw [htree]
        exact hsame _ ⟨rfl, hne, head_of_headNotModified hhead⟩
      · exact contains_file (by decide) (by decide) hcap hfile hrev (hserves r hr).2
  | git src =>
    have ho : fetchGit { src with revision := revision } t d e.goGit _ = o := ho
    refine fetchGit_ok hserves.1 ?_ ho h (fun target htarget => ?_) fun hne hresolve => ?_
    · exact hserves.2
    · exact hsame target (.inr htarget)
    · exact hsame _ (.inl ⟨rfl, hne, hresolve⟩)

/-! ## Whole histories -/

/-- Whatever is current holds its revision, and every answer so far was right. -/
structure Truthful (catalog : Catalog) (source : Source) (s : State) : Prop where
  current : ∀ p revision, s.current p revision → Held catalog source (below s.tree p) revision
  answers : ∀ a ∈ s.answers,
    Held catalog source (below a.tree a.dest.path) a.result.revision

theorem step_fetch_truthful {s s' : State} (hsource : Capped source)
    (hs : step W source cwd s (.fetch d e) = some s')
    (hg : Guard W catalog source s (.fetch d e)) (h : Truthful catalog source s) :
    Truthful catalog source s' := by
  obtain ⟨hserves, hcurrent⟩ := hg
  cases hs
  generalize ho : source.fetch W s.revision s.tree s.recordedDests d e = o at *
  have hheld : ∀ res, o.result = .ok res →
      Held catalog source (below o.tree d.path) res.revision := fun res hres =>
    fetch_held hsource hserves ho hres fun rev hrev => h.current _ _ (hcurrent rev hrev)
  constructor
  · rintro p revision (⟨rfl, res, hres, rfl⟩ | ⟨hp, htree | haway⟩)
    · exact hheld res hres
    · rw [htree]
      exact h.current p revision hp
    · have hbelow : below o.tree p = below s.tree p := ho ▸ fetch_below haway
      rw [hbelow]
      exact h.current p revision hp
  · intro a ha
    rcases List.mem_append.mp ha with ha | ha
    · exact h.answers a ha
    unfold answer at ha
    split at ha
    · rename_i res hres
      cases List.mem_singleton.mp ha
      exact hheld res hres
    · cases ha

theorem step_wipe_truthful {s s' : State} {path : Str} {gone : Option (Path → Bool)}
    (hs : step W source cwd s (.wipe path gone) = some s') (h : Truthful catalog source s) :
    Truthful catalog source s' := by
  rw [step] at hs
  split at hs
  · cases hs
    exact h
  cases hs
  refine ⟨?_, h.answers⟩
  rintro p revision ⟨hp, happart⟩
  rw [removeAll_below happart]
  exact h.current p revision hp

end

def serverOnly (server : Server) : Env where
  server := server
  bucket := ⟨.error [], .error [], [], fun _ => .error []⟩
  goGit :=
    ⟨.error [], fun _ => none, fun u => (none, u), fun u => (none, u), fun _ _ => none,
      fun _ _ => false, fun _ => none, fun _ => none, fun _ => .ok [], fun _ u => (some [], u),
      fun u => (none, u), fun _ => (0, 0)⟩
  io := .none
  prefixIO := ⟨false, fun _ => ⟨false, .none, false, false⟩, ⟨fun _ => false, none⟩, none⟩
  gitIO := ⟨false, fun _ => false, none⟩

def testFile : Source := .http { testSource false with checksum := none }

def tagged (head : Nat) : Env :=
  serverOnly ⟨.ok head, .ok ⟨200, "v1", [], ⟨[7], false⟩⟩⟩

def otherDest : Dest := ⟨["srv"], "y", false⟩

/-- What was answered in a run: the destination, the result, and what was there then. -/
def answersOf (run : List Action) : Option (List (Dest × Result × Option Node)) :=
  (exec (step testWorld testFile []) (init srvTree ∅ fun _ _ => False) run).map fun s =>
    s.answers.map fun a => (a.dest, a.result, a.tree a.dest.path)

theorem not_held_of_absent {catalog : Catalog} {source : Source} {t : Tree} {d : Dest}
    {revision : Str} (h : t d.path = none) :
    ¬Held catalog source (below t d.path) revision := by
  have hroot : (below t d.path []).isSome ≠ true := by simp [below, h]
  intro hheld
  cases source with
  | http src =>
    simp only [Held] at hheld
    split at hheld
    · exact hroot hheld.2
    · exact hroot hheld.exists_root
  | s3 src => exact hroot hheld.exists_root
  | git src => exact hroot hheld.exists_root

theorem tagged_serves (t : Tree) (d : Dest) (head : Nat) :
    Serves testWorld (fun _ => fileTree [7]) testFile t d (tagged head) := by
  intro r hr
  cases hr
  exact ⟨nofun, rfl⟩

end History

end PowerManage.Remote
