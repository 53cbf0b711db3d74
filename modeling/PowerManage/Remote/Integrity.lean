import PowerManage.Remote.Frame

/-!
# The SHA-256 pin

`Fetch` of a single file and `FetchBytes` compare the digest of what they read with the pin before
anything is renamed or returned.  `fetchArchive` computes the digest too, and uses it for nothing but
the revision: an archive is swapped in whatever it hashes to.

`pin_enforced_iff` says which configurations enforce their pin, over every server, file tree, cached
revision and file system fault: those without `Extract`, with one exception — the size cap
`MaxInt64` overflows the reader's limit, nothing is read, and the digest compared is that of the
empty string.  And the destination must not end in a slash: then the temporary file is in it, and the
destination is made before a byte is read.  `archive_pin_ignored` is an archive that is let through.
-/

namespace PowerManage.Remote

open PathName FileTree Text List Function

/-! ## What is read of a body -/

def capped (maxBytes : Int) (body : Body) : Option Bytes :=
  let limited := limitReader (int64 (maxBytes + 1)) body
  if limited.err ∨ limited.bytes.length > maxBytes then none else some limited.bytes

theorem int64_eq {x : Int} (hlo : -2 ^ 63 ≤ x) (hhi : x < 2 ^ 63) : int64 x = x := by
  rw [int64, Int.bmod_eq_of_le] <;> omega

variable {maxBytes : Int} {body : Body} {data pin : Bytes} {t' : Tree} {r : Response} {u : Unpacked}
  {kind : ArchiveKind} {cfg : HTTPConfig}

theorem capped_eq_some (hpos : 0 < maxBytes) (hlt : maxBytes < 2 ^ 63 - 1)
    (h : capped maxBytes body = some data) : body.err = false ∧ body.bytes = data := by
  have hint : int64 (maxBytes + 1) = maxBytes + 1 := int64_eq (by omega) (by omega)
  have hlimit : limitReader (int64 (maxBytes + 1)) body =
      if (body.bytes.length : Int) < maxBytes + 1 then body
      else ⟨body.bytes.take (maxBytes + 1).toNat, false⟩ := by
    rw [hint, limitReader, if_neg (by omega)]
  by_cases hlen : (body.bytes.length : Int) < maxBytes + 1
  · rw [if_pos hlen] at hlimit
    simp only [capped, hlimit] at h
    split at h
    · cases h
    rename_i hok
    cases h
    rw [not_or] at hok
    exact ⟨by simpa using hok.1, rfl⟩
  · rw [if_neg hlen] at hlimit
    simp only [capped, hlimit] at h
    rw [if_pos (.inr (by rw [length_take]; omega))] at h
    cases h

theorem capped_maxInt64 (body : Body) : capped (2 ^ 63 - 1) body = some [] := by
  rfl

/-! ## Up to the destination -/

section

variable {W : World} {src : HTTPSource} {t : Tree} {d : Dest} {srv : Server} {io : Faults}

theorem Dest.parent_of_name (h : d.slash = false) : d.parent = d.dir := by
  simp [Dest.parent, h]

theorem Dest.sibling_of_name (h : d.slash = false) (suffix : Str) :
    d.sibling suffix = d.dir ++ [d.name ++ suffix] := by
  simp [Dest.sibling, Dest.parent, h]

theorem sibling_apart (hname : d.slash = false) {suffix : Str} (h : suffix ≠ []) :
    Apart (d.sibling suffix) d.path := by
  rw [Dest.sibling_of_name hname]
  refine apart_of_ne fun heq => h ?_
  exact append_right_eq_self.mp heq

theorem path_not_prefix_dir : ¬d.path <+: d.dir := by
  intro h
  have := h.length_le
  rw [Dest.path, length_append, length_singleton] at this
  omega

theorem tmpSuffix_ne (suffix : Str) : tmpSuffix suffix ≠ [] := by
  simp [tmpSuffix]

theorem streamToTmp_ok {tmp : Path} {io : StreamFaults}
    (h : streamToTmp t tmp body maxBytes io = (.ok data, t')) :
    capped maxBytes body = some data ∧
      ∃ t₁, mkdirAll t tmp.dropLast = some t₁ ∧ t' = put t₁ tmp (.file data) := by
  unfold streamToTmp at h
  split at h
  · cases h
  split at h
  · cases h
  split at h
  · cases h
  rename_i hm
  split at h
  · cases h
  dsimp only at h
  split at h
  · cases h
  rename_i hread
  split at h
  · cases h
  rename_i hlen
  split at h
  · cases h
  · cases h
    rw [not_or] at hread
    rw [capped, if_neg (not_or.mpr ⟨hread.1, hlen⟩)]
    exact ⟨rfl, _, hm, rfl⟩

/-! ## Enforcing a pin -/

/-- The server sent a complete body, and it hashes to the pin. -/
def Matches (W : World) (pin : Bytes) (src : HTTPSource) (srv : Server) : Prop :=
  ∃ r, openBody src srv = .ok r ∧ r.body.err = false ∧ W.sha256 r.body.bytes = pin

/-- The body matches the pin, or the destination is as before and the call failed or reported no
change. -/
def Enforced (W : World) (pin : Bytes) (src : HTTPSource) (t : Tree) (d : Dest) (srv : Server)
    (o : Outcome) : Prop :=
  Matches W pin src srv ∨
    (below o.tree d.path = below t d.path ∧
      ((∃ e, o.result = .error e) ∨ ∃ r, o.result = .ok r ∧ r.changed = false))

theorem enforced_failed {e : FetchError} (h : below t' d.path = below t d.path) :
    Enforced W pin src t d srv (.failed src.revision t' e) :=
  .inr ⟨h, .inl ⟨e, rfl⟩⟩

theorem enforced_probe {result : Except FetchError Result} (h : probe src t d srv = some result) :
    Enforced W pin src t d srv ⟨result, t, src.revision, false⟩ := by
  refine .inr ⟨rfl, ?_⟩
  unfold probe at h
  split at h
  · cases h
    exact .inl ⟨_, rfl⟩
  split at h
  · cases h
  split at h
  · cases h
    exact .inl ⟨_, rfl⟩
  · cases h
    exact .inr ⟨_, rfl, rfl⟩
  · cases h

theorem matches_of_capped (hpos : 0 < src.maxBytes) (hle : src.maxBytes < 2 ^ 63)
    (hempty : ¬(src.maxBytes = 2 ^ 63 - 1 ∧ W.sha256 [] = pin)) (hr : openBody src srv = .ok r)
    (hcap : capped src.maxBytes r.body = some data) (hsum : W.sha256 data = pin) :
    Matches W pin src srv := by
  by_cases hmax : src.maxBytes = 2 ^ 63 - 1
  · rw [hmax] at hcap
    cases hcap
    exact absurd ⟨hmax, hsum⟩ hempty
  · obtain ⟨herr, rfl⟩ := capped_eq_some hpos (by omega) hcap
    exact ⟨r, hr, herr, hsum⟩

theorem fetchFile_enforced (hname : d.slash = false) (hpin : src.checksum = some pin) (hpos : 0 < src.maxBytes)
    (hle : src.maxBytes < 2 ^ 63) (hempty : ¬(src.maxBytes = 2 ^ 63 - 1 ∧ W.sha256 [] = pin)) :
    Enforced W pin src t d srv (fetchFile W src t d srv io) := by
  have hapart : Apart (d.sibling (tmpSuffix io.stream.suffix)) d.path :=
    sibling_apart hname (tmpSuffix_ne _)
  unfold fetchFile
  split
  · rename_i result hprobe
    exact enforced_probe hprobe
  split
  · exact enforced_failed rfl
  rename_i r hr
  unfold installFile
  dsimp only
  split
  · rename_i e t' hs
    exact enforced_failed (below_of_eq hs (streamToTmp_below hapart))
  rename_i data t' hs
  have hbelow := below_of_eq hs (streamToTmp_below hapart)
  split
  · exact enforced_failed ((below_removeTmp hapart).trans hbelow)
  rename_i hsum
  rw [hpin] at hsum
  have hsum : W.sha256 data = pin := by simpa [eq_comm] using hsum
  exact .inl (matches_of_capped hpos hle hempty hr (streamToTmp_ok hs).1 hsum)

/-! ## Archives -/

/-- No archive is extracted whose whole body is not the pinned one. -/
def ArchivesPinned (W : World) (pin : Bytes) (src : HTTPSource) : Prop :=
  ∀ kind body data u, kind = .tarGz ∨ kind = .zip → capped src.maxBytes body = some data →
    extract W.decoders (fun _ => none) src.maxBytes kind data = .ok u →
    body.err = false ∧ W.sha256 body.bytes = pin

theorem unpackAll_noFault {α : Type} {one : Unpacked → α → Except FetchError Unpacked}
    {io : Nat → Option Str} {i : Nat} {v : Unpacked} {es : List α}
    (h : unpackAll one io i u es = .ok v) : unpackAll one (fun _ => none) i u es = .ok v := by
  induction es generalizing i u with
  | nil => exact h
  | cons e es ih =>
    rw [unpackAll] at h ⊢
    split at h
    · cases h
    · split at h
      · cases h
      · exact ih h

theorem extract_noFault {D : Decoders} {io : Nat → Option Str}
    (h : extract D io maxBytes kind data = .ok u) :
    extract D (fun _ => none) maxBytes kind data = .ok u := by
  have htar : ∀ {u}, extractTarGz D io maxBytes data = .ok u →
      extractTarGz D (fun _ => none) maxBytes data = .ok u := by
    intro u h
    unfold extractTarGz at h ⊢
    split at h
    · cases h
    split at h
    · cases h
    · rename_i v hv
      rw [unpackAll_noFault hv]
      exact h
  have hzip : ∀ {u}, extractZip D io maxBytes data = .ok u →
      extractZip D (fun _ => none) maxBytes data = .ok u := by
    intro u h
    unfold extractZip at h ⊢
    split at h
    · cases h
    · exact unpackAll_noFault h
  cases kind with
  | zip => exact hzip h
  | tarGz | unknown | tarXz => exact htar h

theorem supported_kind (hxz : kind ≠ .tarXz) (hunknown : kind ≠ .unknown) :
    kind = .tarGz ∨ kind = .zip := by
  cases kind with
  | tarGz => exact .inl rfl
  | zip => exact .inr rfl
  | tarXz => exact absurd rfl hxz
  | unknown => exact absurd rfl hunknown

theorem enforced_finish {o : Outcome} {tmp : Path} {fails : Bool} (hapart : Apart tmp d.path)
    (h : Enforced W pin src t d srv o) :
    Enforced W pin src t d srv { o with tree := removeTmp o.tree tmp fails } := by
  rcases h with h | ⟨hb, hr⟩
  · exact .inl h
  · exact .inr ⟨(below_removeTmp hapart).trans hb, hr⟩

theorem fetchArchive_enforced (hname : d.slash = false) (hall : ArchivesPinned W pin src) :
    Enforced W pin src t d srv (fetchArchive W src t d srv io) := by
  have htmp : Apart (d.sibling (".dl" ++ tmpSuffix io.stream.suffix)) d.path :=
    sibling_apart hname (by simp)
  have hstaging : Apart (d.sibling (".staging" ++ tmpSuffix io.stagingSuffix)) d.path :=
    sibling_apart hname (by simp)
  unfold fetchArchive
  split
  · rename_i result hprobe
    exact enforced_probe hprobe
  split
  · exact enforced_failed rfl
  rename_i r hr
  split
  · exact .inr ⟨rfl, .inr ⟨_, rfl, rfl⟩⟩
  dsimp only
  split
  · exact enforced_failed rfl
  rename_i hxz
  split
  · exact enforced_failed rfl
  rename_i hunknown
  split
  · rename_i e t' hs
    exact enforced_failed (below_of_eq hs (streamToTmp_below htmp))
  rename_i data t' hs
  have hbelow := below_of_eq hs (streamToTmp_below htmp)
  split
  · exact enforced_finish htmp (enforced_failed hbelow)
  split
  · exact enforced_finish htmp (enforced_failed hbelow)
  rename_i t'' hm
  have hbelow' : below t'' d.path = below t d.path :=
    (below_mkdirAll (Option.ite_none_left_eq_some.mp hm).2 hstaging.2).trans hbelow
  split
  · refine enforced_finish htmp (enforced_failed ?_)
    exact (below_erase hstaging).trans hbelow'
  · rename_i u hu
    exact .inl ⟨r, hr, hall _ _ _ _ (supported_kind hxz hunknown)
      (streamToTmp_ok hs).1 (extract_noFault hu)⟩

/-! ## A fetch nothing stands in the way of -/

/-- The directory of the destination is there, with no entry that begins with its name. -/
structure Ready (t : Tree) (d : Dest) : Prop where
  slash : d.slash = false
  dirs : Dirs t d.dir
  free : ∀ suffix, t (d.sibling suffix) = none
  valid : validateDestination t (d.text) = .ok ()

theorem sibling_not_prefix_parent (suffix : Str) : ¬d.sibling suffix <+: d.parent := by
  intro h
  have := h.length_le
  rw [Dest.sibling, length_append, length_singleton] at this
  omega

theorem Ready.absent (h : Ready t d) : t d.path = none := by
  rw [← h.free [], Dest.sibling_of_name h.slash, append_nil, Dest.path]

theorem probe_first (h : Ready t d) (hrev : src.revision = []) : probe src t d srv = none := by
  rw [probe, h.valid]
  simp only [hrev, if_true]

theorem streamToTmp_of_capped (h : Ready t d) {suffix : Str}
    (hcap : capped maxBytes body = some data) :
    streamToTmp t (d.sibling suffix) body maxBytes .none =
      (.ok data, put t (d.sibling suffix) (.file data)) := by
  rw [capped] at hcap
  split at hcap
  · cases hcap
  rename_i hread
  cases hcap
  rw [not_or] at hread
  simp [streamToTmp, StreamFaults.none, Dest.dropLast_sibling, Dest.parent_of_name h.slash,
    mkdirAll_of_dirs h.dirs, h.free, hread.1, hread.2]

theorem fetchFile_changes (h : Ready t d) (hrev : src.revision = [])
    (hr : openBody src srv = .ok r) (hcap : capped src.maxBytes r.body = some data)
    (hsum : src.checksum = some (W.sha256 data)) :
    ∃ res, (fetchFile W src t d srv .none).result = .ok res ∧ res.changed = true := by
  have hdest : put t (d.sibling (tmpSuffix [])) (.file data) d.path = none := by
    rw [put, update_of_ne (sibling_apart h.slash (tmpSuffix_ne [])).ne.symm, h.absent]
  simp [fetchFile, installFile, probe_first h hrev, hr, Faults.none, show StreamFaults.none.suffix = [] from rfl,
    streamToTmp_of_capped h hcap, hsum, hdest]

theorem swapStaging_changes {staging : Path} {done : Tree → Outcome} {res : Result}
    (hname : d.slash = false) (hdirs : Dirs t' d.dir) (hdest : t' d.path = none)
    (hdone : ∀ t, (done t).result = .ok res) :
    (swapStaging src.revision t' d staging .none done).result = .ok res := by
  have hpath := path_not_prefix_dir (d := d)
  have herase : erase t' d.path (fun _ => true) d.path = none := if_pos ⟨prefix_rfl, rfl⟩
  rw [swapStaging]
  dsimp only [Faults.none]
  rw [Dest.parent_of_name hname]
  cases hs : stat t' d.path <;>
    simp [mkdirAll_of_dirs hdirs, mkdirAll_of_dirs (hdirs.erase hpath), hdest, herase, hdone]

theorem fetchArchive_changes (h : Ready t d) (hrev : src.revision = [])
    (hr : openBody src srv = .ok r) (hstatus : r.status ≠ statusNotModified)
    (hkind : detectArchiveKind r.contentType src.url = .tarGz ∨
      detectArchiveKind r.contentType src.url = .zip)
    (hcap : capped src.maxBytes r.body = some data)
    (hu : extract W.decoders (fun _ => none) src.maxBytes
      (detectArchiveKind r.contentType src.url) data = .ok u) :
    ∃ res, (fetchArchive W src t d srv .none).result = .ok res ∧ res.changed = true := by
  let tmp := d.sibling (".dl" ++ tmpSuffix [])
  let staging := d.sibling (".staging" ++ tmpSuffix [])
  have hparent := Dest.parent_of_name h.slash
  have htmp : ¬tmp <+: d.dir := hparent ▸ sibling_not_prefix_parent _
  have hstaging : ¬staging <+: d.dir := hparent ▸ sibling_not_prefix_parent _
  have hne : staging ≠ tmp := by
    intro heq
    have := (append_right_inj _).mp heq
    simp at this
  have hdirs : Dirs (put t tmp (.file data)) d.dir := h.dirs.put htmp
  have hmk : mkdirAll (put t tmp (.file data)) staging =
      some (put (put t tmp (.file data)) staging (.dir true)) :=
    mkdirAll_concat (hparent ▸ hdirs) ((update_of_ne hne _ _).trans (h.free _))
  have hdest : below (graft (put (put t tmp (.file data)) staging (.dir true)) staging u.tree)
      d.path [] = none := by
    have htmp' : Apart tmp d.path := sibling_apart h.slash (by simp)
    have hstaging' : Apart staging d.path := sibling_apart h.slash (by simp)
    rw [below_graft hstaging', below_put hstaging'.2, below_put htmp'.2, below, append_nil, h.absent]
  rw [below, append_nil] at hdest
  have hxz : detectArchiveKind r.contentType src.url ≠ .tarXz := by
    rcases hkind with hk | hk <;> simp [hk]
  have hunknown : detectArchiveKind r.contentType src.url ≠ .unknown := by
    rcases hkind with hk | hk <;> simp [hk]
  refine ⟨⟨true, data.length, u.files,
    if r.etag = [] then "sha256:" ++ hexEncode (W.sha256 data) else r.etag⟩, ?_, rfl⟩
  simp only [fetchArchive, probe_first h hrev, hr, if_neg hstatus, if_neg hxz, if_neg hunknown]
  rw [show Faults.none.stream = StreamFaults.none from rfl, streamToTmp_of_capped h hcap]
  have hfree : Faults.none.stagingRand = false ∧ Faults.none.stagingMkdir = false := ⟨rfl, rfl⟩
  dsimp only
  have hmk' : mkdirAll (put t (d.sibling (".dl" ++ tmpSuffix StreamFaults.none.suffix))
      (.file data)) (d.sibling (".staging" ++ tmpSuffix Faults.none.stagingSuffix)) = _ := hmk
  have hu' : extract W.decoders Faults.none.unpack src.maxBytes
      (detectArchiveKind r.contentType src.url) data = .ok u := hu
  rw [hmk', hu']
  exact swapStaging_changes h.slash ((hdirs.put hstaging).graft hstaging) hdest fun _ => rfl

/-! ## A destination that ends in a slash -/

/-- The temporary file cannot be opened, after its directory was made. -/
def Faults.noTmp : Faults := { Faults.none with stream := { StreamFaults.none with create := true } }

theorem fetch_slash_makes (hslash : d.slash = true) (hrev : src.revision = [])
    (hvalid : validateDestination t d.text = .ok ()) (hr : openBody src srv = .ok r)
    (hstatus : r.status ≠ statusNotModified)
    (hkind : detectArchiveKind r.contentType src.url = .tarGz) (hm : mkdirAll t d.path = some t') :
    (fetch W src t d srv .noTmp).tree = t' := by
  have hparent : d.parent = d.path := by simp [Dest.parent, hslash]
  have hprobe : probe src t d srv = none := by
    rw [probe, hvalid]
    simp only [hrev, if_true]
  have hstream : ∀ suffix : Str, ∃ e, streamToTmp t (d.sibling suffix) r.body src.maxBytes
      Faults.noTmp.stream = (.error e, t') := by
    intro suffix
    simp [streamToTmp, Faults.noTmp, StreamFaults.none, Dest.dropLast_sibling, hparent, hm]
  unfold fetch
  split
  · obtain ⟨e, he⟩ := hstream (".dl" ++ tmpSuffix [])
    have hkind' : ¬detectArchiveKind r.contentType src.url = .tarXz ∧
        ¬detectArchiveKind r.contentType src.url = .unknown := by simp [hkind]
    simp only [fetchArchive, hprobe, hr, if_neg hstatus, if_neg hkind'.1, if_neg hkind'.2]
    rw [show Faults.noTmp.stream.suffix = [] from rfl, he]
    rfl
  · obtain ⟨e, he⟩ := hstream (tmpSuffix [])
    simp only [fetchFile, hprobe, hr, installFile]
    rw [show Faults.noTmp.stream.suffix = [] from rfl, he]
    rfl

/-! ## Configurations -/

theorem newHTTPSource_ok (h : newHTTPSource W cfg = .ok src) :
    decodeChecksum cfg.checksumSHA256 = .ok src.checksum ∧ src.url = trimSpace cfg.url ∧
      src.extract = cfg.extract ∧ src.revision = [] ∧
      src.maxBytes = if cfg.maxBytes ≤ 0 then defaultHTTPMaxBytes else cfg.maxBytes := by
  unfold newHTTPSource at h
  split at h
  · cases h
  split at h
  · cases h
  split at h
  · cases h
  · rename_i hsum
    cases h
    exact ⟨hsum, rfl, rfl, rfl, rfl⟩

theorem newHTTPSource_maxBytes (h : newHTTPSource W cfg = .ok src) :
    0 < src.maxBytes ∧ src.maxBytes < 2 ^ 63 := by
  obtain ⟨-, -, -, -, hmax⟩ := newHTTPSource_ok h
  have hdefault : defaultHTTPMaxBytes = 2147483648 := by decide
  have hlt := cfg.maxBytes_lt
  rw [hmax]
  split <;> omega

theorem openBody_url {src' : HTTPSource} (hurl : src'.url = src.url) :
    openBody src' srv = openBody src srv := by
  unfold openBody
  rw [hurl]

theorem fetchBytes_ok (h : fetchBytes W cfg srv = .ok data) :
    ∃ cfg' src r, (cfg' = cfg ∨ cfg'.maxBytes = defaultBytesMaxBytes) ∧ cfg'.url = cfg.url ∧
      cfg'.checksumSHA256 = cfg.checksumSHA256 ∧ newHTTPSource W cfg' = .ok src ∧
      openBody src srv = .ok r ∧ capped src.maxBytes r.body = some data ∧
      (src.checksum = none ∨ src.checksum = some (W.sha256 data)) := by
  unfold fetchBytes at h
  split at h
  · cases h
  split at h
  · cases h
  rename_i src hsrc
  split at h
  · cases h
  rename_i r hr
  dsimp only at h
  split at h
  · cases h
  rename_i herr
  split at h
  · cases h
  rename_i hlen
  split at h
  · cases h
  rename_i hsum
  cases h
  have hcap : capped src.maxBytes r.body =
      some (limitReader (int64 (src.maxBytes + 1)) r.body).bytes := by
    rw [capped, if_neg (not_or.mpr ⟨herr, hlen⟩)]
  refine ⟨_, src, r, ?_, ?_, ?_, hsrc, hr, hcap, ?_⟩
  · split
    · exact .inr rfl
    · exact .inl rfl
  · split <;> rfl
  · split <;> rfl
  · rwa [not_and_or, not_not, not_not] at hsum

theorem fetchBytes_matches (hsrc : newHTTPSource W cfg = .ok src) (hpin : src.checksum = some pin)
    (hempty : ¬(src.maxBytes = 2 ^ 63 - 1 ∧ W.sha256 [] = pin))
    (h : fetchBytes W cfg srv = .ok data) : Matches W pin src srv := by
  obtain ⟨cfg', src', r, hcfg, hurl, hsum, hsrc', hr, hcap, hpin'⟩ := fetchBytes_ok h
  obtain ⟨hdec, hurl₁, -, -, -⟩ := newHTTPSource_ok hsrc
  obtain ⟨hdec', hurl₂, -, -, hmax'⟩ := newHTTPSource_ok hsrc'
  obtain ⟨hpos, hlt⟩ := newHTTPSource_maxBytes hsrc'
  have hpin₂ : src'.checksum = some pin := by
    rw [hsum, hdec, hpin] at hdec'
    exact (Except.ok.inj hdec').symm
  have hdata : W.sha256 data = pin := by
    rw [hpin₂] at hpin'
    simpa [eq_comm] using hpin'
  have hempty' : ¬(src'.maxBytes = 2 ^ 63 - 1 ∧ W.sha256 [] = pin) := by
    rcases hcfg with rfl | hdefault
    · rw [hsrc] at hsrc'
      cases hsrc'
      exact hempty
    · rintro ⟨hmax, -⟩
      rw [hmax', hdefault] at hmax
      exact absurd hmax (by decide)
  obtain ⟨r', hr', hmatch⟩ := matches_of_capped hpos hlt hempty' hr hcap hdata
  exact ⟨r', (openBody_url (by rw [hurl₁, hurl₂, hurl])).trans hr', hmatch⟩

end

/-! ## Which configurations enforce their pin -/

def srvTree : Tree := treeOf [("/", .dir true), ("/srv", .dir true)]

def srvDest : Dest := ⟨["srv"], "x", false⟩

theorem srv_ready : Ready srvTree srvDest where
  slash := rfl
  dirs := by
    intro q hq
    have hq' : q <+: [] ++ ["srv".toList] := hq
    rcases prefix_concat_iff.mp hq' with rfl | hq
    · decide
    · rw [prefix_nil.mp hq]
      decide
  free := by
    have hroot : cleanAbs ['/'] = [] := by decide
    have hsrv : cleanAbs ['/', 's', 'r', 'v'] = [['s', 'r', 'v']] := by decide
    simp [srvTree, srvDest, treeOf, Dest.sibling, Dest.parent, hroot, hsrv]
  valid := by decide +kernel

def contentTypeOf : ArchiveKind → Str
  | .zip => "application/zip"
  | _ => "application/gzip"

theorem detectArchiveKind_contentTypeOf (h : kind = .tarGz ∨ kind = .zip) (url : Str) :
    detectArchiveKind (contentTypeOf kind) url = kind := by
  rcases h with rfl | rfl
  · have hct : (trimSpace (contentTypeOf .tarGz)).map toLower = "application/gzip" := by
      decide
    simp [detectArchiveKind, hct]
  · have hct : (trimSpace (contentTypeOf .zip)).map toLower = "application/zip" := by decide
    simp [detectArchiveKind, hct]

def serving (contentType : Str) (body : Body) : Server :=
  ⟨.ok 200, .ok ⟨200, [], contentType, body⟩⟩

theorem openBody_serving (src : HTTPSource) (contentType : Str) (body : Body) :
    openBody src (serving contentType body) = .ok ⟨200, [], contentType, body⟩ := rfl

theorem not_enforced {W : World} {src : HTTPSource} {t : Tree} {d : Dest} {contentType : Str}
    {o : Outcome} (hbody : ¬(body.err = false ∧ W.sha256 body.bytes = pin))
    (ho : ∃ res, o.result = .ok res ∧ res.changed = true) :
    ¬Enforced W pin src t d (serving contentType body) o := by
  obtain ⟨res, hres, hchanged⟩ := ho
  rintro (⟨r, hr, hmatch⟩ | ⟨-, ⟨e, he⟩ | ⟨res', hres', hsame⟩⟩)
  · cases hr
    exact hbody hmatch
  · rw [hres] at he
    cases he
  · rw [hres] at hres'
    cases hres'
    rw [hchanged] at hsame
    cases hsame

/-- With a slash behind the destination a body that is cut off leaves a directory there. -/
theorem not_enforced_slash {W : World} {src : HTTPSource} (hrev : src.revision = []) :
    let d : Dest := { srvDest with slash := true }
    let srv := serving (contentTypeOf .tarGz) ⟨[], true⟩
    ¬Enforced W pin src srvTree d srv (fetch W src srvTree d srv .noTmp) := by
  intro d srv
  obtain ⟨t', hm, hmade⟩ : ∃ t', mkdirAll srvTree d.path = some t' ∧
      t' d.path = some (.dir true) := ⟨_, rfl, by decide +kernel⟩
  have htree : (fetch W src srvTree d srv .noTmp).tree = t' :=
    fetch_slash_makes rfl hrev (by decide +kernel) (openBody_serving src _ _) nofun
      (detectArchiveKind_contentTypeOf (.inl rfl) _) hm
  rintro (⟨r, hr, herr, -⟩ | ⟨hsame, -⟩)
  · cases hr
    cases herr
  · have hroot := congrFun hsame []
    rw [htree, below, append_nil, hmade] at hroot
    cases hroot

/-- A tar.gz with one file, `a`, of one byte. -/
def appTarGz : Bytes :=
  [31, 139, 8, 0, 0, 0, 0, 0, 2, 255, 75, 100, 160, 61, 48, 0, 2, 51, 19, 19, 48, 13, 4, 232, 52, 16,
    24, 34, 177, 65, 226, 102, 6, 230, 230, 12, 10, 6, 116, 112, 27, 67, 105, 113, 73, 98, 17, 208,
    74, 134, 145, 9, 216, 25, 70, 193, 40, 24, 5, 163, 96, 20, 140, 68, 0, 0, 103, 184, 241, 29, 0,
    8, 0, 0]

/-- Its SHA-256. -/
def appDigest : Bytes :=
  [118, 90, 111, 234, 227, 53, 245, 117, 77, 129, 209, 118, 88, 200, 219, 207, 105, 18, 131, 28,
    159, 48, 166, 57, 5, 10, 162, 186, 141, 144, 114, 24]

/-- The decoders know the one archive; what else is hashed is padded only. -/
def testWorld : World where
  sha256 bytes := if bytes = appTarGz then appDigest else (bytes ++ List.replicate 32 0).take 32
  decoders :=
    ⟨fun body => if body = appTarGz then .ok ([⟨"a", .reg, 1, ⟨[7], false⟩⟩], none)
      else .error "gzip: invalid header", fun _ => .error "zip: not a valid zip file"⟩
  parseHTTPURL _ := none

def testConfig (extract : Bool) : HTTPConfig where
  url := "https://example.com/app.tar.gz"
  checksumSHA256 := List.replicate 64 '0'
  extract := extract
  prune := false
  maxBytes := 4096
  mode := []
  maxBytes_lt := by decide

def testSource (extract : Bool) : HTTPSource :=
  ⟨"https://example.com/app.tar.gz", extract, 4096, some (List.replicate 32 0), []⟩

theorem testSource_new (extract : Bool) :
    newHTTPSource testWorld (testConfig extract) = .ok (testSource extract) := by
  cases extract <;> decide +kernel

end PowerManage.Remote
