import PowerManage.Firewall.Removal

/-!
# Namespaces

Several managers share a host, each with a namespace of its own.  A namespace has no `-` and no `:` in
it, so that the first of these in an identity is where the namespace ends: identities of different
rules differ (`identities_differ`), and neither `List` nor the lookup nor `RemoveRule` of one namespace
takes a rule of another for its own (`namespaces_isolated`).
-/

namespace PowerManage.Firewall

open PathName Text Interaction Interaction.Prog List Function Option

/-! ## Identities -/

theorem Manager.separator_notMem (M : Manager) {c : Char} (hc : (isLowerDigit c || c = '_') = false) :
    c ∉ M.ns := by
  intro hmem
  rw [M.ns_chars.2 c hmem] at hc
  cases hc

theorem append_cons_inj {c : Char} {u u' v v' : Str} (hu : c ∉ u) (hu' : c ∉ u')
    (h : u ++ c :: v = u' ++ c :: v') : u = u' ∧ v = v' := by
  have hcut := cut_append hu v
  rw [h, cut_append hu' v', some_inj, Prod.mk.injEq] at hcut
  exact ⟨hcut.1.symm, hcut.2.symm⟩

variable {M M' : Manager} {id id' ns svc : Str} {st : FirewalldHost}

theorem ufwCommentIdentity_inj (h : ufwCommentIdentity M.ns id = ufwCommentIdentity M'.ns id') :
    M.ns = M'.ns ∧ id = id' := by
  simp only [ufwCommentIdentity, append_assoc] at h
  exact append_cons_inj (M.separator_notMem (by decide)) (M'.separator_notMem (by decide)) h

theorem firewalldServiceName_inj
    (h : firewalldServiceName M.ns id = firewalldServiceName M'.ns id') :
    M.ns = M'.ns ∧ id = id' := by
  simp only [firewalldServiceName, append_assoc] at h
  exact append_cons_inj (M.separator_notMem (by decide)) (M'.separator_notMem (by decide)) h

theorem servicePath_eq (h : '/' ∉ svc) :
    servicePath svc =
      ["etc".toList, "firewalld", "services", svc ++ ".xml"] := by
  have hname : '/' ∉ svc ++ ".xml" := by
    rw [mem_append, not_or]
    exact ⟨h, by decide⟩
  have hdot : svc ++ ".xml" ≠ dotDot := fun heq =>
    absurd (congrArg length heq) (by simp [dotDot])
  have hproper : Proper (svc ++ ".xml") := by
    refine ⟨by simp, fun heq => ?_, hdot⟩
    exact absurd (congrArg length heq) (by simp [dot])
  have hsplit : components (firewalldServicesDir ++ '/' :: (svc ++ ".xml")) =
      [[], "etc".toList, "firewalld", "services", svc ++ ".xml"] := by
    have hdir : components firewalldServicesDir =
        [[], "etc", "firewalld", "services"] := by decide +kernel
    have hlast := splitOn_intercalate '/' (forall_mem_singleton.mpr hname)
      (cons_ne_nil _ [])
    rw [intercalate_singleton] at hlast
    rw [components, splitOn, splitOnP_append_cons _ _ (by decide), ← splitOn,
      ← splitOn, hlast, ← components, hdir]
    rfl
  rw [servicePath, cleanAbs, hsplit]
  simp only [foldl_cons]
  rw [push_proper hproper, push_trivial (.inl rfl), push_proper (by decide),
    push_proper (by decide), push_proper (by decide)]
  rfl

theorem slash_notMem_serviceName (M : Manager) (hid : validateRuleID id = .ok ()) :
    '/' ∉ firewalldServiceName M.ns id := by
  simp only [firewalldServiceName, mem_append, not_or]
  refine ⟨⟨fun h => ?_, by decide⟩, fun h => ?_⟩
  · exact absurd (M.isNameChar_ns _ h) (by decide)
  · exact absurd ((isNameChar_of_validateRuleID hid).2 _ h) (by decide)

theorem servicePath_inj (hid : validateRuleID id = .ok ()) (hid' : validateRuleID id' = .ok ())
    (h : servicePath (firewalldServiceName M.ns id) = servicePath (firewalldServiceName M'.ns id')) :
    M.ns = M'.ns ∧ id = id' := by
  rw [servicePath_eq (slash_notMem_serviceName M hid),
    servicePath_eq (slash_notMem_serviceName M' hid')] at h
  simp only [cons.injEq, true_and, and_true, append_left_inj] at h
  exact firewalldServiceName_inj h

/-- Two rules that differ in the namespace or in the identifier have different identities in every
backend. -/
def IdentitiesDiffer (M M' : Manager) (id id' : Str) : Prop :=
  (nftTableName M.ns, id) ≠ (nftTableName M'.ns, id') ∧
    ufwCommentIdentity M.ns id ≠ ufwCommentIdentity M'.ns id' ∧
    firewalldServiceName M.ns id ≠ firewalldServiceName M'.ns id' ∧
    servicePath (firewalldServiceName M.ns id) ≠ servicePath (firewalldServiceName M'.ns id')

theorem identities_differ (hid : validateRuleID id = .ok ()) (hid' : validateRuleID id' = .ok ())
    (h : (M.ns, id) ≠ (M'.ns, id')) : IdentitiesDiffer M M' id id' := by
  rw [ne_eq, Prod.mk.injEq] at h
  refine ⟨fun heq => ?_, fun heq => h (ufwCommentIdentity_inj heq),
    fun heq => h (firewalldServiceName_inj heq), fun heq => h (servicePath_inj hid hid' heq)⟩
  rw [Prod.mk.injEq] at heq
  exact h ⟨append_cancel_right heq.1, heq.2⟩

/-! ## nftables -/

/-- `List` and the lookup see the table of the namespace, and `RemoveRule` changes no other. -/
structure NftIsolated (nft : Nft) (M : Manager) : Prop where
  listed : ∀ h rs os rules rs' os',
    run (faulty (nft.answer h) Query.failed) (rs, os) (listRules M) =
      some (.ok rules, (rs', os')) →
    rs' = rs ∧ ∀ r ∈ rules, ∃ o ∈ (tableOf rs M).rules, r = nft.listed o ∧ r.id = o.comment
  found : ∀ (rs : Ruleset) tb id handle, rs (nftTableName M.ns) = some tb →
    nftFindRuleHandle (nft.listing tb) id = some handle →
    ∃ o ∈ (tableOf rs M).rules, o.handle = handle ∧ o.comment = id
  removed : ∀ h rs os id res rs' os',
    run (faulty (nft.answer h) Query.failed) (rs, os) (removeRule M id) =
      some (res, (rs', os')) →
    ∀ M' : Manager, M'.ns ≠ M.ns → rs' (nftTableName M'.ns) = rs (nftTableName M'.ns)

theorem nftIsolated (nft : Nft) (M : Manager) : NftIsolated nft M where
  listed h rs os rules rs' os' hrun := by
    obtain ⟨e, os₁, rfl, hret⟩ | ⟨os₁, q, rs₁, rfl, hq, hret⟩ := run_faulty_ask hrun
    · dsimp only [Query.failed] at hret
      split at hret <;> cases hret
    · obtain ⟨rfl, ⟨-, rfl⟩ | ⟨tb, htb, rfl⟩⟩ := answer_list hq
      · dsimp only at hret
        split at hret <;> cases hret
      · dsimp only at hret
        have htable : tableOf rs₁ M = tb := by rw [tableOf, htb]; rfl
        rw [Nft.listing_eq] at hret
        split at hret
        · rw [parseRules_items] at hret
          cases hret
          refine ⟨rfl, fun r hr => ?_⟩
          obtain ⟨o, ho, rfl⟩ := mem_map.mp hr
          rw [htable]
          exact ⟨o, (mem_filter.mp ho).1, rfl, nft.listed_id o⟩
        · cases hret
  found rs tb id handle htb hfind := by
    rw [findRuleHandle_listing] at hfind
    obtain ⟨o, ho, rfl⟩ := map_eq_some_iff.mp hfind
    obtain ⟨hmem, hcomment⟩ := find_comment (Nft.named_of_seen ho)
    refine ⟨o, ?_, rfl, hcomment⟩
    rw [tableOf, htb]
    exact hmem
  removed h rs os id res rs' os' hrun M' hne := by
    unfold removeRule at hrun
    split at hrun
    · cases hrun
      rfl
    obtain ⟨e, os₁, rfl, hret⟩ | ⟨os₁, q, rs₁, rfl, hq, hfrom⟩ := run_faulty_ask hrun
    · dsimp only [Query.failed, removeFrom] at hret
      split at hret <;> cases hret <;> rfl
    · obtain ⟨rfl, ⟨-, rfl⟩ | ⟨tb, htb, rfl⟩⟩ := answer_list hq
      · dsimp only [removeFrom] at hfrom
        split at hfrom <;> cases hfrom <;> rfl
      · dsimp only [removeFrom] at hfrom
        split at hfrom
        · cases hfrom
          rfl
        obtain ⟨e, os₂, rfl, hret⟩ | ⟨os₂, q, rs₂, rfl, hbatch, hret⟩ := run_faulty_ask hfrom
        · cases hret
          rfl
        · obtain ⟨rfl, hscript⟩ := answer_batch hbatch
          cases hret
          obtain ⟨tb₁, tb', -, rfl, -⟩ := batch_deleteLine hscript
          exact update_of_ne (fun heq => hne (append_cancel_right heq)) ..

/-! ## ufw -/

/-- What is listed or found has the comment of the namespace; `RemoveRule` leaves the other lines. -/
structure UfwIsolated (F : AddrFormat) (M : Manager) : Prop where
  listed : ∀ st os rules st' os',
    run (faulty (UfwHost.answer F) UfwQuery.failed) (st, os) (ufwListRules M) =
      some (.ok rules, (st', os')) →
    st' = st ∧ ∀ r ∈ rules, ∃ e ∈ st.entries, e.parse M.ns = some r ∧
      ∀ (M' : Manager) id', e.comment = ufwCommentIdentity M'.ns id' → M'.ns = M.ns ∧ id' = r.id
  found : ∀ (st : UfwHost) id num, ufwFindRuleNumber st.status M.ns id = some num →
    ∃ e, st.entries[num.toNat - 1]? = some e ∧
      ∀ (M' : Manager) id', e.comment = ufwCommentIdentity M'.ns id' → M'.ns = M.ns ∧ id' = id
  removed : ∀ st os id res st' os',
    run (faulty (UfwHost.answer F) UfwQuery.failed) (st, os) (ufwRemoveRule M id) =
      some (res, (st', os')) →
    ∀ (M' : Manager) id', M'.ns ≠ M.ns →
      carrying (ufwCommentIdentity M'.ns id') st'.entries =
        carrying (ufwCommentIdentity M'.ns id') st.entries

theorem UfwHost.carrying_cleared (st : UfwHost) {c : Str} (hc : c ≠ ufwCommentIdentity ns id) :
    carrying c (st.cleared ns id).entries = carrying c st.entries := by
  cases h : ufwFindRuleNumber st.status ns id with
  | none => rw [cleared_of_none h]
  | some num =>
    obtain ⟨-, pre, e, post, heq, -, hcomment, hcleared⟩ := delete_of_found h
    have hother : carrying c [e] = [] := by
      rw [carrying_eq_nil, forall_mem_singleton, hcomment]
      exact hc.symm
    rw [hcleared, heq, ← singleton_append, carrying_append, carrying_append, carrying_append,
      hother, nil_append]

theorem ufwIsolated (F : AddrFormat) (M : Manager) : UfwIsolated F M where
  listed st os rules st' os' hrun := by
    obtain ⟨e, os₁, rfl, hret⟩ | ⟨os₁, q, st₁, rfl, hq, hret⟩ := run_faulty_ask hrun
    · cases hret
    · cases hq
      cases hret
      refine ⟨rfl, fun r hr => ?_⟩
      have hparse : ∃ e ∈ st.entries, e.parse M.ns = some r := by
        by_cases hcontains : contains st.status "Status: inactive" = true
        · rw [ufwParseStatus_of_contains hcontains] at hr
          cases hr
        rw [Bool.not_eq_true] at hcontains
        have hactive : st.active = true := by
          by_contra hoff
          rw [UfwHost.status, if_neg hoff] at hcontains
          exact absurd hcontains (by decide +kernel)
        rw [UfwHost.status_of_active hactive] at hcontains hr
        rw [ufwParseStatus_stdout hcontains] at hr
        obtain ⟨e, he, hparse⟩ := mem_filterMap.mp hr
        exact ⟨e, (shown_initial st.entries).subset he, hparse⟩
      obtain ⟨e, he, hparse⟩ := hparse
      refine ⟨e, he, hparse, fun M' id' hcomment => ?_⟩
      exact ufwCommentIdentity_inj (hcomment.symm.trans (e.comment_of_parse hparse))
  found st id num hfind := by
    obtain ⟨-, pre, e, post, heq, hindex, hcomment, -⟩ := UfwHost.delete_of_found hfind
    refine ⟨e, ?_, fun M' id' hother => ufwCommentIdentity_inj (hother.symm.trans hcomment)⟩
    rw [heq, hindex, getElem?_append_right (le_refl _), Nat.sub_self,
      getElem?_cons_zero]
  removed st os id res st' os' hrun M' id' hne := by
    have hother : ufwCommentIdentity M'.ns id' ≠ ufwCommentIdentity M.ns id := fun heq =>
      hne (ufwCommentIdentity_inj heq).1
    unfold ufwRemoveRule at hrun
    split at hrun
    · cases hrun
      rfl
    obtain ⟨e, os₁, rfl, hret⟩ | ⟨os₁, q, st₁, rfl, hq, hfrom⟩ := run_faulty_ask hrun
    · cases hret
      rfl
    · cases hq
      dsimp only [ufwRemoveFrom] at hfrom
      split at hfrom
      · cases hfrom
        rfl
      rename_i num hfind
      obtain ⟨e, os₂, rfl, hret⟩ | ⟨os₂, q, st₂, rfl, hdelete, hret⟩ := run_faulty_ask hfrom
      · cases hret
        rfl
      · rw [UfwHost.answer, (UfwHost.delete_of_found hfind).1] at hdelete
        cases hdelete
        cases hret
        exact st.carrying_cleared hother

/-! ## firewalld -/

/-- `List` returns services of the namespace; `RemoveRule` leaves the others. -/
structure FirewalldIsolated (M : Manager) : Prop where
  listed : ∀ st os rules st' os',
    run (faulty FirewalldHost.answer FirewalldQuery.failed) (st, os) (firewalldListRules M) =
      some (.ok rules, (st', os')) →
    st' = st ∧ ∀ r ∈ rules, ∃ svcs, st.zones st.defaultZone = some svcs ∧
      firewalldServiceName M.ns r.id ∈ svcs ∧ ∀ (M' : Manager) id',
        firewalldServiceName M.ns r.id = firewalldServiceName M'.ns id' → M'.ns = M.ns ∧ id' = r.id
  found : ∀ (st : FirewalldHost) zone svcs id, st.zones zone = some svcs →
    firewalldServiceName M.ns id ∈ fields (Exec.stdout ([' '].intercalate svcs ++ ['\n'])) →
    firewalldServiceName M.ns id ∈ svcs
  removed : ∀ st os id res st' os',
    run (faulty FirewalldHost.answer FirewalldQuery.failed) (st, os) (firewalldRemoveRule M id) =
      some (res, (st', os')) →
    ∀ (M' : Manager) id', validateRuleID id' = .ok () → M'.ns ≠ M.ns →
      st'.files (servicePath (firewalldServiceName M'.ns id')) =
        st.files (servicePath (firewalldServiceName M'.ns id')) ∧
      ∀ z, (∃ svcs, st'.zones z = some svcs ∧ firewalldServiceName M'.ns id' ∈ svcs) ↔
        ∃ svcs, st.zones z = some svcs ∧ firewalldServiceName M'.ns id' ∈ svcs

def AboutService (svc : Str) : FirewalldQuery → Prop
  | .act (.removeService _ svc') => svc' = svc
  | .act (.removeFile path) => path = servicePath svc
  | .act .reload => True
  | .act _ => False
  | _ => True

theorem asks_firewalldRun {P : FirewalldQuery → Prop} {a : FirewalldAct} {text : Str}
    {next : FirewalldOp Unit} (ha : P (.act a)) (hnext : Asks P next) :
    Asks P (firewalldRun a text next) := by
  refine .ask ha fun r => ?_
  cases r with
  | ok u => exact hnext
  | error e => exact .ret _

theorem asks_firewalldDefaultZone {α : Type} {P : FirewalldQuery → Prop}
    {next : Str → FirewalldOp α} (hzone : P .getDefaultZone) (hnext : ∀ z, Asks P (next z)) :
    Asks P (firewalldDefaultZone next) := by
  refine .ask hzone fun r => ?_
  cases r with
  | error e => exact .ret _
  | ok out =>
    dsimp only
    split
    · exact .ret _
    · exact hnext _

theorem asks_firewalldRemoveRule (M : Manager) (id : Str) :
    Asks (AboutService (firewalldServiceName M.ns id)) (firewalldRemoveRule M id) := by
  have hfile : Asks (AboutService (firewalldServiceName M.ns id))
      (firewalldRemoveFile (firewalldServiceName M.ns id)) :=
    asks_firewalldRun rfl (asks_firewalldRun trivial (.ret _))
  unfold firewalldRemoveRule
  split
  · exact .ret _
  refine asks_firewalldDefaultZone trivial fun zone => .ask trivial fun r => ?_
  cases r with
  | error e => exact .ret _
  | ok out =>
    dsimp only
    split
    · exact asks_firewalldRun rfl hfile
    · exact hfile

/-- Every other service is where it was, and every other definition what it was. -/
structure Spares (svc : Str) (st st' : FirewalldHost) : Prop where
  files : ∀ path, path ≠ servicePath svc → st'.files path = st.files path
  zones : ∀ svc', svc' ≠ svc → ∀ z, (∃ svcs, st'.zones z = some svcs ∧ svc' ∈ svcs) ↔
    ∃ svcs, st.zones z = some svcs ∧ svc' ∈ svcs

theorem spares_removeService {zone : Str} {st₁ st' : FirewalldHost} (h : Spares svc st st₁)
    (hact : st₁.removeService zone svc = some st') : Spares svc st st' := by
  unfold FirewalldHost.removeService at hact
  split at hact
  · cases hact
  rename_i svcs hzone
  cases hact
  refine ⟨h.files, fun svc' hne z => ?_⟩
  rw [← h.zones svc' hne z]
  by_cases hz : z = zone
  · subst hz
    have hmem : svc' ∈ svcs.filter (fun s => decide (s ≠ svc)) ↔ svc' ∈ svcs := by
      rw [mem_filter, decide_eq_true_eq, and_iff_left hne]
    have hself : (st₁.setZone z (svcs.filter (· ≠ svc)) fun s hs =>
        st₁.isWord_service z svcs hzone s (mem_filter.mp hs).1).zones z =
          some (svcs.filter (· ≠ svc)) := update_self ..
    rw [hself, hzone]
    simp only [some.injEq, exists_eq_left']
    exact hmem
  · have hsame : (st₁.setZone zone (svcs.filter (· ≠ svc)) fun s hs =>
        st₁.isWord_service zone svcs hzone s (mem_filter.mp hs).1).zones z =
          st₁.zones z := update_of_ne hz ..
    rw [hsame]

theorem spares_answer :
    ∀ st₁ q x st', AboutService svc q → Spares svc st st₁ →
      FirewalldHost.answer st₁ q = some (x, st') → Spares svc st st' := by
  intro st₁ q x st' hq h hanswer
  cases q with
  | getDefaultZone =>
    cases hanswer
    exact h
  | listServices zone =>
    obtain ⟨svcs, -, heq⟩ := map_eq_some_iff.mp hanswer
    cases heq
    exact h
  | readFile path =>
    dsimp only [FirewalldHost.answer] at hanswer
    split at hanswer <;> cases hanswer <;> exact h
  | act a =>
    obtain ⟨st₂, hact, heq⟩ := map_eq_some_iff.mp hanswer
    cases heq
    cases a with
    | addService zone svc' => exact absurd hq id
    | writeFile path body => exact absurd hq id
    | reload =>
      cases hact
      exact h
    | removeService zone svc' =>
      obtain rfl : svc' = svc := hq
      exact spares_removeService h hact
    | removeFile path =>
      obtain rfl : path = servicePath svc := hq
      cases hact
      refine ⟨fun path hne => ?_, h.zones⟩
      rw [← h.files path hne]
      exact update_of_ne hne ..

theorem id_of_parseServiceRule {body : Str} {r : Rule} (h : parseServiceRule id body = some r) :
    r.id = id := by
  unfold parseServiceRule at h
  dsimp only at h
  split at h
  · cases h
  · cases h
    rfl

theorem run_firewalldReadRules {ids : List Str} {rules acc : List Rule} {st' : FirewalldHost}
    {os os' : List (Option CommandError)}
    (h : run (faulty FirewalldHost.answer FirewalldQuery.failed) (st, os)
      (firewalldReadRules ns ids acc) = some (.ok rules, (st', os'))) :
    st' = st ∧ ∀ r ∈ rules, r ∈ acc ∨ r.id ∈ ids := by
  induction ids generalizing acc os with
  | nil =>
    cases h
    exact ⟨rfl, fun r hr => .inl hr⟩
  | cons id ids ih =>
    have hskip : ∀ {os₁}, run (faulty FirewalldHost.answer FirewalldQuery.failed) (st, os₁)
        (firewalldReadRules ns ids acc) = some (.ok rules, (st', os')) →
        st' = st ∧ ∀ r ∈ rules, r ∈ acc ∨ r.id ∈ id :: ids := by
      intro os₁ hrun
      obtain ⟨hst, hrules⟩ := ih hrun
      exact ⟨hst, fun r hr => (hrules r hr).imp_right (mem_cons_of_mem id)⟩
    obtain ⟨e, os₁, rfl, hrun⟩ | ⟨os₁, q, st₁, rfl, hq, hrun⟩ := run_faulty_ask h
    · exact hskip hrun
    · dsimp only [FirewalldHost.answer] at hq
      split at hq
      · cases hq
        obtain ⟨hst, hrules⟩ := ih hrun
        refine ⟨hst, fun r hr => ?_⟩
        rcases hrules r hr with hr | hr
        · rcases mem_append.mp hr with hr | hr
          · exact .inl hr
          · right
            rw [id_of_parseServiceRule (mem_toList.mp hr)]
            exact mem_cons_self ..
        · exact .inr (mem_cons_of_mem id hr)
      · cases hq
        exact hskip hrun

theorem mem_firewalldFilterNamespaceServices {out : Str} :
    id ∈ firewalldFilterNamespaceServices out ns ↔ firewalldServiceName ns id ∈ fields out := by
  rw [firewalldFilterNamespaceServices, mem_filterMap]
  constructor
  · rintro ⟨f, hf, heq⟩
    obtain ⟨hstart, hdrop⟩ := ite_none_right_eq_some.mp heq
    obtain ⟨t, rfl⟩ := isPrefixOf_iff_prefix.mp hstart
    rw [drop_left, some_inj] at hdrop
    rw [← hdrop]
    exact hf
  · intro hmem
    have hstart : hasPrefix (firewalldServiceName ns id) (ns ++ "-") = true :=
      isPrefixOf_iff_prefix.mpr (prefix_append _ _)
    refine ⟨_, hmem, ?_⟩
    rw [if_pos hstart, firewalldServiceName, drop_left]

theorem firewalldIsolated (M : Manager) : FirewalldIsolated M where
  listed st os rules st' os' hrun := by
    obtain ⟨e, os₁, rfl, hret⟩ | ⟨os₁, q, st₁, rfl, hq, hlist⟩ := run_faulty_ask hrun
    · cases hret
    · cases hq
      dsimp only at hlist
      rw [trimSpace_line st.isWord_defaultZone, if_neg st.isWord_defaultZone.1] at hlist
      obtain ⟨e, os₂, rfl, hret⟩ | ⟨os₂, q, st₂, rfl, hq, hread⟩ := run_faulty_ask hlist
      · cases hret
      · obtain ⟨svcs, hzone, heq⟩ := map_eq_some_iff.mp hq
        cases heq
        obtain ⟨hst, hrules⟩ := run_firewalldReadRules hread
        refine ⟨hst, fun r hr => ⟨svcs, hzone, ?_, fun M' id' heq => ?_⟩⟩
        · have hid := (hrules r hr).resolve_left not_mem_nil
          rw [mem_firewalldFilterNamespaceServices, mem_fields_services
            (st.isWord_service _ _ hzone) (dash_mem_serviceName ..)] at hid
          exact hid.2
        · exact firewalldServiceName_inj heq.symm
  found st zone svcs id hzone hmem := by
    rw [mem_fields_services (st.isWord_service _ _ hzone) (dash_mem_serviceName ..)] at hmem
    exact hmem.2
  removed st os id res st' os' hrun M' id' hid' hne := by
    have hname : firewalldServiceName M'.ns id' ≠ firewalldServiceName M.ns id := fun heq =>
      hne (firewalldServiceName_inj heq).1
    have hspares : Spares (firewalldServiceName M.ns id) st st' :=
      (asks_firewalldRemoveRule M id).run_faulty spares_answer hrun
        ⟨fun _ _ => rfl, fun _ _ _ => Iff.rfl⟩
    by_cases hid : validateRuleID id = .ok ()
    · exact ⟨hspares.files _ fun heq => hne (servicePath_inj hid' hid heq).1,
        hspares.zones _ hname⟩
    refine ⟨?_, hspares.zones _ hname⟩
    unfold firewalldRemoveRule at hrun
    split at hrun
    · cases hrun
      rfl
    · rename_i hvalid
      exact absurd hvalid hid

/-! ## All of them -/

/-- What belongs to other namespaces and identifiers is told apart, and left alone by every call on
every backend. -/
theorem namespaces_isolated (nft : Nft) (F : AddrFormat) :
    (∀ (M M' : Manager) id id', validateRuleID id = .ok () → validateRuleID id' = .ok () →
        (M.ns, id) ≠ (M'.ns, id') → IdentitiesDiffer M M' id id') ∧
      ∀ M : Manager, NftIsolated nft M ∧ UfwIsolated F M ∧ FirewalldIsolated M :=
  ⟨fun _ _ _ _ hid hid' h => identities_differ hid hid' h,
    fun M => ⟨nftIsolated nft M, ufwIsolated F M, firewalldIsolated M⟩⟩

/-! One namespace that begins with the other, and identifiers that make up for it. -/

def sisterManager : Manager := ⟨"acme_web", by decide⟩

/-- Two managers whose comments begin alike. -/
theorem sisters_isolated :
    ∃ st st' os', run (UfwHost.answer testFormat) emptyUfw
        (ufwApplyRule testNet sisterManager (webRule 80)) = some (.ok (), st) ∧
      run (faulty (UfwHost.answer testFormat) UfwQuery.failed) (st, [none, none])
        (ufwRemoveRule testManager "web_web") = some (.ok (), (st', os')) ∧
      IdentitiesDiffer testManager sisterManager "web_web" (webRule 80).id ∧
      carrying (ufwCommentIdentity sisterManager.ns (webRule 80).id) st'.entries =
        carrying (ufwCommentIdentity sisterManager.ns (webRule 80).id) st.entries := by
  obtain ⟨st, hrun, ⟨st', os'⟩, hrun', -⟩ : ∃ st,
      run (UfwHost.answer testFormat) emptyUfw
        (ufwApplyRule testNet sisterManager (webRule 80)) = some (.ok (), st) ∧
      ∃ r, run (faulty (UfwHost.answer testFormat) UfwQuery.failed) (st, [none, none])
        (ufwRemoveRule testManager "web_web") = some (.ok (), r) ∧ True := by
    decide +kernel
  obtain ⟨hdiffer, hisolated⟩ := namespaces_isolated testNft testFormat
  exact ⟨st, st', os', hrun, hrun',
    hdiffer _ _ _ _ (by decide +kernel) (by decide +kernel) (by decide),
    (hisolated testManager).2.1.removed _ _ _ _ _ _ hrun' sisterManager _ (by decide)⟩

end PowerManage.Firewall
