import PowerManage.Firewall.Refinement
import PowerManage.Firewall.UfwLookup
import PowerManage.Firewall.Firewalld

/-!
# What `RemoveRule` says

`RemoveRule` of each backend, where every command may fail.  If it returns nil the rule is expected to
be gone from the permanent configuration.  For each backend there is a condition, on the state before
and on how the commands end, under which that is so, and it is exact (`remove_told_iff`).

A command that fails leaves the configuration as it is.
-/

namespace PowerManage.Firewall

open PathName Text Interaction Interaction.Prog List Function Option

/-! ## nftables -/

def Query.failed (e : CommandError) : (q : Query) → Answer q
  | .list _ => .error e
  | .batch _ => .error e

/-- No rule of the table has the identifier. -/
def NftAbsent (rs : Ruleset) (M : Manager) (id : Str) : Prop :=
  ∀ o ∈ (tableOf rs M).rules, o.comment ≠ id

/-- The rule is not there; or the listing does not fail as without a table and is within the
runner's cap, and a rule that is deleted was the only one. -/
def NftTold (nft : Nft) (rs : Ruleset) (M : Manager) (id : Str) (os : List (Option CommandError)) : Prop :=
  NftAbsent rs M id ∨
    match os with
    | some e :: _ => isNoTable e = false
    | none :: os =>
      nft.within (tableOf rs M) = true ∧ (os.head? = some none → ∀ o ∈ (tableOf rs M).rules,
        ∀ o' ∈ (tableOf rs M).rules, o.comment = id → o'.comment = id → o = o')
    | [] => True

variable {id : Str} {M : Manager} {os' : List (Option CommandError)}
  {res : Except FirewallError Unit}

theorem absent_without_iff {tb tb' : Table} {o : Installed} (ho : o ∈ tb.rules)
    (hid : o.comment = id) (hrem : Removed tb tb' o.handle) :
    (∀ x ∈ tb'.rules, x.comment ≠ id) ↔
      ∀ x ∈ tb.rules, ∀ y ∈ tb.rules, x.comment = id → y.comment = id → x = y := by
  rw [hrem.rules]
  constructor
  · intro h
    have hsame : ∀ x ∈ tb.rules, x.comment = id → x = o := by
      intro x hx hcomment
      by_contra hne
      have hhandle : x.handle ≠ o.handle := fun heq => hne (tb.eq_of_handle_eq hx ho heq)
      exact h x (Table.mem_without.mpr ⟨hx, hhandle⟩) hcomment
    intro x hx y hy hxid hyid
    rw [hsame x hx hxid, hsame y hy hyid]
  · intro h x hx hcomment
    obtain ⟨hmem, hhandle⟩ := Table.mem_without.mp hx
    exact hhandle (congrArg Installed.handle (h x hmem o ho hcomment hid))

theorem nft_told_iff (nft : Nft) {h : Nat} {rs rs' : Ruleset} {os : List (Option CommandError)}
    (hid : validateRuleID id = .ok ())
    (hrun : run (faulty (nft.answer h) Query.failed) (rs, os) (removeRule M id) =
      some (res, (rs', os'))) : (res = .ok () → NftAbsent rs' M id) ↔ NftTold nft rs M id os := by
  rw [removeRule, hid] at hrun
  obtain ⟨e, os₁, rfl, hfrom⟩ | ⟨os₁, q, rs₁, rfl, hq, hfrom⟩ := run_faulty_ask hrun
  · -- The listing fails.
    change run _ _ (removeFrom M id (.error e)) = _ at hfrom
    rw [removeFrom] at hfrom
    by_cases hno : isNoTable e = true
    · rw [if_pos hno] at hfrom
      cases hfrom
      constructor
      · exact fun habsent => .inl (habsent rfl)
      · rintro (habsent | hnot) -
        · exact habsent
        · exact absurd hno (Bool.eq_false_iff.mp hnot)
    · rw [if_neg hno] at hfrom
      cases hfrom
      exact ⟨fun _ => .inr (Bool.eq_false_iff.mpr hno), by rintro - ⟨⟩⟩
  · obtain ⟨rfl, ⟨hnone, rfl⟩ | ⟨tb, htb, rfl⟩⟩ := answer_list hq
    · -- There is no table.
      have habsent : NftAbsent rs₁ M id := by
        intro o ho
        rw [tableOf, hnone] at ho
        cases ho
      rw [removeFrom, if_pos nft.isNoTable_absent] at hfrom
      cases hfrom
      exact ⟨fun _ => .inl habsent, fun _ _ => habsent⟩
    · have htable : tableOf rs₁ M = tb := by rw [tableOf, htb]; rfl
      rw [removeFrom, findRuleHandle_listing] at hfrom
      cases hseen : nft.seen tb id with
      | none =>
        rw [hseen] at hfrom
        cases hfrom
        constructor
        · exact fun habsent => .inl (habsent rfl)
        · rintro (habsent | ⟨hcap, -⟩) -
          · exact habsent
          · rw [htable] at hcap
            rw [Nft.seen_of_within hcap] at hseen
            rw [NftAbsent, htable]
            exact find_comment_none hseen
      | some o =>
        have hfind := Nft.named_of_seen hseen
        obtain ⟨ho, hcomment⟩ := find_comment hfind
        have hcap : nft.within tb = true := by
          by_contra hpast
          rw [Nft.seen_of_past (Bool.not_eq_true _ ▸ hpast)] at hseen
          cases hseen
        have hpresent : ¬ NftAbsent rs₁ M id := by
          rw [NftAbsent, htable]
          exact fun h => h o ho hcomment
        rw [hseen] at hfrom
        rw [NftTold, or_iff_right hpresent, htable, and_iff_right hcap]
        obtain ⟨e, os₂, rfl, hret⟩ | ⟨os₂, q, rs₂, rfl, hbatch, hret⟩ := run_faulty_ask hfrom
        · cases hret
          exact ⟨fun _ => by rintro ⟨⟩, by rintro - ⟨⟩⟩
        · obtain ⟨rfl, hscript⟩ := answer_batch hbatch
          cases hret
          obtain ⟨tb₁, tb', htb₁, rfl, hrem⟩ := batch_deleteLine hscript
          rw [htb, some_inj] at htb₁
          subst htb₁
          have hiff := absent_without_iff ho hcomment hrem
          rw [NftAbsent, tableOf_update]
          exact ⟨fun hgone _ => hiff.mp (hgone rfl), fun hone _ => hiff.mpr (hone rfl)⟩

/-! ## ufw -/

def UfwQuery.failed (e : CommandError) : (q : UfwQuery) → UfwAnswer q
  | .status => .error e
  | .delete _ => .error e
  | .add _ => .error e

/-- No entry has the identifier in its comment. -/
def UfwAbsent (st : UfwHost) (M : Manager) (id : Str) : Prop :=
  ∀ e ∈ st.entries, e.comment ≠ ufwCommentIdentity M.ns id

/-- The rule is found in the status, and unless its deletion fails no other entry has its comment. -/
def UfwFound (st : UfwHost) (M : Manager) (id : Str) (os : List (Option CommandError)) : Prop :=
  (ufwFindRuleNumber st.status M.ns id).isSome ∧
    (os.head? = some none → (carrying (ufwCommentIdentity M.ns id) st.entries).length = 1)

/-- The rule is not there, or the status can be had and the rule is found in it. -/
def UfwTold (st : UfwHost) (M : Manager) (id : Str) (os : List (Option CommandError)) : Prop :=
  UfwAbsent st M id ∨
    match os with
    | none :: os => UfwFound st M id os
    | _ => False

theorem not_absent_of_found {st : UfwHost} {num : Int}
    (h : ufwFindRuleNumber st.status M.ns id = some num) : ¬ UfwAbsent st M id := by
  obtain ⟨-, pre, e, post, heq, -, hown, -⟩ := UfwHost.delete_of_found h
  intro habsent
  refine habsent e ?_ hown
  rw [heq]
  exact mem_append_right pre (mem_cons_self ..)

theorem ufw_told_iff (F : AddrFormat) {st st' : UfwHost} {os : List (Option CommandError)}
    (hid : validateRuleID id = .ok ())
    (hrun : run (faulty (UfwHost.answer F) UfwQuery.failed) (st, os) (ufwRemoveRule M id) =
      some (res, (st', os'))) : (res = .ok () → UfwAbsent st' M id) ↔ UfwTold st M id os := by
  rw [ufwRemoveRule, hid] at hrun
  obtain ⟨e, os₁, rfl, hfrom⟩ | ⟨os₁, q, st₁, rfl, hq, hfrom⟩ := run_faulty_ask hrun
  · -- Without a status the rule counts as gone.
    cases hfrom
    constructor
    · exact fun habsent => .inl (habsent rfl)
    · rintro (habsent | hnever) -
      · exact habsent
      · exact False.elim hnever
  · cases hq
    rw [ufwRemoveFrom] at hfrom
    cases hfind : ufwFindRuleNumber st.status M.ns id with
    | none =>
      rw [hfind] at hfrom
      cases hfrom
      have hnever : ¬ UfwFound st M id os' := by
        rintro ⟨hsome, -⟩
        rw [hfind] at hsome
        cases hsome
      rw [UfwTold, or_iff_left hnever]
      exact ⟨fun habsent => habsent rfl, fun habsent _ => habsent⟩
    | some num =>
      have hpresent := not_absent_of_found hfind
      rw [hfind] at hfrom
      obtain ⟨e, os₂, rfl, hret⟩ | ⟨os₂, q, st₂, rfl, hdelete, hret⟩ := run_faulty_ask hfrom
      · cases hret
        have hfound : UfwFound st M id (some e :: os') := by
          rw [UfwFound, hfind]
          exact ⟨rfl, by rintro ⟨⟩⟩
        exact ⟨fun _ => .inr hfound, by rintro - ⟨⟩⟩
      · obtain ⟨hcleared, pre, e, post, heq, -, hown, hrest⟩ := UfwHost.delete_of_found hfind
        rw [UfwHost.answer, hcleared] at hdelete
        cases hdelete
        cases hret
        have hiff : UfwAbsent (st.cleared M.ns id) M id ↔
            (carrying (ufwCommentIdentity M.ns id) st.entries).length = 1 := by
          rw [UfwAbsent, ← carrying_eq_nil, hrest, heq, length_carrying_cons hown, Nat.add_eq_right,
            length_eq_zero_iff]
        rw [UfwTold, or_iff_right hpresent, UfwFound, hfind]
        exact ⟨fun hgone => ⟨rfl, fun _ => hiff.mp (hgone rfl)⟩, fun hone _ => hiff.mpr (hone.2 rfl)⟩

/-! ## firewalld -/

def FirewalldQuery.failed (e : CommandError) : (q : FirewalldQuery) → FirewalldAnswer q
  | .getDefaultZone => .error e
  | .listServices _ => .error e
  | .readFile _ => .error e
  | .act _ => .error e

/-- There is no service of this name, and no zone lists it. -/
def FirewalldAbsent (st : FirewalldHost) (M : Manager) (id : Str) : Prop :=
  st.files (servicePath (firewalldServiceName M.ns id)) = none ∧
    ∀ z svcs, st.zones z = some svcs → firewalldServiceName M.ns id ∉ svcs

def removeCommands (st : FirewalldHost) (svc : Str) : Nat :=
  let svcs := (st.zones st.defaultZone).getD []
  if Listable svcs ∧ svc ∈ svcs then 5 else 4

/-- A command fails, or the service is in no zone but the default one and can be listed there. -/
def FirewalldTold (st : FirewalldHost) (M : Manager) (id : Str)
    (os : List (Option CommandError)) : Prop :=
  (∃ e, some e ∈ os.take (removeCommands st (firewalldServiceName M.ns id))) ∨
    ∀ z svcs, st.zones z = some svcs → firewalldServiceName M.ns id ∈ svcs →
      z = st.defaultZone ∧ Listable svcs

section
variable {st : FirewalldHost} {os : List (Option CommandError)}
  {r : Except FirewallError Unit × (FirewalldHost × List (Option CommandError))}

theorem run_firewalldRun {a : FirewalldAct} {text : Str} {next : FirewalldOp Unit}
    (h : run (faulty FirewalldHost.answer FirewalldQuery.failed) (st, os)
      (firewalldRun a text next) = some r) :
    (∃ e os', os = some e :: os' ∧ r.1 ≠ .ok ()) ∨
      ∃ os' st', os = none :: os' ∧ st.act a = some st' ∧
        run (faulty FirewalldHost.answer FirewalldQuery.failed) (st', os') next = some r := by
  obtain ⟨e, os', rfl, hret⟩ | ⟨os', q, st', rfl, hq, hnext⟩ := run_faulty_ask h
  · cases hret
    exact .inl ⟨e, os', rfl, by rintro ⟨⟩⟩
  · obtain ⟨st₁, hact, heq⟩ := map_eq_some_iff.mp hq
    cases heq
    exact .inr ⟨os', st', rfl, hact, hnext⟩

theorem run_firewalldRemoveFile {svc : Str}
    (h : run (faulty FirewalldHost.answer FirewalldQuery.failed) (st, os)
      (firewalldRemoveFile svc) = some r) :
    (∃ e, some e ∈ os.take 2) ∧ r.1 ≠ .ok () ∨
      ∃ os', os = none :: none :: os' ∧ r = (.ok (), (st.setFile (servicePath svc) none, os')) := by
  obtain ⟨e, os₁, rfl, herror⟩ | ⟨os₁, st₁, rfl, hact, hreload⟩ := run_firewalldRun h
  · exact .inl ⟨⟨e, mem_cons_self ..⟩, herror⟩
  · cases hact
    obtain ⟨e, os₂, rfl, herror⟩ | ⟨os₂, st₂, rfl, hact, hret⟩ := run_firewalldRun hreload
    · exact .inl ⟨⟨e, mem_cons_of_mem _ (mem_cons_self ..)⟩, herror⟩
    · cases hact
      cases hret
      exact .inr ⟨os₂, rfl, rfl⟩

theorem FirewalldHost.removeService_spec {st' : FirewalldHost} {zone svc : Str}
    (h : st.removeService zone svc = some st') :
    (∀ svcs, st'.zones zone = some svcs → svc ∉ svcs) ∧
      ∀ z, z ≠ zone → st'.zones z = st.zones z := by
  unfold removeService at h
  split at h
  · cases h
  cases h
  refine ⟨fun svcs' hsvcs => ?_, fun z hz => update_of_ne hz ..⟩
  rw [setZone] at hsvcs
  dsimp only at hsvcs
  rw [update_self, some_inj] at hsvcs
  rw [← hsvcs, mem_filter]
  rintro ⟨-, hne⟩
  exact of_decide_eq_true hne rfl

/-- A command fails and so does the call, or the definition is gone and the service has left the
default zone, if it was listed there. -/
theorem run_firewalldRemoveRule (hid : validateRuleID id = .ok ())
    (h : run (faulty FirewalldHost.answer FirewalldQuery.failed) (st, os)
      (firewalldRemoveRule M id) = some r) :
    (∃ e, some e ∈ os.take (removeCommands st (firewalldServiceName M.ns id))) ∧ r.1 ≠ .ok () ∨
      (∀ e, some e ∉ os.take (removeCommands st (firewalldServiceName M.ns id))) ∧ r.1 = .ok () ∧
        r.2.1.files (servicePath (firewalldServiceName M.ns id)) = none ∧
        ∀ z, (∃ svcs, r.2.1.zones z = some svcs ∧ firewalldServiceName M.ns id ∈ svcs) ↔
          ∃ svcs, st.zones z = some svcs ∧ firewalldServiceName M.ns id ∈ svcs ∧
            ¬ (z = st.defaultZone ∧ Listable svcs) := by
  rw [firewalldRemoveRule, hid] at h
  obtain ⟨e, os₁, rfl, hret⟩ | ⟨os₁, q, st₁, rfl, hq, hlist⟩ := run_faulty_ask h
  · cases hret
    refine .inl ⟨⟨e, ?_⟩, by rintro ⟨⟩⟩
    unfold removeCommands
    dsimp only
    split <;> exact mem_cons_self ..
  · cases hq
    dsimp only at hlist
    rw [trimSpace_line st.isWord_defaultZone, if_neg st.isWord_defaultZone.1] at hlist
    obtain ⟨e, os₂, rfl, hret⟩ | ⟨os₂, q, st₂, rfl, hq, hfile⟩ := run_faulty_ask hlist
    · cases hret
      refine .inl ⟨⟨e, ?_⟩, by rintro ⟨⟩⟩
      unfold removeCommands
      dsimp only
      split <;> exact mem_cons_of_mem _ (mem_cons_self ..)
    · obtain ⟨svcs, hzone, heq⟩ := map_eq_some_iff.mp hq
      cases heq
      dsimp only at hfile
      have hlisted := mem_fields_services (st.isWord_service _ _ hzone) (dash_mem_serviceName M.ns id)
      rw [removeCommands, hzone, getD_some]
      by_cases hmem : Listable svcs ∧ firewalldServiceName M.ns id ∈ svcs
      · rw [if_pos (hlisted.mpr hmem)] at hfile
        rw [if_pos hmem]
        obtain ⟨e, os₃, rfl, herror⟩ | ⟨os₃, st₃, rfl, hact, hfile⟩ := run_firewalldRun hfile
        · exact .inl ⟨⟨e, by simp⟩, herror⟩
        · obtain ⟨hgone, hsame⟩ := FirewalldHost.removeService_spec hact
          obtain ⟨⟨e, he⟩, herror⟩ | ⟨os₄, rfl, rfl⟩ := run_firewalldRemoveFile hfile
          · exact .inl ⟨⟨e, by simpa using he⟩, herror⟩
          · refine .inr ⟨by simp, rfl, update_self .., fun z => ?_⟩
            change (∃ svcs, st₃.zones z = some svcs ∧ _) ↔ _
            by_cases hz : z = st.defaultZone
            · subst hz
              constructor
              · rintro ⟨svcs', hsvcs, hin⟩
                exact absurd hin (hgone svcs' hsvcs)
              · rintro ⟨svcs', hsvcs, -, hnot⟩
                cases hzone.symm.trans hsvcs
                exact absurd ⟨rfl, hmem.1⟩ hnot
            · simp only [hsame z hz, hz, false_and, not_false_eq_true, and_true]
      · rw [if_neg (mt hlisted.mp hmem)] at hfile
        rw [if_neg hmem]
        obtain ⟨⟨e, he⟩, herror⟩ | ⟨os₄, rfl, rfl⟩ := run_firewalldRemoveFile hfile
        · exact .inl ⟨⟨e, by simpa using he⟩, herror⟩
        · refine .inr ⟨by simp, rfl, update_self .., fun z => ?_⟩
          refine exists_congr fun svcs' => and_congr_right fun hsvcs => ?_
          refine (and_iff_left_of_imp fun hin hdefault => hmem ?_).symm
          obtain ⟨rfl, hlistable⟩ := hdefault
          cases hzone.symm.trans hsvcs
          exact ⟨hlistable, hin⟩

theorem firewalld_told_iff {st' : FirewalldHost} (hid : validateRuleID id = .ok ())
    (hrun : run (faulty FirewalldHost.answer FirewalldQuery.failed) (st, os)
      (firewalldRemoveRule M id) = some (res, (st', os'))) :
    (res = .ok () → FirewalldAbsent st' M id) ↔ FirewalldTold st M id os := by
  obtain ⟨hfail, herror⟩ | ⟨hnone, hok, hfile, hzones⟩ := run_firewalldRemoveRule hid hrun
  · exact ⟨fun _ => .inl hfail, fun _ hok => absurd hok herror⟩
  · have hnever : ¬ ∃ e, some e ∈ os.take (removeCommands st (firewalldServiceName M.ns id)) :=
      not_exists.mpr hnone
    rw [FirewalldTold, or_iff_right hnever]
    constructor
    · intro habsent z svcs hzone hin
      by_contra hnot
      obtain ⟨svcs', hsvcs, hin'⟩ := (hzones z).mpr ⟨svcs, hzone, hin, hnot⟩
      exact (habsent hok).2 z svcs' hsvcs hin'
    · intro hother _
      refine ⟨hfile, fun z svcs hsvcs hin => ?_⟩
      obtain ⟨svcs', hzone, hin', hnot⟩ := (hzones z).mp ⟨svcs, hsvcs, hin⟩
      exact hnot (hother z svcs' hzone hin')

end

/-! ## All three -/

theorem told_iff_of_valid {absent told : Prop}
    (hinvalid : validateRuleID id ≠ .ok () → res ≠ .ok ())
    (h : validateRuleID id = .ok () → ((res = .ok () → absent) ↔ told)) :
    (res = .ok () → absent) ↔ (validateRuleID id = .ok () → told) := by
  by_cases hid : validateRuleID id = .ok ()
  · rw [h hid]
    exact ⟨fun htold _ => htold, fun htold => htold hid⟩
  · exact ⟨fun _ hvalid => absurd hvalid hid, fun _ hok => absurd hok (hinvalid hid)⟩

/-- A removal that returns no error has removed the rule if and only if the backend was told the
truth about what is there. -/
theorem remove_told_iff (nft : Nft) (F : AddrFormat) (M : Manager) (id : Str) :
    (∀ h rs os res rs' os', run (faulty (nft.answer h) Query.failed) (rs, os) (removeRule M id) =
        some (res, (rs', os')) →
      ((res = .ok () → NftAbsent rs' M id) ↔
        (validateRuleID id = .ok () → NftTold nft rs M id os))) ∧
    (∀ st os res st' os', run (faulty (UfwHost.answer F) UfwQuery.failed) (st, os)
        (ufwRemoveRule M id) = some (res, (st', os')) →
      ((res = .ok () → UfwAbsent st' M id) ↔
        (validateRuleID id = .ok () → UfwTold st M id os))) ∧
    ∀ st os res st' os', run (faulty FirewalldHost.answer FirewalldQuery.failed) (st, os)
        (firewalldRemoveRule M id) = some (res, (st', os')) →
      ((res = .ok () → FirewalldAbsent st' M id) ↔
        (validateRuleID id = .ok () → FirewalldTold st M id os)) := by
  refine ⟨?_, ?_, ?_⟩
  · intro h rs os res rs' os' hrun
    refine told_iff_of_valid (fun hid => ?_) fun hid => nft_told_iff nft hid hrun
    cases hcheck : validateRuleID id with
    | ok u => exact absurd hcheck hid
    | error e =>
      rw [removeRule, hcheck] at hrun
      cases hrun
      rintro ⟨⟩
  · intro st os res st' os' hrun
    refine told_iff_of_valid (fun hid => ?_) fun hid => ufw_told_iff F hid hrun
    cases hcheck : validateRuleID id with
    | ok u => exact absurd hcheck hid
    | error e =>
      rw [ufwRemoveRule, hcheck] at hrun
      cases hrun
      rintro ⟨⟩
  · intro st os res st' os' hrun
    refine told_iff_of_valid (fun hid => ?_) fun hid => firewalld_told_iff hid hrun
    cases hcheck : validateRuleID id with
    | ok u => exact absurd hcheck hid
    | error e =>
      rw [firewalldRemoveRule, hcheck] at hrun
      cases hrun
      rintro ⟨⟩

/-! A `ufw` whose status cannot be had: the rule is said to be gone and is still there. -/

/-- The status fails: no error, and the rule is still there. -/
theorem removed_without_status :
    ∃ st, run (UfwHost.answer testFormat) emptyUfw
        (ufwApplyRule testNet testManager (webRule 80)) = some (.ok (), st) ∧
      (run (faulty (UfwHost.answer testFormat) UfwQuery.failed) (st, [some (.exit 1 [])])
          (ufwRemoveRule testManager (webRule 80).id)).map
        (fun r => (r.1, r.2.1.entries.map UfwEntry.comment)) =
          some (.ok (), ["acme:web".toList]) := by
  decide +kernel

/-! A removal that is told and true: the rule is found and is the only one with its comment. -/

/-- The status comes, and the rule goes. -/
theorem remove_told_web :
    ∃ st st' os', run (UfwHost.answer testFormat) emptyUfw
        (ufwApplyRule testNet testManager (webRule 80)) = some (.ok (), st) ∧
      run (faulty (UfwHost.answer testFormat) UfwQuery.failed) (st, [none, none])
        (ufwRemoveRule testManager (webRule 80).id) = some (.ok (), (st', os')) ∧
      UfwAbsent st' testManager (webRule 80).id := by
  obtain ⟨st, hrun, hfound, hone, ⟨st', os'⟩, hrun', -⟩ : ∃ st,
      run (UfwHost.answer testFormat) emptyUfw (ufwApplyRule testNet testManager (webRule 80)) =
        some (.ok (), st) ∧
      (ufwFindRuleNumber st.status testManager.ns (webRule 80).id).isSome ∧
      (carrying (ufwCommentIdentity testManager.ns (webRule 80).id) st.entries).length = 1 ∧
      ∃ r, run (faulty (UfwHost.answer testFormat) UfwQuery.failed) (st, [none, none])
        (ufwRemoveRule testManager (webRule 80).id) = some (.ok (), r) ∧ True := by
    decide +kernel
  have htold : UfwTold st testManager (webRule 80).id [none, none] :=
    .inr ⟨hfound, fun _ => hone⟩
  have habsent := ((remove_told_iff testNft testFormat testManager (webRule 80).id).2.1 st
    [none, none] _ st' os' hrun').mpr (fun _ => htold) rfl
  exact ⟨st, st', os', hrun, hrun', habsent⟩

end PowerManage.Firewall
