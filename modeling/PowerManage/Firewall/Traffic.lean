import PowerManage.Firewall.Refinement
import PowerManage.Lib.FirstMatch

/-!
# What packets meet

The chain of a namespace is an ordered list: a packet is decided by the first rule it meets, and
accepted if it meets none.  `ApplyRule` of a rule that is there already deletes it and adds it again
in one batch, which leaves the map from identifiers to rules as it was but moves the rule to the end
of the chain.  `reapply_keeps_verdicts` says when no packet can tell.

Which addresses a text stands for is `covers`, over any type of addresses.
-/

namespace PowerManage.Firewall

open PathName Text Interaction Transition Keyed FirstMatch List

/-- What of a packet rules look at. -/
structure Packet (Addr : Type) where
  family : Family
  source : Addr
  dest : Addr
  transport : Option (Transport × Nat)

section
variable {Addr : Type} (covers : Str → Addr → Bool) (p : Packet Addr)

def sideHits (addr : Addr) : Option (Family × Str) → Bool
  | none => true
  | some (f, text) => f = p.family && covers text addr

def transportHits : Option (Transport × Option Nat) → Bool
  | none => true
  | some (t, none) => p.transport.any (·.1 = t)
  | some (t, some port) => p.transport = some (t, port)

def Statement.hits (st : Statement) : Bool :=
  sideHits covers p p.source st.saddr && sideHits covers p p.dest st.daddr &&
    transportHits p st.transport

def chainOf (rs : Ruleset) (M : Manager) : List Installed :=
  (tableOf rs M).rules.filter (·.chain = nftChain)

def chainVerdict (rs : Ruleset) (M : Manager) : Verdict :=
  verdict (fun o : Installed => o.statement.hits covers p) (·.statement.verdict) .accept (chainOf rs M)

/-- The packet does not meet the rule of the identifier first and one that decides otherwise
next. -/
def Unopposed (rs : Ruleset) (M : Manager) (id : Str) : Prop :=
  ∀ before o after, chainOf rs M = before ++ o :: after → o.comment = id →
    o.statement.hits covers p = true → (∀ x ∈ before, x.statement.hits covers p = false) →
      ∀ next, (after.find? fun x => x.statement.hits covers p) = some next →
        next.statement.verdict = o.statement.verdict

end

/-! ## Where the rules of a chain come from -/

/-- Every rule of the table was written by `ApplyRule` for a rule that it took. -/
def Written (net : Net) (M : Manager) (rs : Ruleset) : Prop :=
  ∀ o ∈ (tableOf rs M).rules, ∃ rule srcFam dstFam, Translatable net rule srcFam dstFam ∧
    o = installed rule srcFam dstFam o.handle

variable {rule : Rule} {o : Installed}

section
variable {nft : Nft} {net : Net} {M : Manager} {rs rs' : Ruleset}

theorem written_callStep {c : Call × Nat} (hstep : callStep nft net M rs c = some rs')
    (hw : Written net M rs) : Written net M rs' := by
  obtain ⟨rule, -, hrun⟩ | ⟨id, -, hrun⟩ := callStep_cases hstep
  · obtain ⟨srcFam, dstFam, tb', ht, rfl, happ⟩ := run_applyRule hrun
    rw [Written, tableOf_update, happ.rules]
    refine forall_mem_append.mpr ⟨fun o ho => hw o ?_, ?_⟩
    · split at ho
      · exact (Table.mem_without.mp ho).1
      · exact ho
    · rw [forall_mem_singleton]
      exact ⟨rule, srcFam, dstFam, ht, rfl⟩
  · rcases run_removeRule hrun with ⟨-, rfl⟩ | ⟨o, tb', -, rfl, hrem⟩
    · exact hw
    · rw [Written, tableOf_update, hrem.rules]
      exact fun x hx => hw x (Table.mem_without.mp hx).1

theorem written_exec {calls : List (Call × Nat)} (habsent : rs (nftTableName M.ns) = none)
    (hrun : exec (callStep nft net M) rs calls = some rs') : Written net M rs' := by
  refine exec_induction (fun s a t => written_callStep) hrun ?_
  rw [Written, tableOf, habsent]
  exact forall_mem_nil _

theorem Translatable.unique {srcFam dstFam srcFam' dstFam' : Option Family}
    (ht : Translatable net rule srcFam dstFam) (ht' : Translatable net rule srcFam' dstFam') :
    srcFam = srcFam' ∧ dstFam = dstFam' := by
  have hsource := ht.source
  have hdest := ht.dest
  rw [ht'.source] at hsource
  rw [ht'.dest] at hdest
  cases hsource
  cases hdest
  exact ⟨rfl, rfl⟩

theorem Written.statement_eq (hw : Written net M rs) {srcFam dstFam : Option Family}
    (ht : Translatable net rule srcFam dstFam) (ho : o ∈ (tableOf rs M).rules)
    (hrule : o.rule = rule) : o.statement = statementOf rule srcFam dstFam := by
  obtain ⟨rule', srcFam', dstFam', ht', heq⟩ := hw o ho
  have hback : o.rule = rule' := by
    rw [heq]
    exact ruleOf_statementOf ht'
  rw [hrule] at hback
  subst hback
  obtain ⟨rfl, rfl⟩ := ht.unique ht'
  rw [heq]
  rfl

end

/-! ## Applying a rule again -/

theorem Table.without_eq_append (tb : Table) {before after : List Installed}
    (h : tb.rules = before ++ o :: after) : tb.without o.handle = before ++ after := by
  have hnodup := tb.nodup
  rw [h, map_append, map_cons, nodup_middle, nodup_cons, ← map_append]
    at hnodup
  have hne : ∀ x ∈ before ++ after, x.handle ≠ o.handle := fun x hx heq =>
    hnodup.1 (mem_map.mpr ⟨x, hx, heq⟩)
  rw [Table.without, h, filter_append, filter_cons_of_neg (by simp), ← filter_append]
  exact filter_eq_self.mpr fun x hx => decide_eq_true (hne x hx)

section
variable {nft : Nft} {net : Net} {M : Manager} {rs rs' : Ruleset} {m : Store Str Rule}

theorem Simulates.chainOf_eq (hs : Simulates M rs m) : chainOf rs M = (tableOf rs M).rules :=
  filter_eq_self.mpr fun o ho => decide_eq_true (hs.chain o ho)

theorem chain_reapply (hs : Simulates M rs m) (hcap : nft.within (tableOf rs M) = true)
    (hw : Written net M rs) {h : Nat} (hmem : rule ∈ chainRules rs M)
    (hrun : (applyRule net M rule).run (nft.answer h) rs = some (.ok (), rs')) :
    ∃ before o o' after, chainOf rs M = before ++ o :: after ∧ chainOf rs' M = before ++ after ++ [o'] ∧
      o.comment = rule.id ∧ o'.statement = o.statement := by
  have hs' := simulates_apply hs hcap hrun
  obtain ⟨srcFam, dstFam, tb', ht, rfl, happ⟩ := run_applyRule hrun
  rw [Nft.seen_of_within hcap] at happ
  rw [hs.chainRules_eq] at hmem
  obtain ⟨o, ho, hrule⟩ := mem_map.mp hmem
  have hcomment : o.comment = rule.id := congrArg Rule.id hrule
  -- The entry that is found under the identifier is the entry of the rule.
  have hfind : (tableOf rs M).named rule.id = some o := by
    cases hfind : (tableOf rs M).named rule.id with
    | none => exact absurd hcomment (find_comment_none hfind o ho)
    | some x =>
      obtain ⟨hx, hid⟩ := find_comment hfind
      rw [hs.eq_of_comment_eq hx ho (hid.trans hcomment.symm)]
  obtain ⟨before, after, hsplit⟩ := append_of_mem ho
  refine ⟨before, o, installed rule srcFam dstFam h, after, hs.chainOf_eq.trans hsplit, ?_, hcomment,
    (hw.statement_eq ht ho hrule).symm⟩
  rw [hs'.chainOf_eq, tableOf_update, happ.rules, hfind, Option.map_some, Option.getD_some,
    if_pos ((tableOf rs M).handle_pos o ho), Table.without_eq_append _ hsplit]

theorem unopposed_iff (hs : Simulates M rs m) {Addr : Type} {covers : Str → Addr → Bool}
    {p : Packet Addr} {id : Str} {before after : List Installed}
    (hchain : chainOf rs M = before ++ o :: after) (hid : o.comment = id) :
    Unopposed covers p rs M id ↔
      (o.statement.hits covers p = true → (∀ x ∈ before, x.statement.hits covers p = false) →
        ∀ next, (after.find? fun x => x.statement.hits covers p) = some next →
          next.statement.verdict = o.statement.verdict) := by
  refine ⟨fun h => h before o after hchain hid, fun h before' o' after' hchain' hid' => ?_⟩
  have hmem : ∀ {x b a}, chainOf rs M = b ++ x :: a → x ∈ (tableOf rs M).rules := by
    intro x b a hx
    rw [← hs.chainOf_eq, hx]
    exact mem_append_right b (mem_cons_self ..)
  have heq : o' = o := hs.eq_of_comment_eq (hmem hchain') (hmem hchain) (hid'.trans hid.symm)
  subst heq
  have hnodup : (chainOf rs M).Nodup := by
    rw [hs.chainOf_eq]
    exact (tableOf rs M).nodup.of_map
  obtain ⟨rfl, rfl⟩ := split_unique hnodup hchain hchain'
  exact h

/-- Past the cap the rule is added a second time, behind itself. -/
theorem verdict_reapply_past {Addr : Type} {covers : Str → Addr → Bool} (p : Packet Addr) {h : Nat}
    (hpast : nft.within (tableOf rs M) = false) (hw : Written net M rs)
    (hmem : rule ∈ chainRules rs M)
    (hrun : (applyRule net M rule).run (nft.answer h) rs = some (.ok (), rs')) :
    chainVerdict covers p rs' M = chainVerdict covers p rs M := by
  obtain ⟨srcFam, dstFam, tb', ht, rfl, happ⟩ := run_applyRule hrun
  rw [Nft.seen_of_past hpast] at happ
  obtain ⟨o, ho, hrule⟩ := mem_map.mp hmem
  have hstatement := hw.statement_eq ht (mem_of_mem_filter ho) hrule
  have hchain : chainOf (Function.update rs (nftTableName M.ns) (some tb')) M =
      chainOf rs M ++ [installed rule srcFam dstFam h] := by
    rw [chainOf, tableOf_update, happ.rules, filter_append]
    rfl
  rw [chainVerdict, chainVerdict, hchain]
  refine verdict_append_repeated ?_ ho
  rw [hstatement]
  rfl

end

/-- Another successful `ApplyRule` of a rule that is installed leaves every packet's verdict as it
was exactly when no packet that meets the rule first meets one with the other verdict next, or when
the table cannot be listed any more. -/
theorem reapply_keeps_verdicts {Addr : Type} (covers : Str → Addr → Bool) (nft : Nft)
    (net : Net) (M : Manager) {rs₀ rs rs' : Ruleset} {calls : List (Call × Nat)} {rule : Rule}
    {h : Nat} (habsent : rs₀ (nftTableName M.ns) = none)
    (hrun : exec (callStep nft net M) rs₀ calls = some rs) (hinstalled : rule ∈ chainRules rs M)
    (hagain : callStep nft net M rs (.apply rule, h) = some rs') :
    (∀ p, chainVerdict covers p rs' M = chainVerdict covers p rs M) ↔
      (nft.within (tableOf rs M) = true → ∀ p, Unopposed covers p rs M rule.id) := by
  have hw := written_exec habsent hrun
  obtain ⟨rule', hc, hop⟩ | ⟨id, hc, -⟩ := callStep_cases hagain
  case inr => cases hc
  cases hc
  cases hcap : nft.within (tableOf rs M) with
  | false => exact iff_of_true (fun p => verdict_reapply_past p hcap hw hinstalled hop) (by simp)
  | true =>
    have hs := simulates_exec (simulates_absent habsent) hrun hcap
    obtain ⟨before, o, o', after, hchain, hchain', hid, hst⟩ :=
      chain_reapply hs hcap hw hinstalled hop
    rw [eq_self, forall_true_left]
    refine forall_congr' fun p => ?_
    rw [unopposed_iff hs hchain hid, chainVerdict, chainVerdict, hchain, hchain']
    refine verdict_moved ?_ ?_ before after
    · rw [hst]
    · rw [hst]

/-! The way in for administrators stands in front of a rule that drops everything; after another
`ApplyRule` of it, it stands behind. -/

def adminRule : Rule := ⟨"admin", true, .tcp, 22, [], []⟩

def dropRule : Rule := ⟨"drop-all", false, .any, 0, [], []⟩

def sshPacket : Packet Unit := ⟨.ip, (), (), some (.tcp, 22)⟩

/-- Applied again, a rule moves behind another one, and what it had accepted is dropped. -/
theorem reapply_locks_out :
    ∃ rs rs', exec (callStep testNft testNet testManager) (fun _ => none)
        [(.apply adminRule, 2), (.apply dropRule, 3)] = some rs ∧
      adminRule ∈ chainRules rs testManager ∧
      callStep testNft testNet testManager rs (.apply adminRule, 4) = some rs' ∧
      chainVerdict (fun _ _ => true) sshPacket rs testManager = .accept ∧
      chainVerdict (fun _ _ => true) sshPacket rs' testManager = .drop := by
  obtain ⟨rs, hrun, hmem, hbefore, rs', hagain, hafter⟩ : ∃ rs,
      exec (callStep testNft testNet testManager) (fun _ => none)
        [(.apply adminRule, 2), (.apply dropRule, 3)] = some rs ∧
      adminRule ∈ chainRules rs testManager ∧
      chainVerdict (fun _ _ => true) sshPacket rs testManager = .accept ∧
      ∃ rs', callStep testNft testNet testManager rs (.apply adminRule, 4) = some rs' ∧
        chainVerdict (fun _ _ => true) sshPacket rs' testManager = .drop := by
    decide +kernel
  exact ⟨rs, rs', hrun, hmem, hagain, hbefore, hafter⟩

/-- Two rules with the same verdict may change places. -/
theorem reapply_keeps_verdicts_web :
    ∃ rs rs', exec (callStep testNft testNet testManager) (fun _ => none)
        [(.apply adminRule, 2), (.apply (webRule 80), 3)] = some rs ∧
      callStep testNft testNet testManager rs (.apply adminRule, 4) = some rs' ∧
      ∀ p : Packet Unit, chainVerdict (fun _ _ => true) p rs' testManager =
        chainVerdict (fun _ _ => true) p rs testManager := by
  obtain ⟨rs, hrun, hmem, haccept, rs', hagain, -⟩ : ∃ rs,
      exec (callStep testNft testNet testManager) (fun _ => none)
        [(.apply adminRule, 2), (.apply (webRule 80), 3)] = some rs ∧
      adminRule ∈ chainRules rs testManager ∧
      (∀ o ∈ chainOf rs testManager, o.statement.verdict = .accept) ∧
      ∃ rs', callStep testNft testNet testManager rs (.apply adminRule, 4) = some rs' ∧ True := by
    decide +kernel
  refine ⟨rs, rs', hrun, hagain, (reapply_keeps_verdicts (fun _ _ => true) testNft testNet
    testManager rfl hrun hmem hagain).mpr fun _ p before o after hchain _ _ _ next hnext => ?_⟩
  rw [hchain] at haccept
  have ho := haccept o (mem_append_right _ (mem_cons_self ..))
  have hnext := haccept next
    (mem_append_right _ (mem_cons_of_mem _ (mem_of_find?_eq_some hnext)))
  rw [ho, hnext]

end PowerManage.Firewall
