import PowerManage.Firewall.Effect
import PowerManage.Lib.Keyed
import PowerManage.Lib.Transition

/-!
# The chain as a map

Without failing commands the nftables backend is a finite map from identifiers to rules: `ApplyRule`
inserts or overwrites, `RemoveRule` erases.  The map is the abstract model (`specCall`), the chain
of the namespace's table its representation, and `calls_refine_map` the simulation over any sequence
of calls that starts from no table at all.

That is as long as the table can be listed.  Past the runner's cap the listing is cut without an
error, no rule is found in it, and `ApplyRule` adds a second rule under one identifier
(`rule_twice`).

An entry of the chain is read back as a rule by `ruleOf`, which loses nothing of a rule that was
accepted.  Overwriting moves a rule to the end of the chain, so the chain is the map and not the map
with an order; what packets meet is another matter.
-/

namespace PowerManage.Firewall

open PathName Text Interaction Transition Keyed List Function

/-- A call of the manager. -/
inductive Call
  | apply (rule : Rule)
  | remove (id : Str)
deriving DecidableEq

def Call.id : Call → Str
  | apply rule => rule.id
  | remove id => id

def Call.op (net : Net) (M : Manager) : Call → Op Unit
  | apply rule => applyRule net M rule
  | remove id => removeRule M id

/-- A call on its own that is accepted, with all of its commands successful. -/
def callStep (nft : Nft) (net : Net) (M : Manager) (rs : Ruleset) (c : Call × Nat) :
    Option Ruleset :=
  match (c.1.op net M).run (nft.answer c.2) rs with
  | some (.ok (), rs') => some rs'
  | _ => none

def specCall (m : Store Str Rule) : Call → Store Str Rule
  | .apply rule => m.insert rule.id rule
  | .remove id => m.erase id

def Installed.rule (o : Installed) : Rule := ruleOf o.comment o.statement

def chainRules (rs : Ruleset) (M : Manager) : List Rule :=
  ((tableOf rs M).rules.filter (·.chain = nftChain)).map Installed.rule

/-! ## Single calls -/

variable {id : Str}

section
variable {nft : Nft} {net : Net} {M : Manager} {rule : Rule} {rs rs' : Ruleset} {h : Nat}

theorem answer_list {q : Except CommandError Raw} {table : Str}
    (ha : nft.answer h rs (.list table) = some (q, rs')) :
    rs' = rs ∧ ((rs table = none ∧ q = .error nft.absent) ∨
      ∃ tb, rs table = some tb ∧ q = .ok (nft.listing tb)) := by
  cases htable : rs table with
  | none =>
    rw [Nft.answer, htable] at ha
    cases ha
    exact ⟨rfl, .inl ⟨rfl, rfl⟩⟩
  | some tb =>
    rw [Nft.answer, htable] at ha
    cases ha
    exact ⟨rfl, .inr ⟨tb, rfl, rfl⟩⟩

theorem answer_batch {q : Except CommandError Unit} {script : Str}
    (ha : nft.answer h rs (.batch script) = some (q, rs')) :
    q = .ok () ∧ nft.batch h rs script = some rs' := by
  obtain ⟨r, hr, heq⟩ := Option.map_eq_some_iff.mp ha
  cases heq
  exact ⟨rfl, hr⟩

theorem handleIn_answer {q : Except CommandError Raw} (id : Str)
    (ha : nft.answer h rs (.list (nftTableName M.ns)) = some (q, rs')) :
    handleIn q id = ((nft.seen (tableOf rs M) id).map Installed.handle).getD 0 := by
  obtain ⟨-, ⟨hnone, rfl⟩ | ⟨tb, htb, rfl⟩⟩ := answer_list ha
  · rw [tableOf, hnone, Nft.seen]
    split <;> rfl
  · rw [tableOf, htb, handleIn, findRuleHandle_listing]
    rfl

theorem run_nftRunScript {script : Str} {r : Except FirewallError Unit}
    (hrun : (nftRunScript script).run (nft.answer h) rs = some (r, rs')) :
    r = .ok () ∧ nft.batch h rs script = some rs' := by
  obtain ⟨q, rs₁, hq, hrun⟩ := Prog.run_ask_eq_some.mp hrun
  obtain ⟨rfl, hbatch⟩ := answer_batch hq
  cases hrun
  exact ⟨rfl, hbatch⟩

theorem run_applyRule
    (hrun : (applyRule net M rule).run (nft.answer h) rs = some (.ok (), rs')) :
    ∃ srcFam dstFam tb', Translatable net rule srcFam dstFam ∧
      rs' = update rs (nftTableName M.ns) (some tb') ∧
      Applied (tableOf rs M) tb' rule srcFam dstFam
        (((nft.seen (tableOf rs M) rule.id).map Installed.handle).getD 0) h := by
  unfold applyRule at hrun
  split at hrun
  · cases hrun
  rename_i hvalid
  obtain ⟨q, rs₁, hq, hfrom⟩ := Prog.run_ask_eq_some.mp hrun
  have hhandle := handleIn_answer (M := M) rule.id hq
  obtain ⟨rfl, -⟩ := answer_list hq
  unfold applyFrom at hfrom
  split at hfrom
  · cases hfrom
  rename_i script hscript
  obtain ⟨srcFam, dstFam, ht, rfl⟩ := build_ok (checked_of_validateRule hvalid) hscript
  obtain ⟨-, hbatch⟩ := run_nftRunScript hfrom
  rw [hhandle] at hbatch
  obtain ⟨tb', hrs, happ⟩ := batch_applyScript ht hbatch
  exact ⟨srcFam, dstFam, tb', ht, hrs, happ⟩

theorem run_removeRule (hrun : (removeRule M id).run (nft.answer h) rs = some (.ok (), rs')) :
    (nft.seen (tableOf rs M) id = none ∧ rs' = rs) ∨
      ∃ o tb', nft.seen (tableOf rs M) id = some o ∧
        rs' = update rs (nftTableName M.ns) (some tb') ∧
        Removed (tableOf rs M) tb' o.handle := by
  unfold removeRule at hrun
  split at hrun
  · cases hrun
  obtain ⟨q, rs₁, hq, hfrom⟩ := Prog.run_ask_eq_some.mp hrun
  obtain ⟨rfl, ⟨hnone, rfl⟩ | ⟨tb, htb, rfl⟩⟩ := answer_list hq
  · rw [removeFrom, if_pos nft.isNoTable_absent] at hfrom
    cases hfrom
    refine .inl ⟨?_, rfl⟩
    rw [tableOf, hnone, Nft.seen]
    split <;> rfl
  · have htable : tableOf rs₁ M = tb := by rw [tableOf, htb]; rfl
    rw [removeFrom, findRuleHandle_listing, ← htable] at hfrom
    cases hfind : nft.seen (tableOf rs₁ M) id with
    | none =>
      rw [hfind] at hfrom
      cases hfrom
      exact .inl ⟨rfl, rfl⟩
    | some o =>
      rw [hfind] at hfrom
      obtain ⟨-, hbatch⟩ := run_nftRunScript hfrom
      obtain ⟨tb₁, tb', htb₁, hrs, hrem⟩ := batch_deleteLine hbatch
      refine .inr ⟨o, tb', rfl, hrs, ?_⟩
      rw [htb, Option.some_inj] at htb₁
      rw [htable, htb₁]
      exact hrem

end

/-! ## The simulation -/

/-- The chain holds the map, and the table holds nothing else. -/
structure Simulates (M : Manager) (rs : Ruleset) (m : Store Str Rule) : Prop where
  chain : ∀ o ∈ (tableOf rs M).rules, o.chain = nftChain
  comment : ∀ o ∈ (tableOf rs M).rules, o.comment ≠ []
  holds : Holds Rule.id ((tableOf rs M).rules.map Installed.rule) m

section
variable {M : Manager} {rs : Ruleset} {m : Store Str Rule}

theorem Simulates.chainRules_eq (h : Simulates M rs m) :
    chainRules rs M = (tableOf rs M).rules.map Installed.rule := by
  rw [chainRules, filter_eq_self.mpr fun o ho => decide_eq_true (h.chain o ho)]

theorem Simulates.eq_of_comment_eq (h : Simulates M rs m) {o o' : Installed}
    (ho : o ∈ (tableOf rs M).rules) (ho' : o' ∈ (tableOf rs M).rules)
    (heq : o.comment = o'.comment) : o = o' := by
  have hnodup := h.holds.nodup
  rw [map_map] at hnodup
  exact inj_on_of_nodup_map hnodup ho ho' heq

theorem Simulates.without_eq (h : Simulates M rs m) {o : Installed}
    (hfind : (tableOf rs M).named id = some o) :
    (tableOf rs M).without o.handle = (tableOf rs M).rules.filter (·.comment ≠ id) := by
  obtain ⟨ho, hid⟩ := find_comment hfind
  refine filter_congr fun x hx => decide_eq_decide.mpr (not_congr ?_)
  constructor
  · intro hhandle
    rw [(tableOf rs M).eq_of_handle_eq hx ho hhandle]
    exact hid
  · intro hcomment
    rw [h.eq_of_comment_eq hx ho (hcomment.trans hid.symm)]

theorem Simulates.rules_of_applied (h : Simulates M rs m) {tb' : Table} {rule : Rule}
    {srcFam dstFam : Option Family} {handle : Nat}
    (happ : Applied (tableOf rs M) tb' rule srcFam dstFam
      ((((tableOf rs M).named rule.id).map Installed.handle).getD 0) handle) :
    tb'.rules = (tableOf rs M).rules.filter (·.comment ≠ rule.id) ++
      [installed rule srcFam dstFam handle] := by
  rw [happ.rules]
  congr 1
  cases hfind : (tableOf rs M).named rule.id with
  | none => exact (filter_eq_self.mpr fun o ho =>
      decide_eq_true (find_comment_none hfind o ho)).symm
  | some o =>
    have hpos := (tableOf rs M).handle_pos o (find_comment hfind).1
    rw [Option.map_some, Option.getD_some, if_pos hpos, h.without_eq hfind]

end

theorem map_rule_filter (rules : List Installed) (id : Str) :
    (rules.filter (·.comment ≠ id)).map Installed.rule =
      (rules.map Installed.rule).filter fun r => r.id ≠ id := by
  rw [filter_map]
  rfl

theorem tableOf_update (rs : Ruleset) (M : Manager) (tb : Table) :
    tableOf (update rs (nftTableName M.ns) (some tb)) M = tb := by
  rw [tableOf, update_self]
  rfl

section
variable {nft : Nft} {net : Net} {M : Manager} {rule : Rule} {rs rs' : Ruleset} {h : Nat}
  {m : Store Str Rule}

theorem simulates_apply (hs : Simulates M rs m) (hcap : nft.within (tableOf rs M) = true)
    (hrun : (applyRule net M rule).run (nft.answer h) rs = some (.ok (), rs')) :
    Simulates M rs' (m.insert rule.id rule) := by
  obtain ⟨srcFam, dstFam, tb', ht, rfl, happ⟩ := run_applyRule hrun
  rw [Nft.seen_of_within hcap] at happ
  have hnew : (installed rule srcFam dstFam h).rule = rule := ruleOf_statementOf ht
  have hrules := hs.rules_of_applied happ
  have hcases : ∀ o ∈ tb'.rules,
      o ∈ (tableOf rs M).rules ∨ o = installed rule srcFam dstFam h := by
    intro o ho
    rw [hrules, mem_append, mem_singleton] at ho
    exact ho.imp_left fun ho => mem_of_mem_filter ho
  constructor
  · rw [tableOf_update]
    intro o ho
    rcases hcases o ho with ho | rfl
    · exact hs.chain o ho
    · rfl
  · rw [tableOf_update]
    intro o ho
    rcases hcases o ho with ho | rfl
    · exact hs.comment o ho
    · exact (isWord_of_validateRuleID ht.checked.id).1
  · rw [tableOf_update, hrules, map_append, map_singleton, hnew, map_rule_filter]
    exact hs.holds.insert rule

theorem simulates_remove (hs : Simulates M rs m) (hcap : nft.within (tableOf rs M) = true)
    (hrun : (removeRule M id).run (nft.answer h) rs = some (.ok (), rs')) :
    Simulates M rs' (m.erase id) := by
  have hremoved := run_removeRule hrun
  rw [Nft.seen_of_within hcap] at hremoved
  rcases hremoved with ⟨hfind, rfl⟩ | ⟨o, tb', hfind, rfl, hrem⟩
  · refine ⟨hs.chain, hs.comment, hs.holds.erase_of_forall_ne fun r hr => ?_⟩
    obtain ⟨o, ho, rfl⟩ := mem_map.mp hr
    exact find_comment_none hfind o ho
  have hsub : ∀ x ∈ tb'.rules, x ∈ (tableOf rs M).rules := fun x hx =>
    (Table.mem_without.mp (hrem.rules ▸ hx)).1
  constructor
  · rw [tableOf_update]
    exact fun x hx => hs.chain x (hsub x hx)
  · rw [tableOf_update]
    exact fun x hx => hs.comment x (hsub x hx)
  · rw [tableOf_update, hrem.rules, hs.without_eq hfind, map_rule_filter]
    exact hs.holds.erase id

theorem callStep_cases {c : Call × Nat} (hstep : callStep nft net M rs c = some rs') :
    (∃ rule, c.1 = .apply rule ∧
        (applyRule net M rule).run (nft.answer c.2) rs = some (.ok (), rs')) ∨
      ∃ id, c.1 = .remove id ∧ (removeRule M id).run (nft.answer c.2) rs = some (.ok (), rs') := by
  obtain ⟨c, h⟩ := c
  unfold callStep at hstep
  split at hstep
  · rename_i r hrun
    cases hstep
    cases c with
    | apply rule => exact .inl ⟨rule, rfl, hrun⟩
    | remove id => exact .inr ⟨id, rfl, hrun⟩
  · cases hstep

theorem simulates_callStep {c : Call × Nat} (hs : Simulates M rs m)
    (hcap : nft.within (tableOf rs M) = true) (hstep : callStep nft net M rs c = some rs') :
    Simulates M rs' (specCall m c.1) := by
  obtain ⟨rule, hc, hrun⟩ | ⟨id, hc, hrun⟩ := callStep_cases hstep
  · rw [hc]
    exact simulates_apply hs hcap hrun
  · rw [hc]
    exact simulates_remove hs hcap hrun

theorem frame_callStep {c : Call × Nat} (hstep : callStep nft net M rs c = some rs') :
    ∀ table, table ≠ nftTableName M.ns → rs' table = rs table := by
  intro table hne
  obtain ⟨rule, -, hrun⟩ | ⟨id, -, hrun⟩ := callStep_cases hstep
  · obtain ⟨-, -, tb', -, rfl, -⟩ := run_applyRule hrun
    exact update_of_ne hne ..
  · rcases run_removeRule hrun with ⟨-, rfl⟩ | ⟨o, tb', -, rfl, -⟩
    · rfl
    · exact update_of_ne hne ..

/-- Past the cap nothing is found, so that nothing is deleted: a table that cannot be listed stays
so. -/
theorem within_of_callStep {c : Call × Nat} (hstep : callStep nft net M rs c = some rs')
    (hcap : nft.within (tableOf rs' M) = true) : nft.within (tableOf rs M) = true := by
  by_contra hpast
  rw [Bool.not_eq_true] at hpast
  obtain ⟨rule, -, hrun⟩ | ⟨id, -, hrun⟩ := callStep_cases hstep
  · obtain ⟨srcFam, dstFam, tb', -, rfl, happ⟩ := run_applyRule hrun
    rw [Nft.seen_of_past hpast] at happ
    rw [tableOf_update] at hcap
    refine Bool.eq_false_iff.mp hpast (Nft.within_of_sublist ?_ ?_ hcap)
    · rw [happ.chains, Table.addChain]
      dsimp only
      split
      · exact Sublist.refl _
      · exact sublist_append_left _ _
    · rw [happ.rules]
      exact sublist_append_left _ _
  · rcases run_removeRule hrun with ⟨-, rfl⟩ | ⟨o, tb', hfind, -, -⟩
    · exact Bool.eq_false_iff.mp hpast hcap
    · rw [Nft.seen_of_past hpast] at hfind
      cases hfind

end

/-! ## Listing -/

theorem applyExprToRule_id (expr : List Expr) (rule : Rule) :
    (applyExprToRule expr rule).id = rule.id := by
  have hone : ∀ (r : Rule) (e : Expr), (applyExpr r e).id = r.id := by
    intro r e
    unfold applyExpr
    repeat' split
    all_goals rfl
  induction expr generalizing rule with
  | nil => rfl
  | cons e expr ih => exact (ih (applyExpr rule e)).trans (hone rule e)

def Nft.listed (nft : Nft) (o : Installed) : Rule :=
  applyExprToRule (nft.print o.statement) ⟨o.comment, false, .any, 0, [], []⟩

variable (nft : Nft)

theorem Nft.listed_id (o : Installed) : (nft.listed o).id = o.comment :=
  applyExprToRule_id ..

theorem parseRules_items (tb : Table) :
    nftParseRules (.envelope (nft.items tb)) =
      .ok ((tb.rules.filter fun o => decide (o.comment ≠ [])).map nft.listed) := by
  have hchains : ∀ (chains : List Str) (f : ListItem → Option Rule), f .chain = none →
      (chains.map fun _ => ListItem.chain).filterMap f = [] := by
    intro chains f hf
    rw [filterMap_eq_nil_iff]
    intro item hitem
    obtain ⟨c, -, rfl⟩ := mem_map.mp hitem
    exact hf
  rw [Nft.items, nftParseRules]
  simp only [cons_append, filterMap_cons, filterMap_append, hchains,
    nil_append, filterMap_map, comp_def]
  congr 1
  induction tb.rules with
  | nil => rfl
  | cons o rules ih =>
    rw [filterMap_cons, ih]
    by_cases ho : o.comment = []
    · simp [ho]
    · simp [ho, Nft.listed]

theorem run_listRules {nft : Nft} {M : Manager} {rs : Ruleset} {m : Store Str Rule}
    (hs : Simulates M rs m) (htable : (rs (nftTableName M.ns)).isSome)
    (hcap : nft.within (tableOf rs M) = true) (h : Nat) :
    (listRules M).run (nft.answer h) rs = some (.ok ((tableOf rs M).rules.map nft.listed), rs) := by
  obtain ⟨tb, htb⟩ := Option.isSome_iff_exists.mp htable
  have htableOf : tableOf rs M = tb := by rw [tableOf, htb]; rfl
  have hcomment : tb.rules.filter (fun o => decide (o.comment ≠ [])) = tb.rules :=
    filter_eq_self.mpr fun o ho => decide_eq_true (hs.comment o (htableOf ▸ ho))
  rw [htableOf] at hcap ⊢
  refine Prog.run_ask_eq_some.mpr ⟨.ok (nft.listing tb), rs, ?_, ?_⟩
  · rw [Nft.answer, htb]
  · dsimp only
    rw [nft.listing_eq, if_pos hcap, parseRules_items, hcomment]
    rfl

/-- Past the cap the listing cannot be decoded. -/
theorem run_listRules_past {nft : Nft} {M : Manager} {rs : Ruleset}
    (htable : (rs (nftTableName M.ns)).isSome) (hpast : nft.within (tableOf rs M) = false)
    (h : Nat) {rules : List Rule} {rs' : Ruleset} :
    (listRules M).run (nft.answer h) rs ≠ some (.ok rules, rs') := by
  intro hrun
  obtain ⟨tb, htb⟩ := Option.isSome_iff_exists.mp htable
  have htableOf : tableOf rs M = tb := by rw [tableOf, htb]; rfl
  obtain ⟨q, rs₁, hq, hrun⟩ := Prog.run_ask_eq_some.mp hrun
  obtain ⟨-, ⟨hnone, -⟩ | ⟨tb', htb', rfl⟩⟩ := answer_list hq
  · rw [htb] at hnone
    cases hnone
  · rw [htb] at htb'
    cases htb'
    rw [← htableOf, nft.listing_eq, hpast] at hrun
    cases hrun

/-! ## Sequences of calls -/

theorem within_of_exec {nft : Nft} {net : Net} {M : Manager} {rs rs' : Ruleset}
    {calls : List (Call × Nat)} (hrun : exec (callStep nft net M) rs calls = some rs')
    (hcap : nft.within (tableOf rs' M) = true) : nft.within (tableOf rs M) = true := by
  induction calls generalizing rs with
  | nil =>
    cases hrun
    exact hcap
  | cons c calls ih =>
    obtain ⟨rs₁, hstep, hrest⟩ := exec_cons_eq_some.mp hrun
    exact within_of_callStep hstep (ih hrest)

theorem simulates_exec {nft : Nft} {net : Net} {M : Manager} {rs rs' : Ruleset}
    {m : Store Str Rule} {calls : List (Call × Nat)} (hs : Simulates M rs m)
    (hrun : exec (callStep nft net M) rs calls = some rs')
    (hcap : nft.within (tableOf rs' M) = true) :
    Simulates M rs' ((calls.map Prod.fst).foldl specCall m) := by
  induction calls generalizing rs m with
  | nil =>
    cases hrun
    exact hs
  | cons c calls ih =>
    obtain ⟨rs₁, hstep, hrest⟩ := exec_cons_eq_some.mp hrun
    have hcap₀ := within_of_callStep hstep (within_of_exec hrest hcap)
    exact ih (simulates_callStep hs hcap₀ hstep) hrest

theorem frame_exec {nft : Nft} {net : Net} {M : Manager} {rs rs' : Ruleset}
    {calls : List (Call × Nat)} (hrun : exec (callStep nft net M) rs calls = some rs') {table : Str}
    (hne : table ≠ nftTableName M.ns) : rs' table = rs table :=
  exec_induction (I := fun s => s table = rs table)
    (fun _ _ _ hstep hs => (frame_callStep hstep table hne).trans hs) hrun rfl

theorem simulates_absent {M : Manager} {rs : Ruleset} (h : rs (nftTableName M.ns) = none) :
    Simulates M rs ∅ := by
  have hrules : (tableOf rs M).rules = [] := by rw [tableOf, h]; rfl
  refine ⟨?_, ?_, ?_⟩ <;> rw [hrules]
  · exact forall_mem_nil _
  · exact forall_mem_nil _
  · exact holds_empty Rule.id

/-- After any sequence of accepted calls, all commands successful, that leaves a table within the
runner's cap, the chain of the namespace holds the map from identifiers to rules that the calls
describe, `List` reports its identifiers once each in the order of the chain, and no other table has
changed. -/
theorem calls_refine_map (net : Net) (M : Manager) {rs₀ rs : Ruleset}
    {calls : List (Call × Nat)} (habsent : rs₀ (nftTableName M.ns) = none)
    (hrun : exec (callStep nft net M) rs₀ calls = some rs)
    (hcap : nft.within (tableOf rs M) = true) :
    Holds Rule.id (chainRules rs M) ((calls.map Prod.fst).foldl specCall ∅) ∧
      ((rs (nftTableName M.ns)).isSome → ∀ h, ∃ listed,
        (listRules M).run (nft.answer h) rs = some (.ok listed, rs) ∧
          listed.map Rule.id = (chainRules rs M).map Rule.id) ∧
      ∀ ns, ns ≠ M.ns → rs (nftTableName ns) = rs₀ (nftTableName ns) := by
  have hs := simulates_exec (simulates_absent habsent) hrun hcap
  refine ⟨hs.chainRules_eq ▸ hs.holds, fun htable h => ⟨_, run_listRules hs htable hcap h, ?_⟩,
    fun ns hne => frame_exec hrun fun h => hne ?_⟩
  · rw [hs.chainRules_eq, map_map, map_map]
    exact map_congr_left fun o _ => nft.listed_id o
  · exact append_cancel_right h

/-! A namespace with two rules, of which one is overwritten and the other removed. -/

/-- An `nft` that takes about 300 bytes for an element, which is less than it takes for `webRule`. -/
def testNft : Nft where
  admits _ := true
  print _ := []
  width items := 300 * items.length
  width_le _ _ h := Nat.mul_le_mul_left 300 h.length_le
  absent := .exit 1 "Error: No such file or directory"
  isNoTable_absent := by decide

/-- Two rules, of which one is changed and the other is removed. -/
theorem calls_refine_map_web :
    ∃ rs, exec (callStep testNft testNet testManager) (fun _ => none)
        [(.apply (webRule 80), 2), (.apply sshRule, 3), (.apply (webRule 443), 5),
          (.remove sshRule.id, 6)] = some rs ∧
      chainRules rs testManager = [webRule 443] ∧
      Holds Rule.id (chainRules rs testManager)
        ([Call.apply (webRule 80), .apply sshRule, .apply (webRule 443),
          .remove sshRule.id].foldl specCall ∅) := by
  obtain ⟨rs, hrun, hrules, hcap⟩ : ∃ rs,
      exec (callStep testNft testNet testManager) (fun _ => none)
        [(.apply (webRule 80), 2), (.apply sshRule, 3), (.apply (webRule 443), 5),
          (.remove sshRule.id, 6)] = some rs ∧
      chainRules rs testManager = [webRule 443] ∧
      testNft.within (tableOf rs testManager) = true := by
    decide +kernel
  exact ⟨rs, hrun, hrules, (calls_refine_map testNft testNet testManager rfl hrun hcap).1⟩

/-! ## Past the cap

Some thousand rules under different identifiers, and the first of them once more. -/

section
variable {nft : Nft} {net : Net} {M : Manager} {rule : Rule} {rs : Ruleset} {h : Nat} {script : Str}

/-- A rule that is not found is added at the end. -/
theorem callStep_adds (hvalid : validateRule net rule = .ok ())
    (hscript : nftBuildApplyScriptStrict net M.ns rule 0 = .ok script)
    (hadmits : ∀ st, nft.admits st = true) (hseen : nft.seen (tableOf rs M) rule.id = none)
    (hnext : (tableOf rs M).next ≤ h) :
    ∃ rs' srcFam dstFam, callStep nft net M rs (.apply rule, h) = some rs' ∧
      (tableOf rs' M).next = h + 1 ∧
      (tableOf rs' M).rules = (tableOf rs M).rules ++ [installed rule srcFam dstFam h] := by
  obtain ⟨srcFam, dstFam, ht, rfl⟩ := build_ok (checked_of_validateRule hvalid) hscript
  obtain ⟨rs', hbatch⟩ := batch_applyScript_fresh ht (hadmits _) hnext
  obtain ⟨q, hq⟩ : ∃ q, nft.answer h rs (.list (nftTableName M.ns)) = some (q, rs) := by
    rw [Nft.answer]
    split <;> exact ⟨_, rfl⟩
  have hhandle := handleIn_answer (M := M) rule.id hq
  rw [hseen] at hhandle
  have hrun : (applyRule net M rule).run (nft.answer h) rs = some (.ok (), rs') := by
    rw [applyRule, hvalid]
    refine Prog.run_ask_eq_some.mpr ⟨q, rs, hq, ?_⟩
    rw [hhandle, applyFrom]
    dsimp only [Option.map_none, Option.getD_none]
    rw [hscript]
    refine Prog.run_ask_eq_some.mpr ⟨.ok (), rs', ?_, rfl⟩
    rw [Nft.answer, hbatch]
    rfl
  obtain ⟨tb', rfl, happ⟩ := batch_applyScript ht hbatch
  refine ⟨update rs (nftTableName M.ns) (some tb'), srcFam, dstFam, ?_, ?_, ?_⟩
  · rw [callStep, Call.op, hrun]
  · rw [tableOf_update, happ.next]
  · rw [tableOf_update, happ.rules]
    rfl

end

def numbered (i : Nat) : Rule := { webRule 80 with id := 'r' :: decimal i }

def numberedCalls (n : Nat) : List (Call × Nat) :=
  (range n).map fun i => (.apply (numbered i), i + 1)

theorem validateRule_numbered {i : Nat} (hi : i < 3500) :
    validateRule testNet (numbered i) = .ok () := by
  have hlength : (decimal i).length ≤ 62 := Nat.toDigits_length 10 i 62 (by decide) (by omega)
  have hid : validateRuleID (numbered i).id = .ok () := by
    have hall : (decimal i).all (fun x => isLowerDigit x || x = '_' || x = '-') = true :=
      all_eq_true.mpr fun c hc => by simp [isLowerDigit, isDigit_of_mem_decimal hc]
    have hre : ruleIDRE (numbered i).id = true := by
      rw [numbered, ruleIDRE, hall, decide_eq_true hlength]
      rfl
    have hne : (numbered i).id ≠ [] := cons_ne_nil _ _
    rw [validateRuleID, if_neg hne, hre]
    rfl
  rw [validateRule, hid]
  rfl

theorem numbered_id_inj {i j : Nat} (h : (numbered i).id = (numbered j).id) : i = j := by
  have hread := congrArg readDecimal (cons.inj h).2
  rw [readDecimal_decimal, readDecimal_decimal] at hread
  exact Option.some.inj hread

/-- The rules are added one behind the other. -/
theorem exec_numberedCalls {n : Nat} (hn : n ≤ 3500) :
    ∃ rs, exec (callStep testNft testNet testManager) (fun _ => none) (numberedCalls n) = some rs ∧
      (tableOf rs testManager).next = n + 1 ∧
      (tableOf rs testManager).rules.map (fun o => (o.chain, o.comment)) =
        (range n).map fun i => (nftChain, (numbered i).id) := by
  induction n with
  | zero => exact ⟨_, rfl, rfl, rfl⟩
  | succ n ih =>
    obtain ⟨rs, hrun, hnext, hids⟩ := ih (by omega)
    have hseen : testNft.seen (tableOf rs testManager) (numbered n).id = none := by
      rw [Nft.seen]
      split
      · refine find?_eq_none.mpr fun o ho => ?_
        have hmem := mem_map_of_mem (f := fun o => (o.chain, o.comment)) ho
        rw [hids, mem_map] at hmem
        obtain ⟨i, hi, hid⟩ := hmem
        rw [decide_eq_true_eq, ← (Prod.mk.inj hid).2]
        intro heq
        rw [numbered_id_inj heq] at hi
        exact absurd (mem_range.mp hi) (lt_irrefl n)
      · rfl
    obtain ⟨rs', srcFam, dstFam, hstep, hnext', hrules⟩ := callStep_adds
      (validateRule_numbered (by omega)) rfl (fun _ => rfl) hseen (le_of_eq hnext)
    refine ⟨rs', ?_, hnext', ?_⟩
    · rw [numberedCalls, range_succ, map_append]
      exact exec_concat_eq_some.mpr ⟨rs, hrun, hstep⟩
    · rw [hrules, map_append, hids, range_succ, map_append]
      rfl

/-- With 3500 rules the table cannot be listed any more, and a second `ApplyRule` of the first rule,
every command successful, leaves two rules under its identifier. -/
theorem rule_twice :
    ∃ rs, exec (callStep testNft testNet testManager) (fun _ => none)
        (numberedCalls 3500 ++ [(.apply (numbered 0), 3501)]) = some rs ∧
      (numbered 0).id ∈ ((chainRules rs testManager).map Rule.id).dropLast ∧
      ((chainRules rs testManager).map Rule.id).getLast? = some (numbered 0).id := by
  obtain ⟨rs, hrun, hnext, hids⟩ := exec_numberedCalls (le_refl 3500)
  have hlength : (tableOf rs testManager).rules.length = 3500 := by
    have := congrArg length hids
    rwa [length_map, length_map, length_range] at this
  have hpast : testNft.within (tableOf rs testManager) = false := by
    rw [Nft.within, decide_eq_false_iff_not]
    have hitems : 3500 ≤ (testNft.items (tableOf rs testManager)).length := by
      rw [Nft.items, length_append, length_map, hlength]
      omega
    have hmax : Exec.maxOutputBytes = 1048576 := rfl
    change ¬300 * (testNft.items (tableOf rs testManager)).length + 1 ≤ _
    omega
  obtain ⟨rs', srcFam, dstFam, hstep, -, hrules⟩ := callStep_adds (validateRule_numbered (i := 0)
    (by decide)) rfl (fun _ => rfl) (Nft.seen_of_past hpast) (le_of_eq hnext)
  have hall : (chainRules rs' testManager).map Rule.id =
      ((range 3500).map fun i => (numbered i).id) ++ [(numbered 0).id] := by
    have hpairs : (tableOf rs' testManager).rules.map (fun o => (o.chain, o.comment)) =
        ((range 3500).map fun i => (nftChain, (numbered i).id)) ++ [(nftChain, (numbered 0).id)] := by
      rw [hrules, map_append, hids]
      rfl
    have hchain : ∀ o ∈ (tableOf rs' testManager).rules, o.chain = nftChain := by
      intro o ho
      have hmem := mem_map_of_mem (f := fun o => (o.chain, o.comment)) ho
      rw [hpairs] at hmem
      simp only [mem_append, mem_map, mem_singleton, Prod.mk.injEq] at hmem
      rcases hmem with ⟨i, -, hc, -⟩ | ⟨hc, -⟩
      · exact hc.symm
      · exact hc
    have hcomments := congrArg (map Prod.snd) hpairs
    rw [chainRules, filter_eq_self.mpr fun o ho => decide_eq_true (hchain o ho), map_map]
    simpa [Function.comp_def, Installed.rule, ruleOf] using hcomments
  refine ⟨rs', exec_concat_eq_some.mpr ⟨rs, hrun, hstep⟩, ?_, ?_⟩
  · rw [hall, dropLast_concat]
    exact mem_map.mpr ⟨0, mem_range.mpr (by decide), rfl⟩
  · rw [hall, getLast?_concat]

end PowerManage.Firewall
