import PowerManage.Firewall.Script

/-!
# What the backend's commands do

The effect of the two scripts on the table of the namespace, and what a listing of it says: one
lemma each, from which everything about single calls, sequences of calls and interleaved calls is
derived.
-/

namespace PowerManage.Firewall

open PathName Text Interaction List Function Option

/-! ## Batches -/

def installed (rule : Rule) (srcFam dstFam : Option Family) (h : Nat) : Installed :=
  ⟨nftChain, h, rule.id, statementOf rule srcFam dstFam⟩

/-- The managed chain has a rule with this handle. -/
def Table.Has (tb : Table) (handle : Nat) : Prop :=
  ∃ o ∈ tb.rules, o.chain = nftChain ∧ o.handle = handle

variable {tb : Table}

theorem Table.deleteRule_eq_some {tb' : Table} {handle : Nat}
    (h : tb.deleteRule nftChain handle = some tb') :
    tb.Has handle ∧ tb'.rules = tb.without handle ∧ tb'.next = tb.next ∧
      tb'.chains = tb.chains := by
  unfold Table.deleteRule at h
  split at h
  · rename_i hany
    cases h
    obtain ⟨o, ho, hmatch⟩ := any_eq_true.mp hany
    rw [Bool.and_eq_true, decide_eq_true_eq, decide_eq_true_eq] at hmatch
    exact ⟨⟨o, ho, hmatch⟩, rfl, rfl, rfl⟩
  · cases h

theorem Table.addRule_eq_some {tb' : Table} {h : Nat} {chain comment : Str} {st : Statement}
    (hadd : tb.addRule h chain comment st = some tb') :
    tb.next ≤ h ∧ tb'.rules = tb.rules ++ [⟨chain, h, comment, st⟩] ∧ tb'.next = h + 1 ∧
      tb'.chains = tb.chains := by
  unfold Table.addRule at hadd
  split at hadd
  · rename_i hh
    cases hadd
    exact ⟨hh.2, rfl, rfl, rfl⟩
  · cases hadd

theorem Nft.onTable_eq_some {rs rs' : Ruleset} {table : Str} {f : Table → Option Table}
    (h : Nft.onTable rs table f = some rs') :
    ∃ tb tb', rs table = some tb ∧ f tb = some tb' ∧
      rs' = update rs table (some tb') := by
  obtain ⟨tb, htb, h⟩ := bind_eq_some_iff.mp h
  obtain ⟨tb', htb', rfl⟩ := map_eq_some_iff.mp h
  exact ⟨tb, tb', htb, htb', rfl⟩

def tableOf (rs : Ruleset) (M : Manager) : Table := (rs (nftTableName M.ns)).getD .empty

/-- `tb'` is `tb` after the script of `ApplyRule`, which replaces the rule of the handle if there is
one. -/
structure Applied (tb tb' : Table) (rule : Rule) (srcFam dstFam : Option Family) (handle h : Nat) :
    Prop where
  chains : tb'.chains = (tb.addChain nftChain).chains
  fresh : tb.next ≤ h
  next : tb'.next = h + 1
  has : handle > 0 → tb.Has handle
  rules : tb'.rules = (if handle > 0 then tb.without handle else tb.rules) ++
    [installed rule srcFam dstFam h]

/-- `tb'` is `tb` after the script of `RemoveRule`. -/
structure Removed (tb tb' : Table) (handle : Nat) : Prop where
  next : tb'.next = tb.next
  has : tb.Has handle
  rules : tb'.rules = tb.without handle

variable {nft : Nft} {net : Net} {M : Manager} {rule : Rule} {srcFam dstFam : Option Family}
  {rs rs' : Ruleset} {handle h : Nat}

theorem foldlM_setup :
    [Command.addTable (nftTableName M.ns), .addChain (nftTableName M.ns) nftChain].foldlM
        (nft.command h) rs =
      some (update rs (nftTableName M.ns) (some ((tableOf rs M).addChain nftChain))) := by
  simp only [foldlM_cons, foldlM_nil, Nft.command, bind_eq_bind, bind_some,
    Nft.onTable, update_self, update_idem, map_some]
  rfl

theorem command_addRule (hc : nft.command h (update rs (nftTableName M.ns) (some tb))
      (.addRule (nftTableName M.ns) nftChain (statementOf rule srcFam dstFam) rule.id) = some rs') :
    ∃ tb', rs' = update rs (nftTableName M.ns) (some tb') ∧
      tb'.chains = tb.chains ∧ tb.next ≤ h ∧ tb'.next = h + 1 ∧
      tb'.rules = tb.rules ++ [installed rule srcFam dstFam h] := by
  obtain ⟨tb₁, tb', htb, hadd, rfl⟩ := Nft.onTable_eq_some hc
  rw [update_self, some_inj] at htb
  subst htb
  split at hadd
  · obtain ⟨hfresh, hrules, hnext, hchains⟩ := Table.addRule_eq_some hadd
    exact ⟨tb', update_idem .., hchains, hfresh, hnext, hrules⟩
  · cases hadd

theorem batch_applyScript (ht : Translatable net rule srcFam dstFam)
    (hb : nft.batch h rs (applyScript (nftTableName M.ns) rule srcFam dstFam handle) = some rs') :
    ∃ tb', rs' = update rs (nftTableName M.ns) (some tb') ∧
      Applied (tableOf rs M) tb' rule srcFam dstFam handle h := by
  rw [Nft.batch, readScript_applyScript M ht, bind_some, foldlM_append,
    foldlM_append, foldlM_setup] at hb
  simp only [foldlM_cons, foldlM_nil, bind_pure] at hb
  by_cases hpos : handle > 0
  · rw [if_pos hpos] at hb
    simp only [foldlM_cons, foldlM_nil, bind_pure] at hb
    obtain ⟨rs₁, hdel, hadd⟩ := bind_eq_some_iff.mp hb
    obtain ⟨tb₁, tb₂, htb₁, hdel, rfl⟩ := Nft.onTable_eq_some hdel
    rw [update_self, some_inj] at htb₁
    subst htb₁
    obtain ⟨hhas, hrules, hnext, hchains⟩ := Table.deleteRule_eq_some hdel
    rw [update_idem] at hadd
    obtain ⟨tb', rfl, hchains', hfresh, hnext', hrules'⟩ := command_addRule hadd
    refine ⟨tb', rfl, hchains'.trans hchains, ?_, hnext', fun _ => hhas, ?_⟩
    · rw [hnext] at hfresh
      exact hfresh
    · rw [hrules', hrules, if_pos hpos]
      rfl
  · rw [if_neg hpos] at hb
    obtain ⟨tb', rfl, hchains, hfresh, hnext, hrules⟩ := command_addRule hb
    refine ⟨tb', rfl, hchains, hfresh, hnext, fun h => absurd h hpos, ?_⟩
    rw [hrules, if_neg hpos]
    rfl

/-- A script that deletes nothing goes through where `nft` takes the rule and the handle is new. -/
theorem batch_applyScript_fresh (ht : Translatable net rule srcFam dstFam)
    (hadmits : nft.admits (statementOf rule srcFam dstFam) = true)
    (hnext : (tableOf rs M).next ≤ h) :
    ∃ rs', nft.batch h rs (applyScript (nftTableName M.ns) rule srcFam dstFam 0) = some rs' := by
  have hchain : nftChain ∈ ((tableOf rs M).addChain nftChain).chains := by
    rw [Table.addChain]
    dsimp only
    split
    · assumption
    · exact mem_append_right _ (mem_singleton_self _)
  obtain ⟨tb', hadd⟩ : ∃ tb', ((tableOf rs M).addChain nftChain).addRule h nftChain rule.id
      (statementOf rule srcFam dstFam) = some tb' := by
    rw [Table.addRule, dif_pos ⟨hchain, hnext⟩]
    exact ⟨_, rfl⟩
  refine ⟨update rs (nftTableName M.ns) (some tb'), ?_⟩
  rw [Nft.batch, readScript_applyScript M ht, bind_some, foldlM_append, foldlM_append, foldlM_setup]
  simp [Nft.command, Nft.onTable, hadmits, hadd]

theorem batch_deleteLine
    (hb : nft.batch h rs (deleteLine (nftTableName M.ns) handle) = some rs') :
    ∃ tb tb', rs (nftTableName M.ns) = some tb ∧
      rs' = update rs (nftTableName M.ns) (some tb') ∧ Removed tb tb' handle := by
  rw [Nft.batch, readScript_deleteLine, bind_some] at hb
  simp only [foldlM_cons, foldlM_nil, bind_pure] at hb
  obtain ⟨tb, tb', htb, hdel, rfl⟩ := Nft.onTable_eq_some hb
  obtain ⟨hhas, hrules, hnext, -⟩ := Table.deleteRule_eq_some hdel
  exact ⟨tb, tb', htb, rfl, hnext, hhas, hrules⟩

/-! ## Listings -/

/-- The rule that `nftFindRuleHandle` looks for in a listing of the table. -/
def Table.named (tb : Table) (id : Str) : Option Installed :=
  tb.rules.find? fun o => o.comment = id

/-- The listing of the table is within the runner's cap. -/
def Nft.within (nft : Nft) (tb : Table) : Bool :=
  nft.width (nft.items tb) + 1 ≤ Exec.maxOutputBytes

/-- The rule that is found, if the listing can be read. -/
def Nft.seen (nft : Nft) (tb : Table) (id : Str) : Option Installed :=
  if nft.within tb then tb.named id else none

theorem Nft.listing_eq (nft : Nft) (tb : Table) :
    nft.listing tb = if nft.within tb then .envelope (nft.items tb) else .malformed := by
  rw [Nft.listing, Nft.within, Exec.kept, Nat.zero_add]
  by_cases h : nft.width (nft.items tb) + 1 ≤ Exec.maxOutputBytes
  · simp [h, Exec.kept]
  · simp [h]

theorem findRuleHandle_items (nft : Nft) (tb : Table) (id : Str) :
    nftFindRuleHandle (.envelope (nft.items tb)) id = (tb.named id).map Installed.handle := by
  have hchains : ∀ (chains : List Str) (f : ListItem → Option Nat), f .chain = none →
      (chains.map fun _ => ListItem.chain).findSome? f = none := by
    intro chains f hf
    rw [findSome?_eq_none_iff]
    intro item hitem
    obtain ⟨c, -, rfl⟩ := mem_map.mp hitem
    exact hf
  rw [Nft.items, nftFindRuleHandle, Table.named]
  simp only [findSome?_cons, findSome?_append, hchains]
  induction tb.rules with
  | nil => rfl
  | cons o rules ih =>
    by_cases ho : o.comment = id
    · simp [ho]
    · simpa [ho] using ih

theorem findRuleHandle_listing (nft : Nft) (tb : Table) (id : Str) :
    nftFindRuleHandle (nft.listing tb) id = (nft.seen tb id).map Installed.handle := by
  rw [nft.listing_eq, Nft.seen]
  split
  · exact findRuleHandle_items nft tb id
  · rfl

theorem Nft.seen_of_within {nft : Nft} {id : Str} (h : nft.within tb = true) :
    nft.seen tb id = tb.named id :=
  if_pos h

theorem Nft.seen_of_past {nft : Nft} {id : Str} (h : nft.within tb = false) :
    nft.seen tb id = none :=
  if_neg (Bool.eq_false_iff.mp h)

theorem Nft.named_of_seen {nft : Nft} {id : Str} {o : Installed} (h : nft.seen tb id = some o) :
    tb.named id = some o := by
  rw [Nft.seen] at h
  split at h
  · exact h
  · cases h

/-- A table with more in it is no shorter to list. -/
theorem Nft.within_of_sublist {nft : Nft} {tb' : Table} (hchains : tb.chains.Sublist tb'.chains)
    (hrules : tb.rules.Sublist tb'.rules) (h : nft.within tb' = true) : nft.within tb = true := by
  have hle := nft.width_le (nft.items tb) (nft.items tb')
    ((((hchains.map _).cons_cons _).cons_cons _).append (hrules.map _))
  rw [Nft.within, decide_eq_true_eq] at h ⊢
  omega

theorem find_comment {id : Str} {o : Installed}
    (h : (tb.rules.find? fun o => o.comment = id) = some o) : o ∈ tb.rules ∧ o.comment = id := by
  refine ⟨mem_of_find?_eq_some h, ?_⟩
  have hcomment := find?_some h
  exact of_decide_eq_true hcomment

theorem find_comment_none {id : Str} (h : (tb.rules.find? fun o => o.comment = id) = none) :
    ∀ o ∈ tb.rules, o.comment ≠ id :=
  fun o ho => of_decide_eq_false (Bool.eq_false_iff.mpr (find?_eq_none.mp h o ho))

end PowerManage.Firewall
