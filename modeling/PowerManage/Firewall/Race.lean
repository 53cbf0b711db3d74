import PowerManage.Firewall.Refinement

/-!
# Goroutines on one chain

`ApplyRule` and `RemoveRule` list the table first and run a script after that, with nothing between
the two to hold off anyone else.  Here any number of goroutines call them on one manager; the
scheduler picks whose command runs next, and every command may fail, a script also after it has
taken effect.

The question is whether the chain ever holds two rules with one identifier, and whether a removal
that returned without an error holds.  Neither does in general (`duplicate_rules`): a listing that
fails, or is too long for the runner, counts as one without the rule, and two goroutines can both
list before either adds.  What
comes of both is a *blind* script, one that adds its rule and deletes nothing; `one_rule_per_id`
says that this is all that can go wrong.
-/

namespace PowerManage.Firewall

open PathName Text Interaction Transition Keyed List

/-- A call under way. `alone`: no `ApplyRule` for the identifier of a removal has been under way
since it started. -/
structure Goroutine where
  call : Call
  rest : Op Unit
  alone : Bool

/-- How a command ends: well, with a failure and no effect, or with a failure after its effect. -/
inductive Outcome
  | done
  | failed (e : CommandError)
  | lost (e : CommandError)
deriving DecidableEq

def Outcome.error : Outcome → Option CommandError
  | done => none
  | failed e => some e
  | lost e => some e

/-- The rules, and the calls that are going on. -/
structure Sys where
  rules : Ruleset
  threads : List Goroutine

/-- A call starts; the command that a goroutine waits for ends, with `h` the handle for a rule that
it adds. -/
inductive Action
  | start (c : Call)
  | command (i : Nat) (o : Outcome) (h : Nat)
deriving DecidableEq

def Goroutine.applying (g : Goroutine) (id : Str) : Bool :=
  match g.call with
  | .apply rule => rule.id = id && !g.rest.finished
  | .remove _ => false

def Goroutine.notice (c : Call) (g : Goroutine) : Goroutine :=
  match c, g.call with
  | .apply rule, .remove id => { g with alone := g.alone && rule.id ≠ id }
  | _, _ => g

/-- How a command ends that `nft` was asked for. -/
def reply (nft : Nft) (h : Nat) (rs : Ruleset) : Outcome → (q : Query) → Option (Answer q × Ruleset)
  | .done, q => nft.answer h rs q
  | .failed e, .list _ => some (.error e, rs)
  | .failed e, .batch _ => some (.error e, rs)
  | .lost e, .list _ => some (.error e, rs)
  | .lost e, .batch script => (nft.batch h rs script).map fun rs' => (.error e, rs')

/-- A call starts, or one of its commands runs. -/
def sysStep (nft : Nft) (net : Net) (M : Manager) (s : Sys) : Action → Option Sys
  | .start c =>
    some { s with
      threads := s.threads.map (Goroutine.notice c) ++
        [⟨c, c.op net M, !s.threads.any fun g => g.applying c.id⟩] }
  | .command i o h =>
    s.threads[i]?.bind fun g =>
      match g.rest with
      | .ret _ => none
      | .ask q k =>
        (reply nft h s.rules o q).map fun r =>
          ⟨r.2, s.threads.set i { g with rest := k r.1 }⟩

/-! ## What is asked -/

def Table.live (tb : Table) (id : Str) : List Installed :=
  tb.rules.filter fun o => o.chain = nftChain && o.comment = id

def Sys.live (M : Manager) (s : Sys) (id : Str) : List Installed := (tableOf s.rules M).live id

/-- No identifier has two rules. -/
def AtMostOne (M : Manager) (s : Sys) : Prop :=
  ∀ id, validateRuleID id = .ok () → (s.live M id).length ≤ 1

def Goroutine.returnedNil (g : Goroutine) : Bool :=
  match g.rest with
  | .ret (.ok ()) => true
  | _ => false

/-- After a `RemoveRule` that returned nil, with no `ApplyRule` concurrent or later, no rule with
the identifier remains. -/
def RemovalsHold (M : Manager) (s : Sys) : Prop :=
  ∀ g ∈ s.threads, ∀ id, g.call = .remove id → g.returnedNil = true → g.alone = true →
    s.live M id = []

/-! ## When it holds -/

def Goroutine.blind (net : Net) (M : Manager) (g : Goroutine) : Bool :=
  match g.call, g.rest with
  | .apply rule, .ask (.batch script) _ =>
    (nftBuildApplyScriptStrict net M.ns rule 0).toOption = some script
  | _, _ => false

/-- A listing fails, or is past the runner's cap, only where there is no rule with the identifier,
and a blind script takes effect only while it is the only one for it. -/
def allowed (nft : Nft) (net : Net) (M : Manager) (s : Sys) : Action → Bool
  | .start _ => true
  | .command i o _ =>
    match s.threads[i]? with
    | none => true
    | some g =>
      match g.rest with
      | .ret _ => true
      | .ask (.list _) _ =>
        match o.error, g.call with
        | none, c => nft.within (tableOf s.rules M) || (s.live M c.id).isEmpty
        | some _, .apply rule => (s.live M rule.id).isEmpty
        | some e, .remove id => !isNoTable e || (s.live M id).isEmpty
      | .ask (.batch _) _ =>
        match o with
        | .failed _ => true
        | _ => !g.blind net M || (s.threads.eraseIdx i).all fun g' =>
          !(g'.blind net M && g'.call.id = g.call.id)

/-! ## Rules with an identifier -/

/-- The handle was given out, and is for no rule but one with the identifier. -/
structure Table.Names (tb : Table) (handle : Nat) (id : Str) : Prop where
  lt_next : handle < tb.next
  comment : ∀ o ∈ tb.rules, o.handle = handle → o.comment = id

namespace Table

variable {tb tb' : Table} {id id' : Str} {o : Installed} {handle h : Nat} {rule : Rule}
  {srcFam dstFam : Option Family}

theorem mem_live : o ∈ tb.live id ↔ o ∈ tb.rules ∧ o.chain = nftChain ∧ o.comment = id := by
  rw [live, mem_filter, Bool.and_eq_true, decide_eq_true_eq, decide_eq_true_eq]

theorem live_eq_nil (hid : ∀ o ∈ tb.rules, o.comment ≠ id) : tb.live id = [] :=
  eq_nil_iff_forall_not_mem.mpr fun o ho => hid o (mem_live.mp ho).1 (mem_live.mp ho).2.2

theorem names_of_named (hfind : tb.named id = some o) : tb.Names o.handle id := by
  obtain ⟨ho, hid⟩ := find_comment hfind
  refine ⟨tb.handle_lt o ho, fun x hx hhandle => ?_⟩
  rw [tb.eq_of_handle_eq hx ho hhandle]
  exact hid

theorem Names.exists_live (hn : tb.Names handle id) (hhas : tb.Has handle) :
    ∃ o ∈ tb.live id, o.handle = handle := by
  obtain ⟨o, ho, hchain, hhandle⟩ := hhas
  exact ⟨o, mem_live.mpr ⟨ho, hchain, hn.comment o ho hhandle⟩, hhandle⟩

theorem live_without (handle : Nat) (id : Str) :
    (tb.without handle).filter (fun o => o.chain = nftChain && o.comment = id) =
      (tb.live id).filter (·.handle ≠ handle) := by
  rw [without, live, filter_filter, filter_filter]
  exact filter_congr fun o _ => Bool.and_comm ..

theorem live_without_self (hn : tb.Names handle id) (hhas : tb.Has handle)
    (hunique : (tb.live id).length ≤ 1) : (tb.live id).filter (·.handle ≠ handle) = [] := by
  obtain ⟨o, ho, hhandle⟩ := hn.exists_live hhas
  refine filter_eq_nil_iff.mpr fun x hx => ?_
  have hxo : x = o := by
    match hl : tb.live id with
    | [] => rw [hl] at ho; cases ho
    | [y] =>
      rw [hl, mem_singleton] at hx ho
      rw [hx, ho]
    | y :: z :: rest => rw [hl] at hunique; simp at hunique
  simp [hxo, hhandle]

theorem live_without_other (hn : tb.Names handle id) (hne : id' ≠ id) :
    (tb.live id').filter (·.handle ≠ handle) = tb.live id' := by
  refine filter_eq_self.mpr fun o ho => decide_eq_true fun hhandle => hne ?_
  obtain ⟨hmem, -, hcomment⟩ := mem_live.mp ho
  rw [← hcomment, hn.comment o hmem hhandle]

/-! A script of `ApplyRule` that took effect, and one of `RemoveRule`. -/

theorem live_applied (happ : Applied tb tb' rule srcFam dstFam handle h) (id : Str) :
    tb'.live id = (if handle > 0 then (tb.live id).filter (·.handle ≠ handle) else tb.live id) ++
      if rule.id = id then [installed rule srcFam dstFam h] else [] := by
  rw [live, happ.rules, filter_append]
  congr 1
  · split
    · exact live_without handle id
    · rfl
  · by_cases hid : rule.id = id
    · simp [installed, hid]
    · simp [installed, hid]

theorem live_applied_self (happ : Applied tb tb' rule srcFam dstFam handle h)
    (hblind : handle = 0 → tb.live rule.id = []) (hnames : handle > 0 → tb.Names handle rule.id)
    (hunique : (tb.live rule.id).length ≤ 1) : (tb'.live rule.id).length ≤ 1 := by
  rw [live_applied happ, if_pos rfl]
  split
  · rename_i hpos
    rw [live_without_self (hnames hpos) (happ.has hpos) hunique]
    exact le_refl 1
  · rename_i hzero
    rw [hblind (Nat.eq_zero_of_not_pos hzero)]
    exact le_refl 1

theorem live_applied_other (happ : Applied tb tb' rule srcFam dstFam handle h)
    (hnames : handle > 0 → tb.Names handle rule.id) (hne : id ≠ rule.id) :
    tb'.live id = tb.live id := by
  rw [live_applied happ, if_neg hne.symm, append_nil]
  split
  · rename_i hpos
    exact live_without_other (hnames hpos) hne
  · rfl

theorem Names.applied {handle' : Nat} (hn : tb.Names handle' id)
    (happ : Applied tb tb' rule srcFam dstFam handle h) : tb'.Names handle' id := by
  have hlt := hn.lt_next
  have hfresh := happ.fresh
  refine ⟨by rw [happ.next]; omega, fun o ho hhandle => ?_⟩
  rw [happ.rules, mem_append, mem_singleton] at ho
  rcases ho with ho | rfl
  · refine hn.comment o ?_ hhandle
    split at ho
    · exact (mem_without.mp ho).1
    · exact ho
  · -- A new handle is above those given out before.
    have hnew : h = handle' := hhandle
    omega

theorem live_removed (hrem : Removed tb tb' handle) (id : Str) :
    tb'.live id = (tb.live id).filter (·.handle ≠ handle) := by
  rw [live, hrem.rules]
  exact live_without handle id

theorem Names.removed {handle' : Nat} (hn : tb.Names handle' id) (hrem : Removed tb tb' handle) :
    tb'.Names handle' id := by
  refine ⟨by rw [hrem.next]; exact hn.lt_next, fun o ho hhandle => hn.comment o ?_ hhandle⟩
  rw [hrem.rules] at ho
  exact (mem_without.mp ho).1

end Table

/-! ## Where a goroutine can be -/

/-- The points a goroutine waits or ends at, and what is then known of the table. -/
inductive Fits (net : Net) (M : Manager) (tb : Table) : Goroutine → Prop
  | applyStarted (rule : Rule) (alone : Bool) :
      Fits net M tb ⟨.apply rule, applyRule net M rule, alone⟩
  | applyListed {rule : Rule} {handle : Nat} {script : Str} (alone : Bool)
      (hrule : Checked net rule)
      (hscript : nftBuildApplyScriptStrict net M.ns rule handle = .ok script)
      (hblind : handle = 0 → tb.live rule.id = []) (hnames : handle > 0 → tb.Names handle rule.id) :
      Fits net M tb ⟨.apply rule, nftRunScript script, alone⟩
  | applyReturned (rule : Rule) (r : Except FirewallError Unit) (alone : Bool) :
      Fits net M tb ⟨.apply rule, .ret r, alone⟩
  | removeStarted (id : Str) (alone : Bool) :
      Fits net M tb ⟨.remove id, removeRule M id, alone⟩
  | removeListed {id : Str} {handle : Nat} (alone : Bool) (hid : validateRuleID id = .ok ())
      (hnames : tb.Names handle id) :
      Fits net M tb ⟨.remove id, nftRunScript (deleteLine (nftTableName M.ns) handle), alone⟩
  | removeReturned (id : Str) (r : Except FirewallError Unit) (alone : Bool)
      (hgone : r = .ok () → alone = true → tb.live id = []) :
      Fits net M tb ⟨.remove id, .ret r, alone⟩

variable {script : Str} {rs rs' : Ruleset} {x : Except CommandError Unit} {q : Query} {alone : Bool}

section
variable {net : Net} {M : Manager} {tb tb' : Table} {g : Goroutine}

theorem blind_of_build {rule : Rule} (h : nftBuildApplyScriptStrict net M.ns rule 0 = .ok script)
    (alone : Bool) :
    (⟨.apply rule, nftRunScript script, alone⟩ : Goroutine).blind net M = true := by
  simp [Goroutine.blind, nftRunScript, h, Except.toOption]

/-- Only a blind script and a removal that was alone depend on rules that are absent. -/
theorem Fits.mono (hg : Fits net M tb g)
    (hnames : ∀ handle id, tb.Names handle id → tb'.Names handle id)
    (hblind : g.blind net M = true → tb.live g.call.id = [] → tb'.live g.call.id = [])
    (hremove : ∀ id, g.call = .remove id → g.alone = true → tb.live id = [] → tb'.live id = []) :
    Fits net M tb' g := by
  cases hg with
  | applyStarted rule alone => exact .applyStarted rule alone
  | @applyListed rule handle script alone hrule hscript hzero hpos =>
    refine .applyListed alone hrule hscript (fun h => ?_) fun h => hnames _ _ (hpos h)
    subst h
    exact hblind (blind_of_build hscript alone) (hzero rfl)
  | applyReturned rule r alone => exact .applyReturned rule r alone
  | removeStarted id alone => exact .removeStarted id alone
  | removeListed alone hid h => exact .removeListed alone hid (hnames _ _ h)
  | removeReturned id r alone hgone =>
    exact .removeReturned id r alone fun hr halone => hremove id rfl halone (hgone hr halone)

theorem fits_applyFrom {rule : Rule} {handle : Nat} (alone : Bool) (hrule : Checked net rule)
    (hblind : handle = 0 → tb.live rule.id = []) (hnames : handle > 0 → tb.Names handle rule.id) :
    Fits net M tb ⟨.apply rule, applyFrom net M rule handle, alone⟩ := by
  unfold applyFrom
  split
  · exact .applyReturned rule _ alone
  · rename_i script hscript
    exact .applyListed alone hrule hscript hblind hnames

end

/-! ## The steps -/

section
variable {nft : Nft} {net : Net} {M : Manager} {s s' : Sys} {i h : Nat} {o : Outcome}

theorem sysStep_command (hstep : sysStep nft net M s (.command i o h) = some s') :
    ∃ g q k x, s.threads[i]? = some g ∧ g.rest = .ask q k ∧
      reply nft h s.rules o q = some (x, s'.rules) ∧
      s'.threads = s.threads.set i { g with rest := k x } := by
  obtain ⟨g, hg, hstep⟩ := Option.bind_eq_some_iff.mp hstep
  split at hstep
  · cases hstep
  rename_i q k hrest
  obtain ⟨⟨x, rs'⟩, hreply, hs'⟩ := Option.map_eq_some_iff.mp hstep
  cases hs'
  exact ⟨g, q, k, x, hg, hrest, hreply, rfl⟩

theorem reply_list {table : Str} {x : Except CommandError Raw}
    (hr : reply nft h rs o (.list table) = some (x, rs')) :
    rs' = rs ∧ ((∃ e, o.error = some e ∧ x = .error e) ∨
      (rs table = none ∧ x = .error nft.absent) ∨
      o.error = none ∧ ∃ tb, rs table = some tb ∧ x = .ok (nft.listing tb)) := by
  cases o with
  | done =>
    obtain ⟨hrs, habsent | htable⟩ := answer_list (h := h) hr
    · exact ⟨hrs, .inr (.inl habsent)⟩
    · exact ⟨hrs, .inr (.inr ⟨rfl, htable⟩)⟩
  | failed e =>
    cases hr
    exact ⟨rfl, .inl ⟨e, rfl, rfl⟩⟩
  | lost e =>
    cases hr
    exact ⟨rfl, .inl ⟨e, rfl, rfl⟩⟩

theorem reply_batch (hr : reply nft h rs o (.batch script) = some (x, rs')) :
    (rs' = rs ∧ ∃ e, x = .error e) ∨
      ((∀ e, o ≠ .failed e) ∧ nft.batch h rs script = some rs') := by
  cases o with
  | done => exact .inr ⟨by rintro e ⟨⟩, (answer_batch hr).2⟩
  | failed e =>
    cases hr
    exact .inl ⟨rfl, e, rfl⟩
  | lost e =>
    obtain ⟨r, hbatch, heq⟩ := Option.map_eq_some_iff.mp hr
    cases heq
    exact .inr ⟨by rintro e ⟨⟩, hbatch⟩

end

/-! ## The invariant -/

/-- What every interleaving keeps. -/
structure Inv (net : Net) (M : Manager) (s : Sys) : Prop where
  unique : AtMostOne M s
  fits : ∀ g ∈ s.threads, Fits net M (tableOf s.rules M) g
  alone : ∀ g ∈ s.threads, ∀ id, g.call = .remove id → g.alone = true →
    ∀ g' ∈ s.threads, g'.applying id = false

theorem mem_set_iff {l : List Goroutine} {i : Nat} {g g' x : Goroutine} (hi : l[i]? = some g) :
    x ∈ l.set i g' ↔ x = g' ∨ x ∈ l.eraseIdx i := by
  obtain ⟨hlt, -⟩ := List.getElem?_eq_some_iff.mp hi
  rw [set_eq_take_append_cons_drop, if_pos hlt, eraseIdx_eq_take_drop_succ,
    mem_append, mem_append, mem_cons]
  exact or_left_comm

section
variable {nft : Nft} {net : Net} {M : Manager} {s s' : Sys} {i h : Nat} {o : Outcome}

variable {g : Goroutine} {k : Answer q → Op Unit}

theorem applying_of_progress {x : Answer q}
    (hrest : g.rest = .ask q k) {id : Str} (hg : g.applying id = false) :
    ({ g with rest := k x } : Goroutine).applying id = false := by
  obtain ⟨call, rest, alone⟩ := g
  cases hrest
  cases call with
  | apply rule =>
    simp only [Goroutine.applying, Prog.finished, Bool.not_false, Bool.and_true,
      decide_eq_false_iff_not] at hg
    simp [Goroutine.applying, hg]
  | remove id => rfl

theorem alone_command {x : Answer q}
    (hi : s.threads[i]? = some g) (hrest : g.rest = .ask q k)
    (halone : ∀ g ∈ s.threads, ∀ id, g.call = .remove id → g.alone = true →
      ∀ g' ∈ s.threads, g'.applying id = false) :
    ∀ y ∈ s.threads.set i { g with rest := k x }, ∀ id, y.call = .remove id → y.alone = true →
      ∀ z ∈ s.threads.set i { g with rest := k x }, z.applying id = false := by
  have hmem : g ∈ s.threads := mem_of_getElem? hi
  intro y hy id hcall hya z hz
  -- `y` was there before, with the same call and the same mark.
  obtain ⟨y₀, hy₀, hcall₀, hya₀⟩ : ∃ y₀ ∈ s.threads, y₀.call = .remove id ∧ y₀.alone = true := by
    rcases (mem_set_iff hi).mp hy with rfl | hy
    · exact ⟨g, hmem, hcall, hya⟩
    · exact ⟨y, mem_of_mem_eraseIdx hy, hcall, hya⟩
  rcases (mem_set_iff hi).mp hz with rfl | hz
  · exact applying_of_progress hrest (halone y₀ hy₀ id hcall₀ hya₀ g hmem)
  · exact halone y₀ hy₀ id hcall₀ hya₀ z (mem_of_mem_eraseIdx hz)

theorem Inv.progress {x : Answer q} (hs : Inv net M s)
    (hi : s.threads[i]? = some g) (hrest : g.rest = .ask q k) (hrules : s'.rules = s.rules)
    (hthreads : s'.threads = s.threads.set i { g with rest := k x })
    (hnew : Fits net M (tableOf s.rules M) { g with rest := k x }) : Inv net M s' := by
  constructor
  · intro id hid
    rw [Sys.live, hrules]
    exact hs.unique id hid
  · intro y hy
    rw [hrules]
    rw [hthreads] at hy
    rcases (mem_set_iff hi).mp hy with rfl | hy
    · exact hnew
    · exact hs.fits y (mem_of_mem_eraseIdx hy)
  · rw [hthreads]
    exact alone_command hi hrest hs.alone

theorem live_of_absent (h : rs (nftTableName M.ns) = none) (id : Str) :
    (tableOf rs M).live id = [] := by
  rw [tableOf, h]
  rfl

theorem tableOf_of_some {tb : Table} (h : rs (nftTableName M.ns) = some tb) :
    tableOf rs M = tb := by
  rw [tableOf, h]
  rfl

theorem live_of_unseen {tb : Table} {id : Str} (hseen : nft.seen tb id = none)
    (hpast : nft.within tb = false → tb.live id = []) : tb.live id = [] := by
  cases hcap : nft.within tb with
  | true =>
    rw [Nft.seen_of_within hcap] at hseen
    exact Table.live_eq_nil (find_comment_none hseen)
  | false => exact hpast hcap

theorem fits_applyRule_list {rule : Rule} {x : Except CommandError Raw} (hrule : Checked net rule)
    (hr : reply nft h rs o (.list (nftTableName M.ns)) = some (x, rs'))
    (hpast : o.error = none → nft.within (tableOf rs M) = false → (tableOf rs M).live rule.id = [])
    (hfail : ∀ e, o.error = some e → (tableOf rs M).live rule.id = []) :
    Fits net M (tableOf rs M) ⟨.apply rule, applyFrom net M rule (handleIn x rule.id), alone⟩ := by
  obtain ⟨-, ⟨e, he, rfl⟩ | ⟨hnone, rfl⟩ | ⟨ho, tb, htb, rfl⟩⟩ := reply_list hr
  · exact fits_applyFrom alone hrule (fun _ => hfail e he) fun h => absurd h (lt_irrefl 0)
  · exact fits_applyFrom alone hrule (fun _ => live_of_absent hnone _)
      fun h => absurd h (lt_irrefl 0)
  · rw [tableOf_of_some htb] at hpast ⊢
    rw [handleIn, findRuleHandle_listing]
    cases hseen : nft.seen tb rule.id with
    | none =>
      exact fits_applyFrom alone hrule (fun _ => live_of_unseen hseen (hpast ho))
        fun h => absurd h (lt_irrefl 0)
    | some found =>
      have hfind := Nft.named_of_seen hseen
      have hpos : found.handle > 0 := tb.handle_pos found (find_comment hfind).1
      exact fits_applyFrom alone hrule (fun h => absurd h (ne_of_gt hpos))
        fun _ => Table.names_of_named hfind

theorem fits_removeRule_list {id : Str} {x : Except CommandError Raw}
    (hid : validateRuleID id = .ok ())
    (hr : reply nft h rs o (.list (nftTableName M.ns)) = some (x, rs'))
    (hpast : o.error = none → nft.within (tableOf rs M) = false → (tableOf rs M).live id = [])
    (hfail : ∀ e, o.error = some e → isNoTable e = true → (tableOf rs M).live id = []) :
    Fits net M (tableOf rs M) ⟨.remove id, removeFrom M id x, alone⟩ := by
  obtain ⟨-, ⟨e, he, rfl⟩ | ⟨hnone, rfl⟩ | ⟨ho, tb, htb, rfl⟩⟩ := reply_list hr
  · rw [removeFrom]
    split
    · rename_i hno
      exact .removeReturned id _ alone fun _ _ => hfail e he hno
    · exact .removeReturned id _ alone (by rintro ⟨⟩)
  · rw [removeFrom, if_pos nft.isNoTable_absent]
    exact .removeReturned id _ alone fun _ _ => live_of_absent hnone id
  · rw [tableOf_of_some htb] at hpast ⊢
    rw [removeFrom, findRuleHandle_listing]
    cases hseen : nft.seen tb id with
    | none => exact .removeReturned id _ alone fun _ _ => live_of_unseen hseen (hpast ho)
    | some found =>
      exact .removeListed alone hid (Table.names_of_named (Nft.named_of_seen hseen))

variable {k : Answer (.batch script) → Op Unit}

theorem Inv.applied {rule : Rule} {handle : Nat} (hs : Inv net M s)
    (hi : s.threads[i]? = some ⟨.apply rule, .ask (.batch script) k, alone⟩)
    (hrule : Checked net rule)
    (hscript : nftBuildApplyScriptStrict net M.ns rule handle = .ok script)
    (hblind : handle = 0 → (tableOf s.rules M).live rule.id = [])
    (hnames : handle > 0 → (tableOf s.rules M).Names handle rule.id)
    (hbatch : nft.batch h s.rules script = some s'.rules)
    (hothers : handle = 0 → ∀ g ∈ s.threads.eraseIdx i,
      g.blind net M = true → g.call.id ≠ rule.id)
    (hthreads : s'.threads = s.threads.set i ⟨.apply rule, k x, alone⟩)
    (hnew : ∀ tb, Fits net M tb ⟨.apply rule, k x, alone⟩) : Inv net M s' := by
  obtain ⟨srcFam, dstFam, ht, rfl⟩ := build_ok hrule hscript
  obtain ⟨tb', hrules, happ⟩ := batch_applyScript ht hbatch
  have htable : tableOf s'.rules M = tb' := by rw [hrules, tableOf_update]
  have hother : ∀ id, id ≠ rule.id → tb'.live id = (tableOf s.rules M).live id := fun id hne =>
    Table.live_applied_other happ hnames hne
  constructor
  · intro id hid
    rw [Sys.live, htable]
    by_cases hne : id = rule.id
    · rw [hne]
      exact Table.live_applied_self happ hblind hnames (hs.unique rule.id ht.checked.id)
    · rw [hother id hne]
      exact hs.unique id hid
  · intro g hg
    rw [hthreads] at hg
    rw [htable]
    rcases (mem_set_iff hi).mp hg with rfl | hg
    · exact hnew tb'
    have hmem := mem_of_mem_eraseIdx hg
    refine (hs.fits g hmem).mono (fun _ _ hn => hn.applied happ) ?_ ?_
    · intro hgblind hnil
      by_cases hid : g.call.id = rule.id
      · -- A second blind script is excluded, and there is nothing to replace beside a blind one.
        rcases eq_zero_or_pos handle with hzero | hpos
        · exact absurd hid (hothers hzero g hg hgblind)
        · obtain ⟨o, ho, -⟩ := (hnames hpos).exists_live (happ.has hpos)
          rw [← hid, hnil] at ho
          cases ho
      · rw [hother _ hid]
        exact hnil
    · intro id hcall halone hnil
      have hne : id ≠ rule.id := by
        rintro rfl
        have := hs.alone g hmem rule.id hcall halone _ (mem_of_getElem? hi)
        simp [Goroutine.applying, Prog.finished] at this
      rw [hother id hne]
      exact hnil
  · rw [hthreads]
    exact alone_command hi rfl hs.alone

theorem Inv.removed {id : Str} {handle : Nat}
    {k : Answer (.batch (deleteLine (nftTableName M.ns) handle)) → Op Unit} (hs : Inv net M s)
    (hi : s.threads[i]? = some ⟨.remove id, .ask (.batch _) k, alone⟩)
    (hid : validateRuleID id = .ok ()) (hnames : (tableOf s.rules M).Names handle id)
    (hbatch : nft.batch h s.rules (deleteLine (nftTableName M.ns) handle) = some s'.rules)
    (hthreads : s'.threads = s.threads.set i ⟨.remove id, k x, alone⟩)
    (hnew : ∀ tb : Table, tb.live id = [] → Fits net M tb ⟨.remove id, k x, alone⟩) :
    Inv net M s' := by
  obtain ⟨tb, tb', htb, hrules, hrem⟩ := batch_deleteLine hbatch
  rw [← tableOf_of_some htb] at hrem
  have htable : tableOf s'.rules M = tb' := by rw [hrules, tableOf_update]
  have hnil : ∀ id', (tableOf s.rules M).live id' = [] → tb'.live id' = [] := by
    intro id' h
    rw [Table.live_removed hrem, h]
    rfl
  constructor
  · intro id' hid'
    rw [Sys.live, htable, Table.live_removed hrem]
    exact le_trans (length_filter_le ..) (hs.unique id' hid')
  · intro g hg
    rw [hthreads] at hg
    rw [htable]
    rcases (mem_set_iff hi).mp hg with rfl | hg
    · refine hnew tb' ?_
      rw [Table.live_removed hrem]
      exact Table.live_without_self hnames hrem.has (hs.unique id hid)
    · exact (hs.fits g (mem_of_mem_eraseIdx hg)).mono (fun _ _ hn => hn.removed hrem)
        (fun _ => hnil _) fun id' _ _ => hnil id'
  · rw [hthreads]
    exact alone_command hi rfl hs.alone

/-! What `allowed` says at each point. -/

theorem allowed_listed {table : Str} {k : Answer (.list table) → Op Unit}
    (hi : s.threads[i]? = some g) (hrest : g.rest = .ask (.list table) k)
    (ha : allowed nft net M s (.command i o h) = true) (ho : o.error = none)
    (hpast : nft.within (tableOf s.rules M) = false) : s.live M g.call.id = [] := by
  simp only [allowed, hi, hrest, ho, hpast, Bool.false_or] at ha
  exact isEmpty_iff.mp ha

theorem allowed_list {table : Str} {k : Answer (.list table) → Op Unit}
    (hi : s.threads[i]? = some g) (hrest : g.rest = .ask (.list table) k)
    (ha : allowed nft net M s (.command i o h) = true) {e : CommandError} (he : o.error = some e) :
    (∀ rule, g.call = .apply rule → s.live M rule.id = []) ∧
      ∀ id, g.call = .remove id → isNoTable e = true → s.live M id = [] := by
  simp only [allowed, hi, hrest, he] at ha
  constructor
  · intro rule hcall
    rw [hcall] at ha
    exact isEmpty_iff.mp ha
  · intro id hcall hno
    simp only [hcall, hno] at ha
    exact isEmpty_iff.mp ha

theorem allowed_batch (hi : s.threads[i]? = some g) (hrest : g.rest = .ask (.batch script) k)
    (ha : allowed nft net M s (.command i o h) = true) (ho : ∀ e, o ≠ .failed e)
    (hg : g.blind net M = true) :
    ∀ g' ∈ s.threads.eraseIdx i, g'.blind net M = true → g'.call.id ≠ g.call.id := by
  intro g' hg' hblind hid
  have hall : ∀ x ∈ s.threads.eraseIdx i, (!(x.blind net M && x.call.id = g.call.id)) = true := by
    cases o with
    | failed e => exact absurd rfl (ho e)
    | done =>
      simp only [allowed, hi, hrest, hg] at ha
      exact all_eq_true.mp ha
    | lost e =>
      simp only [allowed, hi, hrest, hg] at ha
      exact all_eq_true.mp ha
  have hfalse := hall g' hg'
  simp [hblind, hid] at hfalse

theorem inv_command (hs : Inv net M s) (ha : allowed nft net M s (.command i o h) = true)
    (hstep : sysStep nft net M s (.command i o h) = some s') : Inv net M s' := by
  obtain ⟨g, q, k, x, hi, hrest, hreply, hthreads⟩ := sysStep_command hstep
  have hfits := hs.fits g (mem_of_getElem? hi)
  cases hfits with
  | applyStarted rule alone =>
    have hask := hrest
    unfold applyRule at hask
    split at hask
    · cases hask
    rename_i hvalid
    cases hask
    obtain ⟨hrules, -⟩ := reply_list hreply
    exact hs.progress hi hrest hrules hthreads
      (fits_applyRule_list (checked_of_validateRule hvalid) hreply (allowed_listed hi hrest ha)
        fun e he => (allowed_list hi hrest ha he).1 rule rfl)
  | @applyListed rule handle script alone hrule hscript hblind hnames =>
    cases hrest
    rcases reply_batch hreply with ⟨hrules, e, rfl⟩ | ⟨ho, hbatch⟩
    · exact hs.progress (q := .batch script) (x := Except.error e) hi rfl hrules hthreads
        (.applyReturned rule _ alone)
    refine hs.applied hi hrule hscript hblind hnames hbatch (fun hzero => ?_) hthreads
      fun tb => ?_
    · subst hzero
      exact allowed_batch hi rfl ha ho (blind_of_build hscript alone)
    · cases x with
      | ok u => exact .applyReturned rule _ alone
      | error e => exact .applyReturned rule _ alone
  | applyReturned rule r alone => cases hrest
  | removeStarted id alone =>
    have hask := hrest
    unfold removeRule at hask
    split at hask
    · cases hask
    rename_i hvalid
    cases hask
    obtain ⟨hrules, -⟩ := reply_list hreply
    exact hs.progress hi hrest hrules hthreads
      (fits_removeRule_list hvalid hreply (allowed_listed hi hrest ha)
        fun e he hno => (allowed_list hi hrest ha he).2 id rfl hno)
  | @removeListed id handle alone hid hnames =>
    cases hrest
    rcases reply_batch hreply with ⟨hrules, e, rfl⟩ | ⟨ho, hbatch⟩
    · exact hs.progress (q := .batch _) (x := Except.error e) hi rfl hrules hthreads
        (.removeReturned id _ alone (by rintro ⟨⟩))
    refine hs.removed hi hid hnames hbatch hthreads fun tb hnil => ?_
    cases x with
    | ok u => exact .removeReturned id _ alone fun _ _ => hnil
    | error e => exact .removeReturned id _ alone (by rintro ⟨⟩)
  | removeReturned id r alone hgone => cases hrest

theorem notice_cases (c : Call) (g : Goroutine) :
    (g.notice c).call = g.call ∧ (g.notice c).rest = g.rest ∧
      ((g.notice c).alone = true → g.alone = true) := by
  obtain ⟨call, rest, alone⟩ := g
  cases c <;> cases call <;> simp +contextual [Goroutine.notice]

theorem Fits.notice {tb : Table} {g : Goroutine} (hg : Fits net M tb g) (c : Call) :
    Fits net M tb (g.notice c) := by
  cases hg with
  | applyStarted rule alone => cases c <;> exact .applyStarted rule alone
  | applyListed alone hrule hscript hblind hnames =>
    cases c <;> exact .applyListed alone hrule hscript hblind hnames
  | applyReturned rule r alone => cases c <;> exact .applyReturned rule r alone
  | removeStarted id alone => cases c <;> exact .removeStarted id _
  | removeListed alone hid hnames => cases c <;> exact .removeListed _ hid hnames
  | removeReturned id r alone hgone =>
    cases c with
    | apply rule =>
      exact .removeReturned id r _ fun hr ha => hgone hr ((Bool.and_eq_true ..).mp ha).1
    | remove id' => exact .removeReturned id r alone hgone

theorem applying_notice (c : Call) (g : Goroutine) (id : Str) :
    (g.notice c).applying id = g.applying id := by
  obtain ⟨call, rest, alone⟩ := g
  cases c <;> cases call <;> rfl

theorem inv_start {c : Call} (hs : Inv net M s)
    (hstep : sysStep nft net M s (.start c) = some s') : Inv net M s' := by
  cases hstep
  constructor
  · exact hs.unique
  · intro g hg
    rcases mem_append.mp hg with hg | hg
    · obtain ⟨g₀, hg₀, rfl⟩ := mem_map.mp hg
      exact (hs.fits g₀ hg₀).notice c
    rw [mem_singleton.mp hg]
    cases c with
    | apply rule => exact .applyStarted rule _
    | remove id => exact .removeStarted id _
  · intro g hg id hcall halone g' hg'
    -- The newcomer is no `ApplyRule` of `id`, or `g` would have taken notice.
    rcases mem_append.mp hg with hg | hg
    · obtain ⟨g₀, hg₀, rfl⟩ := mem_map.mp hg
      obtain ⟨hcall₀, -, halone₀⟩ := notice_cases c g₀
      rw [hcall₀] at hcall
      rcases mem_append.mp hg' with hg' | hg'
      · obtain ⟨g₁, hg₁, rfl⟩ := mem_map.mp hg'
        rw [applying_notice]
        exact hs.alone g₀ hg₀ id hcall (halone₀ halone) g₁ hg₁
      rw [mem_singleton.mp hg']
      cases c with
      | remove id' => rfl
      | apply rule =>
        obtain ⟨call, rest, alone⟩ := g₀
        cases hcall
        simp only [Goroutine.notice, Bool.and_eq_true, decide_eq_true_eq] at halone
        simp [Goroutine.applying, halone.2]
    · rw [mem_singleton.mp hg] at hcall halone
      cases hcall
      rcases mem_append.mp hg' with hg' | hg'
      · obtain ⟨g₁, hg₁, rfl⟩ := mem_map.mp hg'
        simp only [Bool.not_eq_true', any_eq_false, Bool.not_eq_true] at halone
        exact halone g₁ hg₁
      · rw [mem_singleton.mp hg']
        rfl

theorem inv_step {a : Action} (hstep : sysStep nft net M s a = some s')
    (ha : allowed nft net M s a = true) (hs : Inv net M s) : Inv net M s' := by
  cases a with
  | start c => exact inv_start hs hstep
  | command i o h => exact inv_command hs ha hstep

theorem Inv.removalsHold (hs : Inv net M s) : RemovalsHold M s := by
  intro g hg id hcall hnil halone
  have hfits := hs.fits g hg
  cases hfits with
  | removeReturned id' r alone hgone =>
    cases hcall
    cases r with
    | ok u => exact hgone rfl halone
    | error e => cases hnil
  | applyStarted rule alone => cases hcall
  | applyListed alone hrule hscript hblind hnames => cases hcall
  | applyReturned rule r alone => cases hcall
  | removeListed alone hid hnames => cases hnil
  | removeStarted id' alone =>
    -- A call that returned before it asked anything returned an error.
    unfold Goroutine.returnedNil removeRule at hnil
    cases hvalid : validateRuleID id' with
    | error e => simp [hvalid] at hnil
    | ok u => simp [hvalid] at hnil

end

/-! ## Runs -/

/-- In every run whose steps are all allowed, the chain never holds two rules with one identifier,
and the removals that returned nil hold. -/
theorem one_rule_per_id (nft : Nft) (net : Net) (M : Manager) {s₀ s : Sys} {as : List Action}
    (hidle : s₀.threads = []) (hunique : AtMostOne M s₀)
    (hallowed : Along (sysStep nft net M) (fun s a => allowed nft net M s a = true) s₀ as)
    (hrun : exec (sysStep nft net M) s₀ as = some s) : AtMostOne M s ∧ RemovalsHold M s := by
  have hinit : Inv net M s₀ := by
    refine ⟨hunique, ?_, ?_⟩ <;> rw [hidle] <;> exact forall_mem_nil _
  have hs : Inv net M s := exec_induction_along
    (fun _ _ _ hstep ha hs => inv_step hstep ha hs) hallowed hrun hinit
  exact ⟨hs.unique, hs.removalsHold⟩

def Sys.init : Sys := ⟨fun _ => none, []⟩

def orderly : List Action :=
  [.start (.apply (webRule 80)), .command 0 (.failed .notRun) 0, .command 0 .done 2,
    .start (.apply (webRule 443)), .start (.remove sshRule.id), .command 1 .done 0,
    .command 2 .done 0, .command 1 .done 5, .start (.remove (webRule 443).id),
    .command 3 .done 0, .command 3 .done 0]

def unlisted : List Action :=
  [.start (.apply (webRule 80)), .command 0 .done 0, .command 0 .done 2,
    .start (.apply (webRule 443)), .command 1 (.failed .notRun) 0, .command 1 .done 3,
    .start (.remove (webRule 443).id), .command 2 .done 0, .command 2 .done 0]

def overlapping : List Action :=
  [.start (.apply (webRule 80)), .start (.apply (webRule 443)), .command 0 .done 0,
    .command 1 .done 0, .command 0 .done 2, .command 1 .done 3]

/-- Four calls, of which two overlap. -/
theorem one_rule_per_id_orderly :
    ∃ s, exec (sysStep testNft testNet testManager) Sys.init orderly = some s ∧
      s.threads.length = 4 ∧ AtMostOne testManager s ∧ RemovalsHold testManager s := by
  obtain ⟨s, hrun, hlength⟩ : ∃ s, exec (sysStep testNft testNet testManager) Sys.init orderly =
      some s ∧ s.threads.length = 4 := by decide +kernel
  have hempty : AtMostOne testManager Sys.init := fun _ _ => Nat.zero_le 1
  exact ⟨s, hrun, hlength,
    one_rule_per_id testNft testNet testManager rfl hempty (by decide +kernel) hrun⟩

/-- With one listing that fails, the chain holds two rules with one identifier, and a removal that
returned nil leaves one of them. It also does after an interleaving in which every command is
successful. -/
theorem duplicate_rules :
    (∃ s, exec (sysStep testNft testNet testManager) Sys.init (unlisted.take 6) = some s ∧
      ¬AtMostOne testManager s) ∧
    (∃ s, exec (sysStep testNft testNet testManager) Sys.init unlisted = some s ∧
      ¬RemovalsHold testManager s) ∧
    ∃ s, exec (sysStep testNft testNet testManager) Sys.init overlapping = some s ∧
      ¬AtMostOne testManager s := by
  have htwo : ∀ as, (∃ s, exec (sysStep testNft testNet testManager) Sys.init as = some s ∧
      (s.live testManager (webRule 80).id).length = 2) →
      ∃ s, exec (sysStep testNft testNet testManager) Sys.init as = some s ∧
        ¬AtMostOne testManager s := by
    rintro as ⟨s, hrun, hlength⟩
    refine ⟨s, hrun, fun hone => ?_⟩
    have hle := hone (webRule 80).id rfl
    omega
  obtain ⟨s, hrun, hlive, g, hg, hcall, hnil, halone⟩ : ∃ s,
      exec (sysStep testNft testNet testManager) Sys.init unlisted = some s ∧
      s.live testManager (webRule 80).id ≠ [] ∧
      ∃ g ∈ s.threads, g.call = .remove (webRule 80).id ∧ g.returnedNil ∧ g.alone := by
    decide +kernel
  exact ⟨htwo _ (by decide +kernel), ⟨s, hrun, fun hhold =>
    hlive (hhold g hg (webRule 80).id hcall hnil halone)⟩, htwo _ (by decide +kernel)⟩

end PowerManage.Firewall
