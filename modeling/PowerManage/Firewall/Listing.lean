import PowerManage.Firewall.Refinement
import PowerManage.Firewall.Address

/-!
# What `List` reports of a rule

A rule goes to `nft` as a line of text and comes back as JSON, expression by expression.
`AddrFormat.print` is what `nft -j` prints for the rules of the backend: a payload match for each
address and for a port, and the verdict.  A protocol without a port is no payload match.  Addresses
are printed as they are kept, so not always as they were given.

`listed_as_applied` says which rules come back as they went in.
-/

namespace PowerManage.Firewall

open PathName Text Interaction Transition Keyed

/-! ## What is printed -/

theorem applyExprToRule_append (es es' : List Expr) (rule : Rule) :
    applyExprToRule (es ++ es') rule = applyExprToRule es' (applyExprToRule es rule) :=
  List.foldl_append ..

namespace AddrFormat

variable (F : AddrFormat)

/-- The right-hand side of an address match: a string, or a prefix object. -/
def operandOf (f : Family) : Kept f.width → Operand
  | .host a => .text (F.text f a)
  | .subnet a n => .subnet (F.text f a) n

def operand (f : Family) (w : Str) : Operand := ((F.kept f w).map (F.operandOf f)).getD .other

def printSide (field : Str) : Option (Family × Str) → List Expr
  | none => []
  | some (f, w) => [.payload f.word field (F.operand f w)]

def printTransport : Option (Transport × Option Nat) → List Expr
  | none => []
  | some (_, none) => [.other]
  | some (t, some port) => [.payload t.word "dport" (.number port)]

def printVerdict : Verdict → Expr
  | .accept => .accept
  | .drop => .drop

def print (st : Statement) : List Expr :=
  F.printSide "saddr" st.saddr ++ F.printSide "daddr" st.daddr ++
    printTransport st.transport ++ [printVerdict st.verdict]

/-! ## What is read in it -/

def listedSide : Option (Family × Str) → Str
  | none => []
  | some (f, w) => nftDecodeAddr (F.operand f w)

/-- What a rule comes back as. -/
def listedRule (id : Str) (st : Statement) : Rule where
  id := id
  allow := st.verdict = .accept
  protocol := match st.transport with
    | some (.tcp, some _) => .tcp
    | some (.udp, some _) => .udp
    | _ => .any
  port := match st.transport with
    | some (_, some n) => n
    | _ => 0
  source := F.listedSide st.saddr
  dest := F.listedSide st.daddr

theorem applyExprToRule_saddr (s : Option (Family × Str)) {rule : Rule}
    (h : rule.source = []) :
    applyExprToRule (F.printSide "saddr" s) rule =
      { rule with source := F.listedSide s } := by
  cases s with
  | none => cases rule; cases h; rfl
  | some x => rfl

theorem applyExprToRule_daddr (s : Option (Family × Str)) {rule : Rule} (h : rule.dest = []) :
    applyExprToRule (F.printSide "daddr" s) rule =
      { rule with dest := F.listedSide s } := by
  cases s with
  | none => cases rule; cases h; rfl
  | some x => rfl

theorem applyExprToRule_print (id : Str) (st : Statement) :
    applyExprToRule (F.print st) ⟨id, false, .any, 0, [], []⟩ = F.listedRule id st := by
  rw [print, applyExprToRule_append, applyExprToRule_append, applyExprToRule_append,
    F.applyExprToRule_saddr _ rfl, F.applyExprToRule_daddr _ rfl, listedRule]
  obtain ⟨saddr, daddr, transport, verdict⟩ := st
  rcases transport with _ | ⟨t, _ | port⟩
  · cases verdict <;> rfl
  · cases t <;> cases verdict <;> rfl
  · cases t <;> cases verdict <;> rfl

theorem decode_operandOf (f : Family) (k : Kept f.width) :
    nftDecodeAddr (F.operandOf f k) = F.spell f k := by
  cases k with
  | host a => rfl
  | subnet a n => simp [operandOf, nftDecodeAddr, spell, decimalInt]

theorem listedSide_eq_iff {f : Family} {w : Str} (hw : w ≠ []) :
    F.listedSide (some (f, w)) = w ↔ F.Canonical f w := by
  rw [← F.spell_kept_iff, listedSide, operand]
  cases hk : F.kept f w with
  | none => exact iff_of_false hw.symm (by rintro ⟨k, ⟨⟩, -⟩)
  | some k =>
    rw [Option.map_some, Option.getD_some, decode_operandOf]
    constructor
    · exact fun h => ⟨k, rfl, h⟩
    · rintro ⟨k', hk', h⟩
      cases hk'
      exact h

end AddrFormat

/-! ## Which rules come back -/

/-- Printed as it was given: a protocol with a port, and addresses in the spelling of `nft`. -/
structure Survives (F : AddrFormat) (net : Net) (rule : Rule) : Prop where
  port : rule.protocol ≠ .any → rule.port > 0
  source : ∀ f, rule.source ≠ [] → nftAddressFamily net rule.source = .ok f →
    F.Canonical f rule.source
  dest : ∀ f, rule.dest ≠ [] → nftAddressFamily net rule.dest = .ok f → F.Canonical f rule.dest

section
variable {F : AddrFormat} {net : Net} {rule : Rule} {srcFam dstFam : Option Family}

theorem listedSide_eq_self_iff {side addr : Str} {fam : Option Family}
    (h : sideFamily net side addr = .ok fam) :
    F.listedSide (fam.map (·, addr)) = addr ↔
      ∀ f, addr ≠ [] → nftAddressFamily net addr = .ok f → F.Canonical f addr := by
  unfold sideFamily at h
  split at h
  · rename_i hnil
    cases h
    exact iff_of_true hnil.symm fun f hne => absurd hnil hne
  rename_i hne
  split at h
  · rename_i f hf
    cases h
    rw [Option.map_some, F.listedSide_eq_iff hne]
    constructor
    · intro hcan g _ hg
      rw [hf] at hg
      cases hg
      exact hcan
    · exact fun hall => hall f hne hf
  · cases h

theorem listed_transport_iff (ht : Translatable net rule srcFam dstFam) :
    ((F.listedRule rule.id (statementOf rule srcFam dstFam)).protocol = rule.protocol ∧
        (F.listedRule rule.id (statementOf rule srcFam dstFam)).port = rule.port) ↔
      (rule.protocol ≠ .any → rule.port > 0) := by
  have hport := ht.port
  have hnonneg := ht.checked.port
  have hother := ht.checked.protocol
  obtain ⟨id, allow, protocol, port, source, dest⟩ := rule
  simp only [AddrFormat.listedRule, statementOf, transportOf] at *
  by_cases hpos : port > 0
  · have hback : (port.toNat : Int) = port := Int.toNat_of_nonneg hnonneg
    cases protocol with
    | tcp => simp [hpos, hback]
    | udp => simp [hpos, hback]
    | any => exact absurd ⟨hpos, rfl⟩ hport
    | other p => exact absurd rfl (hother p)
  · have hzero : port = 0 := by omega
    cases protocol with
    | tcp => simp [hpos]
    | udp => simp [hpos]
    | any => simp [hzero]
    | other p => exact absurd rfl (hother p)

theorem listedRule_eq_iff (ht : Translatable net rule srcFam dstFam) :
    F.listedRule rule.id (statementOf rule srcFam dstFam) = rule ↔ Survives F net rule := by
  have htransport := listed_transport_iff (F := F) ht
  have hsource := listedSide_eq_self_iff (F := F) ht.source
  have hdest := listedSide_eq_self_iff (F := F) ht.dest
  constructor
  · intro h
    refine ⟨htransport.mp ⟨?_, ?_⟩, hsource.mp ?_, hdest.mp ?_⟩
    · exact congrArg Rule.protocol h
    · exact congrArg Rule.port h
    · exact congrArg Rule.source h
    · exact congrArg Rule.dest h
  · intro h
    obtain ⟨hprotocol, hport⟩ := htransport.mpr h.port
    have hallow : (F.listedRule rule.id (statementOf rule srcFam dstFam)).allow = rule.allow := by
      rw [statementOf]
      cases rule.allow <;> rfl
    exact Rule.ext rfl hallow hprotocol hport (hsource.mpr h.source) (hdest.mpr h.dest)

end

/-- After any accepted calls and a successful `ApplyRule`, `List` reports one rule under the
identifier, the applied one, exactly when that is printed as it was given and the listing is within
the runner's cap. -/
theorem listed_as_applied (F : AddrFormat) (nft : Nft) (net : Net) (M : Manager)
    {rs₀ rs rs' : Ruleset} {calls : List (Call × Nat)} {rule : Rule} {h : Nat}
    (hprint : nft.print = F.print) (habsent : rs₀ (nftTableName M.ns) = none)
    (hrun : exec (callStep nft net M) rs₀ calls = some rs)
    (happly : callStep nft net M rs (.apply rule, h) = some rs') (h' : Nat) :
    (∃ listed, (listRules M).run (nft.answer h') rs' = some (.ok listed, rs') ∧
        listed.filter (fun x => x.id = rule.id) = [rule]) ↔
      nft.within (tableOf rs' M) = true ∧ Survives F net rule := by
  have hback := within_of_callStep happly
  obtain ⟨rule', hc, hop⟩ | ⟨id, hc, -⟩ := callStep_cases happly
  case inr => cases hc
  cases hc
  have htable : (rs' (nftTableName M.ns)).isSome := by
    obtain ⟨-, -, tb', -, rfl, -⟩ := run_applyRule hop
    rw [Function.update_self]
    rfl
  cases hcap : nft.within (tableOf rs' M) with
  | false =>
    refine iff_of_false ?_ (by simp)
    rintro ⟨listed, hlist, -⟩
    exact run_listRules_past htable hcap h' hlist
  | true =>
    have hs := simulates_exec (simulates_absent habsent) hrun (hback hcap)
    have hlist := run_listRules (simulates_apply hs (hback hcap) hop) htable hcap h'
    obtain ⟨srcFam, dstFam, tb', ht, rfl, happ⟩ := run_applyRule hop
    rw [Nft.seen_of_within (hback hcap)] at happ
    have hfilter : ((tableOf (Function.update rs (nftTableName M.ns) (some tb')) M).rules.map
        nft.listed).filter (fun x => x.id = rule.id) =
          [nft.listed (installed rule srcFam dstFam h)] := by
      rw [tableOf_update, hs.rules_of_applied happ, List.map_append, List.filter_append]
      have hother : ((((tableOf rs M).rules.filter (·.comment ≠ rule.id)).map nft.listed).filter
          fun x => x.id = rule.id) = [] := by
        rw [List.filter_eq_nil_iff]
        intro x hx hid
        obtain ⟨o, ho, rfl⟩ := List.mem_map.mp hx
        have hne := of_decide_eq_true (List.mem_filter.mp ho).2
        rw [decide_eq_true_eq, nft.listed_id] at hid
        exact hne hid
      have hown : (nft.listed (installed rule srcFam dstFam h)).id = rule.id := nft.listed_id _
      rw [hother, List.nil_append]
      exact List.filter_cons_of_pos (decide_eq_true hown)
    have hsurvives : nft.listed (installed rule srcFam dstFam h) = rule ↔ Survives F net rule := by
      rw [← listedRule_eq_iff ht, ← F.applyExprToRule_print, ← hprint]
      rfl
    rw [eq_self, true_and, ← hsurvives]
    constructor
    · rintro ⟨listed, hlisted, hone⟩
      rw [hlist] at hlisted
      cases hlisted
      rw [hfilter] at hone
      exact (List.cons.inj hone).1
    · intro hrule
      refine ⟨_, hlist, ?_⟩
      rw [hfilter, hrule]

/-! A single address given as a subnet comes back without its prefix, and a protocol without a port
does not come back at all. -/

def listNft : Nft := { testNft with print := testFormat.print }

def hostRule : Rule := ⟨"host", true, .tcp, 22, "10.0.0.1/32", []⟩

def tcpRule : Rule := ⟨"tcp", false, .tcp, 0, [], []⟩

/-- A `/32` comes back as a host, and TCP without a port as any protocol. -/
theorem host_listed_otherwise :
    ∃ rs, exec (callStep listNft testNet testManager) (fun _ => none)
        [(.apply hostRule, 2), (.apply tcpRule, 3)] = some rs ∧
      ((listRules testManager).run (listNft.answer 4) rs).map Prod.fst =
        some (.ok [{ hostRule with source := "10.0.0.1" },
          { tcpRule with protocol := .any }]) := by
  decide +kernel

theorem survives_web : Survives testFormat testNet (webRule 80) where
  port _ := by decide
  source f _ hf := by
    cases hf
    exact .inr ⟨0x0a000000#32, 8, by decide, rfl, by decide +kernel⟩
  dest _ hne := absurd rfl hne

/-- A rule for a port. -/
theorem listed_as_applied_web :
    ∃ rs listed, callStep listNft testNet testManager (fun _ => none) (.apply (webRule 80), 2) =
        some rs ∧ (listRules testManager).run (listNft.answer 3) rs = some (.ok listed, rs) ∧
      listed.filter (fun x => x.id = (webRule 80).id) = [webRule 80] := by
  obtain ⟨rs, happly, hcap⟩ : ∃ rs, callStep listNft testNet testManager (fun _ => none)
      (.apply (webRule 80), 2) = some rs ∧ listNft.within (tableOf rs testManager) = true := by
    decide +kernel
  obtain ⟨listed, hlist, hfilter⟩ := (listed_as_applied testFormat listNft testNet testManager rfl
    rfl (exec_nil _ _) happly 3).mpr ⟨hcap, survives_web⟩
  exact ⟨rs, listed, happly, hlist, hfilter⟩

end PowerManage.Firewall
