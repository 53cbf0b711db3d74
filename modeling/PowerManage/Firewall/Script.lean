import PowerManage.Firewall.Nftables

/-!
# What a script says

The scripts of the nftables backend are text, put together from fixed words, the name of a table, a
handle, and the fields of a rule; here is what `nft` reads in them.  A rule that has passed its
checks comes out as it went in (`readScript_applyScript`), and so does the handle to delete
(`readScript_deleteLine`).  Nothing else is a command: no field of a rule can end a word early.
-/

namespace PowerManage.Firewall

open PathName Text Interaction List

/-! ## Words -/

theorem readScript_writeLines {ls : List (List Str)}
    (h : ∀ ws ∈ ls, ws ≠ [] ∧ ∀ w ∈ ws, IsWord w) :
    readScript (writeLines ls) = ls.mapM readCommand := by
  conv_rhs => rw [← map_fields_lines h]
  rw [mapM_map]
  rfl

variable (M : Manager)

theorem isWord_nftTableName : IsWord (nftTableName M.ns) :=
  M.isWord_ns.append (by decide)

theorem isWord_family (f : Family) : IsWord f.word := by
  cases f <;> decide

theorem readFamily_word (f : Family) : readFamily f.word = some f := by
  cases f <;> decide

/-! ## The lines of a script

The fixed parts of a line, cut into words. -/

theorem deleteRule_words :
    "delete rule " = "delete" ++ [' '] ++ "rule" ++ [' '] := by decide

theorem handle_words : " handle " = [' '] ++ "handle" ++ [' '] := by decide

theorem addTable_words :
    "add table " = "add" ++ [' '] ++ "table" ++ [' '] := by decide

theorem addChain_words :
    "add chain " = "add" ++ [' '] ++ "chain" ++ [' '] := by decide

theorem addRule_words : "add rule" = "add" ++ [' '] ++ "rule" := by decide

theorem inputHook_words :
    " \x7b type filter hook input priority 0; policy accept; \x7d\n" =
      [' '] ++ [' '].intercalate inputHook ++ ['\n'] := by decide

def deleteWords (table : Str) (handle : Nat) : List Str :=
  ["delete", "rule", nftFamily, table, nftChain, "handle", decimal handle]

variable (table : Str) (handle : Nat)

theorem deleteLine_eq :
    deleteLine table handle = writeLines [deleteWords table handle] := by
  unfold deleteLine deleteWords writeLines
  simp only [flatMap_cons, flatMap_nil, intercalate_cons_cons,
    intercalate_singleton]
  simp only [deleteRule_words, handle_words]
  simp only [append_assoc, append_nil]

/-- The script as words. -/
def applyWords (table : Str) (rule : Rule) (srcFam dstFam : Option Family) (handle : Nat) :
    List (List Str) :=
  [["add".toList, "table".toList, nftFamily, table],
    "add".toList :: "chain".toList :: nftFamily :: table :: nftChain :: inputHook] ++
  (if handle > 0 then [deleteWords table handle] else []) ++
  ["add".toList :: "rule".toList :: nftFamily :: table :: nftChain :: ruleParts rule srcFam dstFam]

theorem applyScript_eq (rule : Rule) (srcFam dstFam : Option Family)
    (handle : Nat) :
    applyScript table rule srcFam dstFam handle =
      writeLines (applyWords table rule srcFam dstFam handle) := by
  have hhook : [' '].intercalate (nftChain :: inputHook) =
      nftChain ++ [' '] ++ [' '].intercalate inputHook := intercalate_cons_cons ..
  have hdelete : (if handle > 0 then deleteLine table handle else []) =
      writeLines (if handle > 0 then [deleteWords table handle] else []) := by
    split
    · exact deleteLine_eq table handle
    · rfl
  unfold applyScript applyWords
  rw [hdelete]
  simp only [writeLines, flatMap_append, flatMap_cons, flatMap_nil]
  simp only [cons_append, nil_append, intercalate_cons_cons, hhook,
    intercalate_singleton]
  simp only [addTable_words, addChain_words, addRule_words, inputHook_words]
  simp only [append_assoc, append_nil]

/-! ## Rules -/

def transportOf (rule : Rule) : Option (Transport × Option Nat) :=
  let port := if rule.port > 0 then some rule.port.toNat else none
  match rule.protocol with
  | .tcp => some (.tcp, port)
  | .udp => some (.udp, port)
  | _ => none

def statementOf (rule : Rule) (srcFam dstFam : Option Family) : Statement where
  saddr := srcFam.map (·, rule.source)
  daddr := dstFam.map (·, rule.dest)
  transport := transportOf rule
  verdict := if rule.allow then .accept else .drop

def ending (rule : Rule) : List Str :=
  [(if rule.allow then "accept" else "drop").toList, "comment", ['"'] ++ rule.id ++ ['"']]

variable {addr key : Str} {dstFam fam srcFam : Option Family} {rule : Rule} {net : Net}

theorem readAddr_sideParts {rest : List Str} (hrest : rest[1]? ≠ some key) :
    readAddr key (sideParts fam key addr ++ rest) = (fam.map (·, addr), rest) := by
  cases fam with
  | some f => simp [sideParts, readAddr, readFamily_word]
  | none =>
    rw [sideParts, nil_append]
    unfold readAddr
    split
    · rename_i w key' a rest'
      have hkey : key' ≠ key := fun h => hrest (by rw [h]; rfl)
      rw [if_neg hkey]
      rfl
    · rfl

theorem readTransport_verdict (allow : Bool) :
    readTransport (if allow then "accept" else "drop").toList = none := by
  cases allow <;> decide

section
variable {p : Str} {t : Transport} (hp : readTransport p = some t)
include hp

theorem readPort_dport (n : Nat) (rest : List Str) :
    readPort (p :: "dport" :: decimal n :: rest) = (some (t, some n), rest) := by
  rw [readPort, hp]
  dsimp only
  rw [readDecimal_decimal]
  rfl

theorem readPort_bare {v k : Str} (hv : v ≠ "dport") (rest : List Str) :
    readPort (p :: v :: k :: rest) = (some (t, none), v :: k :: rest) := by
  rw [readPort, hp]
  dsimp only
  rw [if_neg hv]

end

theorem readPort_ending (rule : Rule) : readPort (ending rule) = (none, ending rule) := by
  rw [ending, readPort, readTransport_verdict]

theorem readPort_transport {p : Str} {t : Transport} (hp : readTransport p = some t) :
    readPort (p :: (if rule.port > 0 then ["dport", decimalInt rule.port] else []) ++
        ending rule) =
      (some (t, if rule.port > 0 then some rule.port.toNat else none), ending rule) := by
  by_cases hport : rule.port > 0
  · rw [if_pos hport, if_pos hport, decimalInt_of_pos hport]
    exact readPort_dport hp rule.port.toNat (ending rule)
  have hkey : (if rule.allow then "accept" else "drop").toList ≠ "dport" := by
    cases rule.allow <;> decide
  rw [if_neg hport, if_neg hport]
  exact readPort_bare hp hkey _

theorem readPort_portParts (rule : Rule) :
    readPort (portParts rule ++ ending rule) = (transportOf rule, ending rule) := by
  unfold portParts transportOf
  cases rule.protocol with
  | tcp => exact readPort_transport (by decide)
  | udp => exact readPort_transport (by decide)
  | any => exact readPort_ending rule
  | other name => exact readPort_ending rule

theorem second_word (rule : Rule) :
    ∃ w ∈ ["dport".toList, "accept", "drop", "comment"],
      (portParts rule ++ ending rule)[1]? = some w := by
  have hend : (ending rule)[1]? = some "comment".toList := rfl
  have hverdict : ∃ w ∈ ["dport".toList, "accept", "drop", "comment"],
      (ending rule)[0]? = some w := by
    rw [ending]
    cases rule.allow with
    | true => exact ⟨"accept", by decide, rfl⟩
    | false => exact ⟨"drop", by decide, rfl⟩
  have htransport : ∀ p : Str,
      ∃ w ∈ ["dport".toList, "accept", "drop", "comment"],
        (p :: (if rule.port > 0 then ["dport", decimalInt rule.port] else []) ++
          ending rule)[1]? = some w := by
    intro p
    split
    · exact ⟨"dport", by decide, rfl⟩
    · exact hverdict
  unfold portParts
  cases rule.protocol with
  | tcp => exact htransport _
  | udp => exact htransport _
  | any => exact ⟨"comment", by decide, hend⟩
  | other name => exact ⟨"comment", by decide, hend⟩

theorem second_word_ne (rule : Rule)
    (hkey : key ∉ ["dport".toList, "accept", "drop", "comment"]) :
    (portParts rule ++ ending rule)[1]? ≠ some key := by
  obtain ⟨w, hw, hword⟩ := second_word rule
  rw [hword]
  exact fun h => hkey (Option.some_inj.mp h ▸ hw)

theorem unquote_quoted (id : Str) : unquote (['"'] ++ id ++ ['"']) = some id := by
  simp [unquote]

theorem readVerdict_word (allow : Bool) :
    readVerdict (if allow then "accept" else "drop").toList =
      some (if allow then .accept else .drop) := by
  cases allow <;> decide

theorem readStatement_ruleParts (rule : Rule) (srcFam dstFam : Option Family) :
    readStatement (ruleParts rule srcFam dstFam) =
      some (statementOf rule srcFam dstFam, rule.id) := by
  have hdst : (portParts rule ++ ending rule)[1]? ≠ some "daddr".toList :=
    second_word_ne rule (by decide)
  have hsrc : (sideParts dstFam "daddr" rule.dest ++
      (portParts rule ++ ending rule))[1]? ≠ some "saddr".toList := by
    cases dstFam with
    | none => exact second_word_ne rule (by decide)
    | some f => exact fun h => absurd (Option.some_inj.mp h) (by decide)
  have hparts : ruleParts rule srcFam dstFam =
      sideParts srcFam "saddr" rule.source ++
        (sideParts dstFam "daddr" rule.dest ++ (portParts rule ++ ending rule)) := by
    rw [ruleParts, ← ending, append_assoc, append_assoc]
  rw [hparts, readStatement, readAddr_sideParts hsrc]
  dsimp only
  rw [readAddr_sideParts hdst]
  rw [readPort_portParts]
  dsimp only [ending]
  rw [readVerdict_word, unquote_quoted]
  rfl

/-! ## Scripts -/

/-- A rule that has passed its checks and those of `nftBuildApplyScriptStrict`, with the families of
its two sides. -/
structure Translatable (net : Net) (rule : Rule) (srcFam dstFam : Option Family) : Prop where
  checked : Checked net rule
  port : ¬(rule.port > 0 ∧ rule.protocol = .any)
  source : sideFamily net "source" rule.source = .ok srcFam
  dest : sideFamily net "dest" rule.dest = .ok dstFam

theorem build_ok {ns : Str} {handle : Nat} {script : Str} (hrule : Checked net rule)
    (h : nftBuildApplyScriptStrict net ns rule handle = .ok script) :
    ∃ srcFam dstFam, Translatable net rule srcFam dstFam ∧
      script = applyScript (nftTableName ns) rule srcFam dstFam handle := by
  unfold nftBuildApplyScriptStrict at h
  split at h
  · cases h
  rename_i hport
  split at h
  · cases h
  rename_i srcFam hsource
  split at h
  · cases h
  rename_i dstFam hdest
  refine ⟨srcFam, dstFam, ⟨hrule, hport, hsource, hdest⟩, ?_⟩
  split at h
  · split at h
    · cases h
    · cases h
      rfl
  · cases h
    rfl

theorem sideFamily_ok {side : Str} (h : sideFamily net side addr = .ok fam) :
    fam = none ↔ addr = [] := by
  unfold sideFamily at h
  split at h
  · cases h
    exact ⟨fun _ => by assumption, fun _ => rfl⟩
  rename_i hne
  split at h
  · cases h
    exact ⟨nofun, fun h => absurd h hne⟩
  · cases h

theorem getD_side (h : fam = none ↔ addr = []) :
    ((fam.map (·, addr)).map Prod.snd).getD [] = addr := by
  cases fam with
  | none => exact (h.mp rfl).symm
  | some f => rfl

/-- The rule that a statement stands for. -/
def ruleOf (comment : Str) (st : Statement) : Rule where
  id := comment
  allow := st.verdict = .accept
  protocol := match st.transport with
    | none => .any
    | some (.tcp, _) => .tcp
    | some (.udp, _) => .udp
  port := match st.transport with
    | some (_, some n) => n
    | _ => 0
  source := (st.saddr.map Prod.snd).getD []
  dest := (st.daddr.map Prod.snd).getD []

/-- Nothing of a rule is lost on the way to `nft`. -/
theorem ruleOf_statementOf (h : Translatable net rule srcFam dstFam) :
    ruleOf rule.id (statementOf rule srcFam dstFam) = rule := by
  have hsource := getD_side (sideFamily_ok h.source)
  have hdest := getD_side (sideFamily_ok h.dest)
  have hport := h.port
  have hnonneg := h.checked.port
  have hprotocol := h.checked.protocol
  obtain ⟨id, allow, protocol, port, source, dest⟩ := rule
  simp only [ruleOf, statementOf, transportOf, Rule.mk.injEq, true_and]
  refine ⟨by cases allow <;> rfl, ?_, ?_, hsource, hdest⟩
  · cases protocol with
    | tcp => rfl
    | udp => rfl
    | any => rfl
    | other p => exact absurd rfl (hprotocol p)
  · by_cases hpos : port > 0
    · cases protocol with
      | tcp => simp only [if_pos hpos]; exact Int.toNat_of_nonneg hnonneg
      | udp => simp only [if_pos hpos]; exact Int.toNat_of_nonneg hnonneg
      | any => exact absurd ⟨hpos, rfl⟩ hport
      | other p => exact absurd rfl (hprotocol p)
    · have hzero : port = 0 := by
        dsimp only at hnonneg
        omega
      subst hzero
      cases protocol <;> rfl

theorem isWord_sideParts {side : Str} (hkey : IsWord key)
    (haddr : validateAddr net side addr = .ok ()) (hfam : fam = none ↔ addr = []) :
    ∀ w ∈ sideParts fam key addr, IsWord w := by
  cases fam with
  | none => exact nofun
  | some f =>
    have hne : addr ≠ [] := fun h => absurd (hfam.mpr h) nofun
    intro w hw
    simp only [sideParts, mem_cons, not_mem_nil, or_false] at hw
    rcases hw with rfl | rfl | rfl
    · exact isWord_family f
    · exact hkey
    · exact isWord_of_validateAddr hne haddr

theorem isWord_portParts (rule : Rule) : ∀ w ∈ portParts rule, IsWord w := by
  have hport : ∀ p : Str, IsWord p →
      ∀ w ∈ p :: (if rule.port > 0 then ["dport", decimalInt rule.port] else []),
        IsWord w := by
    intro p hp w hw
    rcases mem_cons.mp hw with rfl | hw
    · exact hp
    split at hw
    · rename_i hpos
      simp only [mem_cons, not_mem_nil, or_false] at hw
      rcases hw with rfl | rfl
      · decide
      · rw [decimalInt_of_pos hpos]
        exact isWord_decimal _
    · cases hw
  unfold portParts
  cases rule.protocol with
  | tcp => exact hport _ (by decide)
  | udp => exact hport _ (by decide)
  | any => exact nofun
  | other name => exact nofun

theorem isWord_ending (h : validateRuleID rule.id = .ok ()) : ∀ w ∈ ending rule, IsWord w := by
  intro w hw
  simp only [ending, mem_cons, not_mem_nil, or_false] at hw
  rcases hw with rfl | rfl | rfl
  · cases rule.allow <;> decide
  · decide
  · have hquote : IsWord ['"'] := by decide
    exact (hquote.append (isWord_of_validateRuleID h)).append hquote

theorem isWord_ruleParts (h : Translatable net rule srcFam dstFam) :
    ∀ w ∈ ruleParts rule srcFam dstFam, IsWord w := by
  intro w hw
  rcases mem_append.mp hw with hw | hw
  · rcases mem_append.mp hw with hw | hw
    · rcases mem_append.mp hw with hw | hw
      · exact isWord_sideParts (by decide) h.checked.source (sideFamily_ok h.source) w hw
      · exact isWord_sideParts (by decide) h.checked.dest (sideFamily_ok h.dest) w hw
    · exact isWord_portParts rule w hw
  · exact isWord_ending h.checked.id w hw

/-! ## Commands -/

theorem isWord_command {verb object : Str} (hverb : IsWord verb)
    (hobject : IsWord object) {ws : List Str} (hws : ∀ w ∈ ws, IsWord w) :
    ∀ w ∈ verb :: object :: nftFamily :: nftTableName M.ns :: ws, IsWord w := by
  intro w hw
  simp only [mem_cons] at hw
  rcases hw with rfl | rfl | rfl | rfl | hw
  · exact hverb
  · exact hobject
  · decide
  · exact isWord_nftTableName M
  · exact hws w hw

theorem isWord_deleteWords :
    ∀ w ∈ deleteWords (nftTableName M.ns) handle, IsWord w := by
  refine isWord_command M (by decide) (by decide) fun w hw => ?_
  simp only [mem_cons, not_mem_nil, or_false] at hw
  rcases hw with rfl | rfl | rfl
  · decide
  · decide
  · exact isWord_decimal handle

theorem isWord_applyWords (h : Translatable net rule srcFam dstFam) (handle : Nat) :
    ∀ ws ∈ applyWords (nftTableName M.ns) rule srcFam dstFam handle,
      ws ≠ [] ∧ ∀ w ∈ ws, IsWord w := by
  have hadd : IsWord "add" := by decide
  have hchain : IsWord nftChain := by decide
  intro ws hws
  rcases mem_append.mp hws with hws | hws
  · rcases mem_append.mp hws with hws | hws
    · simp only [mem_cons, not_mem_nil, or_false] at hws
      rcases hws with rfl | rfl
      · exact ⟨nofun, isWord_command M hadd (by decide) (forall_mem_nil _)⟩
      · exact ⟨nofun, isWord_command M hadd (by decide)
          (forall_mem_cons.mpr ⟨hchain, by decide⟩)⟩
    · split at hws
      · rw [mem_singleton.mp hws]
        exact ⟨nofun, isWord_deleteWords M handle⟩
      · cases hws
  · rw [mem_singleton.mp hws]
    exact ⟨nofun, isWord_command M hadd (by decide)
      (forall_mem_cons.mpr ⟨hchain, isWord_ruleParts h⟩)⟩

theorem readCommand_delete :
    readCommand (deleteWords table handle) = some (.deleteRule table nftChain handle) := by
  rw [deleteWords, readCommand, if_neg (by decide), if_neg (by decide), if_neg (by decide),
    if_pos (by decide), readHandle, if_pos rfl, readDecimal_decimal]
  rfl

theorem readCommand_table :
    readCommand ["add", "table", nftFamily, table] = some (.addTable table) := by
  rw [readCommand, if_neg (by decide), if_pos (by decide), if_pos rfl]

theorem readCommand_chain :
    readCommand ("add" :: "chain" :: nftFamily :: table :: nftChain :: inputHook) =
      some (.addChain table nftChain) := by
  rw [readCommand, if_neg (by decide), if_neg (by decide), if_pos (by decide), if_pos rfl]

theorem readCommand_rule (rule : Rule) (srcFam dstFam : Option Family) :
    readCommand ("add" :: "rule" :: nftFamily :: table :: nftChain ::
      ruleParts rule srcFam dstFam) =
        some (.addRule table nftChain (statementOf rule srcFam dstFam) rule.id) := by
  rw [readCommand, if_neg (by decide), if_neg (by decide), if_neg (by decide), if_neg (by decide),
    if_pos (by decide), readStatement_ruleParts]
  rfl

theorem readScript_deleteLine :
    readScript (deleteLine (nftTableName M.ns) handle) =
      some [.deleteRule (nftTableName M.ns) nftChain handle] := by
  rw [deleteLine_eq, readScript_writeLines, mapM_cons, readCommand_delete]
  · rfl
  · intro ws hws
    rw [mem_singleton.mp hws]
    exact ⟨nofun, isWord_deleteWords M handle⟩

theorem readScript_applyScript (h : Translatable net rule srcFam dstFam)
    (handle : Nat) :
    readScript (applyScript (nftTableName M.ns) rule srcFam dstFam handle) =
      some ([.addTable (nftTableName M.ns), .addChain (nftTableName M.ns) nftChain] ++
        (if handle > 0 then [.deleteRule (nftTableName M.ns) nftChain handle] else []) ++
        [.addRule (nftTableName M.ns) nftChain (statementOf rule srcFam dstFam) rule.id]) := by
  rw [applyScript_eq, readScript_writeLines (isWord_applyWords M h handle), applyWords]
  split
  · simp only [cons_append, nil_append, mapM_cons, readCommand_table,
      readCommand_chain, readCommand_delete, readCommand_rule]
    rfl
  · simp only [cons_append, nil_append, mapM_cons, readCommand_table,
      readCommand_chain, readCommand_rule]
    rfl

end PowerManage.Firewall
