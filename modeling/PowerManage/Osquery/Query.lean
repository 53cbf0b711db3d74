import PowerManage.Exec.Runner
import PowerManage.Lib.Sqlite

/-!
# Queries through osquery

`Query` takes raw SQL or a table name, `QueryTable` a table name and `QuerySQL` a statement; all
three end in `execQuery`, which starts a privileged `osqueryi`.  Tables with credentials are on a
deny-list.  A table name is checked against it, and the raw SQL of `Query` is searched for its names
as words.

What the search has to find is told by SQLite's tokenisation, and it finds nearly all of it
(`refused_or_numbered`): a name that is a token stands apart from letters and digits, whatever its
quotes and its case.  The exception is a name right after a numbered parameter, as in `?1shadow`,
which are two tokens and one word.  `QuerySQL` does not search at all (`unsearched_statement`).
-/

namespace PowerManage.Osquery

open Interaction Exec PathName List

/-! ## The deny-list -/

def sensitiveTables : List Str :=
  ["shadow", "process_envs", "crontab", "shell_history", "sudoers"].map String.toList

def toLower (s : Str) : Str := s.map Text.toLower

def isSensitiveTable (name : Str) : Bool := toLower (trimSpace name) ∈ sensitiveTables

def isIdentByte (c : Char) : Bool :=
  c = '_' || (48 ≤ c.toNat && c.toNat ≤ 57) || (97 ≤ c.toNat && c.toNat ≤ 122) ||
    (65 ≤ c.toNat && c.toNat ≤ 90)

/-- `containsWord` from a place on, after the character `prev`. -/
def containsWordFrom (word : Str) : Option Char → Str → Bool
  | _, [] => false
  | prev, c :: s =>
    (hasPrefix (c :: s) word && prev.all (fun b => !isIdentByte b) &&
        ((c :: s).drop word.length).head?.all fun b => !isIdentByte b) ||
      containsWordFrom word (some c) s

def containsWord (s word : Str) : Bool := containsWordFrom word none s

/-- `^[a-zA-Z_][a-zA-Z0-9_]*$` -/
def validTableName : Str → Bool
  | [] => false
  | c :: s => Sqlite.isStart c && s.all isIdentByte

/-! ## The client -/

abbrev Row := List (Str × Str)

/-- A request for raw SQL or for a table. -/
structure OSQuery where
  queryId : Str
  rawSql : Str
  table : Str
deriving DecidableEq

/-- What `Query` answers. -/
structure OSQueryResult where
  queryId : Str
  success : Bool
  error : Str
  rows : List Row
deriving DecidableEq

/-- The client, with what Go leaves open. -/
structure Client where
  binaryPath : Str
  /-- The order in which the map of the sensitive tables is walked. -/
  order : List Str
  order_perm : order.Perm sensitiveTables
  /-- `json.Unmarshal` into rows. -/
  unmarshal : Str → Except Str (List Row)

def tableSQL (table : Str) : Option Str :=
  if table = "authorized_keys" then
    some "SELECT authorized_keys.* FROM users JOIN authorized_keys USING (uid)"
  else none

def selectAll (table : Str) : Str := "SELECT * FROM " ++ table

def invalidTable (table : Str) : Str := "invalid table name: " ++ Text.quote table

def notPermitted (table : Str) : Str :=
  "table " ++ Text.quote table ++ " is not permitted"

def queryFailed (cause : Str) : Str := "osquery query failed: " ++ cause

def queryArgs (query : Str) : List Str :=
  if hasPrefix query ['.'] then [query] else ["--json", query]

def outputOf : Except Str Result → Except Str Str
  | .error err => .error (queryFailed err)
  | .ok res =>
    if res.exitCode ≠ 0 then
      if trimSpace res.stderr ≠ [] then .error (queryFailed (trimSpace res.stderr))
      else .error (queryFailed ("exit code " ++ Text.decimalInt res.exitCode))
    else .ok (trimSpace res.stdout)

namespace Client

variable (c : Client)

def sensitiveTableRefIn (sql : Str) : Option Str :=
  c.order.find? fun name => containsWord (toLower sql) name

def execQuery (query : Str) : Program (Except Str Str) :=
  run ⟨c.binaryPath, queryArgs query, [], true⟩ fun res => .ret (outputOf res)

def parseRows : Except Str Str → Except Str (List Row)
  | .error err => .error err
  | .ok output =>
    (c.unmarshal output).mapError fun err => "failed to parse osquery output: " ++ err

def querySQL (sql : Str) : Program (Except Str (List Row)) :=
  (c.execQuery sql).bind fun output => .ret (c.parseRows output)

/-- A table with a query of its own, or any table whose name is allowed. -/
def tableStatement (table : Str) : Except Str Str :=
  match tableSQL table with
  | some custom => .ok custom
  | none =>
    if !validTableName table then .error (invalidTable table)
    else if isSensitiveTable table then .error (notPermitted table)
    else .ok (selectAll table)

def queryTable (table : Str) : Program (Except Str (List Row)) :=
  match tableStatement table with
  | .error err => .ret (.error err)
  | .ok sql => c.querySQL sql

/-- What is run for a request. -/
def statement (query : OSQuery) : Except Str Str :=
  if query.rawSql ≠ [] then
    match c.sensitiveTableRefIn query.rawSql with
    | some name => .error (notPermitted name)
    | none => .ok query.rawSql
  else tableStatement query.table

def resultOf (query : OSQuery) : Except Str (List Row) → OSQueryResult
  | .error err => ⟨query.queryId, false, err, []⟩
  | .ok rows => ⟨query.queryId, true, [], rows⟩

def query (query : OSQuery) : Program OSQueryResult :=
  match c.statement query with
  | .error err => .ret (resultOf query (.error err))
  | .ok sql => (c.querySQL sql).bind fun rows => .ret (resultOf query rows)

end Client

/-- The three ways to ask. -/
inductive Call
  | query (q : OSQuery)
  | queryTable (table : Str)
  | querySQL (sql : Str)

variable (c : Client)

def Client.call : Call → Program Unit
  | .query q => (c.query q).bind fun _ => .ret ()
  | .queryTable table => (c.queryTable table).bind fun _ => .ret ()
  | .querySQL sql => (c.querySQL sql).bind fun _ => .ret ()

/-- The statement that a call starts `osqueryi` with, if it starts it. -/
def Client.started : Call → Option Str
  | .query q => (c.statement q).toOption
  | .queryTable table => (tableStatement table).toOption
  | .querySQL sql => some sql

theorem asks_call_iff (call : Call) (P : Question → Prop) :
    Prog.Asks P (c.call call) ↔
      ∀ sql, c.started call = some sql → P (.run ⟨c.binaryPath, queryArgs sql, [], true⟩) := by
  have hnone : ∀ {sql : Option Str}, sql = none → ∀ t, sql = some t →
      P (.run ⟨c.binaryPath, queryArgs t, [], true⟩) := by
    rintro _ rfl t ht
    cases ht
  have hsome : ∀ {sql : Str}, P (.run ⟨c.binaryPath, queryArgs sql, [], true⟩) ↔
      ∀ t, some sql = some t → P (.run ⟨c.binaryPath, queryArgs t, [], true⟩) := by
    simp
  cases call with
  | query q =>
    rw [Client.call, Client.query, Client.started]
    cases c.statement q with
    | error err => exact iff_of_true (.ret _) (hnone rfl)
    | ok sql => exact (Prog.asks_ask_iff.trans (and_iff_left fun x => .ret _)).trans hsome
  | queryTable table =>
    rw [Client.call, Client.queryTable, Client.started]
    cases Client.tableStatement table with
    | error err => exact iff_of_true (.ret _) (hnone rfl)
    | ok sql => exact (Prog.asks_ask_iff.trans (and_iff_left fun x => .ret _)).trans hsome
  | querySQL sql => exact (Prog.asks_ask_iff.trans (and_iff_left fun x => .ret _)).trans hsome

/-! ## The search finds the tokens -/

/-- Some token of the text is the name of a sensitive table. -/
def ReadsCredentials (sql : Str) : Prop :=
  ∃ t ∈ Sqlite.tokens sql, ∃ w ∈ sensitiveTables, t.Names w

instance (sql : Str) : Decidable (ReadsCredentials sql) :=
  inferInstanceAs (Decidable (∃ t ∈ _, ∃ w ∈ _, _))

/-- The name of a sensitive table follows a numbered parameter directly. -/
def FollowsNumber (sql : Str) : Prop :=
  ∃ p t, ∃ w ∈ sensitiveTables, p.Numbered ∧ t.Names w ∧ [p, t] <:+: Sqlite.tokens sql

variable {b : Char} {sql table : Str}

theorem isIdChar_of_isIdentByte (h : isIdentByte b = true) : Sqlite.isIdChar b = true := by
  simp only [isIdentByte, Bool.or_eq_true, Bool.and_eq_true, decide_eq_true_eq] at h
  simp only [Sqlite.isIdChar, Sqlite.isDigit, Bool.or_eq_true, Bool.and_eq_true, decide_eq_true_eq]
  tauto

theorem toLower_eq_of_ascii (h : b.toLower.toNat < 128) : Text.toLower b = b.toLower := by
  unfold Text.toLower
  split_ifs with hi hk
  · rw [hi] at h
    exact absurd h (by decide)
  · rw [hk] at h
    exact absurd h (by decide)
  · rfl

theorem isIdentByte_toLower_of_isClean (h : Sqlite.isClean b = true) :
    isIdentByte (Text.toLower b) = false := by
  simp only [Sqlite.isClean, Bool.or_eq_true, Bool.not_eq_true', decide_eq_true_eq] at h
  rcases h with h | rfl
  · have hlower := Sqlite.toLower_of_isIdChar h
    have hascii : b.toNat < 128 := by
      by_contra hge
      simp [Sqlite.isIdChar, not_lt.mp hge] at h
    rw [toLower_eq_of_ascii (by rw [hlower]; exact hascii), hlower]
    by_contra hident
    rw [isIdChar_of_isIdentByte (by simpa using hident)] at h
    cases h
  · decide

theorem containsWordFrom_of_append {word a b : Str} (hword : word ≠ []) {prev : Option Char}
    (ha : ∀ d, (prev.toList ++ a).getLast? = some d → isIdentByte d = false)
    (hb : ∀ d, b.head? = some d → isIdentByte d = false) :
    containsWordFrom word prev (a ++ word ++ b) = true := by
  induction a generalizing prev with
  | nil =>
    obtain ⟨c, w, rfl⟩ := exists_cons_of_ne_nil hword
    have hstart : hasPrefix (c :: (w ++ b)) (c :: w) = true := by
      rw [hasPrefix, isPrefixOf_iff_prefix]
      exact prefix_append (c :: w) b
    have hleft : (prev.all fun d => !isIdentByte d) = true := by
      cases prev with
      | none => rfl
      | some d => simpa using ha d rfl
    have hright : (b.head?.all fun d => !isIdentByte d) = true := by
      cases b with
      | nil => rfl
      | cons d b => simpa using hb d rfl
    rw [nil_append, cons_append, containsWordFrom, hstart, hleft, length_cons,
      drop_succ_cons, drop_left, hright]
    rfl
  | cons c a ih =>
    have hnext : containsWordFrom word (some c) (a ++ word ++ b) = true := by
      refine ih fun d hd => ha d ?_
      rw [getLast?_append_of_ne_nil _ (cons_ne_nil c a)]
      exact hd
    rw [cons_append, cons_append, containsWordFrom, hnext, Bool.or_true]

theorem plain_of_mem_sensitiveTables {w : Str} (h : w ∈ sensitiveTables) : Sqlite.Plain w := by
  have hall : sensitiveTables.all (fun w => w.all fun c => Sqlite.isIdChar c && c.toNat < 128) = true := by
    decide
  intro c hc
  have := all_eq_true.mp (all_eq_true.mp hall w h) c hc
  simpa using this

theorem containsWord_of_delimited {w : Str} (hw : w ∈ sensitiveTables)
    (h : Sqlite.Delimited w sql) : containsWord (toLower sql) w = true := by
  obtain ⟨a, n, b, rfl, hn, ha, hb⟩ := h
  have hlower : toLower n = w := by
    rw [← hn]
    refine map_congr_left fun c hc => toLower_eq_of_ascii ?_
    exact (plain_of_mem_sensitiveTables hw _ (hn ▸ mem_map_of_mem hc)).2
  rw [toLower, map_append, map_append, ← toLower, ← toLower, ← toLower, hlower]
  refine containsWordFrom_of_append ?_ ?_ ?_
  · rintro rfl
    revert hw
    decide
  · intro d hd
    rw [Option.toList_none, nil_append, toLower, getLast?_map] at hd
    obtain ⟨e, he, rfl⟩ := Option.map_eq_some_iff.mp hd
    exact isIdentByte_toLower_of_isClean (ha e he)
  · intro d hd
    rw [toLower, head?_map] at hd
    obtain ⟨e, he, rfl⟩ := Option.map_eq_some_iff.mp hd
    exact isIdentByte_toLower_of_isClean (Sqlite.isClean_of_isIdChar (hb e he))

/-- Raw SQL with a sensitive table among its tokens is refused, or the name follows a numbered
parameter. -/
theorem refused_or_numbered (h : ReadsCredentials sql) :
    (c.sensitiveTableRefIn sql).isSome = true ∨ FollowsNumber sql := by
  obtain ⟨t, ht, w, hw, hnames⟩ := h
  rcases Sqlite.delimited_of_token (plain_of_mem_sensitiveTables hw) hnames ht with
    hdelimited | ⟨p, hp, hwithin⟩
  · refine .inl (find?_isSome.mpr ⟨w, c.order_perm.mem_iff.mpr hw, ?_⟩)
    exact containsWord_of_delimited hw hdelimited
  · exact .inr ⟨p, t, w, hw, hp, hnames, hwithin⟩

theorem readsCredentials_of_followsNumber (h : FollowsNumber sql) : ReadsCredentials sql := by
  obtain ⟨p, t, w, hw, -, hnames, hwithin⟩ := h
  exact ⟨t, hwithin.subset (by simp), w, hw, hnames⟩

/-! ## The statements for tables -/

theorem isIdentByte_of_isStart (h : Sqlite.isStart b = true) : isIdentByte b = true := by
  simp only [Sqlite.isStart, Bool.or_eq_true, Bool.and_eq_true, decide_eq_true_eq] at h
  simp only [isIdentByte, Bool.or_eq_true, Bool.and_eq_true, decide_eq_true_eq]
  tauto

theorem isIdentByte_of_mem (h : validTableName table = true) :
    ∀ b ∈ table, isIdentByte b = true := by
  cases table with
  | nil => cases h
  | cons c s =>
    rw [validTableName, Bool.and_eq_true, all_eq_true] at h
    intro b hb
    rcases mem_cons.mp hb with rfl | hb
    · exact isIdentByte_of_isStart h.1
    · exact h.2 b hb

theorem toNat_of_isIdentByte (h : isIdentByte b = true) : 48 ≤ b.toNat ∧ b.toNat ≤ 122 := by
  simp only [isIdentByte, Bool.or_eq_true, Bool.and_eq_true, decide_eq_true_eq] at h
  rcases h with ((rfl | h) | h) | h
  · decide
  all_goals omega

theorem isWord_of_validTableName (h : validTableName table = true) : Text.IsWord table := by
  refine ⟨(by rintro rfl; cases h), fun b hb => Bool.eq_false_iff.mpr fun hspace => ?_⟩
  have hrange := toNat_of_isIdentByte (isIdentByte_of_mem h b hb)
  have hfar := Text.toNat_of_isSpace hspace
  omega

theorem tokens_selectAll (h : validTableName table = true) :
    Sqlite.tokens (selectAll table) =
      [⟨.id, "SELECT"⟩, ⟨.space, [' ']⟩, ⟨.operator, ['*']⟩, ⟨.space, [' ']⟩,
        ⟨.id, "FROM"⟩, ⟨.space, [' ']⟩, ⟨.id, table⟩] := by
  have hident := isIdentByte_of_mem h
  cases table with
  | nil => cases h
  | cons c s =>
    rw [validTableName, Bool.and_eq_true, all_eq_true] at h
    have hnul : '\x00' ∉ c :: s := fun hmem => absurd (hident _ hmem) (by decide)
    have hc : Sqlite.isSpace c = false := by
      by_contra hspace
      have hid := Sqlite.isIdChar_of_isSpace (by simpa using hspace)
      rw [Sqlite.isIdChar_of_isStart h.1] at hid
      cases hid
    have hblank : ∀ {t : Str} (d : Char), (' ' :: t).head? = some d →
        Sqlite.isIdChar d = false := by
      rintro t d hd
      cases hd
      decide
    have hselect : Sqlite.next 'S' ("ELECT" ++ ' ' :: ("* FROM " ++ c :: s)) =
        (⟨.id, "SELECT"⟩, ' ' :: ("* FROM " ++ c :: s)) :=
      Sqlite.next_bare (by decide) (all_eq_true.mp (by decide)) (by simp) hblank
    have hfrom : Sqlite.next 'F' ("ROM" ++ ' ' :: c :: s) =
        (⟨.id, "FROM"⟩, ' ' :: c :: s) :=
      Sqlite.next_bare (by decide) (all_eq_true.mp (by decide)) (by simp) hblank
    have htable : Sqlite.next c s = (⟨.id, c :: s⟩, []) := by
      have hbare : Sqlite.next c (s ++ []) = (⟨.id, c :: s⟩, []) := Sqlite.next_bare h.1
        (fun d hd => isIdChar_of_isIdentByte (h.2 d hd)) (by simp) (by simp)
      rwa [append_nil] at hbare
    change Sqlite.tokens ('S' :: ("ELECT" ++ ' ' :: ("* FROM " ++ c :: s))) = _
    rw [Sqlite.tokens_cons (by simpa using hnul)]
    change _ :: Sqlite.tokens (' ' :: '*' :: (" FROM " ++ c :: s)) = _
    change _ :: _ :: _ :: _ :: Sqlite.tokens ('F' :: ("ROM" ++ ' ' :: c :: s)) = _
    rw [Sqlite.tokens_cons (by simpa using hnul), hfrom]
    rw [Sqlite.tokens_cons (by simpa using hnul), Sqlite.next_blank hc]
    rw [Sqlite.tokens_cons hnul, htable]
    rfl

theorem not_readsCredentials_tableStatement (h : Client.tableStatement table = .ok sql) :
    ¬ReadsCredentials sql := by
  unfold Client.tableStatement at h
  split at h
  · rename_i custom hcustom
    cases h
    unfold tableSQL at hcustom
    split_ifs at hcustom
    cases hcustom
    decide +kernel
  · split_ifs at h with hvalid hsensitive
    cases h
    have hname : validTableName table = true := by simpa using hvalid
    rw [ReadsCredentials, tokens_selectAll hname]
    rintro ⟨t, ht, w, hw, hkind, hvalue⟩
    simp only [mem_cons, not_mem_nil, or_false] at ht
    have hkeyword : "SELECT".toList.map Char.toLower ∉ sensitiveTables ∧
        "FROM".toList.map Char.toLower ∉ sensitiveTables := by decide
    rcases ht with rfl | rfl | rfl | rfl | rfl | rfl | rfl
    · exact hkeyword.1 (hvalue ▸ hw)
    · simp at hkind
    · simp at hkind
    · simp at hkind
    · exact hkeyword.2 (hvalue ▸ hw)
    · simp at hkind
    refine hsensitive ?_
    rw [isSensitiveTable, Text.trimSpace_of_isWord (isWord_of_validTableName hname), toLower,
      map_congr_left fun b hb => toLower_eq_of_ascii ?_, hvalue]
    · simpa using hw
    · exact (plain_of_mem_sensitiveTables hw _ (hvalue ▸ mem_map_of_mem hb)).2

theorem toOption_eq_some {ε α : Type} {x : Except ε α} {a : α} (h : x.toOption = some a) :
    x = .ok a := by
  cases x with
  | error => cases h
  | ok b =>
    cases h
    rfl

/-! ## What is started -/

def Spares : Question → Prop
  | .run cmd => ∀ arg ∈ cmd.args, ¬ReadsCredentials arg
  | _ => True

theorem spares_queryArgs {path : Str} :
    Spares (.run ⟨path, queryArgs sql, [], true⟩) ↔ ¬ReadsCredentials sql := by
  have hjson : ¬ReadsCredentials "--json" := by decide +kernel
  unfold Spares queryArgs
  split_ifs
  · simp
  · simp only [mem_cons, not_mem_nil, or_false, forall_eq_or_imp, forall_eq]
    exact and_iff_right hjson

/-- `Query` refuses its raw SQL, or no sensitive table follows a numbered parameter in it; a
statement of `QuerySQL` names none. -/
def Call.Clean : Call → Prop
  | .query q =>
    q.rawSql ≠ [] → (c.sensitiveTableRefIn q.rawSql).isSome = true ∨ ¬FollowsNumber q.rawSql
  | .queryTable _ => True
  | .querySQL sql => ¬ReadsCredentials sql

/-- `osqueryi` is never started on a statement that names a sensitive table, exactly for the calls
that are clean. -/
theorem credentials_out_of_reach_iff (call : Call) :
    Prog.Asks Spares (c.call call) ↔ call.Clean c := by
  simp only [asks_call_iff, spares_queryArgs]
  cases call with
  | query q =>
    rw [Client.started, Client.statement, Call.Clean]
    split_ifs with hraw
    · rw [forall_prop_of_true hraw]
      cases href : c.sensitiveTableRefIn q.rawSql with
      | some name => simp [Except.toOption]
      | none =>
        have hnumbered : ReadsCredentials q.rawSql → _ := refused_or_numbered c
        simp only [href, Option.isSome_none, Bool.false_eq_true, false_or] at hnumbered ⊢
        simp only [Except.toOption, Option.some.injEq, forall_eq']
        exact not_congr ⟨hnumbered, readsCredentials_of_followsNumber⟩
    · refine iff_of_true (fun sql hsql => ?_) fun h => absurd h hraw
      exact not_readsCredentials_tableStatement (toOption_eq_some hsql)
  | queryTable table =>
    refine iff_of_true (fun sql hsql => ?_) trivial
    exact not_readsCredentials_tableStatement (toOption_eq_some hsql)
  | querySQL sql => simp [Client.started, Call.Clean]

def exampleClient : Client where
  binaryPath := "/usr/bin/osqueryi"
  order := sensitiveTables
  order_perm := .refl _
  unmarshal := fun _ => .ok []

/-- `QuerySQL` starts `osqueryi` on the table of password hashes, and `Query` on a statement in
which its name follows a parameter. -/
theorem unsearched_statement :
    ¬Prog.Asks Spares (exampleClient.call (.querySQL "SELECT * FROM shadow")) ∧
      ¬Prog.Asks Spares (exampleClient.call (.query ⟨[], "SELECT ?1shadow", []⟩)) := by
  have hstarted : ∀ {call : Call} {sql : Str}, exampleClient.started call = some sql →
      ReadsCredentials sql → ¬Prog.Asks Spares (exampleClient.call call) := by
    intro call sql hsql hreads hasks
    exact spares_queryArgs.mp ((asks_call_iff _ _ _).mp hasks sql hsql) hreads
  constructor
  · exact hstarted (rfl : _ = some "SELECT * FROM shadow".toList) (by decide +kernel)
  · exact hstarted (show _ = some "SELECT ?1shadow".toList by decide +kernel) (by decide +kernel)

end PowerManage.Osquery
