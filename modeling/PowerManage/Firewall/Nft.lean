import PowerManage.Exec.Capture
import PowerManage.Firewall.Rule

/-!
# nft

The other side of the nftables backend: how `nft` reads a script, what the kernel does with it, and
what `nft -j list table` prints.  It is no part of the repository, so this module says what is
assumed of it, for the `inet` family and for as much of the language as the backend writes.

* A script is text, read line by line and word by word (`readScript`).  Which of the rules it can
  read `nft` takes is left open (`Nft.admits`): it may know that a rule is of no use to it.
* A batch is atomic: `batch` gives the ruleset after all of its commands, or nothing.
* A new rule goes to the end of its chain, under a handle its table has not given out before.  Which
  one is the kernel's choice, so it is an argument of `batch`; a `Table` carries the proof that its
  handles differ from each other and from those still to come.
* A listing has the rules in the order of their chain, each with its handle, its comment, and its
  expressions as JSON (`Nft.print`).  It is one line, however long (`Nft.width`), so that past its cap
  the runner keeps nothing of it.
-/

namespace PowerManage.Firewall

open PathName Text

/-! ## Rules -/

/-- What a rule does with a packet. -/
inductive Verdict
  | accept
  | drop
deriving DecidableEq

/-- A rule as a script states it. -/
structure Statement where
  saddr : Option (Family × Str)
  daddr : Option (Family × Str)
  transport : Option (Transport × Option Nat)
  verdict : Verdict
deriving DecidableEq

/-- A rule of the table. -/
structure Installed where
  chain : Str
  handle : Nat
  comment : Str
  statement : Statement
deriving DecidableEq

/-- A table.  `next` is above every handle given out so far. -/
structure Table where
  chains : List Str
  rules : List Installed
  next : Nat
  next_pos : 0 < next
  handle_pos : ∀ o ∈ rules, 0 < o.handle
  handle_lt : ∀ o ∈ rules, o.handle < next
  nodup : (rules.map Installed.handle).Nodup

abbrev Ruleset := Str → Option Table

namespace Table

def empty : Table where
  chains := []
  rules := []
  next := 1
  next_pos := Nat.one_pos
  handle_pos := nofun
  handle_lt := nofun
  nodup := List.nodup_nil

def addChain (tb : Table) (chain : Str) : Table :=
  { tb with chains := if chain ∈ tb.chains then tb.chains else tb.chains ++ [chain] }

def without (tb : Table) (handle : Nat) : List Installed := tb.rules.filter (·.handle ≠ handle)

theorem mem_without {tb : Table} {handle : Nat} {o : Installed} :
    o ∈ tb.without handle ↔ o ∈ tb.rules ∧ o.handle ≠ handle := by
  rw [without, List.mem_filter, decide_eq_true_eq]

/-- A handle that is not in the chain fails the script. -/
def deleteRule (tb : Table) (chain : Str) (handle : Nat) : Option Table :=
  if tb.rules.any fun o => o.chain = chain && o.handle = handle then
    some
      { tb with
        rules := tb.without handle
        handle_pos := fun o ho => tb.handle_pos o (mem_without.mp ho).1
        handle_lt := fun o ho => tb.handle_lt o (mem_without.mp ho).1
        nodup := tb.nodup.sublist (List.filter_sublist.map _) }
  else none

/-- Appended, under a handle that was never used. -/
def addRule (tb : Table) (h : Nat) (chain comment : Str) (st : Statement) : Option Table :=
  if hh : chain ∈ tb.chains ∧ tb.next ≤ h then
    some
      { chains := tb.chains
        rules := tb.rules ++ [⟨chain, h, comment, st⟩]
        next := h + 1
        next_pos := Nat.succ_pos h
        handle_pos := fun o ho => by
          rcases List.mem_append.mp ho with ho | ho
          · exact tb.handle_pos o ho
          · rw [List.mem_singleton.mp ho]
            exact lt_of_lt_of_le tb.next_pos hh.2
        handle_lt := fun o ho => by
          rcases List.mem_append.mp ho with ho | ho
          · exact lt_of_lt_of_le (tb.handle_lt o ho) (Nat.le_succ_of_le hh.2)
          · rw [List.mem_singleton.mp ho]
            exact Nat.lt_succ_self h
        nodup := by
          rw [List.map_append, List.nodup_append]
          refine ⟨tb.nodup, List.nodup_singleton h, fun a ha b hb => ?_⟩
          obtain ⟨o, ho, rfl⟩ := List.mem_map.mp ha
          rw [List.mem_singleton.mp hb]
          exact ne_of_lt (lt_of_lt_of_le (tb.handle_lt o ho) hh.2) }
  else none

theorem eq_of_handle_eq (tb : Table) {o o' : Installed} (ho : o ∈ tb.rules) (ho' : o' ∈ tb.rules)
    (h : o.handle = o'.handle) : o = o' :=
  List.inj_on_of_nodup_map tb.nodup ho ho' h

end Table

/-! ## Commands -/

/-- The commands of a script. -/
inductive Command
  | addTable (table : Str)
  | addChain (table chain : Str)
  | deleteRule (table chain : Str) (handle : Nat)
  | addRule (table chain : Str) (statement : Statement) (comment : Str)
deriving DecidableEq

/-- The family and the hook of a base chain, as the backend asks for it. -/
def inputHook : List Str :=
  ["\x7b", "type", "filter", "hook", "input", "priority", "0;", "policy", "accept;", "\x7d"].map
    String.toList

def readFamily (w : Str) : Option Family :=
  if w = "ip" then some .ip else if w = "ip6" then some .ip6 else none

def readVerdict (w : Str) : Option Verdict :=
  if w = "accept" then some .accept else if w = "drop" then some .drop else none

def unquote (w : Str) : Option Str :=
  if w.head? = some '"' ∧ w.tail.getLast? = some '"' then some w.tail.dropLast else none

def readAddr (field : Str) (ws : List Str) :
    Option (Family × Str) × List Str :=
  match ws with
  | fam :: key :: addr :: rest =>
    if key = field then ((readFamily fam).map (·, addr), rest) else (none, ws)
  | _ => (none, ws)

def readPort (ws : List Str) : Option (Transport × Option Nat) × List Str :=
  match ws with
  | [] => (none, ws)
  | p :: rest =>
    match readTransport p with
    | none => (none, ws)
    | some t =>
      match rest with
      | key :: port :: rest' =>
        if key = "dport" then ((readDecimal port).map (t, some ·), rest')
        else (some (t, none), rest)
      | _ => (some (t, none), rest)

/-- The words of a rule, up to its comment. -/
def readStatement (ws : List Str) : Option (Statement × Str) :=
  let (saddr, ws) := readAddr "saddr" ws
  let (daddr, ws) := readAddr "daddr" ws
  let (transport, ws) := readPort ws
  match ws with
  | [verdict, key, comment] =>
    if key = "comment" then
      (readVerdict verdict).bind fun v =>
        (unquote comment).map fun text => (⟨saddr, daddr, transport, v⟩, text)
    else none
  | _ => none

def readHandle : List Str → Option Nat
  | [key, handle] => if key = "handle" then readDecimal handle else none
  | _ => none

/-- One line of a script. -/
def readCommand : List Str → Option Command
  | verb :: object :: family :: table :: rest =>
    if family ≠ "inet" then none
    else if verb = "add" ∧ object = "table" then
      if rest = [] then some (.addTable table) else none
    else
      match rest with
      | [] => none
      | chain :: rest =>
        if verb = "add" ∧ object = "chain" then
          if rest = inputHook then some (.addChain table chain) else none
        else if verb = "delete" ∧ object = "rule" then
          (readHandle rest).map (.deleteRule table chain)
        else if verb = "add" ∧ object = "rule" then
          (readStatement rest).map fun r => .addRule table chain r.1 r.2
        else none
  | _ => none

def readScript (script : Str) : Option (List Command) :=
  (lines script).mapM fun l => readCommand (fields l)

/-! ## What is printed -/

/-- The right side of a match, in a listing. -/
inductive Operand
  | number (n : Int)
  | text (s : Str)
  | subnet (addr : Str) (len : Int)
  | other
deriving DecidableEq

/-- An expression of a listed rule. -/
inductive Expr
  | accept
  | drop
  | payload (protocol field : Str) (right : Operand)
  | other
deriving DecidableEq

/-- A rule in the JSON of a listing. -/
structure RuleObject where
  handle : Nat
  comment : Str
  expr : List Expr
deriving DecidableEq

/-- An element of the `nftables` array. -/
inductive ListItem
  | metainfo
  | table
  | chain
  | rule (obj : RuleObject)
deriving DecidableEq

/-- What `nft -j list` has printed. -/
inductive Raw
  | empty
  | malformed
  | envelope (items : List ListItem)
deriving DecidableEq

/-! ## Running -/

/-- What is left open about `nft`. -/
structure Nft where
  admits : Statement → Bool
  print : Statement → List Expr
  /-- The length of the line that `nft -j` prints for these elements. -/
  width : List ListItem → Nat
  width_le : ∀ items items', items.Sublist items' → width items ≤ width items'
  /-- The failure of a listing when there is no such table. -/
  absent : CommandError
  isNoTable_absent : isNoTable absent = true

namespace Nft

variable (nft : Nft)

def items (tb : Table) : List ListItem :=
  .metainfo :: .table :: tb.chains.map (fun _ => .chain) ++
    tb.rules.map fun o => .rule ⟨o.handle, o.comment, nft.print o.statement⟩

/-- `Stdout` of a listing, decoded: the runner keeps the line, or else only the note that it was
cut. -/
def listing (tb : Table) : Raw :=
  match Exec.kept nft.width 0 [nft.items tb] with
  | [items] => .envelope items
  | _ => .malformed

def onTable (rs : Ruleset) (table : Str) (f : Table → Option Table) : Option Ruleset :=
  (rs table).bind fun tb => (f tb).map fun tb' => Function.update rs table (some tb')

/-- One command; `h` is the handle for a new rule. -/
def command (h : Nat) (rs : Ruleset) : Command → Option Ruleset
  | .addTable table => some (Function.update rs table (some ((rs table).getD .empty)))
  | .addChain table chain => onTable rs table fun tb => some (tb.addChain chain)
  | .deleteRule table chain handle => onTable rs table fun tb => tb.deleteRule chain handle
  | .addRule table chain st comment =>
    onTable rs table fun tb => if nft.admits st then tb.addRule h chain comment st else none

def batch (h : Nat) (rs : Ruleset) (script : Str) : Option Ruleset :=
  (readScript script).bind fun cmds => cmds.foldlM (nft.command h) rs

end Nft

end PowerManage.Firewall
