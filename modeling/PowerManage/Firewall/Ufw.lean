import PowerManage.Firewall.Rule
import PowerManage.Lib.Interaction
import PowerManage.Lib.Regex

/-!
# The ufw backend

`ApplyRule`, `RemoveRule` and `List` of the ufw manager, as programs that ask for `ufw` commands to
be run.  A rule is known by the comment it was added with; `ufw status numbered` is the only way to
its number, and that output is read line by line with a regular expression.
-/

namespace PowerManage.Firewall

open PathName Text Interaction Regex

/-- `ufw status numbered`, `ufw --force delete <num>`, and `ufw <args>`. -/
inductive UfwQuery
  | status
  | delete (num : Int)
  | add (args : List Str)
deriving DecidableEq

abbrev UfwAnswer : UfwQuery → Type
  | .status => Except CommandError Str
  | _ => Except CommandError Unit

abbrev UfwOp (α : Type) := Prog UfwQuery UfwAnswer (Except FirewallError α)

def ufwCommentIdentity (ns id : Str) : Str := ns ++ ":" ++ id

/-! ## Adding -/

def ufwValidateRule (rule : Rule) : Except FirewallError Unit :=
  if rule.port > 0 ∧ rule.protocol = .any then
    .error (errInvalidRule
      ("port " ++ decimalInt rule.port ++
        " set without a concrete protocol; ufw requires tcp or udp"))
  else if rule.port = 0 ∧ rule.protocol = .any ∧ rule.source = [] ∧ rule.dest = [] then
    .error (errInvalidRule "ufw rule needs at least Port, Protocol, Source, or Dest")
  else .ok ()

def orAny (addr : Str) : Str := if addr = [] then "any" else addr

def ufwMatchArgs (rule : Rule) : List Str :=
  if rule.source ≠ [] ∨ rule.dest ≠ [] then
    ["from".toList, orAny rule.source, "to".toList, orAny rule.dest] ++
      (if rule.port > 0 then ["port".toList, decimalInt rule.port] else []) ++
      (if rule.protocol = .tcp ∨ rule.protocol = .udp then ["proto".toList, rule.protocol.word]
        else [])
  else if rule.port > 0 then [decimalInt rule.port ++ ['/'] ++ rule.protocol.word]
  else
    ["from", "any", "to", "any", "proto", rule.protocol.word]

/-- The arguments of `ufw`, with the identity as the comment. -/
def ufwBuildAddArgs (ns : Str) (rule : Rule) : Except FirewallError (List Str) :=
  match ufwValidateRule rule with
  | .error e => .error e
  | .ok () =>
    .ok ((if rule.allow then "allow" else "deny").toList :: ufwMatchArgs rule ++
      ["comment".toList, ufwCommentIdentity ns rule.id])

/-! ## Reading the status -/

def isBlank (c : Char) : Bool := c = ' ' || c = '\t' || c = '\n' || c = '\x0c' || c = '\r'

def blanks : Regex := plus isBlank true

/-- `\s*#\s*(.+?)\s*$` -/
def ufwCommentPart : Regex :=
  seq (star isBlank true) <| seq (word "#") <| seq (star isBlank true) <|
  seq (group (plus (· ≠ '\n') false)) <| star isBlank true

/-- `ALLOW|DENY|REJECT|LIMIT` -/
def ufwVerbPart : Regex :=
  oneOf "ALLOW" ["DENY", "REJECT", "LIMIT"]

/-- `(ALLOW|DENY|REJECT|LIMIT)(?:\s+(?:IN|OUT))?\s+(.+?)`, and then the comment. -/
def ufwActionPart : Regex :=
  seq (group ufwVerbPart) <|
  seq (opt (seq blanks (oneOf "IN" ["OUT"]))) <|
  seq blanks <| seq (group (plus (· ≠ '\n') false)) ufwCommentPart

/-- `^\[\s*(\d+)\]\s+(\S+)\s+`, and then the action. -/
def ufwStatusRuleRE : Regex :=
  seq (word "[") <| seq (star isBlank true) <| seq (group (plus Char.isDigit true)) <|
  seq (word "]") <| seq blanks <| seq (group (plus (fun c => !isBlank c) true)) <|
  seq blanks ufwActionPart

def trimEnd (line : Str) : Str := line.rdropWhile fun c => c = ' ' || c = '\t'

def statusLines (status : Str) : List Str := (status.splitOn '\n').map trimEnd

/-- A line of `ufw status numbered`, taken apart. -/
structure StatusRule where
  num : Str
  toCol : Str
  verb : Str
  fromCol : Str
  comment : Str
deriving DecidableEq

def readStatusRule (line : Str) : Option StatusRule :=
  match ufwStatusRuleRE.fullMatch line with
  | some [num, toCol, verb, fromCol, comment] => some ⟨num, toCol, verb, fromCol, comment⟩
  | _ => none

def ufwFindRuleNumber (status ns id : Str) : Option Int :=
  (statusLines status).findSome? fun line =>
    (readStatusRule line).bind fun m =>
      if m.comment = ufwCommentIdentity ns id then atoi m.num else none

/-- A port, perhaps with its protocol, or a destination. -/
def ufwParseToColumn (col : Str) (rule : Rule) : Rule :=
  let col := trimSpace col
  if col = "Anywhere" ∨ col = "Anywhere (v6)" then rule
  else
    let bare : Rule :=
      match atoi col with
      | some p => { rule with port := p }
      | none => { rule with dest := col }
    match cut '/' col with
    | some (before, proto) =>
      if before = [] then bare
      else
        let rule : Rule :=
          match atoi before with
          | some p => { rule with port := p }
          | none => rule
        if proto = "tcp" then { rule with protocol := .tcp }
        else if proto = "udp" then { rule with protocol := .udp }
        else rule
    | none => bare

/-- A line of the status that is a rule of this namespace. -/
def ufwParseLine (ns : Str) (m : StatusRule) : Option Rule :=
  let pre := ns ++ ":"
  if hasPrefix m.comment pre then
    let rule := ufwParseToColumn m.toCol
      ⟨m.comment.drop pre.length, m.verb = "ALLOW", .any, 0, [], []⟩
    let source := trimSpace m.fromCol
    if source ≠ [] ∧ source ≠ "Anywhere" ∧ source ≠ "Anywhere (v6)" then
      some { rule with source := source }
    else some rule
  else none

def ufwParseStatus (status ns : Str) : List Rule :=
  if contains status "Status: inactive" then []
  else (statusLines status).filterMap fun line => (readStatusRule line).bind (ufwParseLine ns)

/-! ## The operations -/

def ufwDeleteByNumber (num : Int) : UfwOp Unit :=
  .ask (.delete num) fun
    | .ok () => .ret (.ok ())
    | .error e =>
      .ret (.error (.command ("ufw --force delete " ++ decimalInt num ++ ": ") e))

def ufwAdd (args : List Str) : UfwOp Unit :=
  .ask (.add args) fun
    | .ok () => .ret (.ok ())
    | .error e =>
      .ret (.error (.command ("ufw " ++ [' '].intercalate args ++ ": ") e))

/-- `ApplyRule` from the status on; a status that failed counts as one without the rule. -/
def ufwApplyFrom (M : Manager) (id : Str) (args : List Str) :
    Except CommandError Str → UfwOp Unit
  | .error _ => ufwAdd args
  | .ok status =>
    match ufwFindRuleNumber status M.ns id with
    | none => ufwAdd args
    | some num =>
      .ask (.delete num) fun
        | .ok () => ufwAdd args
        | .error e =>
          .ret (.error (.command ("ufw delete existing rule " ++ decimalInt num ++
            ": ufw --force delete " ++ decimalInt num ++ ": ") e))

/-- The status is asked for first, to find a rule to be replaced. -/
def ufwApplyRule (net : Net) (M : Manager) (rule : Rule) : UfwOp Unit :=
  match validateRule net rule with
  | .error e => .ret (.error e)
  | .ok () =>
    match ufwBuildAddArgs M.ns rule with
    | .error e => .ret (.error e)
    | .ok args => .ask .status (ufwApplyFrom M rule.id args)

/-- `RemoveRule` from the status on; one that failed counts as one without the rule. -/
def ufwRemoveFrom (M : Manager) (id : Str) : Except CommandError Str → UfwOp Unit
  | .error _ => .ret (.ok ())
  | .ok status =>
    match ufwFindRuleNumber status M.ns id with
    | none => .ret (.ok ())
    | some num => ufwDeleteByNumber num

def ufwRemoveRule (M : Manager) (id : Str) : UfwOp Unit :=
  match validateRuleID id with
  | .error e => .ret (.error e)
  | .ok () => .ask .status (ufwRemoveFrom M id)

def ufwListRules (M : Manager) : UfwOp (List Rule) :=
  .ask .status fun
    | .error e => .ret (.error (.command "ufw status numbered: " e))
    | .ok status => .ret (.ok (ufwParseStatus status M.ns))

end PowerManage.Firewall
