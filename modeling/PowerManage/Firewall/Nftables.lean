import PowerManage.Firewall.Nft
import PowerManage.Lib.Interaction

/-!
# The nftables backend

`ApplyRule`, `RemoveRule` and `List` of the nftables manager.  Each is a program that asks for `nft`
commands to be run (`Query`) and goes on with how they ended, so that the same definitions can be
run alone and between those of other goroutines.  A listing is answered with the JSON it prints,
already decoded; the script of a batch is text.
-/

namespace PowerManage.Firewall

open PathName Text Interaction

/-- The commands the backend runs: `nft -j list table inet <table>`, and `nft -f -` with a script on
standard input. -/
inductive Query
  | list (table : Str)
  | batch (script : Str)
deriving DecidableEq

abbrev Answer : Query → Type
  | .list _ => Except CommandError Raw
  | .batch _ => Except CommandError Unit

abbrev Op (α : Type) := Prog Query Answer (Except FirewallError α)

def nftFamily : Str := "inet"

def nftChain : Str := "input"

def nftTableName (ns : Str) : Str := ns ++ "_filter"

/-! ## The script -/

def Family.word : Family → Str
  | .ip => "ip"
  | .ip6 => "ip6"

def nftAddressFamily (net : Net) (addr : Str) : Except FirewallError Family :=
  match net.parseCIDR addr with
  | some f => .ok f
  | none =>
    match net.parseIP addr with
    | some f => .ok f
    | none => .error (errInvalidRule (quote addr ++ " is not a valid IP address or CIDR"))

def sideFamily (net : Net) (side addr : Str) : Except FirewallError (Option Family) :=
  if addr = [] then .ok none
  else
    match nftAddressFamily net addr with
    | .ok f => .ok (some f)
    | .error e => .error (e.wrap (side ++ [' '] ++ quote addr ++ ": "))

def deleteLine (table : Str) (handle : Nat) : Str :=
  "delete rule " ++ nftFamily ++ [' '] ++ table ++ [' '] ++ nftChain ++ " handle " ++
    decimal handle ++ ['\n']

def sideParts (fam : Option Family) (key addr : Str) : List Str :=
  match fam with
  | some f => [f.word, key, addr]
  | none => []

def portParts (rule : Rule) : List Str :=
  let port := if rule.port > 0 then ["dport".toList, decimalInt rule.port] else []
  match rule.protocol with
  | .tcp => "tcp" :: port
  | .udp => "udp" :: port
  | _ => []

def ruleParts (rule : Rule) (srcFam dstFam : Option Family) : List Str :=
  sideParts srcFam "saddr" rule.source ++ sideParts dstFam "daddr" rule.dest ++
    portParts rule ++
    [(if rule.allow then "accept" else "drop").toList, "comment", ['"'] ++ rule.id ++ ['"']]

/-- All of it goes to `nft -f` at once. -/
def applyScript (table : Str) (rule : Rule) (srcFam dstFam : Option Family)
    (replaceHandle : Nat) : Str :=
  "add table " ++ nftFamily ++ [' '] ++ table ++ ['\n'] ++
    ("add chain " ++ nftFamily ++ [' '] ++ table ++ [' '] ++ nftChain ++
      " \x7b type filter hook input priority 0; policy accept; \x7d\n") ++
    (if replaceHandle > 0 then deleteLine table replaceHandle else []) ++
    [' '].intercalate
      (["add rule".toList, nftFamily, table, nftChain] ++ ruleParts rule srcFam dstFam) ++
    ['\n']

/-- A script, or the reason why there is none. -/
def nftBuildApplyScriptStrict (net : Net) (ns : Str) (rule : Rule) (replaceHandle : Nat) :
    Except FirewallError Str :=
  if rule.port > 0 ∧ rule.protocol = .any then
    .error (errInvalidRule
      ("port " ++ decimalInt rule.port ++
        " set without a concrete protocol; nft requires tcp or udp"))
  else
    match sideFamily net "source" rule.source with
    | .error e => .error e
    | .ok srcFam =>
      match sideFamily net "dest" rule.dest with
      | .error e => .error e
      | .ok dstFam =>
        match srcFam, dstFam with
        | some f, some g =>
          if f ≠ g then
            .error (errInvalidRule
              ("source family " ++ f.word ++ " differs from dest family " ++ g.word ++
                ("; a rule that mixes IPv4 and IPv6 match expressions can never match a real " ++
                  "packet").toList))
          else .ok (applyScript (nftTableName ns) rule srcFam dstFam replaceHandle)
        | _, _ => .ok (applyScript (nftTableName ns) rule srcFam dstFam replaceHandle)

/-! ## The listing -/

/-- The handle of the first rule with this comment. -/
def nftFindRuleHandle (raw : Raw) (id : Str) : Option Nat :=
  match raw with
  | .envelope items =>
    items.findSome? fun
      | .rule obj => if obj.comment = id then some obj.handle else none
      | _ => none
  | _ => none

def nftDecodeAddr : Operand → Str
  | .text s => s
  | .subnet addr len => addr ++ ['/'] ++ decimalInt len
  | _ => []

/-- One turn of the loop in `applyExprToRule`. -/
def applyExpr (rule : Rule) : Expr → Rule
  | .accept => { rule with allow := true }
  | .drop => { rule with allow := false }
  | .payload protocol field right =>
    if field = "dport" then
      { rule with
        protocol := protocolOf protocol
        port := match right with | .number n => n | _ => 0 }
    else if field = "saddr" then { rule with source := nftDecodeAddr right }
    else if field = "daddr" then { rule with dest := nftDecodeAddr right }
    else rule
  | .other => rule

def applyExprToRule (expr : List Expr) (rule : Rule) : Rule := expr.foldl applyExpr rule

/-- The rules that carry a comment. -/
def nftParseRules : Raw → Except FirewallError (List Rule)
  | .empty => .ok []
  | .malformed => .error (.unmarshal "unmarshal nft list: ")
  | .envelope items =>
    .ok (items.filterMap fun
      | .rule obj =>
        if obj.comment = [] then none
        else some (applyExprToRule obj.expr ⟨obj.comment, false, .any, 0, [], []⟩)
      | _ => none)

/-! ## The operations -/

def nftRunScript (script : Str) : Op Unit :=
  .ask (.batch script) fun
    | .ok () => .ret (.ok ())
    | .error e => .ret (.error (.command "nft -f -: " e))

/-- `ApplyRule` from the end of the listing on. -/
def applyFrom (net : Net) (M : Manager) (rule : Rule) (handle : Nat) : Op Unit :=
  match nftBuildApplyScriptStrict net M.ns rule handle with
  | .error e => .ret (.error e)
  | .ok script => nftRunScript script

/-- What `ApplyRule` takes from a listing; a listing that failed counts as one without the rule. -/
def handleIn (r : Except CommandError Raw) (id : Str) : Nat :=
  match r with
  | .ok raw => (nftFindRuleHandle raw id).getD 0
  | .error _ => 0

def applyRule (net : Net) (M : Manager) (rule : Rule) : Op Unit :=
  match validateRule net rule with
  | .error e => .ret (.error e)
  | .ok () => .ask (.list (nftTableName M.ns)) fun r => applyFrom net M rule (handleIn r rule.id)

/-- `RemoveRule` from the end of the listing on. -/
def removeFrom (M : Manager) (id : Str) : Except CommandError Raw → Op Unit
  | .error e =>
    if isNoTable e then .ret (.ok ()) else .ret (.error (.command "nft list table: " e))
  | .ok raw =>
    match nftFindRuleHandle raw id with
    | none => .ret (.ok ())
    | some handle => nftRunScript (deleteLine (nftTableName M.ns) handle)

def removeRule (M : Manager) (id : Str) : Op Unit :=
  match validateRuleID id with
  | .error e => .ret (.error e)
  | .ok () => .ask (.list (nftTableName M.ns)) (removeFrom M id)

def listRules (M : Manager) : Op (List Rule) :=
  .ask (.list (nftTableName M.ns)) fun
    | .error e =>
      if isNoTable e then
        .ret (.error (.notExist
          ("list nftables rules: namespace " ++ quote M.ns ++ " has no table: ")))
      else .ret (.error (.command "nft list table: " e))
    | .ok raw => .ret (nftParseRules raw)

/-- The commands of the backend, run by `nft`; a batch that fails is refused. -/
def Nft.answer (nft : Nft) (h : Nat) (rs : Ruleset) : (q : Query) → Option (Answer q × Ruleset)
  | .list table =>
    match rs table with
    | none => some (.error nft.absent, rs)
    | some tb => some (.ok (nft.listing tb), rs)
  | .batch script => (nft.batch h rs script).map fun rs' => (.ok (), rs')

end PowerManage.Firewall
