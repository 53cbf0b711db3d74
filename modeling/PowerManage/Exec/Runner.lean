import PowerManage.Lib.Interaction
import PowerManage.Lib.Text

/-!
# The runner

The privileged operations of the SDK start commands through an injected `exec.Runner`, and look at
the host beside it.  A program of the SDK asks: it starts a command and is told its result or that
it could not be run, it looks a command up, or whether a path exists.
-/

namespace PowerManage.Exec

open Interaction PathName

/-- A command for the runner. -/
structure Command where
  name : Str
  args : List Str
  stdin : Str
  escalate : Bool
deriving DecidableEq

/-- How a command has ended, with its output. -/
structure Result where
  exitCode : Int
  stdout : Str
  stderr : Str
deriving DecidableEq

def commandError (name : Str) (res : Result) : Str :=
  let exit := name ++ ": exit " ++ Text.decimalInt res.exitCode
  if trimSpace res.stderr ≠ [] then exit ++ ": " ++ trimSpace res.stderr else exit

def separatePositionals (flags positionals : List Str) : List Str :=
  flags ++ "--".toList :: positionals

/-- What may be asked of the host. -/
inductive Question
  | run (c : Command)
  | lookPath (name : Str)
  | stat (path : Str)
deriving DecidableEq

/-- What is answered: a result or the text of an error, or whether it is there. -/
def Answer : Question → Type
  | .run _ => Except Str Result
  | .lookPath _ | .stat _ => Bool

abbrev Program := Prog Question Answer

def run {α : Type} (c : Command) (k : Except Str Result → Program α) : Program α :=
  .ask (.run c) k

def lookPath {α : Type} (name : Str) (k : Bool → Program α) : Program α :=
  .ask (.lookPath name) k

def stat {α : Type} (path : Str) (k : Bool → Program α) : Program α := .ask (.stat path) k

end PowerManage.Exec
