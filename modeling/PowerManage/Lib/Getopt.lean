import PowerManage.Lib.Str

/-!
# Command line options

`parse` reads an argument vector the way `getopt_long` does when it permutes: an argument that
begins with a dash is an option wherever it stands, until a `--`, and what is left are the operands.
Which options take an argument is a parameter; an option that takes one and has none attached takes
the next argument, whatever it looks like.

An argument that looks like an option is never an operand, so the operands are all the arguments
exactly if none looks like one (`parse_eq_iff`).
-/

namespace Getopt

abbrev Arg := Str

/-- Which options there are, and whether they take an argument. -/
structure Spec where
  short : Char → Bool
  long : Arg → Bool

/-- An option as it was read. -/
inductive Opt
  | short (c : Char) (arg : Option Arg)
  | long (name : Arg) (arg : Option Arg)
deriving DecidableEq

/-- The options and operands of a command line. -/
structure Parsed where
  options : List Opt
  operands : List Arg
deriving DecidableEq

/-- An argument that is read as an option, or as the end of the options. -/
def isOption : Arg → Bool
  | '-' :: _ :: _ => true
  | _ => false

def Parsed.addOptions (os : List Opt) (p : Parsed) : Parsed := { p with options := os ++ p.options }

def Parsed.addOperand (a : Arg) (p : Parsed) : Parsed := { p with operands := a :: p.operands }

/-- The options of `-abc`, and the last one if its argument is still to come. -/
def cluster (spec : Spec) : Str → List Opt × Option Char
  | [] => ([], none)
  | c :: s =>
    if spec.short c then
      if s = [] then ([], some c) else ([.short c (some s)], none)
    else (.short c none :: (cluster spec s).1, (cluster spec s).2)

/-- The option of `--name` or `--name=value`, and its name if its argument is still to come. -/
def longOption (spec : Spec) (s : Arg) : List Opt × Option Arg :=
  match s.dropWhile (· ≠ '=') with
  | _ :: value => ([.long (s.takeWhile (· ≠ '=')) (some value)], none)
  | [] => if spec.long s then ([], some s) else ([.long s none], none)

/-- The options that an argument holds by itself, and the one that waits for its argument. -/
def ofArg (spec : Spec) : Arg → List Opt × Option (Option Arg → Opt)
  | '-' :: '-' :: s => ((longOption spec s).1, (longOption spec s).2.map Opt.long)
  | '-' :: s => ((cluster spec s).1, (cluster spec s).2.map Opt.short)
  | _ => ([], none)

/-- Options may follow operands, up to `--`. -/
def parse (spec : Spec) : List Arg → Parsed
  | [] => ⟨[], []⟩
  | a :: rest =>
    if !isOption a then (parse spec rest).addOperand a
    else if a = ['-', '-'] then ⟨[], rest⟩
    else
      match ofArg spec a with
      | (os, none) => (parse spec rest).addOptions os
      | (os, some wants) =>
        match rest with
        | [] => ⟨os ++ [wants none], []⟩
        | value :: rest' => (parse spec rest').addOptions (os ++ [wants (some value)])

variable {spec : Spec} {a value : Arg} {rest : List Arg} {c : Char}

theorem parse_cons :
    parse spec (a :: rest) =
      if !isOption a then (parse spec rest).addOperand a
      else if a = ['-', '-'] then ⟨[], rest⟩
      else
        match ofArg spec a with
        | (os, none) => (parse spec rest).addOptions os
        | (os, some wants) =>
          match rest with
          | [] => ⟨os ++ [wants none], []⟩
          | value :: rest' => (parse spec rest').addOptions (os ++ [wants (some value)]) := by
  rw [parse]

theorem parse_operand (h : isOption a = false) :
    parse spec (a :: rest) = (parse spec rest).addOperand a := by
  rw [parse_cons, h]
  rfl

theorem parse_end : parse spec (['-', '-'] :: rest) = ⟨[], rest⟩ := by
  rw [parse_cons, if_neg (by decide), if_pos rfl]

variable {os : List Opt}

theorem parse_option (hopt : isOption a = true) (hend : a ≠ ['-', '-'])
    (hof : ofArg spec a = (os, none)) :
    parse spec (a :: rest) = (parse spec rest).addOptions os := by
  rw [parse_cons, hopt, if_neg (by decide), if_neg hend, hof]

theorem parse_option_arg {wants : Option Arg → Opt} (hopt : isOption a = true)
    (hend : a ≠ ['-', '-']) (hof : ofArg spec a = (os, some wants)) :
    parse spec (a :: value :: rest) =
      (parse spec rest).addOptions (os ++ [wants (some value)]) := by
  rw [parse_cons, hopt, if_neg (by decide), if_neg hend, hof]

theorem ofArg_short (hc : c ≠ '-') (h : spec.short c = false) :
    ofArg spec ['-', c] = ([.short c none], none) := by
  simp [ofArg, hc, cluster, h]

theorem ofArg_short_arg (hc : c ≠ '-') (h : spec.short c = true) :
    ofArg spec ['-', c] = ([], some (.short c)) := by
  simp [ofArg, hc, cluster, h]

theorem ofArg_long {name : Arg} (heq : '=' ∉ name) (h : spec.long name = false) :
    ofArg spec ('-' :: '-' :: name) = ([.long name none], none) := by
  have hdrop : name.dropWhile (· ≠ '=') = [] := by
    rw [List.dropWhile_eq_nil_iff]
    intro d hd
    simpa using fun h : d = '=' => heq (h ▸ hd)
  simp only [ofArg, longOption, hdrop, h, Bool.false_eq_true, if_false, Option.map_none]

/-- The operands are among the arguments, in their order; an option is none of them. -/
theorem operands_sublist (spec : Spec) (args : List Arg) :
    (parse spec args).operands.Sublist args ∧
      ∀ a rest, args = a :: rest → isOption a = true →
        (parse spec args).operands.Sublist rest := by
  fun_induction parse spec args with
  | case1 => exact ⟨.slnil, by simp⟩
  | case2 a rest h ih =>
    refine ⟨ih.1.cons_cons a, fun b rest' heq hb => ?_⟩
    cases heq
    simp [hb] at h
  | case3 rest h =>
    refine ⟨List.sublist_cons_self .., ?_⟩
    rintro b rest' heq -
    cases heq
    exact .refl _
  | case4 a rest h hend os hof ih =>
    refine ⟨ih.1.cons a, ?_⟩
    rintro b rest' heq -
    cases heq
    exact ih.1
  | case5 a h hend os wants hof => exact ⟨List.nil_sublist _, fun _ _ _ _ => List.nil_sublist _⟩
  | case6 a h hend os wants hof value rest ih =>
    refine ⟨(ih.1.cons value).cons a, ?_⟩
    rintro b rest' heq -
    cases heq
    exact ih.1.cons value

theorem parse_eq_iff {args : List Arg} :
    parse spec args = ⟨[], args⟩ ↔ ∀ a ∈ args, isOption a = false := by
  induction args with
  | nil => exact iff_of_true rfl (by simp)
  | cons a rest ih =>
    rw [List.forall_mem_cons]
    cases ha : isOption a with
    | true =>
      refine iff_of_false (fun h => ?_) (by simp)
      have hlength := ((operands_sublist spec (a :: rest)).2 a rest rfl ha).length_le
      rw [h, List.length_cons] at hlength
      omega
    | false =>
      rw [parse_operand ha, ← ih]
      constructor
      · intro h
        refine ⟨rfl, ?_⟩
        cases hp : parse spec rest with
        | mk options operands =>
          rw [hp] at h
          cases h
          rfl
      · rintro ⟨-, h⟩
        rw [h]
        rfl

theorem addOptions_eq_iff {args : List Arg} {p : Parsed} :
    p.addOptions os = ⟨os, args⟩ ↔ p = ⟨[], args⟩ := by
  cases p
  simp [Parsed.addOptions]

end Getopt
