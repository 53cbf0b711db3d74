import PowerManage.Lib.Str

/-!
# The tokens of an SQLite statement

`next` is SQLite's `sqlite3GetToken`: it takes one token off the text, by the class of its first
character.  Identifiers are bare or quoted with double quotes, back-quotes or brackets, and a string
in single quotes may stand where an identifier is wanted; `Token.value` of these is what is meant,
without the quotes.  Comments and white space are tokens of their own.  A statement ends at a NUL.

The version is 3.46 or later, where letters right behind the digits of a number, a hexadecimal one
too, belong to its token and make it illegal; digit separators are taken for such letters.

A name that is a token of a statement stands in its text with no letter, digit or underscore around
it (`delimited_of_token`), with one exception: the digits of a numbered parameter end where they
end, so a name may follow them directly.
-/

namespace Sqlite

open List

/-! ## Characters -/

def isDigit (c : Char) : Bool := 48 ≤ c.toNat && c.toNat ≤ 57

def isHex (c : Char) : Bool :=
  isDigit c || (65 ≤ c.toNat && c.toNat ≤ 70) || (97 ≤ c.toNat && c.toNat ≤ 102)

def isSpace (c : Char) : Bool := c = ' ' || (9 ≤ c.toNat && c.toNat ≤ 13)

/-- Letters, digits, the underscore, the dollar sign, and everything outside of ASCII. -/
def isIdChar (c : Char) : Bool :=
  isDigit c || (65 ≤ c.toNat && c.toNat ≤ 90) || (97 ≤ c.toNat && c.toNat ≤ 122) || c = '_' ||
    c = '$' || 128 ≤ c.toNat

def isStart (c : Char) : Bool :=
  (65 ≤ c.toNat && c.toNat ≤ 90) || (97 ≤ c.toNat && c.toNat ≤ 122) || c = '_'

def bom : Char := '\ufeff'

/-- A character that is in no bare identifier with what stands next to it. -/
def isClean (c : Char) : Bool := !isIdChar c || c = bom

/-! ## Tokens -/

/-- What kind of token it is. -/
inductive Kind
  | space
  | id
  | string
  | number
  | blob
  | param
  | operator
  | illegal
deriving DecidableEq

/-- A token and its text. -/
structure Token where
  kind : Kind
  value : Str
deriving DecidableEq

def startsWithDigit : Str → Bool
  | c :: _ => isDigit c
  | [] => false

/-- After the opening quote: the content, with doubled quotes taken for one, and what follows. -/
def quotedScan (d : Char) : Str → Option (Str × Str)
  | [] => none
  | c :: s =>
    if c = d then
      match s with
      | [] => some ([], [])
      | c' :: s' =>
        if c' = d then (quotedScan d s').map fun r => (d :: r.1, r.2) else some ([], c' :: s')
    else (quotedScan d s).map fun r => (c :: r.1, r.2)

def quoted (kind : Kind) (d : Char) (s : Str) : Token × Str :=
  match quotedScan d s with
  | some (n, rest) => (⟨kind, n⟩, rest)
  | none => (⟨.illegal, d :: s⟩, [])

def bracketed (s : Str) : Token × Str :=
  match s.dropWhile (· ≠ ']') with
  | _ :: rest => (⟨.id, s.takeWhile (· ≠ ']')⟩, rest)
  | [] => (⟨.illegal, '[' :: s⟩, [])

def commentScan : Str → Str
  | [] => []
  | '*' :: '/' :: s => s
  | _ :: s => commentScan s

/-- What follows the name of a parameter, how many characters the name has so far, and whether it
is well formed. -/
def variableScan : Nat → Str → Str × Bool
  | n, [] => ([], 0 < n)
  | n, c :: s =>
    if isIdChar c then variableScan (n + 1) s
    else if c = '(' ∧ 0 < n then
      match s.dropWhile fun d => !isSpace d && d != ')' with
      | ')' :: rest => (rest, true)
      | rest => (rest, false)
    else
      match c, s with
      | ':', ':' :: s' => variableScan n s'
      | c, s => (c :: s, 0 < n)

def exponentScan : Str → Str
  | [] => []
  | e :: s =>
    if e = 'e' ∨ e = 'E' then
      match s with
      | [] => [e]
      | d :: s' =>
        if isDigit d ∨ (d = '+' ∨ d = '-') ∧ startsWithDigit s' then s'.dropWhile isDigit
        else e :: d :: s'
    else e :: s

def fractionScan : Str → Str
  | '.' :: s => s.dropWhile isDigit
  | s => s

/-- What follows the digits of a number that begins with `c`. -/
def numberScan (c : Char) (s : Str) : Str :=
  match s with
  | x :: h :: s' =>
    if c = '0' ∧ (x = 'x' ∨ x = 'X') ∧ isHex h then s'.dropWhile isHex
    else if c = '.' then exponentScan (s.dropWhile isDigit)
    else exponentScan (fractionScan (s.dropWhile isDigit))
  | s =>
    if c = '.' then exponentScan (s.dropWhile isDigit)
    else exponentScan (fractionScan (s.dropWhile isDigit))

def taken (kind : Kind) (c : Char) (s rest : Str) : Token × Str :=
  (⟨kind, c :: s.take (s.length - rest.length)⟩, rest)

def number (c : Char) (s : Str) : Token × Str :=
  match numberScan c s with
  | d :: s' =>
    if isIdChar d then taken .illegal c s ((d :: s').dropWhile isIdChar)
    else taken .number c s (d :: s')
  | [] => taken .number c s []

def blob (c : Char) (s : Str) : Token × Str :=
  match s.dropWhile isHex with
  | '\'' :: rest =>
    if (s.takeWhile isHex).length % 2 = 0 then taken .blob c ('\'' :: s) rest
    else taken .illegal c ('\'' :: s) rest
  | s' => taken .illegal c ('\'' :: s) (s'.dropWhile (· ≠ '\'')).tail

def minus : Str → Token × Str
  | '-' :: s => (⟨.space, '-' :: '-' :: s.takeWhile (· ≠ '\n')⟩, s.dropWhile (· ≠ '\n'))
  | '>' :: '>' :: s => (⟨.operator, ['-', '>', '>']⟩, s)
  | '>' :: s => (⟨.operator, ['-', '>']⟩, s)
  | s => (⟨.operator, ['-']⟩, s)

def slash : Str → Token × Str
  | '*' :: d :: s => taken .space '/' ('*' :: d :: s) (commentScan (d :: s))
  | s => (⟨.operator, ['/']⟩, s)

def seconds (c : Char) : Str :=
  if c = '=' ∨ c = '!' then ['=']
  else if c = '<' then ['=', '>', '<']
  else if c = '>' then ['=', '>']
  else if c = '|' then ['|']
  else []

def singles : Str :=
  ['(', ')', ';', '+', '*', '%', '=', '<', '>', '|', ',', '&', '~', '.']

def operator (c : Char) (s : Str) : Token × Str :=
  match s with
  | d :: s' =>
    if d ∈ seconds c then (⟨.operator, [c, d]⟩, s')
    else (⟨if c ∈ singles then .operator else .illegal, [c]⟩, s)
  | [] => (⟨if c ∈ singles then .operator else .illegal, [c]⟩, s)

/-- The token that begins with `c`, and the rest. -/
def next (c : Char) (s : Str) : Token × Str :=
  if c = ' ' ∨ c = '\t' ∨ c = '\n' ∨ c = '\x0c' ∨ c = '\r' then
    (⟨.space, c :: s.takeWhile isSpace⟩, s.dropWhile isSpace)
  else if c = bom then (⟨.space, [c]⟩, s)
  else if c = '-' then minus s
  else if c = '/' then slash s
  else if c = '"' ∨ c = '\x60' then quoted .id c s
  else if c = '\'' then quoted .string c s
  else if c = '[' then bracketed s
  else if c = '?' then (⟨.param, c :: s.takeWhile isDigit⟩, s.dropWhile isDigit)
  else if c = '$' ∨ c = '@' ∨ c = '#' ∨ c = ':' then
    taken (if (variableScan 0 s).2 then .param else .illegal) c s (variableScan 0 s).1
  else if isDigit c ∨ c = '.' ∧ startsWithDigit s then number c s
  else if (c = 'x' ∨ c = 'X') ∧ s.head? = some '\'' then blob c s.tail
  else if isIdChar c then (⟨.id, c :: s.takeWhile isIdChar⟩, s.dropWhile isIdChar)
  else operator c s

def tokensFrom : Nat → Str → List Token
  | 0, _ => []
  | _, [] => []
  | n + 1, c :: s => (next c s).1 :: tokensFrom n (next c s).2

def tokens (sql : Str) : List Token :=
  tokensFrom sql.length (sql.takeWhile (· ≠ '\x00'))

/-- The token is this name, bare or quoted, in any case. -/
def Token.Names (t : Token) (w : Str) : Prop :=
  (t.kind = .id ∨ t.kind = .string) ∧ t.value.map Char.toLower = w

instance (t : Token) (w : Str) : Decidable (t.Names w) :=
  inferInstanceAs (Decidable (_ ∧ _))

/-- A parameter with a number, as `?1`. -/
def Token.Numbered (t : Token) : Prop := t.kind = .param ∧ t.value.head? = some '?'

instance (t : Token) : Decidable t.Numbered := inferInstanceAs (Decidable (_ ∧ _))

/-! ## Where a token ends -/

/-- The place between `u` and `rest` is inside no bare identifier. -/
def Ends (u rest : Str) : Prop :=
  rest = [] ∨ (∃ d, rest.head? = some d ∧ isIdChar d = false) ∨
    ∃ d, u.getLast? = some d ∧ isClean d = true

/-- The rest begins where no bare identifier goes on. -/
def Cut (z rest : Str) : Prop := ∃ u, u ≠ [] ∧ z = u ++ rest ∧ Ends u rest

variable {w : Str}

section

variable {c d : Char} {s rest z u n : Str}

theorem isClean_of_isIdChar (h : isIdChar c = false) : isClean c = true := by
  rw [isClean, h]
  rfl

theorem cut_nil (c : Char) (s : Str) : Cut (c :: s) [] :=
  ⟨c :: s, cons_ne_nil _ _, (append_nil _).symm, .inl rfl⟩

theorem cut_head (hrest : rest <:+ s) (hd : ∀ d, rest.head? = some d → isIdChar d = false) :
    Cut (c :: s) rest := by
  obtain ⟨u, rfl⟩ := hrest
  refine ⟨c :: u, cons_ne_nil _ _, rfl, ?_⟩
  cases rest with
  | nil => exact .inl rfl
  | cons d rest => exact .inr (.inl ⟨d, rfl, hd d rfl⟩)

theorem cut_last (h : z = u ++ d :: rest) (hd : isClean d = true) : Cut z rest :=
  ⟨u ++ [d], by simp, by rw [h]; simp, .inr (.inr ⟨d, by simp, hd⟩)⟩

theorem head_dropWhile {p : Char → Bool} (h : (s.dropWhile p).head? = some d) : p d = false := by
  have hhead := head?_dropWhile_not p s
  rw [h] at hhead
  exact hhead

theorem cut_dropWhile_isIdChar (h : z <:+ s) : Cut (c :: s) (z.dropWhile isIdChar) :=
  cut_head ((dropWhile_suffix _).trans h) fun _ hd => head_dropWhile hd

theorem quotedScan_suffix (h : quotedScan d s = some (n, rest)) :
    (∃ m, s = m ++ d :: rest) ∧ (d ∉ n → s = n ++ d :: rest) := by
  fun_induction quotedScan d s generalizing n with
  | case1 => cases h
  | case2 =>
    cases h
    exact ⟨⟨[], rfl⟩, fun _ => rfl⟩
  | case3 s' ih =>
    obtain ⟨⟨m, r⟩, hr, heq⟩ := Option.map_eq_some_iff.mp h
    cases heq
    obtain ⟨⟨k, rfl⟩, -⟩ := ih hr
    exact ⟨⟨d :: d :: k, rfl⟩, fun hd => absurd (mem_cons_self ..) hd⟩
  | case4 c' s' hc =>
    cases h
    exact ⟨⟨[], rfl⟩, fun _ => rfl⟩
  | case5 c s hc ih =>
    obtain ⟨⟨m, r⟩, hr, heq⟩ := Option.map_eq_some_iff.mp h
    cases heq
    obtain ⟨⟨k, hk⟩, hn⟩ := ih hr
    refine ⟨⟨c :: k, by rw [hk]; rfl⟩, fun hd => ?_⟩
    rw [hn fun hm => hd (mem_cons_of_mem c hm)]
    rfl

theorem cut_quoted (kind : Kind) (hd : isClean d = true) : Cut (d :: s) (quoted kind d s).2 := by
  unfold quoted
  split
  · rename_i n rest h
    obtain ⟨⟨m, hm⟩, -⟩ := quotedScan_suffix h
    exact cut_last (u := d :: m) (by rw [hm]; rfl) hd
  · exact cut_nil ..

theorem eq_of_dropWhile_ne (h : s.dropWhile (· ≠ d) = c :: rest) :
    s = s.takeWhile (· ≠ d) ++ d :: rest := by
  have hc : decide (c ≠ d) = false := head_dropWhile (by rw [h]; rfl)
  obtain rfl : c = d := by simpa using hc
  rw [← h, takeWhile_append_dropWhile]

theorem cut_bracketed : Cut ('[' :: s) (bracketed s).2 := by
  unfold bracketed
  split
  · rename_i e rest h
    exact cut_last (u := '[' :: s.takeWhile (· ≠ ']')) (congrArg _ (eq_of_dropWhile_ne h)) (by decide)
  · exact cut_nil ..

theorem commentScan_cut (s : Str) : commentScan s = [] ∨ ∃ m, s = m ++ '/' :: commentScan s := by
  fun_induction commentScan s with
  | case1 => exact .inl rfl
  | case2 s => exact .inr ⟨['*'], rfl⟩
  | case3 c s _ ih =>
    refine ih.imp_right ?_
    rintro ⟨m, hm⟩
    exact ⟨c :: m, congrArg _ hm⟩

theorem cut_slash : Cut ('/' :: s) (slash s).2 := by
  unfold slash
  split
  · rename_i d s
    rcases commentScan_cut (d :: s) with hnil | ⟨m, hm⟩
    · rw [hnil]
      exact cut_nil ..
    · exact cut_last (u := '/' :: '*' :: m) (congrArg (fun t => '/' :: '*' :: t) hm) (by decide)
  · exact cut_last (u := []) rfl (by decide)

theorem cut_minus : Cut ('-' :: s) (minus s).2 := by
  unfold minus
  split
  · refine cut_head ((dropWhile_suffix _).trans (suffix_cons ..)) fun d hd => ?_
    have hline := head_dropWhile hd
    obtain rfl : d = '\n' := by simpa using hline
    decide
  · exact cut_last (u := ['-', '>']) rfl (by decide)
  · exact cut_last (u := ['-']) rfl (by decide)
  · exact cut_last (u := []) rfl (by decide)

theorem isIdChar_of_isSpace (h : isSpace c = true) : isIdChar c = false := by
  have hspace : c.toNat = 32 ∨ 9 ≤ c.toNat ∧ c.toNat ≤ 13 := by
    simp only [isSpace, Bool.or_eq_true, decide_eq_true_eq, Bool.and_eq_true] at h
    exact h.imp_left fun hc => by rw [hc]; rfl
  have hunder : c ≠ '_' := by
    rintro rfl
    revert hspace
    decide
  have hdollar : c ≠ '$' := by
    rintro rfl
    revert hspace
    decide
  simp only [isIdChar, isDigit, Bool.or_eq_false_iff, Bool.and_eq_false_iff, decide_eq_false_iff_not,
    hunder, hdollar, not_false_eq_true, and_true]
  omega

theorem Cut.cons (h : Cut z rest) (c : Char) : Cut (c :: z) rest := by
  obtain ⟨u, hu, rfl, hends⟩ := h
  refine ⟨c :: u, cons_ne_nil _ _, rfl, hends.imp_right (Or.imp_right ?_)⟩
  rintro ⟨d, hd, hclean⟩
  exact ⟨d, by rw [getLast?_cons, hd]; rfl, hclean⟩

theorem variableScan_cut (m : Nat) (c : Char) (s : Str) : Cut (c :: s) (variableScan m s).1 := by
  fun_induction variableScan m s generalizing c with
  | case1 => exact cut_nil ..
  | case2 m e s he ih => exact (ih e).cons c
  | case3 m e s he hopen rest hrest =>
    refine cut_last (d := ')') (u := c :: e :: s.takeWhile fun d => !isSpace d && d != ')') ?_
      (by decide)
    rw [cons_append, cons_append, ← hrest, takeWhile_append_dropWhile]
  | case4 m e s he hopen hclosed =>
    refine cut_head ((dropWhile_suffix _).trans (suffix_cons ..)) fun d hd => ?_
    have hstop := head_dropWhile hd
    -- it stops at white space or at a `)`, and there is none
    have hparen : d ≠ ')' := by
      rintro rfl
      obtain ⟨rest, hrest⟩ := head?_eq_some_iff.mp hd
      exact hclosed rest hrest
    exact isIdChar_of_isSpace (by simpa [hparen] using hstop)
  | case5 m s _ _ ih => exact ((ih ':').cons ':').cons c
  | case6 m e s _ he =>
    refine cut_head suffix_rfl fun d hd => ?_
    cases hd
    simpa using he

theorem exponentScan_suffix (s : Str) : exponentScan s <:+ s := by
  unfold exponentScan
  split
  · exact suffix_rfl
  split
  · split
    · exact suffix_rfl
    · split
      · exact ((dropWhile_suffix _).trans (suffix_cons ..)).trans (suffix_cons ..)
      · exact suffix_rfl
  · exact suffix_rfl

theorem fractionScan_suffix (s : Str) : fractionScan s <:+ s := by
  unfold fractionScan
  split
  · exact (dropWhile_suffix _).trans (suffix_cons ..)
  · exact suffix_rfl

theorem numberScan_suffix (c : Char) (s : Str) : numberScan c s <:+ s := by
  have hplain : ∀ t : Str, exponentScan (t.dropWhile isDigit) <:+ t := fun t =>
    (exponentScan_suffix _).trans (dropWhile_suffix _)
  have hfraction : ∀ t : Str, exponentScan (fractionScan (t.dropWhile isDigit)) <:+ t :=
    fun t => (exponentScan_suffix _).trans ((fractionScan_suffix _).trans (dropWhile_suffix _))
  unfold numberScan
  split
  · split_ifs
    · exact ((dropWhile_suffix _).trans (suffix_cons ..)).trans (suffix_cons ..)
    · exact hplain _
    · exact hfraction _
  · split_ifs
    · exact hplain _
    · exact hfraction _

theorem cut_number : Cut (c :: s) (number c s).2 := by
  have hsuffix := numberScan_suffix c s
  unfold number
  split
  · rename_i d s' h
    rw [h] at hsuffix
    split_ifs with hd
    · exact cut_dropWhile_isIdChar hsuffix
    · refine cut_head hsuffix fun e he => ?_
      cases he
      simpa using hd
  · exact cut_nil ..

theorem cut_blob : Cut (c :: '\'' :: s) (blob c s).2 := by
  have hhex : ∀ rest, s.dropWhile isHex = '\'' :: rest → Cut (c :: '\'' :: s) rest := by
    intro rest h
    refine cut_last (d := '\'') (u := c :: '\'' :: s.takeWhile isHex) ?_ (by decide)
    rw [cons_append, cons_append, ← h, takeWhile_append_dropWhile]
  unfold blob
  split
  · rename_i rest h
    split_ifs
    · exact hhex rest h
    · exact hhex rest h
  rw [taken]
  cases hq : (s.dropWhile isHex).dropWhile (· ≠ '\'') with
  | nil => exact cut_nil ..
  | cons e rest =>
    refine cut_last (d := '\'') (u := c :: '\'' :: (s.takeWhile isHex ++
      (s.dropWhile isHex).takeWhile (· ≠ '\''))) ?_ (by decide)
    have hsplit := eq_of_dropWhile_ne hq
    rw [cons_append, cons_append, append_assoc, tail_cons, ← hsplit,
      takeWhile_append_dropWhile]

theorem isClean_of_mem_seconds (h : d ∈ seconds c) : isClean d = true := by
  unfold seconds at h
  have hall : d ∈ ['=', '>', '<', '|'] := by
    split_ifs at h
    all_goals
      revert h
      simp only [mem_cons]
      tauto
  simp only [mem_cons, not_mem_nil, or_false] at hall
  rcases hall with rfl | rfl | rfl | rfl <;> decide

theorem cut_operator (hc : isIdChar c = false) : Cut (c :: s) (operator c s).2 := by
  unfold operator
  split
  · split_ifs with hd
    · exact cut_last (u := [c]) rfl (isClean_of_mem_seconds hd)
    · exact cut_last (u := []) rfl (isClean_of_isIdChar hc)
    · exact cut_last (u := []) rfl (isClean_of_isIdChar hc)
  · exact cut_last (u := []) rfl (isClean_of_isIdChar hc)

/-- The cases of `next`. -/
inductive Reads (c : Char) (s : Str) : Token × Str → Prop
  | space (h : isSpace c = true) :
      Reads c s (⟨.space, c :: s.takeWhile isSpace⟩, s.dropWhile isSpace)
  | mark (h : c = bom) : Reads c s (⟨.space, [c]⟩, s)
  | minus (h : c = '-') : Reads c s (minus s)
  | slash (h : c = '/') : Reads c s (slash s)
  | quoted (kind : Kind) (h : isIdChar c = false) : Reads c s (quoted kind c s)
  | bracketed (h : c = '[') : Reads c s (bracketed s)
  | numbered (h : c = '?') :
      Reads c s (⟨.param, c :: s.takeWhile isDigit⟩, s.dropWhile isDigit)
  | named (kind : Kind) (h : kind = .param ∨ kind = .illegal) :
      Reads c s (taken kind c s (variableScan 0 s).1)
  | number : Reads c s (number c s)
  | blob (t : Str) (h : s = '\'' :: t) : Reads c s (blob c t)
  | id (h : isIdChar c = true) :
      Reads c s (⟨.id, c :: s.takeWhile isIdChar⟩, s.dropWhile isIdChar)
  | operator (h : isIdChar c = false) : Reads c s (operator c s)

theorem reads_next (c : Char) (s : Str) : Reads c s (next c s) := by
  unfold next
  by_cases hspace : c = ' ' ∨ c = '\t' ∨ c = '\n' ∨ c = '\x0c' ∨ c = '\r'
  · rw [if_pos hspace]
    exact .space (by rcases hspace with rfl | rfl | rfl | rfl | rfl <;> decide)
  rw [if_neg hspace]
  by_cases hmark : c = bom
  · rw [if_pos hmark]
    exact .mark hmark
  rw [if_neg hmark]
  by_cases hminus : c = '-'
  · rw [if_pos hminus]
    exact .minus hminus
  rw [if_neg hminus]
  by_cases hslash : c = '/'
  · rw [if_pos hslash]
    exact .slash hslash
  rw [if_neg hslash]
  by_cases hquote : c = '"' ∨ c = '\x60'
  · rw [if_pos hquote]
    exact .quoted _ (by rcases hquote with rfl | rfl <;> decide)
  rw [if_neg hquote]
  by_cases hsingle : c = '\''
  · rw [if_pos hsingle]
    exact .quoted _ (by rw [hsingle]; decide)
  rw [if_neg hsingle]
  by_cases hbracket : c = '['
  · rw [if_pos hbracket]
    exact .bracketed hbracket
  rw [if_neg hbracket]
  by_cases hnumbered : c = '?'
  · rw [if_pos hnumbered]
    exact .numbered hnumbered
  rw [if_neg hnumbered]
  by_cases hnamed : c = '$' ∨ c = '@' ∨ c = '#' ∨ c = ':'
  · rw [if_pos hnamed]
    refine .named _ ?_
    cases (variableScan 0 s).2 <;> simp
  rw [if_neg hnamed]
  by_cases hnumber : isDigit c ∨ c = '.' ∧ startsWithDigit s
  · rw [if_pos hnumber]
    exact .number
  rw [if_neg hnumber]
  by_cases hblob : (c = 'x' ∨ c = 'X') ∧ s.head? = some '\''
  · rw [if_pos hblob]
    obtain ⟨t, rfl⟩ := head?_eq_some_iff.mp hblob.2
    exact .blob t rfl
  rw [if_neg hblob]
  by_cases hid : isIdChar c
  · rw [if_pos hid]
    exact .id hid
  rw [if_neg hid]
  exact .operator (by simpa using hid)

/-- A token ends where no bare identifier goes on, unless it is a numbered parameter. -/
theorem cut_next (c : Char) (s : Str) :
    Cut (c :: s) (next c s).2 ∨
      (next c s).1.Numbered ∧ ∃ u, u ≠ [] ∧ c :: s = u ++ (next c s).2 := by
  have hreads := reads_next c s
  generalize next c s = r at hreads
  cases hreads with
  | space h =>
    have hall : ∀ d ∈ c :: s.takeWhile isSpace, isSpace d = true := by
      intro d hd
      rcases mem_cons.mp hd with rfl | hd
      · exact h
      · exact mem_takeWhile_imp hd
    have hlast := getLast_mem (cons_ne_nil c (s.takeWhile isSpace))
    refine .inl ⟨c :: s.takeWhile isSpace, cons_ne_nil _ _, ?_, .inr (.inr ⟨_,
      getLast?_eq_some_getLast _, isClean_of_isIdChar (isIdChar_of_isSpace (hall _ hlast))⟩)⟩
    rw [cons_append, takeWhile_append_dropWhile]
  | mark h => exact .inl (cut_last (u := []) rfl (by rw [h]; decide))
  | minus h => exact .inl (h ▸ cut_minus)
  | slash h => exact .inl (h ▸ cut_slash)
  | quoted kind h => exact .inl (cut_quoted kind (isClean_of_isIdChar h))
  | bracketed h => exact .inl (h ▸ cut_bracketed)
  | numbered h =>
    refine .inr ⟨⟨rfl, by rw [h]; rfl⟩, c :: s.takeWhile isDigit, cons_ne_nil _ _, ?_⟩
    rw [cons_append, takeWhile_append_dropWhile]
  | named kind h => exact .inl (variableScan_cut 0 c s)
  | number => exact .inl cut_number
  | blob t h => exact .inl (h ▸ cut_blob)
  | id h => exact .inl (cut_dropWhile_isIdChar suffix_rfl)
  | operator h => exact .inl (cut_operator h)

theorem exists_eq_append_next (c : Char) (s : Str) :
    ∃ u, u ≠ [] ∧ c :: s = u ++ (next c s).2 := by
  rcases cut_next c s with ⟨u, hu, h, -⟩ | ⟨-, h⟩
  · exact ⟨u, hu, h⟩
  · exact h

theorem length_next (c : Char) (s : Str) : (next c s).2.length ≤ s.length := by
  obtain ⟨u, hu, h⟩ := exists_eq_append_next c s
  have hlength := congrArg length h
  have hpos := length_pos_iff.mpr hu
  rw [length_cons, length_append] at hlength
  omega

theorem tokensFrom_of_le {m : Nat} (h : z.length ≤ m) : tokensFrom m z = tokensFrom z.length z := by
  induction m using Nat.strong_induction_on generalizing z with
  | _ m ih =>
    cases z with
    | nil => cases m <;> rfl
    | cons c s =>
      cases m with
      | zero => simp at h
      | succ m =>
        have hlength := length_next c s
        rw [length_cons] at h
        rw [length_cons, tokensFrom, tokensFrom, ih m (by omega) (by omega),
          ← ih s.length (by omega) hlength]

/-! ## Where a name stands -/

/-- The name stands in the text, in any case, with nothing around it that a bare identifier could go
on with. -/
def Delimited (w sql : Str) : Prop :=
  ∃ a n b, sql = a ++ n ++ b ∧ n.map Char.toLower = w ∧
    (∀ d, a.getLast? = some d → isClean d = true) ∧ ∀ d, b.head? = some d → isIdChar d = false

/-- A name to look for: a lower case identifier of ASCII letters, digits and underscores. -/
def Plain (w : Str) : Prop := ∀ c ∈ w, isIdChar c = true ∧ c.toNat < 128

theorem toLower_of_isIdChar (h : isIdChar d = false) : d.toLower = d := by
  refine Char.toLower_eq_of_not_isUpper fun hupper => ?_
  have hrange := of_decide_eq_true hupper
  have hlow : 65 ≤ d.toNat := hrange.1
  have hhigh : d.toNat ≤ 90 := hrange.2
  have hid : isIdChar d = true := by simp [isIdChar, hlow, hhigh]
  rw [h] at hid
  cases hid

theorem notMem_of_map_toLower (hw : Plain w) (h : n.map Char.toLower = w)
    (hd : isIdChar d = false) : d ∉ n := by
  intro hmem
  have hid := (hw d.toLower (h ▸ mem_map_of_mem hmem)).1
  rw [toLower_of_isIdChar hd, hd] at hid
  cases hid

def Kind.isName : Kind → Bool
  | .id | .string => true
  | _ => false

theorem isName_minus : (minus s).1.kind.isName = false := by
  unfold minus
  split <;> rfl

theorem isName_slash : (slash s).1.kind.isName = false := by
  unfold slash
  split <;> rfl

theorem isName_number : (number c s).1.kind.isName = false := by
  unfold number
  split
  · split_ifs <;> rfl
  · rfl

theorem isName_blob : (blob c s).1.kind.isName = false := by
  unfold blob
  split
  · split_ifs <;> rfl
  · rfl

theorem isName_operator : (operator c s).1.kind.isName = false := by
  unfold operator
  split
  · split_ifs <;> rfl
  · split_ifs <;> rfl

theorem next_names (hw : Plain w) (h : (next c s).1.Names w) :
    (isIdChar c = true ∧ c :: s = (next c s).1.value ++ (next c s).2 ∧
        ∀ d, (next c s).2.head? = some d → isIdChar d = false) ∨
      ∃ q q', isIdChar q = false ∧ isIdChar q' = false ∧
        c :: s = q :: (next c s).1.value ++ q' :: (next c s).2 := by
  have hreads := reads_next c s
  generalize next c s = r at hreads h
  obtain ⟨hkind, hvalue⟩ := h
  have hname : r.1.kind.isName = true := by rcases hkind with h | h <;> rw [h] <;> rfl
  have hno : r.1.kind.isName = false → False := by
    intro h
    rw [h] at hname
    cases hname
  cases hreads with
  | quoted kind hc =>
    refine .inr ⟨c, c, hc, hc, ?_⟩
    unfold quoted at hname hvalue ⊢
    split at hname
    · rename_i m rest hscan
      simp only [hscan] at hvalue ⊢
      rw [cons_append, (quotedScan_suffix hscan).2 (notMem_of_map_toLower hw hvalue hc)]
    · cases hname
  | bracketed hc =>
    refine .inr ⟨'[', ']', by decide, by decide, ?_⟩
    unfold bracketed at hname ⊢
    split at hname
    · rename_i e rest hscan
      rw [hc, cons_append, ← eq_of_dropWhile_ne hscan]
    · cases hname
  | id hc =>
    refine .inl ⟨hc, ?_, fun d hd => head_dropWhile hd⟩
    rw [cons_append, takeWhile_append_dropWhile]
  | space | mark | numbered => cases hname
  | minus => exact (hno isName_minus).elim
  | slash => exact (hno isName_slash).elim
  | named kind h => rcases h with rfl | rfl <;> cases hname
  | number => exact (hno isName_number).elim
  | blob => exact (hno isName_blob).elim
  | operator => exact (hno isName_operator).elim

/-- The text before `z` is separated from it, or its last token is a numbered parameter. -/
def Separated (pre : Str) (prev : Option Token) (z : Str) : Prop :=
  pre = [] ∨ Ends pre z ∨ ∃ p, prev = some p ∧ p.Numbered

theorem Ends.append_left (h : Ends u rest) (hu : u ≠ []) (pre : Str) :
    Ends (pre ++ u) rest := by
  refine h.imp_right (Or.imp_right ?_)
  rintro ⟨d, hd, hclean⟩
  exact ⟨d, by rw [getLast?_append_of_ne_nil pre hu, hd], hclean⟩

theorem delimited_or_numbered (hw : Plain w) {t : Token} (ht : t.Names w) (m : Nat) (pre : Str)
    (prev : Option Token) (z post : Str) (hsep : Separated pre prev z)
    (hpost : ∀ d, post.head? = some d → isIdChar d = false) (hmem : t ∈ tokensFrom m z) :
    Delimited w (pre ++ z ++ post) ∨
      ∃ p, p.Numbered ∧ [p, t] <:+: prev.toList ++ tokensFrom m z := by
  induction m generalizing pre prev z with
  | zero => cases hmem
  | succ m ih =>
    cases z with
    | nil => cases hmem
    | cons c s =>
      rcases mem_cons.mp hmem with rfl | hmem
      · rcases next_names hw ht with ⟨hc, heq, hrest⟩ | ⟨q, q', hq, hq', heq⟩
        · -- a bare name; the text before it decides
          have hafter : ∀ d, ((next c s).2 ++ post).head? = some d → isIdChar d = false := by
            intro d hd
            cases hr : (next c s).2 with
            | nil => rw [hr] at hd; exact hpost d hd
            | cons e r => rw [hr] at hd hrest; exact hrest d hd
          have hbare : (∀ d, pre.getLast? = some d → isClean d = true) →
              Delimited w (pre ++ c :: s ++ post) := fun hpre =>
            ⟨pre, _, (next c s).2 ++ post, by rw [heq]; simp, ht.2, hpre, hafter⟩
          rcases hsep with rfl | (hnil | ⟨d, hd, hid⟩ | ⟨d, hd, hclean⟩) | ⟨p, rfl, hp⟩
          · exact .inl (hbare (by simp))
          · cases hnil
          · cases hd
            rw [hc] at hid
            cases hid
          · refine .inl (hbare fun e he => ?_)
            rw [hd] at he
            cases he
            exact hclean
          · exact .inr ⟨p, hp, [], _, rfl⟩
        · refine .inl ⟨pre ++ [q], _, q' :: ((next c s).2 ++ post), by rw [heq]; simp, ht.2, ?_, ?_⟩
          · simp [isClean_of_isIdChar hq]
          · simp [hq']
      · obtain ⟨u, hu, heq⟩ := exists_eq_append_next c s
        have hsep' : Separated (pre ++ u) (some (next c s).1) (next c s).2 := by
          rcases cut_next c s with ⟨v, hv, hveq, hends⟩ | ⟨hnumbered, -⟩
          · obtain rfl : u = v := append_cancel_right (heq.symm.trans hveq)
            exact .inr (.inl (hends.append_left hu pre))
          · exact .inr (.inr ⟨_, rfl, hnumbered⟩)
        rcases ih (pre ++ u) (some (next c s).1) (next c s).2 hsep' hmem with hdelim | ⟨p, hp, hwithin⟩
        · rw [heq, ← append_assoc pre]
          exact .inl hdelim
        · exact .inr ⟨p, hp, hwithin.trans (suffix_append ..).isInfix⟩

/-- A name that is a token of a statement stands apart in its text, or follows a numbered parameter
directly. -/
theorem delimited_of_token {sql : Str} (hw : Plain w) {t : Token} (ht : t.Names w)
    (hmem : t ∈ tokens sql) : Delimited w sql ∨ ∃ p, p.Numbered ∧ [p, t] <:+: tokens sql := by
  have hpost : ∀ d, (sql.dropWhile (· ≠ '\x00')).head? = some d → isIdChar d = false := by
    intro d hd
    have hnul := head_dropWhile hd
    obtain rfl : d = '\x00' := by simpa using hnul
    decide
  have h := delimited_or_numbered hw ht sql.length [] none _ _ (.inl rfl) hpost hmem
  rw [nil_append, takeWhile_append_dropWhile] at h
  exact h

theorem isIdChar_of_isStart (h : isStart c = true) : isIdChar c = true := by
  simp only [isStart, Bool.or_eq_true, Bool.and_eq_true, decide_eq_true_eq] at h
  simp only [isIdChar, Bool.or_eq_true, Bool.and_eq_true, decide_eq_true_eq]
  tauto

theorem next_bare (hc : isStart c = true) (hs : ∀ d ∈ s, isIdChar d = true)
    (hquote : rest.head? ≠ some '\'') (hrest : ∀ d, rest.head? = some d → isIdChar d = false) :
    next c (s ++ rest) = (⟨.id, c :: s⟩, rest) := by
  have hne : ∀ d : Char, isStart d = false → c ≠ d := by
    rintro d hd rfl
    rw [hc] at hd
    cases hd
  have hdigit : isDigit c = false := by
    simp only [isStart, Bool.or_eq_true, Bool.and_eq_true, decide_eq_true_eq] at hc
    simp only [isDigit, Bool.and_eq_false_iff, decide_eq_false_iff_not]
    rcases hc with hc | rfl
    · omega
    · decide
  have hstop : rest.takeWhile isIdChar = [] ∧ rest.dropWhile isIdChar = rest := by
    cases rest with
    | nil => exact ⟨rfl, rfl⟩
    | cons e r =>
      have he := hrest e rfl
      simp [he]
  have hblob : (s ++ rest).head? ≠ some '\'' := by
    cases s with
    | nil => exact hquote
    | cons e s =>
      intro he
      cases he
      exact absurd (hs _ (mem_cons_self ..)) (by decide)
  unfold next
  rw [if_neg, if_neg (hne bom (by decide)), if_neg (hne _ (by decide)), if_neg (hne _ (by decide)),
    if_neg, if_neg (hne _ (by decide)), if_neg (hne _ (by decide)), if_neg (hne _ (by decide)),
    if_neg, if_neg, if_neg fun h => hblob h.2, if_pos (isIdChar_of_isStart hc)]
  · rw [takeWhile_append_of_pos hs, dropWhile_append_of_pos hs, hstop.1, hstop.2,
      append_nil]
  · rintro (h | ⟨h, -⟩)
    · rw [hdigit] at h
      cases h
    · exact hne _ (by decide) h
  · rintro (h | h | h | h) <;> exact hne _ (by decide) h
  · rintro (h | h) <;> exact hne _ (by decide) h
  · rintro (h | h | h | h | h) <;> exact hne _ (by decide) h

theorem next_blank (h : isSpace d = false) (s : Str) :
    next ' ' (d :: s) = (⟨.space, [' ']⟩, d :: s) := by
  rw [next, if_pos (.inl rfl), takeWhile_cons_of_neg (by simp [h]),
    dropWhile_cons_of_neg (by simp [h])]

theorem tokens_cons (h : '\x00' ∉ c :: s) :
    tokens (c :: s) = (next c s).1 :: tokens (next c s).2 := by
  have hwhole : ∀ z : Str, '\x00' ∉ z → tokens z = tokensFrom z.length z := by
    intro z hz
    rw [tokens, takeWhile_eq_self_iff.mpr]
    intro d hd
    simpa using fun hnul : d = '\x00' => hz (hnul ▸ hd)
  obtain ⟨u, -, hu⟩ := exists_eq_append_next c s
  have hrest : '\x00' ∉ (next c s).2 := fun hmem => h (hu ▸ mem_append_right u hmem)
  rw [hwhole _ h, hwhole _ hrest, length_cons, tokensFrom, tokensFrom_of_le (length_next c s)]

end

end Sqlite
