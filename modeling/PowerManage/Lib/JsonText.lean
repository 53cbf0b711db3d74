import PowerManage.Lib.Radix

/-!
# Strings in JSON

`quote` writes a string the way that is safe inside HTML: besides what JSON demands, the characters
`<`, `>` and `&` and the two line separators are escaped.  `readString` reads any JSON string, also
one that another writer has escaped in another way: it first cuts the text into characters and the
code units of `\u` escapes, and then puts surrogate pairs together.
-/

namespace JsonText

open List Radix

def hexDigit (d : Nat) : Char := Char.ofNat (if d < 10 then 48 + d else 87 + d)

def hexValue (c : Char) : Option Nat :=
  if '0' ≤ c ∧ c ≤ '9' then some (c.toNat - 48)
  else if 'a' ≤ c ∧ c ≤ 'f' then some (c.toNat - 87)
  else if 'A' ≤ c ∧ c ≤ 'F' then some (c.toNat - 55)
  else none

theorem hexValue_hexDigit : ∀ d < 16, hexValue (hexDigit d) = some d := by decide

def letter : Char → Option Char
  | '"' => some '"'
  | '\\' => some '\\'
  | '\x08' => some 'b'
  | '\x0c' => some 'f'
  | '\n' => some 'n'
  | '\r' => some 'r'
  | '\t' => some 't'
  | _ => none

def unescape : Char → Option Char
  | '"' => some '"'
  | '\\' => some '\\'
  | '/' => some '/'
  | 'b' => some '\x08'
  | 'f' => some '\x0c'
  | 'n' => some '\n'
  | 'r' => some '\r'
  | 't' => some '\t'
  | _ => none

def isUnsafe (c : Char) : Bool :=
  c.toNat < 0x20 || c ∈ ['<', '>', '&'] || c.toNat ∈ [0x2028, 0x2029]

def escape (c : Char) : Str :=
  match letter c with
  | some l => ['\\', l]
  | none => if isUnsafe c then '\\' :: 'u' :: (digits 16 4 c.toNat).map hexDigit else [c]

def quote (s : Str) : Str := '"' :: (s.flatMap escape ++ ['"'])

/-- What is left of a string up to its end, as characters and code units, and the text behind it. -/
def lex : Str → Option (List (Char ⊕ Nat) × Str)
  | [] => none
  | '\\' :: 'u' :: a :: b :: c :: d :: s => do
    let ds ← [a, b, c, d].mapM hexValue
    let (l, rest) ← lex s
    return (.inr (value 16 ds) :: l, rest)
  | '\\' :: e :: s => do
    let c ← unescape e
    let (l, rest) ← lex s
    return (.inl c :: l, rest)
  | c :: s =>
    if c = '"' then some ([], s)
    else if c = '\\' ∨ c.toNat < 0x20 then none
    else do
      let (l, rest) ← lex s
      return (.inl c :: l, rest)

def scalar (u : Nat) : Char := if 0xd800 ≤ u ∧ u < 0xe000 then '\ufffd' else Char.ofNat u

def join : List (Char ⊕ Nat) → Str
  | [] => []
  | .inl c :: l => c :: join l
  | .inr u :: .inr v :: l =>
    if 0xd800 ≤ u ∧ u < 0xdc00 ∧ 0xdc00 ≤ v ∧ v < 0xe000 then
      Char.ofNat (0x10000 + (u - 0xd800) * 0x400 + (v - 0xdc00)) :: join l
    else scalar u :: join (.inr v :: l)
  | .inr u :: l => scalar u :: join l

def readString (s : Str) : Option (Str × Str) := (lex s).map fun (l, rest) => (join l, rest)

theorem unescape_of_letter {c l : Char} (h : letter c = some l) : unescape l = some c ∧ l ≠ 'u' := by
  unfold letter at h
  split at h <;> cases h <;> decide

theorem toNat_of_isUnsafe {c : Char} (h : isUnsafe c = true) : c.toNat < 0xd800 := by
  simp only [isUnsafe, Bool.or_eq_true, decide_eq_true_eq, mem_cons, not_mem_nil, or_false] at h
  rcases h with (h | rfl | rfl | rfl) | h
  · omega
  · decide
  · decide
  · decide
  · omega

/-- What `lex` makes of an escaped character. -/
def item (c : Char) : Char ⊕ Nat :=
  if letter c = none ∧ isUnsafe c then .inr c.toNat else .inl c

theorem lex_escape (c : Char) (s : Str) :
    lex (escape c ++ s) = (lex s).map fun (l, rest) => (item c :: l, rest) := by
  unfold escape item
  cases hl : letter c with
  | some l =>
    obtain ⟨hc, hu⟩ := unescape_of_letter hl
    have hstep : lex ('\\' :: l :: s) = (do
        let c ← unescape l
        let (l, rest) ← lex s
        return (.inl c :: l, rest)) := by
      rw [lex]
      exact fun a b c d s h _ => hu h
    simp only [cons_append, nil_append, hstep, hc]
    cases lex s <;> rfl
  | none =>
    by_cases hs : isUnsafe c
    · have hn := toNat_of_isUnsafe hs
      have hread : ((digits 16 4 c.toNat).map hexDigit).mapM hexValue = some (digits 16 4 c.toNat) :=
        mapM_map_eq_some fun d hd => hexValue_hexDigit d (lt_of_mem_digits (by decide) hd)
      have hvalue : value 16 (digits 16 4 c.toNat) = c.toNat := by
        rw [value_digits, Nat.mod_eq_of_lt (by omega)]
      simp only [digits, map_cons, map_nil] at hread hvalue ⊢
      simp only [hs, if_true, and_self, cons_append, nil_append, lex, hread]
      cases lex s with
      | none => rfl
      | some p => exact congrArg (fun n => some (.inr n :: p.1, p.2)) hvalue
    · have hc : c ≠ '"' ∧ c ≠ '\\' := by
        constructor <;> rintro rfl <;> cases hl
      have hlow : ¬c.toNat < 0x20 := fun h => hs (by simp [isUnsafe, h])
      have hstep : lex (c :: s) = (do let (l, rest) ← lex s; return (.inl c :: l, rest)) := by
        rw [lex]
        · simp [hc, hlow]
        · exact fun _ _ _ _ _ h => absurd h hc.2
        · exact fun _ _ h => absurd h hc.2
      simp only [hs, Bool.false_eq_true, if_false, and_false, cons_append, nil_append, hstep]
      cases lex s <;> rfl

theorem join_item (c : Char) (l : List (Char ⊕ Nat)) : join (item c :: l) = c :: join l := by
  unfold item
  split_ifs with h
  · have hn := toNat_of_isUnsafe h.2
    have hc : scalar c.toNat = c := by
      rw [scalar, if_neg (by omega), Char.ofNat_toNat]
    rcases l with _ | ⟨_ | v, l⟩
    · simp only [join, hc]
    · simp only [join, hc]
    · rw [join, if_neg (by omega), hc]
  · rw [join]

theorem readString_quote (s rest : Str) :
    readString (s.flatMap escape ++ '"' :: rest) = some (s, rest) := by
  have hjoin : join (s.map item) = s := by
    induction s with
    | nil => rfl
    | cons c s ih => rw [map_cons, join_item, ih]
  have hlex : ∀ s : Str, lex (s.flatMap escape ++ '"' :: rest) = some (s.map item, rest) := by
    intro s
    induction s with
    | nil => rfl
    | cons c s ih => rw [flatMap_cons, append_assoc, lex_escape, ih, Option.map_some, map_cons]
  rw [readString, hlex, Option.map_some]
  exact congrArg (fun t => some (t, rest)) hjoin

end JsonText
