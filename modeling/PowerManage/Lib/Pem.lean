import PowerManage.Lib.Text

/-!
# PEM files

A PEM file is a text with blocks in it, each a type, headers and some bytes.  A decoder finds the
first block of a text and says what follows it; `Decoder.blocks` goes on to the end.  Which texts are
blocks is up to the decoder, and what is said about all blocks of a file needs no more of it than
that the rest of a text is shorter.

`standard` is the decoder of Go's `encoding/pem`: it skips what is not a block, takes a type line,
headers, base64 and an end line, and tries again further down if one of them is not in order.
-/

namespace Pem

open Text

/-- One PEM block. -/
structure Block where
  type : List UInt8
  headers : List (List UInt8 × List UInt8)
  bytes : List UInt8
deriving DecidableEq

/-- A decoder that takes blocks off the front of a text. -/
structure Decoder where
  decode : List UInt8 → Option (Block × List UInt8)
  length_rest : ∀ {data rest : List UInt8} {block : Block},
    decode data = some (block, rest) → rest.length < data.length

namespace Decoder

/-- All blocks, each from where the one before has ended. -/
def blocks (P : Decoder) (data : List UInt8) : List Block :=
  match _h : P.decode data with
  | none => []
  | some (block, rest) => block :: blocks P rest
termination_by data.length
decreasing_by exact P.length_rest _h

variable {P : Decoder} {data rest : List UInt8} {block : Block}

theorem blocks_of_none (h : P.decode data = none) : P.blocks data = [] := by
  rw [blocks]
  split
  · rfl
  · rename_i block rest heq
    rw [h] at heq
    cases heq

theorem blocks_of_some (h : P.decode data = some (block, rest)) :
    P.blocks data = block :: P.blocks rest := by
  rw [blocks]
  split
  · rename_i heq
    rw [h] at heq
    cases heq
  rename_i block' rest' heq
  rw [h] at heq
  cases heq
  rfl

end Decoder

/-! ## The standard decoder -/

def pemStart : List UInt8 := ascii "\n-----BEGIN "

def pemEnd : List UInt8 := ascii "\n-----END "

def pemEndOfLine : List UInt8 := ascii "-----"

/-- What is before and after the first place where `sep` stands. -/
def cutAt (sep : List UInt8) : List UInt8 → Option (List UInt8 × List UInt8)
  | [] => none
  | c :: s =>
    if sep.isPrefixOf (c :: s) then some ([], (c :: s).drop sep.length)
    else (cutAt sep s).map fun r => (c :: r.1, r.2)

def isBlankByte (b : UInt8) : Bool := b == 32 || b == 9

def getLine (data : List UInt8) : List UInt8 × List UInt8 :=
  match cutAt [10] data with
  | none => (data.rdropWhile isBlankByte, [])
  | some (line, rest) =>
    ((if line.getLast? = some 13 then line.dropLast else line).rdropWhile isBlankByte, rest)

def sextet (b : UInt8) : Option Nat :=
  let n := b.toNat
  if 65 ≤ n ∧ n ≤ 90 then some (n - 65)
  else if 97 ≤ n ∧ n ≤ 122 then some (n - 71)
  else if 48 ≤ n ∧ n ≤ 57 then some (n + 4)
  else if n = 43 then some 62
  else if n = 47 then some 63
  else none

/-- Base64 in groups of four, the last one padded with `=`. -/
def decodeBase64 : List UInt8 → Option (List UInt8)
  | [] => some []
  | [a, b, 61, 61] => do
    let a ← sextet a
    let b ← sextet b
    return [UInt8.ofNat (a * 4 + b / 16)]
  | [a, b, c, 61] => do
    let a ← sextet a
    let b ← sextet b
    let c ← sextet c
    return [UInt8.ofNat (a * 4 + b / 16), UInt8.ofNat (b * 16 + c / 4)]
  | a :: b :: c :: d :: rest => do
    let a ← sextet a
    let b ← sextet b
    let c ← sextet c
    let d ← sextet d
    let tail ← decodeBase64 rest
    return UInt8.ofNat (a * 4 + b / 16) :: UInt8.ofNat (b * 16 + c / 4) ::
      UInt8.ofNat (c * 64 + d) :: tail
  | _ => none

def isSpaceByte (b : UInt8) : Bool := isBlankByte b || b == 10 || b == 13

/-- The lines with a colon, and what follows them. Every line takes a byte at least, so that fuel
for the text is enough. -/
def readHeaders : Nat → List (List UInt8 × List UInt8) → List UInt8 →
    Option (List (List UInt8 × List UInt8) × List UInt8)
  | 0, _, _ => none
  | fuel + 1, headers, rest =>
    if rest = [] then none
    else
      match cutAt [58] (getLine rest).1 with
      | none => some (headers, rest)
      | some (key, val) =>
        readHeaders fuel (headers ++ [((key.dropWhile isSpaceByte).rdropWhile isSpaceByte,
          (val.dropWhile isSpaceByte).rdropWhile isSpaceByte)]) (getLine rest).2

/-- What comes of one place that looks like the start of a block. -/
inductive Attempt
  | found (block : Block) (rest : List UInt8)
  | again (rest : List UInt8)
  | stop

def Attempt.rest : Attempt → List UInt8
  | found _ rest => rest
  | again rest => rest
  | stop => []

def cutEnd (headers : List (List UInt8 × List UInt8)) (rest : List UInt8) :
    Option (List UInt8 × List UInt8) :=
  if headers = [] ∧ (pemEnd.drop 1).isPrefixOf rest then some ([], rest.drop (pemEnd.length - 1))
  else cutAt pemEnd rest

/-- The text after a `-----BEGIN `. -/
def attempt (data : List UInt8) : Attempt :=
  let (typeLine, rest) := getLine data
  if pemEndOfLine.isSuffixOf typeLine = false then .again rest
  else
    let type := typeLine.take (typeLine.length - pemEndOfLine.length)
    match readHeaders (rest.length + 1) [] rest with
    | none => .stop
    | some (headers, rest) =>
      match cutEnd headers rest with
      | none => .again rest
      | some (body, endTrailer) =>
        let trailer := type ++ pemEndOfLine
        if trailer.isPrefixOf endTrailer = false then .again rest
        else if (getLine (endTrailer.drop trailer.length)).1 ≠ [] then .again rest
        else
          match decodeBase64 (body.filter fun b => !isSpaceByte b) with
          | none => .again rest
          | some bytes => .found ⟨type, headers, bytes⟩ (getLine endTrailer).2

/-- The text after the next `-----BEGIN ` that begins a line. -/
def afterStart (data : List UInt8) : Option (List UInt8) :=
  if (pemStart.drop 1).isPrefixOf data then some (data.drop (pemStart.length - 1))
  else (cutAt pemStart data).map Prod.snd

/-- Every round takes the mark of a beginning at least, so that fuel for all of the text is
enough. -/
def decodeFrom : Nat → List UInt8 → Option (Block × List UInt8)
  | 0, _ => none
  | fuel + 1, data =>
    match afterStart data with
    | none => none
    | some rest =>
      match attempt rest with
      | .found block rest => some (block, rest)
      | .again rest => decodeFrom fuel rest
      | .stop => none

section

variable {data rest : List UInt8}

theorem length_of_cutAt {sep before after : List UInt8} (h : cutAt sep data = some (before, after)) :
    after.length + sep.length ≤ data.length := by
  induction data generalizing before after with
  | nil => cases h
  | cons c s ih =>
    rw [cutAt] at h
    split_ifs at h with hstart
    · cases h
      have hle := (List.isPrefixOf_iff_prefix.mp hstart).length_le
      rw [List.length_drop]
      omega
    · obtain ⟨⟨before', after'⟩, hcut, heq⟩ := Option.map_eq_some_iff.mp h
      cases heq
      exact (ih hcut).trans (Nat.le_succ _)

theorem length_getLine (data : List UInt8) : (getLine data).2.length ≤ data.length := by
  unfold getLine
  split
  · exact Nat.zero_le _
  · rename_i line rest hcut
    have hle := length_of_cutAt hcut
    exact Nat.le_of_add_right_le hle

theorem length_of_readHeaders {fuel : Nat} {headers headers' : List (List UInt8 × List UInt8)}
    (h : readHeaders fuel headers data = some (headers', rest)) : rest.length ≤ data.length := by
  induction fuel generalizing headers data with
  | zero => cases h
  | succ fuel ih =>
    rw [readHeaders] at h
    split_ifs at h
    split at h
    · cases h
      exact le_refl _
    · exact (ih h).trans (length_getLine data)

theorem length_of_cutEnd {headers : List (List UInt8 × List UInt8)} {body endTrailer : List UInt8}
    (h : cutEnd headers data = some (body, endTrailer)) : endTrailer.length ≤ data.length := by
  unfold cutEnd at h
  split_ifs at h
  · cases h
    rw [List.length_drop]
    exact Nat.sub_le _ _
  · exact Nat.le_of_add_right_le (length_of_cutAt h)

theorem length_attempt (data : List UInt8) : (attempt data).rest.length ≤ data.length := by
  have hline := length_getLine data
  unfold attempt
  simp only
  split_ifs
  · exact hline
  split
  · exact Nat.zero_le _
  rename_i headers rest hheaders
  have hrest := (length_of_readHeaders hheaders).trans hline
  split
  · exact hrest
  rename_i body endTrailer hend
  split_ifs
  · exact hrest
  · exact hrest
  · split
    · exact hrest
    · exact ((length_getLine endTrailer).trans (length_of_cutEnd hend)).trans hrest

theorem length_of_afterStart (h : afterStart data = some rest) : rest.length < data.length := by
  unfold afterStart at h
  split_ifs at h with hstart
  · cases h
    have hle := (List.isPrefixOf_iff_prefix.mp hstart).length_le
    have hlength : (pemStart.drop 1).length = 11 := rfl
    have hlength' : pemStart.length = 12 := rfl
    rw [List.length_drop]
    omega
  · obtain ⟨⟨before, after⟩, hcut, rfl⟩ := Option.map_eq_some_iff.mp h
    have hle := length_of_cutAt hcut
    have hlength : pemStart.length = 12 := rfl
    simp only
    omega

theorem length_of_decodeFrom {fuel : Nat} {block : Block}
    (h : decodeFrom fuel data = some (block, rest)) : rest.length < data.length := by
  induction fuel generalizing data with
  | zero => cases h
  | succ fuel ih =>
    rw [decodeFrom] at h
    split at h
    · cases h
    rename_i start hstart
    have hlt := length_of_afterStart hstart
    have hle := length_attempt start
    split at h
    · rename_i block' rest' hattempt
      cases h
      rw [hattempt] at hle
      exact lt_of_le_of_lt hle hlt
    · rename_i rest' hattempt
      rw [hattempt] at hle
      exact (ih h).trans (lt_of_le_of_lt hle hlt)
    · cases h

end

def standard : Decoder where
  decode data := decodeFrom (data.length + 1) data
  length_rest := length_of_decodeFrom

end Pem
