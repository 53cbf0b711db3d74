import PowerManage.Lib.Sections

/-!
# What is kept of a command's output

The runner reads a command's output line by line and keeps the lines up to `MaxOutputBytes`.  The
lines after that are counted and dropped, and the text that is kept gets a note at its end: a caller
sees it in `Stdout` only, since there is neither an error nor another mark in the `Result`.
-/

namespace PowerManage.Exec

open Sections List

def maxOutputBytes : Nat := 1048576

/-- What has come on a stream: the text that is kept, and the number of bytes. -/
structure Stream (α : Type) where
  buf : List α
  bytes : Nat

section

variable {α : Type} (size : List α → Nat) (nl : α)

def recordLine (s : Stream α) (line : List α) : Stream α :=
  let bytes := s.bytes + (size line + 1)
  ⟨if bytes ≤ maxOutputBytes then s.buf ++ (line ++ [nl]) else s.buf, bytes⟩

def captured (note : List α) (ls : List (List α)) : List α :=
  let s := ls.foldl (recordLine size nl) ⟨[], 0⟩
  if s.bytes > maxOutputBytes then s.buf ++ note else s.buf

def total (ls : List (List α)) : Nat := (ls.map fun l => size l + 1).sum

/-- The lines that are kept, when `b` bytes have come before. -/
def kept (b : Nat) : List (List α) → List (List α)
  | [] => []
  | l :: ls =>
    if b + (size l + 1) ≤ maxOutputBytes then l :: kept (b + (size l + 1)) ls else []

variable {size nl} {b : Nat} {ls : List (List α)} {note : List α}

@[simp] theorem total_nil : total size [] = 0 := rfl

@[simp] theorem total_cons (l : List α) (ls : List (List α)) :
    total size (l :: ls) = size l + 1 + total size ls := rfl

theorem total_append (ls ls' : List (List α)) :
    total size (ls ++ ls') = total size ls + total size ls' := by
  rw [total, map_append, sum_append]
  rfl

theorem length_le_total (size : List α → Nat) (ls : List (List α)) : ls.length ≤ total size ls := by
  induction ls with
  | nil => exact le_refl 0
  | cons l ls ih =>
    rw [total_cons, length_cons]
    omega

theorem kept_of_gt (h : b > maxOutputBytes) (ls : List (List α)) : kept size b ls = [] := by
  cases ls with
  | nil => rfl
  | cons l ls => rw [kept, if_neg (by omega)]

theorem kept_of_le (h : b + total size ls ≤ maxOutputBytes) : kept size b ls = ls := by
  induction ls generalizing b with
  | nil => rfl
  | cons l ls ih =>
    rw [total_cons] at h
    rw [kept, if_pos (by omega), ih (by omega)]

-- once the cap is passed the counter stays over it, so that nothing is kept any more
theorem foldl_recordLine (s : Stream α) :
    ls.foldl (recordLine size nl) s =
      ⟨s.buf ++ (kept size s.bytes ls).flatMap (· ++ [nl]), s.bytes + total size ls⟩ := by
  induction ls generalizing s with
  | nil => simp [kept]
  | cons l ls ih =>
    rw [foldl_cons, ih, recordLine, kept]
    split_ifs with hle
    · simp [add_assoc]
    · simp [kept_of_gt (not_le.mp hle), add_assoc]

theorem captured_eq :
    captured size nl note ls = (kept size 0 ls).flatMap (· ++ [nl]) ++
      if total size ls > maxOutputBytes then note else [] := by
  rw [captured, foldl_recordLine]
  rw [zero_add, nil_append]
  split_ifs
  · rfl
  · rw [append_nil]

theorem captured_of_le (h : total size ls ≤ maxOutputBytes) :
    captured size nl note ls = ls.flatMap (· ++ [nl]) := by
  rw [captured_eq, kept_of_le (by omega), if_neg (by omega), append_nil]

/-! ### The lines that are kept are the longest prefix within the cap -/

theorem kept_prefix (b : Nat) (ls : List (List α)) : kept size b ls <+: ls := by
  induction ls generalizing b with
  | nil => exact prefix_rfl
  | cons l ls ih =>
    rw [kept]
    split_ifs
    · exact cons_prefix_cons.mpr ⟨rfl, ih _⟩
    · exact nil_prefix

theorem total_kept_le (h : b ≤ maxOutputBytes) (ls : List (List α)) :
    b + total size (kept size b ls) ≤ maxOutputBytes := by
  induction ls generalizing b with
  | nil => exact h
  | cons l ls ih =>
    rw [kept]
    split_ifs with hle
    · have hrest := ih hle
      rw [total_cons]
      omega
    · exact h

theorem prefix_kept {pre : List (List α)} (hpre : pre <+: ls)
    (h : b + total size pre ≤ maxOutputBytes) : pre <+: kept size b ls := by
  induction ls generalizing b pre with
  | nil => exact hpre
  | cons l ls ih =>
    cases pre with
    | nil => exact nil_prefix
    | cons l' pre =>
      obtain ⟨rfl, hrest⟩ := cons_prefix_cons.mp hpre
      rw [total_cons] at h
      rw [kept, if_pos (by omega)]
      exact cons_prefix_cons.mpr ⟨rfl, ih hrest (by omega)⟩

end

def truncated : Str := "[output truncated]"

/-- `Result.Stdout` of a command that prints this text. -/
def stdout (out : Str) : Str :=
  captured byteCount '\n' ('\n' :: truncated) (fileLines out)

variable {ls : List Line}

theorem stdout_unlines (h : ∀ l ∈ ls, '\n' ∉ l) :
    stdout (unlines ls) = unlines (kept byteCount 0 ls) ++
      if total byteCount ls > maxOutputBytes then '\n' :: truncated else [] := by
  rw [stdout, fileLines_unlines h, captured_eq]
  rfl

/-- A command that prints one line: that line, or the note alone. -/
theorem stdout_line {l : Line} (h : '\n' ∉ l) :
    stdout (l ++ ['\n']) =
      if byteCount l + 1 ≤ maxOutputBytes then l ++ ['\n'] else '\n' :: truncated := by
  have hline : l ++ ['\n'] = unlines [l] := by rw [unlines_cons, unlines_nil]
  rw [hline, stdout_unlines (forall_mem_singleton.mpr h), kept, zero_add, total_cons, total_nil,
    add_zero]
  split_ifs with hle hgt hgt
  · omega
  · rw [kept, append_nil]
  · rfl
  · omega

theorem kept_sublist (b : Nat) (ls : List Line) : (kept byteCount b ls).Sublist ls := by
  induction ls generalizing b with
  | nil => exact Sublist.slnil
  | cons l ls ih =>
    rw [kept]
    split_ifs
    · exact (ih _).cons_cons l
    · exact nil_sublist _

theorem fileLines_stdout (h : ∀ l ∈ ls, '\n' ∉ l) :
    fileLines (stdout (unlines ls)) = kept byteCount 0 ls ++
      if total byteCount ls > maxOutputBytes then [[], truncated] else [] := by
  have hkept : ∀ l ∈ kept byteCount 0 ls, '\n' ∉ l :=
    fun l hl => h l ((kept_sublist 0 ls).subset hl)
  rw [stdout_unlines h]
  split_ifs
  · have hlines : lines (unlines (kept byteCount 0 ls) ++ '\n' :: truncated) =
        kept byteCount 0 ls ++ [[], truncated] := by
      rw [lines_append, lines_unlines hkept, append_assoc]
      rfl
    have hlast : (kept byteCount 0 ls ++ [[], truncated]).getLast? ≠ some [] := by
      rw [getLast?_append_cons]
      decide
    rw [fileLines, hlines, if_neg hlast]
  · rw [append_nil, append_nil, fileLines_unlines hkept]

/-! ## Output that is bytes -/

/-- The line source: the lines of an output, the last of which may lack its end. -/
def byteLines (out : List UInt8) : List (List UInt8) :=
  let ls := out.splitOn 10
  if ls.getLast? = some [] then ls.dropLast else ls

/-- `Result.Stdout` of a command that prints these bytes. -/
def stdoutBytes (out : List UInt8) : List UInt8 :=
  captured List.length 10 (10 :: Text.ascii truncated) (byteLines out)

/-- The output ends with a line end, if there is any. -/
def Terminated (out : List UInt8) : Prop := out = [] ∨ out.getLast? = some 10

theorem flatMap_concat_eq {α : Type} (nl : α) {ls : List (List α)} (hne : ls ≠ []) :
    ls.flatMap (· ++ [nl]) = [nl].intercalate ls ++ [nl] := by
  induction ls with
  | nil => exact absurd rfl hne
  | cons l ls ih =>
    cases ls with
    | nil => simp
    | cons m ls =>
      rw [flatMap_cons, ih (cons_ne_nil _ _)]
      simp

theorem flatMap_byteLines {out : List UInt8} (h : Terminated out) :
    (byteLines out).flatMap (· ++ [10]) = out := by
  rcases h with rfl | hlast
  · rfl
  obtain ⟨u, rfl⟩ := getLast?_eq_some_iff.mp hlast
  have hsplit : (u ++ [10]).splitOn 10 = u.splitOn 10 ++ [[]] :=
    splitOnP_append_cons u [] (by decide)
  have hlines : byteLines (u ++ [10]) = u.splitOn 10 := by
    rw [byteLines, hsplit, getLast?_concat, if_pos rfl, dropLast_concat]
  rw [hlines, flatMap_concat_eq 10 (splitOn_ne_nil 10 u), intercalate_splitOn]

theorem total_length (ls : List (List UInt8)) :
    total length ls = (ls.flatMap (· ++ [10])).length := by
  induction ls with
  | nil => rfl
  | cons l ls ih =>
    rw [total_cons, ih, flatMap_cons, length_append, length_append,
      length_singleton]

/-- Output that ends with a line end is captured as it is just if it is within the cap. -/
theorem stdoutBytes_eq_self_iff {out : List UInt8} (h : Terminated out) :
    stdoutBytes out = out ↔ out.length ≤ maxOutputBytes := by
  have hlines := flatMap_byteLines h
  have htotal : total length (byteLines out) = out.length := by rw [total_length, hlines]
  constructor
  · intro heq
    by_contra hgt
    rw [stdoutBytes, captured_eq, htotal, if_pos (not_le.mp hgt)] at heq
    -- the note ends with a bracket
    have hlast : out.getLast? = some 93 := by
      rw [← heq, getLast?_append_cons]
      decide
    rcases h with rfl | h
    · cases hlast
    · rw [hlast] at h
      cases h
  · intro hle
    rw [stdoutBytes, captured_of_le (by rw [htotal]; exact hle), hlines]

/-! ## `CappedBuffer`

Its methods hold the mutex throughout, so that writers of any number give a sequence of writes. -/

/-- The buffer behind a captured stream. -/
structure CappedBuffer where
  buf : List UInt8
  cap : Int
  truncated : Bool

namespace CappedBuffer

def new (cap : Int) : CappedBuffer := ⟨[], if cap < 0 then 0 else cap, false⟩

/-- The buffer, and the number of bytes that are reported as written. -/
def write (b : CappedBuffer) (p : List UInt8) : CappedBuffer × Nat :=
  let remaining := b.cap - b.buf.length
  if remaining ≤ 0 then
    ({ b with truncated := b.truncated || decide (p.length > 0) }, p.length)
  else if p.length > remaining then
    ({ b with buf := b.buf ++ p.take remaining.toNat, truncated := true }, p.length)
  else ({ b with buf := b.buf ++ p }, p.length)

def writes (b : CappedBuffer) : List (List UInt8) → CappedBuffer × List Nat
  | [] => (b, [])
  | p :: ps => (((b.write p).1.writes ps).1, (b.write p).2 :: ((b.write p).1.writes ps).2)

def bytes (b : CappedBuffer) : List UInt8 :=
  if b.truncated then b.buf ++ 10 :: Text.ascii Exec.truncated else b.buf

/-- The buffer after `all` has been written to it, in whatever pieces. -/
def holding (cap : Nat) (all : List UInt8) : CappedBuffer :=
  ⟨all.take cap, cap, decide (cap < all.length)⟩

theorem write_holding (cap : Nat) (all p : List UInt8) :
    (holding cap all).write p = (holding cap (all ++ p), p.length) := by
  unfold write holding
  rw [length_append]
  dsimp only
  rcases lt_or_ge all.length cap with hroom | hfull
  · rw [take_append, take_of_length_le hroom.le, if_neg (by omega)]
    split_ifs with hmore
    · rw [decide_eq_true (by omega : cap < all.length + p.length),
        show ((cap : Int) - all.length).toNat = cap - all.length by omega]
    · rw [take_of_length_le (by omega : p.length ≤ _), decide_eq_false (by omega : ¬cap < all.length),
        decide_eq_false (by omega : ¬cap < all.length + p.length)]
  · rw [take_append_of_le_length hfull, length_take, min_eq_left hfull, if_pos (by omega),
      ← Bool.decide_or, decide_eq_decide.mpr (by omega : _ ↔ cap < all.length + p.length)]

theorem writes_holding (cap : Nat) (all : List UInt8) (ps : List (List UInt8)) :
    (holding cap all).writes ps = (holding cap (all ++ ps.flatten), ps.map length) := by
  induction ps generalizing all with
  | nil => simp [writes]
  | cons p ps ih => simp [writes, write_holding, ih]

/-- **However the output comes in pieces, no write is short, and what is read is all of it, or just
as much as the cap allows and the marker.** -/
theorem bytes_writes (cap : Int) (ps : List (List UInt8)) :
    ((new cap).writes ps).2 = ps.map length ∧
      ((new cap).writes ps).1.bytes = if ps.flatten.length ≤ cap.toNat then ps.flatten
        else ps.flatten.take cap.toNat ++ 10 :: Text.ascii Exec.truncated := by
  have hnew : new cap = holding cap.toNat [] := by
    rw [new, holding, take_nil]
    congr 1
    split_ifs <;> omega
  rw [hnew, writes_holding, nil_append, bytes, holding]
  refine ⟨rfl, ?_⟩
  by_cases hle : ps.flatten.length ≤ cap.toNat
  · rw [decide_eq_false (not_lt.mpr hle), if_neg Bool.false_ne_true, if_pos hle, take_of_length_le hle]
  · rw [decide_eq_true (not_le.mp hle), if_pos rfl, if_neg hle]

end CappedBuffer

end PowerManage.Exec
