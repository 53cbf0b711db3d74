import PowerManage.Lib.Radix

/-!
# Timestamps

A time is what a clock shows and the offset of its zone from UTC, in seconds.  `text` writes it as
RFC 3339 has it.  The zone is written in minutes, so that an offset with seconds is cut off: **the
clock is read back as it was, but the instant only if the offset is in whole minutes**.
-/

namespace Timestamp

open List Radix

/-- A date and a time of day. -/
structure Clock where
  year : Int
  month : Nat
  day : Nat
  hour : Nat
  minute : Nat
  second : Nat
  nanos : Nat
deriving DecidableEq

def isLeap (y : Int) : Bool := y % 4 = 0 && (y % 100 ≠ 0 || y % 400 = 0)

def daysIn (y : Int) (m : Nat) : Nat :=
  if m = 2 then if isLeap y then 29 else 28 else if m ∈ [4, 6, 9, 11] then 30 else 31

/-- The date and the time exist. -/
def Clock.Valid (c : Clock) : Prop :=
  (1 ≤ c.month ∧ c.month ≤ 12) ∧ (1 ≤ c.day ∧ c.day ≤ daysIn c.year c.month) ∧ c.hour ≤ 23 ∧
    c.minute ≤ 59 ∧ c.second ≤ 59 ∧ c.nanos < 10 ^ 9

instance (c : Clock) : Decidable c.Valid := inferInstanceAs (Decidable (_ ∧ _))

/-- A time in its zone. -/
structure Time where
  clock : Clock
  valid : clock.Valid
  offset : Int

def Clock.days (c : Clock) : Int :=
  let y := c.year - 1
  365 * y + y / 4 - y / 100 + y / 400 +
    (((range' 1 (c.month - 1)).map (daysIn c.year)).sum : Nat) + c.day - 1

def Time.instant (t : Time) : Int × Nat :=
  (t.clock.days * 86400 + t.clock.hour * 3600 + t.clock.minute * 60 + t.clock.second - t.offset,
    t.clock.nanos)

def pad (k n : Nat) : Str := (digits 10 k n).map Nat.digitChar

def fractionText (nanos : Nat) : Str :=
  let ds := (digits 10 9 nanos).rdropWhile (· = 0)
  if ds = [] then [] else '.' :: ds.map Nat.digitChar

def zoneText (offset : Int) : Str :=
  if offset = 0 then ['Z']
  else
    let zone := offset.tdiv 60
    (if zone < 0 then '-' else '+') :: (pad 2 (zone.natAbs / 60) ++ ':' :: pad 2 (zone.natAbs % 60))

/-- There is none for years of other than four digits, and for zones of a day or more. -/
def text (t : Time) : Option Str :=
  let c := t.clock
  if c.year < 0 ∨ 9999 < c.year ∨ 24 ≤ (t.offset.tdiv 60).natAbs / 60 then none
  else some (pad 4 c.year.toNat ++ '-' :: (pad 2 c.month ++ '-' :: (pad 2 c.day ++ 'T' ::
    (pad 2 c.hour ++ ':' :: (pad 2 c.minute ++ ':' :: (pad 2 c.second ++
      (fractionText c.nanos ++ zoneText t.offset)))))))

def digitValue (c : Char) : Option Nat := if c.isDigit then some (c.toNat - 48) else none

/-- A number of `k` digits within bounds, and what comes after it. -/
def number (k lo hi : Nat) (s : Str) : Option (Nat × Str) := do
  let ds ← (s.take k).mapM digitValue
  if ds.length = k ∧ lo ≤ value 10 ds ∧ value 10 ds ≤ hi then some (value 10 ds, s.drop k) else none

def expect (c : Char) : Str → Option Str
  | [] => none
  | d :: s => if d = c then some s else none

def fraction : Str → Nat × Str
  | '.' :: s =>
    let ds := (s.takeWhile Char.isDigit).map (·.toNat - 48)
    if ds = [] then (0, '.' :: s)
    else (value 10 ((ds ++ replicate 9 0).take 9), s.dropWhile Char.isDigit)
  | s => (0, s)

def zone : Str → Option Int
  | [] => none
  | c :: s =>
    if c = 'Z' ∧ s = [] then some 0
    else do
      let (hours, s) ← number 2 0 24 s
      let s ← expect ':' s
      let (minutes, s) ← number 2 0 60 s
      let seconds : Int := (hours * 60 + minutes) * 60
      if s ≠ [] then none
      else if c = '+' then some seconds else if c = '-' then some (-seconds) else none

/-- The part of RFC 3339 before the zone. -/
def readClock (s : Str) : Option (Clock × Str) := do
  let (year, s) ← number 4 0 9999 s
  let s ← expect '-' s
  let (month, s) ← number 2 1 12 s
  let s ← expect '-' s
  let (day, s) ← number 2 1 (daysIn year month) s
  let s ← expect 'T' s
  let (hour, s) ← number 2 0 23 s
  let s ← expect ':' s
  let (minute, s) ← number 2 0 59 s
  let s ← expect ':' s
  let (second, s) ← number 2 0 59 s
  return (⟨year, month, day, hour, minute, second, (fraction s).1⟩, (fraction s).2)

def parse (s : Str) : Option Time := do
  let (clock, s) ← readClock s
  let offset ← zone s
  if h : clock.Valid then some ⟨clock, h, offset⟩ else none

theorem digit_digitChar : ∀ d < 10, (Nat.digitChar d).isDigit = true ∧
    (Nat.digitChar d).toNat - 48 = d := by decide

theorem mapM_digitValue_pad (k n : Nat) : (pad k n).mapM digitValue = some (digits 10 k n) := by
  refine mapM_map_eq_some fun d hd => ?_
  obtain ⟨hdigit, hvalue⟩ := digit_digitChar d (lt_of_mem_digits (by decide) hd)
  rw [digitValue, if_pos hdigit, hvalue]

theorem number_pad {k lo hi n : Nat} (hlo : lo ≤ n) (hhi : n ≤ hi) (hk : n < 10 ^ k) (s : Str) :
    number k lo hi (pad k n ++ s) = some (n, s) := by
  have hlen : (pad k n).length = k := by rw [pad, length_map, length_digits]
  have hvalue : value 10 (digits 10 k n) = n := by rw [value_digits, Nat.mod_eq_of_lt hk]
  rw [number, take_left' hlen, drop_left' hlen, mapM_digitValue_pad]
  simp [hvalue, hlo, hhi]

theorem expect_cons (c : Char) (s : Str) : expect c (c :: s) = some s := if_pos rfl

/-- The zeros that are not written are those that are added. -/
theorem take_rdropWhile {ds : List Nat} {k : Nat} (h : ds.length = k) :
    (ds.rdropWhile (· = 0) ++ replicate k 0).take k = ds := by
  have hzeros : ds.rtakeWhile (· = 0) = replicate (ds.rtakeWhile (· = 0)).length 0 :=
    eq_replicate_of_mem fun d hd => by simpa using mem_rtakeWhile_imp hd
  have hcut : ds.rdropWhile (· = 0) ++ ds.rtakeWhile (· = 0) = ds := rdropWhile_append_rtakeWhile
  have hlen : (ds.rdropWhile (· = 0)).length + (ds.rtakeWhile (· = 0)).length = k := by
    rw [← length_append, hcut, h]
  rw [take_append, take_of_length_le (by omega), take_replicate]
  conv_rhs => rw [← hcut, hzeros]
  congr 2
  omega

theorem fraction_digits {ds : List Nat} (hds : ds ≠ []) (hlt : ∀ d ∈ ds, d < 10) {c : Char}
    (hc : c.isDigit = false) (s : Str) : fraction ('.' :: (ds.map Nat.digitChar ++ c :: s)) =
      (value 10 ((ds ++ replicate 9 0).take 9), c :: s) := by
  have hdigits : ∀ e ∈ ds.map Nat.digitChar, e.isDigit = true := by
    intro e he
    obtain ⟨d, hd, rfl⟩ := mem_map.mp he
    exact (digit_digitChar d (hlt d hd)).1
  have hback : (ds.map Nat.digitChar).map (·.toNat - 48) = ds := by
    rw [map_map]
    exact (map_congr_left fun d hd => (digit_digitChar d (hlt d hd)).2).trans (map_id _)
  rw [fraction, takeWhile_append_of_pos hdigits, dropWhile_append_of_pos hdigits,
    takeWhile_cons_of_neg (by simp [hc]), dropWhile_cons_of_neg (by simp [hc]), append_nil, hback]
  exact if_neg hds

theorem fraction_text {n : Nat} (hn : n < 10 ^ 9) {c : Char} (hdot : c ≠ '.')
    (hc : c.isDigit = false) (s : Str) : fraction (fractionText n ++ c :: s) = (n, c :: s) := by
  have hvalue : value 10 (digits 10 9 n) = n := by rw [value_digits, Nat.mod_eq_of_lt hn]
  rw [← take_rdropWhile (length_digits 10 9 n)] at hvalue
  unfold fractionText
  by_cases hds : (digits 10 9 n).rdropWhile (· = 0) = []
  · rw [hds] at hvalue
    rw [if_pos hds, nil_append, fraction, ← hvalue]
    · rfl
    · exact fun _ h => hdot (cons.inj h).1
  · have hlt : ∀ d ∈ (digits 10 9 n).rdropWhile (· = 0), d < 10 := fun d hd =>
      lt_of_mem_digits (by decide) (( rdropWhile_prefix _ _).subset hd)
    rw [if_neg hds, cons_append, fraction_digits hds hlt hc, hvalue]

theorem zone_cons {n : Nat} (h : n / 60 < 24) (c : Char) :
    zone (c :: (pad 2 (n / 60) ++ ':' :: pad 2 (n % 60))) =
      if c = '+' then some (n * 60 : Int) else if c = '-' then some (-(n * 60 : Int)) else none := by
  have hminutes := number_pad (k := 2) (Nat.zero_le (n % 60)) (show _ ≤ 60 by omega) (by omega) []
  rw [append_nil] at hminutes
  have hsum : ((n / 60 : Nat) * 60 + (n % 60 : Nat)) = (n : Int) := by omega
  rw [zone, if_neg (by simp [pad, digits]), number_pad (by omega) (by omega) (by omega)]
  simp only [Option.bind_eq_bind, Option.bind_some, expect_cons, hminutes, ne_eq, not_true_eq_false,
    if_false, hsum]

theorem zone_text {offset : Int} (h : ¬24 ≤ (offset.tdiv 60).natAbs / 60) :
    zone (zoneText offset) = some (offset.tdiv 60 * 60) := by
  unfold zoneText
  split_ifs with hzero
  · subst hzero
    rfl
  rw [zone_cons (not_le.mp h)]
  by_cases hneg : offset.tdiv 60 < 0
  · rw [if_pos hneg, if_neg (by decide), if_pos rfl, Int.ofNat_natAbs_of_nonpos hneg.le, neg_mul,
      neg_neg]
  · rw [if_neg hneg, if_pos rfl, Int.natAbs_of_nonneg (not_lt.mp hneg)]

theorem parse_text {t : Time} {s : Str} (h : text t = some s) :
    ∃ u, parse s = some u ∧ u.clock = t.clock ∧ u.offset = t.offset.tdiv 60 * 60 := by
  obtain ⟨⟨year, month, day, hour, minute, second, nanos⟩, hvalid, offset⟩ := t
  obtain ⟨⟨hm, hm'⟩, ⟨hd, hd'⟩, hh, hmin, hs, hn⟩ := id hvalid
  unfold text at h
  dsimp only at hm hm' hd hd' hh hmin hs hn h
  split_ifs at h with hrange
  cases h
  have hzone : zone (zoneText offset) = some (offset.tdiv 60 * 60) := zone_text (by omega)
  obtain ⟨c, z, hz, hdot, hdigit⟩ : ∃ c z, zoneText offset = c :: z ∧ c ≠ '.' ∧
      c.isDigit = false := by
    unfold zoneText
    split_ifs
    · exact ⟨_, _, rfl, by decide, by decide⟩
    · refine ⟨_, _, rfl, ?_⟩
      split_ifs <;> decide
  have hyear : ((year.toNat : Nat) : Int) = year := by omega
  have hdays : daysIn year month ≤ 31 := by
    unfold daysIn
    split_ifs <;> decide
  have hclock : readClock (pad 4 year.toNat ++ '-' :: (pad 2 month ++ '-' :: (pad 2 day ++ 'T' ::
      (pad 2 hour ++ ':' :: (pad 2 minute ++ ':' :: (pad 2 second ++
      (fractionText nanos ++ zoneText offset))))))) =
      some (⟨year, month, day, hour, minute, second, nanos⟩, zoneText offset) := by
    rw [readClock, number_pad (by omega) (by omega) (by omega)]
    simp only [Option.bind_eq_bind, Option.bind_some, expect_cons, hyear]
    rw [number_pad hm hm' (by omega)]
    simp only [Option.bind_some, expect_cons]
    rw [number_pad hd hd' (by omega)]
    simp only [Option.bind_some, expect_cons]
    rw [number_pad (by omega) hh (by omega)]
    simp only [Option.bind_some, expect_cons]
    rw [number_pad (by omega) hmin (by omega)]
    simp only [Option.bind_some, expect_cons]
    rw [number_pad (by omega) hs (by omega), hz]
    simp only [Option.bind_some, fraction_text hn hdot hdigit]
    rfl
  refine ⟨⟨_, hvalid, offset.tdiv 60 * 60⟩, ?_, rfl, rfl⟩
  simp only [parse, hclock, Option.bind_eq_bind, Option.bind_some, hzone, dif_pos hvalid]

end Timestamp
