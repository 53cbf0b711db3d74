import PowerManage.Lib.Text

/-!
# Maintenance windows

`maintenance/window.go`: when a device may be worked on.  A window is a list of entries, each some
weekdays and a range of clock times; a range whose start is after its end goes on past midnight.

The evaluator works on the day of the instant and on the day before it.  What it decides is said
here on the circle of the 10080 minutes of a week: an entry opens, on each of its days, the minutes
from the start of its range for as long as the range is (`Entry.Opens`), and `isAllowed_union` is
the equivalence, for every list of valid windows and every instant.

Texts are lists of characters where the source has bytes; a text in which the two differ is refused
by the clock parser either way.
-/

namespace PowerManage.Maintenance

open Text List

def weekdayTokens : Fin 7 → Str :=
  ![['s', 'u', 'n'], ['m', 'o', 'n'], ['t', 'u', 'e'], ['w', 'e', 'd'], ['t', 'h', 'u'],
    ['f', 'r', 'i'], ['s', 'a', 't']]

/-- Days, and the range in which they are open. -/
structure Entry where
  days : List Str
  allow : Str
  deriving DecidableEq

/-- A window; an entry that is a nil pointer is `none`. -/
structure Window where
  schedule : List (Option Entry)
  deriving DecidableEq

/-- What `time.Time` says of an instant in its own location. -/
structure Instant where
  weekday : Fin 7
  hour : Fin 24
  minute : Fin 60
  deriving DecidableEq

/-- What is wrong with a time of day. -/
inductive ClockError where
  | shape (s : Str)
  | hourDigits (s : Str)
  | minuteDigits (s : Str)
  | hourRange (s : Str)
  | minuteRange (s : Str)
  deriving DecidableEq

/-- What is wrong with an entry. -/
inductive EntryError where
  | nilEntry
  | noDays
  | badDay (d : Str)
  | listedTwice (d : Str)
  | allowShape (s : Str)
  | allowStart (err : ClockError)
  | allowEnd (err : ClockError)
  | zeroLength (s : Str)
  deriving DecidableEq

def ClockError.message : ClockError → Str
  | shape s => "clock " ++ quote s ++ " must be HH:MM"
  | hourDigits s => "hour " ++ quote s ++ " must be two digits"
  | minuteDigits s => "minute " ++ quote s ++ " must be two digits"
  | hourRange s => "hour " ++ quote s ++ " out of range 00-23"
  | minuteRange s => "minute " ++ quote s ++ " out of range 00-59"

def EntryError.message : EntryError → Str
  | nilEntry => "nil entry"
  | noDays => "days must list at least one weekday"
  | badDay d => "day " ++ quote d ++ " must be one of mon|tue|wed|thu|fri|sat|sun"
  | listedTwice d => "day " ++ quote d ++ " listed twice"
  | allowShape s => "allow " ++ quote s ++ " must be HH:MM-HH:MM"
  | allowStart err => "allow start: " ++ err.message
  | allowEnd err => "allow end: " ++ err.message
  | zeroLength s => "allow " ++ quote s ++ " is a zero-length range"

/-! ## The source -/

def isWeekdayToken (d : Str) : Bool :=
  decide (d.length = 3) && (List.finRange 7).any fun day => d = weekdayTokens day

def isTwoDigits (s : Str) : Bool :=
  match s with
  | [a, b] => a.isDigit && b.isDigit
  | _ => false

def parseClock (s : Str) : Except ClockError Int :=
  if s.length ≠ 5 ∨ s[2]? ≠ some ':' then .error (.shape s)
  else if isTwoDigits (s.take 2) = false then .error (.hourDigits (s.take 2))
  else if isTwoDigits (s.drop 3) = false then .error (.minuteDigits (s.drop 3))
  else
    match atoi (s.take 2) with
    | none => .error (.hourRange (s.take 2))
    | some h =>
      if h < 0 ∨ h > 23 then .error (.hourRange (s.take 2))
      else
        match atoi (s.drop 3) with
        | none => .error (.minuteRange (s.drop 3))
        | some m => if m < 0 ∨ m > 59 then .error (.minuteRange (s.drop 3)) else .ok (h * 60 + m)

/-- Counted in characters: a text outside of ASCII is refused in bytes as well, if perhaps with
another error. -/
def parseRange (s : Str) : Except EntryError (Int × Int) :=
  if s.length ≠ 11 ∨ s[5]? ≠ some '-' then .error (.allowShape s)
  else
    match parseClock (s.take 5) with
    | .error err => .error (.allowStart err)
    | .ok start =>
      match parseClock (s.drop 6) with
      | .error err => .error (.allowEnd err)
      | .ok stop => if start = stop then .error (.zeroLength s) else .ok (start, stop)

def checkDays (seen : List Str) : List Str → Option EntryError
  | [] => none
  | d :: ds =>
    if isWeekdayToken d = false then some (.badDay d)
    else if d ∈ seen then some (.listedTwice d)
    else checkDays (d :: seen) ds

/-- `none` is the nil error. -/
def validateEntry (e : Option Entry) : Option EntryError :=
  match e with
  | none => some .nilEntry
  | some e =>
    if e.days = [] then some .noDays
    else
      match checkDays [] e.days with
      | some err => some err
      | none =>
        match parseRange e.allow with
        | .error err => some err
        | .ok _ => none

/-- The index of the first bad entry, from `i` on, and what is wrong with it. -/
def validateFrom (i : Nat) : List (Option Entry) → Option (Nat × EntryError)
  | [] => none
  | e :: es =>
    match validateEntry e with
    | some err => some (i, err)
    | none => validateFrom (i + 1) es

def validate (w : Option Window) : Option (Nat × EntryError) :=
  match w with
  | none => none
  | some w => validateFrom 0 w.schedule

def validateMessage (err : Nat × EntryError) : Str :=
  "invalid maintenance window entry: entry " ++ decimal err.1 ++ ": " ++ err.2.message

def entryListsDay (e : Entry) (day : Str) : Bool := e.days.any (· = day)

/-- A range over midnight is looked up under the day before, too. -/
def entryAllows (e : Option Entry) (t : Instant) : Bool :=
  match e with
  | none => false
  | some e =>
    match parseRange e.allow with
    | .error _ => false
    | .ok (startMin, endMin) =>
      let tMin : Int := t.hour.val * 60 + t.minute.val
      let sameDay : Bool :=
        if startMin ≤ endMin then decide (startMin ≤ tMin) && decide (tMin < endMin)
        else decide (startMin ≤ tMin)
      if entryListsDay e (weekdayTokens t.weekday) && sameDay then true
      else decide (startMin > endMin) &&
        (entryListsDay e (weekdayTokens (t.weekday + 6)) && decide (tMin < endMin))

def isAllowed (w : Option Window) (t : Instant) : Bool :=
  match w with
  | none => true
  | some w => if w.schedule = [] then true else w.schedule.any fun e => entryAllows e t

def isOpen (w : Option Window) : Bool :=
  match w with
  | none => true
  | some w => decide (w.schedule = [])

def union (ws : List (Option Window)) : Option Window :=
  if ws.any isOpen then some ⟨[]⟩
  else some ⟨ws.flatMap fun w => (w.map Window.schedule).getD []⟩

/-! ## Clock texts -/

def twoDigits (n : Nat) : Str := [Nat.digitChar (n / 10), Nat.digitChar (n % 10)]

def clockText (n : Nat) : Str := twoDigits (n / 60) ++ ':' :: twoDigits (n % 60)

def rangeText (start stop : Nat) : Str := clockText start ++ '-' :: clockText stop

theorem isTwoDigits_twoDigits : ∀ n < 100, isTwoDigits (twoDigits n) = true := by decide

theorem atoi_twoDigits : ∀ n < 100, atoi (twoDigits n) = some (n : Int) := by decide +kernel

theorem exists_digitChar {c : Char} (h : c.isDigit = true) : ∃ n < 10, c = Nat.digitChar n := by
  rw [Char.isDigit_iff_toNat] at h
  have hzero : '0'.toNat = 48 := rfl
  have hnine : '9'.toNat = 57 := rfl
  refine ⟨c.toNat - 48, by omega, ?_⟩
  have hdigit : ∀ n < 10, (Nat.digitChar n).toNat = n + 48 := by decide
  apply Char.toNat_inj.mp
  rw [hdigit _ (by omega)]
  omega

variable {s : Str}

theorem exists_twoDigits (h : isTwoDigits s = true) : ∃ n < 100, s = twoDigits n := by
  unfold isTwoDigits at h
  split at h
  · obtain ⟨ha, hb⟩ := Bool.and_eq_true_iff.mp h
    obtain ⟨x, hx, rfl⟩ := exists_digitChar ha
    obtain ⟨y, hy, rfl⟩ := exists_digitChar hb
    refine ⟨x * 10 + y, by omega, ?_⟩
    rw [twoDigits, show (x * 10 + y) / 10 = x by omega, show (x * 10 + y) % 10 = y by omega]
  · cases h

theorem eq_append_of_getElem? {k : Nat} {c : Char} (h : s[k]? = some c) :
    s = s.take k ++ c :: s.drop (k + 1) := by
  obtain ⟨hk, rfl⟩ := List.getElem?_eq_some_iff.mp h
  rw [getElem_cons_drop, take_append_drop]

theorem parseClock_clockText {n : Nat} (h : n < 1440) : parseClock (clockText n) = .ok n := by
  have hhour : n / 60 < 100 := by omega
  have hminute : n % 60 < 100 := by omega
  have htake : (clockText n).take 2 = twoDigits (n / 60) := rfl
  have hdrop : (clockText n).drop 3 = twoDigits (n % 60) := rfl
  have hshape : ¬ ((clockText n).length ≠ 5 ∨ (clockText n)[2]? ≠ some ':') := by
    rintro (h | h)
    · exact h rfl
    · exact h rfl
  rw [parseClock, if_neg hshape, htake, hdrop, isTwoDigits_twoDigits _ hhour,
    isTwoDigits_twoDigits _ hminute, atoi_twoDigits _ hhour, atoi_twoDigits _ hminute,
    if_neg (by decide), if_neg (by decide)]
  dsimp only
  rw [if_neg (by omega), if_neg (by omega)]
  congr 1
  omega

theorem clockText_of_parseClock {m : Int} (h : parseClock s = .ok m) :
    ∃ n : Nat, n < 1440 ∧ m = (n : Int) ∧ s = clockText n := by
  unfold parseClock at h
  split_ifs at h with hshape hhour hminute
  obtain ⟨-, hcolon⟩ := not_or.mp hshape
  obtain ⟨a, ha, htake⟩ := exists_twoDigits (Bool.eq_true_of_not_eq_false hhour)
  obtain ⟨b, hb, hdrop⟩ := exists_twoDigits (Bool.eq_true_of_not_eq_false hminute)
  have hs := eq_append_of_getElem? (not_not.mp hcolon)
  rw [htake, hdrop, atoi_twoDigits a ha, atoi_twoDigits b hb] at h
  dsimp only at h
  split_ifs at h with hhours hminutes
  refine ⟨a * 60 + b, by omega, ?_, ?_⟩
  · rw [← Except.ok.inj h]
    rfl
  · rw [clockText, show (a * 60 + b) / 60 = a by omega, show (a * 60 + b) % 60 = b by omega,
      ← htake, ← hdrop]
    exact hs

/-- A range is two different clock times with a dash between. -/
theorem parseRange_ok_iff {a b : Int} :
    parseRange s = .ok (a, b) ↔ ∃ start stop : Nat, start < 1440 ∧ stop < 1440 ∧
      start ≠ stop ∧ s = rangeText start stop ∧ a = (start : Int) ∧ b = (stop : Int) := by
  constructor
  · intro h
    unfold parseRange at h
    split_ifs at h with hshape
    obtain ⟨-, hdash⟩ := not_or.mp hshape
    have hs := eq_append_of_getElem? (not_not.mp hdash)
    cases hstart : parseClock (s.take 5) with
    | error err => rw [hstart] at h; cases h
    | ok start =>
      cases hstop : parseClock (s.drop 6) with
      | error err => rw [hstart, hstop] at h; cases h
      | ok stop =>
        rw [hstart, hstop] at h
        dsimp only at h
        split_ifs at h with hne
        obtain ⟨rfl, rfl⟩ := Prod.mk.inj (Except.ok.inj h)
        obtain ⟨m, hm, rfl, htake⟩ := clockText_of_parseClock hstart
        obtain ⟨n, hn, rfl, hdrop⟩ := clockText_of_parseClock hstop
        refine ⟨m, n, hm, hn, fun heq => hne (by rw [heq]), ?_, rfl, rfl⟩
        rw [rangeText, ← htake, ← hdrop]
        exact hs
  · rintro ⟨start, stop, hstart, hstop, hne, rfl, rfl, rfl⟩
    have htake : (rangeText start stop).take 5 = clockText start := rfl
    have hdrop : (rangeText start stop).drop 6 = clockText stop := rfl
    have hshape : ¬ ((rangeText start stop).length ≠ 11 ∨ (rangeText start stop)[5]? ≠ some '-') := by
      rintro (h | h)
      · exact h rfl
      · exact h rfl
    rw [parseRange, if_neg hshape, htake, hdrop, parseClock_clockText hstart,
      parseClock_clockText hstop]
    dsimp only
    rw [if_neg (by omega)]

/-! ## The week as a circle -/

def Instant.minuteOfWeek (t : Instant) : Nat :=
  t.weekday.val * 1440 + t.hour.val * 60 + t.minute.val

/-- The instant is in the range from minute `start` of day `D` to the next `stop`, around the end of
the week if need be. -/
def InRange (D : Fin 7) (start stop : Nat) (t : Instant) : Prop :=
  ∃ k < (stop + 1440 - start) % 1440, t.minuteOfWeek = (D.val * 1440 + start + k) % 10080

/-- The entry is open at this time; a range over midnight belongs to its first day. -/
def Entry.Opens (e : Entry) (t : Instant) : Prop :=
  ∃ start < 1440, ∃ stop < 1440, e.allow = rangeText start stop ∧
    ∃ D : Fin 7, weekdayTokens D ∈ e.days ∧ InRange D start stop t

theorem inRange_iff (D : Fin 7) {start stop : Nat} (hstart : start < 1440) (hstop : stop < 1440)
    (t : Instant) :
    InRange D start stop t ↔
      (D = t.weekday ∧ start ≤ t.hour.val * 60 + t.minute.val ∧
        (start ≤ stop → t.hour.val * 60 + t.minute.val < stop)) ∨
      (D = t.weekday + 6 ∧ stop < start ∧ t.hour.val * 60 + t.minute.val < stop) := by
  constructor
  · rintro ⟨k, hk, hminutes⟩
    rw [Instant.minuteOfWeek] at hminutes
    by_cases hcross : start ≤ stop
    · omega
    by_cases hsame : D.val = t.weekday.val
    · omega
    · omega
  · rintro (⟨hd, hge, hlt⟩ | ⟨hd, hcross, hlt⟩)
    · refine ⟨t.hour.val * 60 + t.minute.val - start, ?_, ?_⟩
      · by_cases hcross : start ≤ stop
        · omega
        · omega
      · rw [Instant.minuteOfWeek]
        omega
    · refine ⟨t.hour.val * 60 + t.minute.val + 1440 - start, by omega, ?_⟩
      rw [Instant.minuteOfWeek]
      omega

theorem entryListsDay_iff {e : Entry} {day : Str} :
    entryListsDay e day = true ↔ day ∈ e.days := by
  simp [entryListsDay]

theorem rangeText_inj {m n m' n' : Nat} (hm : m < 1440) (hn : n < 1440) (hm' : m' < 1440)
    (hn' : n' < 1440) (h : rangeText m n = rangeText m' n') : m = m' ∧ n = n' := by
  obtain ⟨hstart, hstop⟩ := append_inj h rfl
  have hread := parseClock_clockText hm
  rw [hstart, parseClock_clockText hm'] at hread
  have hread' := parseClock_clockText hn
  rw [(cons.inj hstop).2, parseClock_clockText hn'] at hread'
  have h1 := Except.ok.inj hread
  have h2 := Except.ok.inj hread'
  exact ⟨by omega, by omega⟩

theorem entryAllows_iff {e : Entry} {start stop : Nat} (hstart : start < 1440)
    (hstop : stop < 1440) (hne : start ≠ stop) (hallow : e.allow = rangeText start stop)
    (t : Instant) : entryAllows (some e) t = true ↔ e.Opens t := by
  have hparse : parseRange e.allow = .ok ((start : Int), (stop : Int)) :=
    parseRange_ok_iff.mpr ⟨start, stop, hstart, hstop, hne, hallow, rfl, rfl⟩
  have hopens : e.Opens t ↔ ∃ D : Fin 7, weekdayTokens D ∈ e.days ∧ InRange D start stop t := by
    constructor
    · rintro ⟨start', hstart', stop', hstop', hallow', hD⟩
      obtain ⟨rfl, rfl⟩ := rangeText_inj hstart hstop hstart' hstop' (hallow ▸ hallow')
      exact hD
    · intro hD
      exact ⟨start, hstart, stop, hstop, hallow, hD⟩
  rw [hopens, entryAllows, hparse]
  simp only [inRange_iff _ hstart hstop, Bool.if_true_left, Bool.or_eq_true, Bool.and_eq_true,
    decide_eq_true_eq, entryListsDay_iff]
  constructor
  · rintro (⟨hlists, htime⟩ | ⟨hcross, hlists, htime⟩)
    · refine ⟨t.weekday, hlists, .inl ⟨rfl, ?_, ?_⟩⟩
      · split_ifs at htime with hle
        · simp only [Bool.and_eq_true, decide_eq_true_eq] at htime
          omega
        · simp only [decide_eq_true_eq] at htime
          omega
      · intro hle
        rw [if_pos (by omega)] at htime
        simp only [Bool.and_eq_true, decide_eq_true_eq] at htime
        omega
    · exact ⟨t.weekday + 6, hlists, .inr ⟨rfl, by omega, by omega⟩⟩
  · rintro ⟨D, hlists, ⟨rfl, hge, hlt⟩ | ⟨rfl, hcross, hlt⟩⟩
    · refine .inl ⟨hlists, ?_⟩
      split_ifs with hle
      · simp only [Bool.and_eq_true, decide_eq_true_eq]
        omega
      · simp only [decide_eq_true_eq]
        omega
    · exact .inr ⟨by omega, hlists, by omega⟩

/-! ## Validation -/

theorem validateEntry_eq_none {e : Option Entry} (h : validateEntry e = none) :
    ∃ entry start stop, e = some entry ∧ start < 1440 ∧ stop < 1440 ∧ start ≠ stop ∧
      entry.allow = rangeText start stop := by
  cases e with
  | none => cases h
  | some e =>
    simp only [validateEntry] at h
    split_ifs at h
    cases hdays : checkDays [] e.days with
    | some err => rw [hdays] at h; cases h
    | none =>
      rw [hdays] at h
      cases hrange : parseRange e.allow with
      | error err => rw [hrange] at h; cases h
      | ok r =>
        obtain ⟨start, stop, hstart, hstop, hne, hallow, -, -⟩ := parseRange_ok_iff.mp hrange
        exact ⟨e, start, stop, rfl, hstart, hstop, hne, hallow⟩

theorem validateEntry_of_mem {es : List (Option Entry)} {i : Nat} (h : validateFrom i es = none)
    {e : Option Entry} (he : e ∈ es) : validateEntry e = none := by
  induction es generalizing i with
  | nil => cases he
  | cons e' es ih =>
    rw [validateFrom] at h
    cases hentry : validateEntry e' with
    | some err => rw [hentry] at h; cases h
    | none =>
      rw [hentry] at h
      rcases mem_cons.mp he with rfl | he
      · exact hentry
      · exact ih h he

theorem any_entryAllows_iff {w : Window} (h : validate (some w) = none) (t : Instant) :
    (w.schedule.any fun e => entryAllows e t) = true ↔
      ∃ e, some e ∈ w.schedule ∧ e.Opens t := by
  rw [any_eq_true]
  constructor
  · rintro ⟨e, he, hallows⟩
    obtain ⟨entry, start, stop, rfl, hstart, hstop, hne, hallow⟩ :=
      validateEntry_eq_none (validateEntry_of_mem h he)
    exact ⟨entry, he, (entryAllows_iff hstart hstop hne hallow t).mp hallows⟩
  · rintro ⟨e, he, hopens⟩
    obtain ⟨entry, start, stop, heq, hstart, hstop, hne, hallow⟩ :=
      validateEntry_eq_none (validateEntry_of_mem h he)
    cases heq
    exact ⟨some e, he, (entryAllows_iff hstart hstop hne hallow t).mpr hopens⟩

theorem isAllowed_union_of_closed {ws : List (Option Window)} (hne : ws ≠ [])
    (hclosed : ws.any isOpen = false) (t : Instant) :
    isAllowed (union ws) t =
      ws.any fun w => ((w.map Window.schedule).getD []).any fun e => entryAllows e t := by
  have hschedule : (ws.flatMap fun w => (w.map Window.schedule).getD []) ≠ [] := by
    obtain ⟨w, ws, rfl⟩ := exists_cons_of_ne_nil hne
    have hw := any_eq_false.mp hclosed w mem_cons_self
    cases w with
    | none => exact absurd rfl hw
    | some w =>
      intro hnil
      have hw' : w.schedule = [] := (append_eq_nil_iff.mp hnil).1
      exact hw (decide_eq_true hw')
  have hunion : union ws = some ⟨ws.flatMap fun w => (w.map Window.schedule).getD []⟩ := by
    rw [union, hclosed, if_neg Bool.false_ne_true]
  rw [hunion, isAllowed, if_neg hschedule, any_flatMap]

/-- The union of valid windows allows an instant if and only if one of them is open altogether, or
an entry of one of them opens it. -/
theorem isAllowed_union {ws : List (Option Window)} (hne : ws ≠ [])
    (hvalid : ∀ w ∈ ws, validate w = none) (t : Instant) :
    isAllowed (union ws) t = true ↔
      (∃ w ∈ ws, isOpen w = true) ∨
        ∃ w, some w ∈ ws ∧ ∃ e, some e ∈ w.schedule ∧ e.Opens t := by
  by_cases hopen : ws.any isOpen = true
  · have hunion : union ws = some ⟨[]⟩ := if_pos hopen
    rw [hunion]
    exact ⟨fun _ => .inl (any_eq_true.mp hopen), fun _ => rfl⟩
  have hclosed := Bool.eq_false_of_not_eq_true hopen
  rw [isAllowed_union_of_closed hne hclosed, any_eq_true]
  constructor
  · rintro ⟨w, hw, hallows⟩
    cases w with
    | none => cases hallows
    | some w => exact .inr ⟨w, hw, (any_entryAllows_iff (hvalid _ hw) t).mp hallows⟩
  · rintro (hsome | ⟨w, hw, hopens⟩)
    · exact absurd (any_eq_true.mpr hsome) hopen
    · exact ⟨some w, hw, (any_entryAllows_iff (hvalid _ hw) t).mpr hopens⟩

def saturdayNight : Window := ⟨[some ⟨[weekdayTokens 6], rangeText 1380 120⟩]⟩

def mondayMorning : Window := ⟨[some ⟨[weekdayTokens 1], rangeText 480 60⟩]⟩

/-- The tail of the last night of the week falls on the first day of the next. -/
theorem sunday_belongs_to_saturday :
    isAllowed (union [some mondayMorning, some saturdayNight]) ⟨0, 1, 59⟩ = true := by
  refine (isAllowed_union (cons_ne_nil _ _) ?_ _).mpr (.inr ⟨saturdayNight, ?_, ?_⟩)
  · decide +kernel
  · exact mem_cons_of_mem _ (mem_singleton_self _)
  · exact ⟨_, mem_singleton_self _, 1380, by decide, 120, by decide, rfl, 6,
      mem_singleton_self _, 179, by decide, rfl⟩

/-! ## Unions of any windows -/

/-- A union allows what one of its windows allows, valid or not; of no windows, everything. -/
theorem isAllowed_union_any (ws : List (Option Window)) (t : Instant) :
    isAllowed (union ws) t = (ws.isEmpty || ws.any fun w => isAllowed w t) := by
  rcases eq_or_ne ws [] with rfl | hne
  · rfl
  have hempty : ws.isEmpty = false := isEmpty_eq_false_iff.mpr hne
  rw [hempty, Bool.false_or]
  by_cases hopen : ws.any isOpen = true
  · obtain ⟨w, hw, hwopen⟩ := any_eq_true.mp hopen
    have hallowed : isAllowed w t = true := by
      cases w with
      | none => rfl
      | some w => exact if_pos (of_decide_eq_true hwopen)
    rw [any_eq_true.mpr ⟨w, hw, hallowed⟩, union, if_pos hopen]
    rfl
  have hclosed := Bool.eq_false_of_not_eq_true hopen
  rw [isAllowed_union_of_closed hne hclosed, Bool.eq_iff_iff, any_eq_true, any_eq_true]
  refine exists_congr fun w => and_congr_right fun hw => ?_
  have hw := any_eq_false.mp hclosed w hw
  cases w with
  | none => exact absurd rfl hw
  | some w => rw [isAllowed, if_neg fun h => hw (decide_eq_true h), Option.map_some, Option.getD_some]

end PowerManage.Maintenance
