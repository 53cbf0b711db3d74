import PowerManage.Lib.JsonText
import PowerManage.Lib.Timestamp

/-!
# The text of a session

`writeSession` and `readSession` check the same things of a session.  Between them is a file, which
`PowerManage.Cli.Credential` is about; here it is only its text, in UTF-8.  A session is written by
`json.Marshal` and read by a decoder that refuses unknown fields: it accepts objects with these four
fields, each a string or null, and nothing else.  What `time.Parse` would accept besides timestamps
that are in order is left out.

The writer has no limit on the size and the reader has one, and a timestamp does not have the seconds
of its zone.  `session_loads_iff` says that this is all that can go wrong.
-/

namespace PowerManage.Cli.SessionText

open List Radix JsonText Timestamp

/-- The session that is stored as JSON. -/
structure Session where
  serverURL : Str
  accessToken : Str
  refreshToken : Str
  expiresAt : Time

/-- The members of the object. -/
inductive Field
  | serverURL
  | accessToken
  | refreshToken
  | expiresAt
deriving DecidableEq

def Field.key : Field → Str
  | .serverURL => "server_url"
  | .accessToken => "access_token"
  | .refreshToken => "refresh_token"
  | .expiresAt => "expires_at"

def member (f : Field) (s rest : Str) : Str := quote f.key ++ ':' :: (quote s ++ rest)

/-- `json.Marshal`, and the line end.  In a timestamp there is nothing to escape. -/
def marshal (v : Session) : Option Str :=
  (text v.expiresAt).map fun t =>
    '\x7b' :: member .serverURL v.serverURL (',' :: member .accessToken v.accessToken
      (',' :: member .refreshToken v.refreshToken (',' :: member .expiresAt t ['\x7d', '\n'])))

/-! ## The decoder -/

def skip (s : Str) : Str := s.dropWhile (· ∈ [' ', '\t', '\n', '\r'])

/-- With a string goes the text between its quotes, which is what a timestamp is read from. -/
inductive Value
  | null
  | string (raw s : Str)

def readValue : Str → Option (Value × Str)
  | '"' :: s => (readString s).map fun (t, rest) =>
    (.string (s.take (s.length - rest.length - 1)) t, rest)
  | 'n' :: 'u' :: 'l' :: 'l' :: s => some (.null, s)
  | _ => none

/-- Two characters besides the capital letters are the same as small letters. -/
def fold (c : Char) : Char := if c = '\u212a' then 'k' else if c = '\u017f' then 's' else c.toLower

def fieldOf (key : Str) : Option Field :=
  [.serverURL, .accessToken, .refreshToken, .expiresAt].find? (Field.key · = key.map fold)

def Session.set (v : Session) : Field → Value → Option Session
  | _, .null => some v
  | .serverURL, .string _ s => some { v with serverURL := s }
  | .accessToken, .string _ s => some { v with accessToken := s }
  | .refreshToken, .string _ s => some { v with refreshToken := s }
  | .expiresAt, .string raw _ => (parse raw).map fun t => { v with expiresAt := t }

/-- The members of an object up to its end.  Each one takes up some of the text. -/
def members : Nat → Session → Str → Option (Session × Str)
  | 0, _, _ => none
  | n + 1, v, s => do
    let s ← expect '"' (skip s)
    let (key, s) ← readString s
    let s ← expect ':' (skip s)
    let (x, s) ← readValue (skip s)
    let f ← fieldOf key
    let v ← v.set f x
    match skip s with
    | ',' :: s => members n v s
    | '\x7d' :: s => some (v, s)
    | _ => none

def zeroTime : Time := ⟨⟨1, 1, 1, 0, 0, 0, 0⟩, by decide, 0⟩

def emptySession : Session := ⟨[], [], [], zeroTime⟩

/-- An object or `null` at the start of the text. -/
def decode (s : Str) : Option (Session × Str) :=
  match skip s with
  | '\x7b' :: s =>
    match skip s with
    | '\x7d' :: s => some (emptySession, s)
    | s => members s.length emptySession s
  | 'n' :: 'u' :: 'l' :: 'l' :: s => some (emptySession, s)
  | _ => none

/-- Why a session is not written or not read. -/
inductive Failure
  | invalidServer
  | incomplete
  | encode
  | tooLarge
  | decode
  /-- There is more than one value, or something that is none. -/
  | trailing

def maxCredentialFileBytes : Nat := 65536

def byteLen (s : Str) : Nat := (s.map Char.utf8Size).sum

section

-- whether `validateServerURL` accepts a text
variable (validateServerURL : Str → Bool)

def check (v : Session) : Option Failure :=
  if validateServerURL v.serverURL = false then some .invalidServer
  else if v.accessToken = [] ∨ v.refreshToken = [] ∨ v.expiresAt.instant = zeroTime.instant then
    some .incomplete
  else none

/-- The session as text, if it passes the checks. -/
def writeSession (v : Session) : Except Failure Str :=
  match check validateServerURL v, marshal v with
  | some e, _ => .error e
  | none, none => .error .encode
  | none, some s => .ok s

/-- The session that a text holds, and nothing after it. -/
def readSession (s : Str) : Except Failure Session :=
  if maxCredentialFileBytes < byteLen s then .error .tooLarge
  else
    match decode s with
    | none => .error .decode
    | some (v, rest) =>
      if skip rest ≠ [] then .error .trailing
      else
        match check validateServerURL v with
        | some e => .error e
        | none => .ok v

end

theorem length_le_byteLen (s : Str) : s.length ≤ byteLen s := by
  rw [byteLen, ← length_map Char.utf8Size]
  refine length_le_sum_of_one_le _ fun n hn => ?_
  obtain ⟨c, -, rfl⟩ := mem_map.mp hn
  exact c.utf8Size_pos

/-! ## What is written is read -/

theorem readValue_quote (s rest : Str) :
    readValue (quote s ++ rest) = some (.string (s.flatMap escape) s, rest) := by
  have hlen : (s.flatMap escape ++ '"' :: rest).length - rest.length - 1 =
      (s.flatMap escape).length := by
    rw [length_append, length_cons]
    omega
  have htext : quote s ++ rest = '"' :: (s.flatMap escape ++ '"' :: rest) := by simp [quote]
  rw [htext, readValue, readString_quote, Option.map_some]
  simp only [hlen, take_left]

theorem fieldOf_key (f : Field) : fieldOf f.key = some f := by cases f <;> decide +kernel

variable {s : Str}

theorem members_member {n : Nat} {v v' : Session} {f : Field} (rest : Str)
    (hset : v.set f (.string (s.flatMap escape) s) = some v') :
    members (n + 1) v (member f s (',' :: rest)) = members n v' rest ∧
    members (n + 1) v (member f s ('\x7d' :: rest)) = some (v', rest) := by
  have hkey : ∀ rest, skip (member f s rest) = '"' :: (f.key.flatMap escape ++ '"' :: ':' ::
      (quote s ++ rest)) := fun rest => by simp [member, quote, skip]
  have hcolon : ∀ s, skip (':' :: s) = ':' :: s := fun s => rfl
  have hvalue : ∀ rest, skip (quote s ++ rest) = quote s ++ rest := fun rest => rfl
  have hcomma : ∀ s, skip (',' :: s) = ',' :: s := fun s => rfl
  have hclose : ∀ s, skip ('\x7d' :: s) = '\x7d' :: s := fun s => rfl
  simp only [members, hkey, Option.bind_eq_bind, Option.bind_some, expect_cons, readString_quote,
    hcolon, hvalue, readValue_quote, fieldOf_key, hset, hcomma, hclose, and_self]

/-- A timestamp is written as it is. -/
theorem flatMap_escape_text {t : Time} (h : text t = some s) : s.flatMap escape = s := by
  have hdigit : ∀ d < 10, escape (Nat.digitChar d) = [Nat.digitChar d] := by decide
  have hdigits : ∀ ds : List Nat, (∀ d ∈ ds, d < 10) →
      (ds.map Nat.digitChar).flatMap escape = ds.map Nat.digitChar := by
    intro ds hds
    rw [flatMap_map, map_eq_flatMap]
    exact flatMap_congr fun d hd => hdigit d (hds d hd)
  have hpad : ∀ k n, (pad k n).flatMap escape = pad k n := fun k n =>
    hdigits _ fun d => lt_of_mem_digits (by decide)
  have hfraction : ∀ n, (fractionText n).flatMap escape = fractionText n := by
    intro n
    unfold fractionText
    dsimp only
    split_ifs
    · rfl
    · exact congrArg _ (hdigits _ fun d hd =>
        lt_of_mem_digits (by decide) (( rdropWhile_prefix _ _).subset hd))
  have hmarks : escape '-' = ['-'] ∧ escape ':' = [':'] ∧ escape 'T' = ['T'] ∧ escape '+' = ['+'] :=
    ⟨rfl, rfl, rfl, rfl⟩
  have hzone : (zoneText t.offset).flatMap escape = zoneText t.offset := by
    unfold zoneText
    dsimp only
    split_ifs
    · rfl
    · simp only [flatMap_append, flatMap_cons, hpad, hmarks, singleton_append]
    · simp only [flatMap_append, flatMap_cons, hpad, hmarks, singleton_append]
  unfold text at h
  dsimp only at h
  split_ifs at h
  cases h
  simp only [flatMap_append, flatMap_cons, hpad, hfraction, hzone, hmarks, singleton_append]

theorem decode_member (f : Field) (s rest : Str) : decode ('\x7b' :: member f s rest) =
    members (member f s rest).length emptySession (member f s rest) := rfl

theorem decode_marshal {v : Session} (h : marshal v = some s) :
    ∃ u, u.clock = v.expiresAt.clock ∧ u.offset = v.expiresAt.offset.tdiv 60 * 60 ∧
      decode s = some ({ v with expiresAt := u }, ['\n']) := by
  obtain ⟨t, ht, rfl⟩ := Option.map_eq_some_iff.mp h
  obtain ⟨u, hu, hclock, hoffset⟩ := parse_text ht
  refine ⟨u, hclock, hoffset, ?_⟩
  have hlast (w : Session) : w.set .expiresAt (.string (t.flatMap escape) t) =
      some { w with expiresAt := u } := by
    rw [flatMap_escape_text ht, Session.set, hu, Option.map_some]
  have hlong (f : Field) (s rest : Str) : ∃ n, (member f s rest).length = n + 4 := by
    refine Nat.exists_eq_add_of_le' ?_
    simp only [member, quote, length_append, length_cons]
    omega
  obtain ⟨n, hn⟩ := hlong .serverURL v.serverURL (',' :: member .accessToken v.accessToken
    (',' :: member .refreshToken v.refreshToken (',' :: member .expiresAt t ['\x7d', '\n'])))
  rw [decode_member, hn, (members_member _ rfl).1, (members_member _ rfl).1, (members_member _ rfl).1,
    (members_member _ (hlast _)).2]

theorem instant_eq_iff {t u : Time} (hclock : u.clock = t.clock)
    (hoffset : u.offset = t.offset.tdiv 60 * 60) : u.instant = t.instant ↔ 60 ∣ t.offset := by
  rw [Time.instant, Time.instant, hclock, hoffset, Prod.mk.injEq]
  have hdvd : t.offset.tdiv 60 * 60 = t.offset ↔ 60 ∣ t.offset :=
    ⟨fun h => Dvd.intro_left _ h, Int.tdiv_mul_cancel⟩
  rw [← hdvd]
  omega

theorem writeSession_ok {validateServerURL : Str → Bool} {v : Session}
    (h : writeSession validateServerURL v = .ok s) :
    check validateServerURL v = none ∧ marshal v = some s := by
  unfold writeSession at h
  split at h
  · cases h
  · cases h
  · rename_i hcheck hmarshal
    cases h
    exact ⟨hcheck, hmarshal⟩

/-- A session that was written is loaded with its server, its tokens and its expiry. -/
def Loads (validateServerURL : Str → Bool) (s : Str) (v : Session) : Prop :=
  ∃ w, readSession validateServerURL s = .ok w ∧ w.serverURL = v.serverURL ∧
    w.accessToken = v.accessToken ∧ w.refreshToken = v.refreshToken ∧
    w.expiresAt.instant = v.expiresAt.instant

theorem not_loads_of_long {validateServerURL : Str → Bool} (h : maxCredentialFileBytes < byteLen s)
    (v : Session) : ¬Loads validateServerURL s v := by
  rintro ⟨w, hread, -⟩
  rw [readSession, if_pos h] at hread
  cases hread

/-- **A session that is written can be loaded just if its text is within the limit of the reader and
the zone of the expiry is in whole minutes.** -/
theorem session_loads_iff (validateServerURL : Str → Bool) (v : Session)
    (hwrite : writeSession validateServerURL v = .ok s) :
    Loads validateServerURL s v ↔
      byteLen s ≤ maxCredentialFileBytes ∧ 60 ∣ v.expiresAt.offset := by
  obtain ⟨hcheck, hmarshal⟩ := writeSession_ok hwrite
  obtain ⟨u, hclock, hoffset, hdecode⟩ := decode_marshal hmarshal
  rw [← instant_eq_iff hclock hoffset]
  constructor
  · intro hloads
    have hsize : ¬maxCredentialFileBytes < byteLen s := fun h => not_loads_of_long h v hloads
    obtain ⟨w, hread, -, -, -, hinstant⟩ := hloads
    rw [readSession, if_neg hsize, hdecode] at hread
    dsimp only at hread
    split_ifs at hread
    split at hread <;> cases hread
    exact ⟨not_lt.mp hsize, hinstant⟩
  · rintro ⟨hsize, hinstant⟩
    have hchecked : check validateServerURL { v with expiresAt := u } = none := by
      rw [← hcheck, check, check, hinstant]
    refine ⟨{ v with expiresAt := u }, ?_, rfl, rfl, rfl, hinstant⟩
    rw [readSession, if_neg (not_lt.mpr hsize), hdecode]
    simp only [hchecked]
    exact if_neg (by decide)

def noon (offset : Int) : Time := ⟨⟨2026, 1, 1, 12, 0, 0, 0⟩, by decide, offset⟩

def short : Session := ⟨"https://a", ['"'], ['b'], noon 3600⟩

/-- A short session comes back. -/
theorem session_loads_short : ∃ s, writeSession (fun _ => true) short = .ok s ∧
    Loads (fun _ => true) s short := by
  obtain ⟨s, hwrite, hsize⟩ : ∃ s, writeSession (fun _ => true) short = .ok s ∧
      byteLen s ≤ maxCredentialFileBytes := ⟨_, rfl, by decide +kernel⟩
  exact ⟨s, hwrite, (session_loads_iff _ _ hwrite).mpr ⟨hsize, by decide⟩⟩

theorem length_le_member (f : Field) (s rest : Str) :
    s.length + rest.length ≤ (member f s rest).length := by
  have hescape : s.length ≤ (s.flatMap escape).length := by
    rw [length_flatMap, ← length_map fun c => (escape c).length]
    refine length_le_sum_of_one_le _ fun n hn => ?_
    obtain ⟨c, -, rfl⟩ := mem_map.mp hn
    unfold escape
    split
    · simp
    · split_ifs <;> simp
  simp only [member, quote, length_append, length_cons]
  omega

/-- An access token of 70000 letters is written, and cannot be read. -/
theorem long_token : ∃ s, writeSession (fun _ => true)
    { short with accessToken := replicate 70000 'a' } = .ok s ∧
    ¬Loads (fun _ => true) s { short with accessToken := replicate 70000 'a' } := by
  obtain ⟨rest, hwrite⟩ : ∃ rest, writeSession (fun _ => true)
      { short with accessToken := replicate 70000 'a' } =
      .ok ('\x7b' :: member .serverURL short.serverURL
        (',' :: member .accessToken (replicate 70000 'a') rest)) := ⟨_, rfl⟩
  refine ⟨_, hwrite, not_loads_of_long (lt_of_lt_of_le ?_ (length_le_byteLen _)) _⟩
  have hserver := length_le_member .serverURL short.serverURL
    (',' :: member .accessToken (replicate 70000 'a') rest)
  have htoken := length_le_member .accessToken (replicate 70000 'a') rest
  rw [length_replicate] at htoken
  rw [length_cons] at hserver ⊢
  rw [maxCredentialFileBytes]
  omega

end PowerManage.Cli.SessionText
