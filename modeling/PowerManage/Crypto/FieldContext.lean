import PowerManage.Crypto.Seal
import PowerManage.Lib.Netstring

/-!
# The context of a sealed field

`crypto/field_context.go`: the additional data and the info string that tie a sealed value to its
transport direction, message, field and bindings.  Both are length-prefixed lists, so that contexts
which differ anywhere differ in their additional data (`contexts_separate`), and a blob sealed
for one of them is not opened as another.
-/

namespace PowerManage.Crypto

open Text List

def directionAgentToControl : Bytes := ascii "agent-to-control"

def directionControlToAgent : Bytes := ascii "control-to-agent"

def fieldSealVersion : Bytes := ascii "power-manage-field-seal:v1"

def colon : UInt8 := 58

def appendSegment (encoded segment : Bytes) : Bytes :=
  encoded ++ ascii (decimal segment.length) ++ [colon] ++ segment

/-- What the context of a sealed field is made from. -/
structure SealedField where
  direction : Bytes
  message : Bytes
  field : Bytes
  bindings : List Bytes
  deriving DecidableEq

def SealedField.segments (f : SealedField) : List Bytes :=
  [fieldSealVersion, f.direction, f.message, f.field] ++ f.bindings

/-- The data and the info that a field is sealed with. -/
def fieldSealContext (f : SealedField) : Except CryptoError (Bytes × Bytes) :=
  if f.direction ≠ directionAgentToControl ∧ f.direction ≠ directionControlToAgent then
    .error .invalidDirection
  else if f.segments.any (· = []) then .error .emptySegment
  else
    .ok (f.segments.foldl appendSegment [], (f.segments.take 4).foldl appendSegment [])

/-! ## Both are lists of frames -/

theorem ofNat_byte_of_isDigit {c : Char} (h : c.isDigit = true) :
    Char.ofNat (UInt8.ofNat c.toNat).toNat = c := by
  have hc : c.toNat < 256 := by
    simp only [Char.isDigit, Bool.and_eq_true, decide_eq_true_eq] at h
    exact lt_of_le_of_lt h.2 (by decide)
  rw [UInt8.toNat_ofNat', Nat.mod_eq_of_lt hc, Char.ofNat_toNat]

theorem map_ascii_decimal (n : Nat) :
    (ascii (decimal n)).map (fun b => Char.ofNat b.toNat) = decimal n := by
  rw [ascii, map_map]
  exact (map_congr_left fun c hc =>
    ofNat_byte_of_isDigit (isDigit_of_mem_decimal hc)).trans (map_id _)

def byteNumerals : Numerals UInt8 where
  write n := ascii (decimal n)
  sep := colon
  write_injective := by
    intro m n h
    have hdecimal : decimal m = decimal n := by
      rw [← map_ascii_decimal m, ← map_ascii_decimal n]
      exact congrArg _ h
    have hread := readDecimal_decimal m
    rw [hdecimal, readDecimal_decimal] at hread
    exact (Option.some.inj hread).symm
  sep_notMem := by
    intro n h
    obtain ⟨c, hc, hcolon⟩ := List.mem_map.mp h
    have hdigit := isDigit_of_mem_decimal hc
    have hback := ofNat_byte_of_isDigit hdigit
    rw [hcolon] at hback
    rw [← hback] at hdigit
    exact absurd hdigit (by decide)

theorem foldl_appendSegment (segments : List Bytes) (encoded : Bytes) :
    segments.foldl appendSegment encoded = encoded ++ byteNumerals.frames segments := by
  induction segments generalizing encoded with
  | nil => rw [foldl_nil, Numerals.frames_nil, append_nil]
  | cons segment segments ih =>
    rw [foldl_cons, ih, appendSegment]
    simp [Numerals.frame, byteNumerals]

variable {f : SealedField} {aad info : Bytes}

theorem fieldSealContext_ok (h : fieldSealContext f = .ok (aad, info)) :
    aad = byteNumerals.frames f.segments ∧
      info = byteNumerals.frames [fieldSealVersion, f.direction, f.message, f.field] := by
  unfold fieldSealContext at h
  split_ifs at h
  obtain ⟨haad, hinfo⟩ := Prod.mk.inj (Except.ok.inj h)
  rw [foldl_appendSegment] at haad hinfo
  exact ⟨haad.symm, hinfo.symm⟩

theorem segments_injective : Function.Injective SealedField.segments := by
  intro f g h
  obtain ⟨direction, message, field, bindings⟩ := f
  obtain ⟨rfl, rfl, rfl, rfl⟩ := h
  rfl

theorem aad_eq_iff {g : SealedField} :
    byteNumerals.frames f.segments = byteNumerals.frames g.segments ↔ f = g := by
  constructor
  · intro h
    exact segments_injective (byteNumerals.frames_injective h)
  · rintro rfl
    rfl

theorem info_eq_iff {g : SealedField} :
    byteNumerals.frames [fieldSealVersion, f.direction, f.message, f.field] =
        byteNumerals.frames [fieldSealVersion, g.direction, g.message, g.field] ↔
      f.direction = g.direction ∧ f.message = g.message ∧ f.field = g.field := by
  constructor
  · intro h
    have hsegments := byteNumerals.frames_injective h
    simp only [cons.injEq, true_and, and_true] at hsegments
    exact hsegments
  · rintro ⟨hdirection, hmessage, hfield⟩
    rw [hdirection, hmessage, hfield]

/-! ## A sealed value stays in its context -/

section

variable {Priv Pub : Type} {S : Suite Priv Pub} {draw : Draw Priv}

/-- The ciphertext is not also one for other additional data. It cannot be asked of all ciphertexts,
since tags are short. -/
def Unforged (S : Suite Priv Pub) (draw : Draw Priv) (recipient : Pub) (plaintext aad info : Bytes)
    (priv : Priv) (aad' info' : Bytes) : Prop :=
  ∀ eph nonce key key' plaintext', draw.key = .ok eph → draw.nonce = .ok nonce →
    deriveSealKey S eph recipient info = .ok key →
    deriveOpenKey S priv (S.x25519.publicKey eph) info' = .ok key' →
    S.gcm.sealWith key nonce.bytes plaintext aad =
      S.gcm.sealWith key' nonce.bytes plaintext' aad' → aad = aad'

theorem aad_eq_of_opened {recipient : Pub} {priv : Priv}
    {plaintext plaintext' aad' info' blob : Bytes}
    (hforge : Unforged S draw recipient plaintext aad info priv aad' info')
    (hseal : sealToPublicKey S draw (some recipient) plaintext aad info = .ok blob)
    (hopen : openWithPrivateKey S (some priv) blob aad' info' = .ok plaintext')
    (haad' : aad' ≠ []) (hinfo' : info' ≠ []) : aad = aad' := by
  obtain ⟨-, -, eph, key, nonce, heph, hkey, hnonce, rfl⟩ := sealToPublicKey_ok hseal
  by_cases hlong : aeadOverhead <
      (nonce.bytes ++ S.gcm.sealWith key nonce.bytes plaintext aad).length
  · rw [openWithPrivateKey_append priv _ haad' hinfo' hlong] at hopen
    obtain ⟨key', hkey', hopen⟩ := bind_eq_ok.mp hopen
    obtain ⟨shared, -, hexpand⟩ := deriveOpenKey_ok hkey'
    have hct := (openWithAAD_ok_iff (S.hkdf.length_key hexpand) haad' nonce _).mp hopen
    exact hforge eph nonce key key' plaintext' heph hnonce hkey hkey' hct
  · rw [openWithPrivateKey_short priv haad' hinfo'] at hopen
    · cases hopen
    · rw [length_append, S.x25519.length_bytes, sealedOverhead]
      omega

end

theorem frames_segments_ne_nil (f : SealedField) : byteNumerals.frames f.segments ≠ [] := by
  intro h
  exact byteNumerals.frame_ne_nil _ (append_eq_nil_iff.mp h).1

/-- Contexts are told apart by their additional data, and by their info as far as that reaches; what
was sealed for one of them opens for no other. -/
theorem contexts_separate {f g : SealedField} {aad info aad' info' : Bytes}
    (hf : fieldSealContext f = .ok (aad, info)) (hg : fieldSealContext g = .ok (aad', info')) :
    (aad = aad' ↔ f = g) ∧
      (info = info' ↔ f.direction = g.direction ∧ f.message = g.message ∧ f.field = g.field) ∧
      ∀ (Priv Pub : Type) (S : Suite Priv Pub) (draw : Draw Priv) (recipient : Pub) (priv : Priv)
        (plaintext plaintext' blob : Bytes),
        Unforged S draw recipient plaintext aad info priv aad' info' →
        sealToPublicKey S draw (some recipient) plaintext aad info = .ok blob →
        openWithPrivateKey S (some priv) blob aad' info' = .ok plaintext' → f = g := by
  obtain ⟨rfl, rfl⟩ := fieldSealContext_ok hf
  obtain ⟨rfl, rfl⟩ := fieldSealContext_ok hg
  refine ⟨aad_eq_iff, info_eq_iff, ?_⟩
  intro Priv Pub S draw recipient priv plaintext plaintext' blob hforge hseal hopen
  apply aad_eq_iff.mp
  apply aad_eq_of_opened hforge hseal hopen (frames_segments_ne_nil g)
  intro h
  exact byteNumerals.frame_ne_nil _ (append_eq_nil_iff.mp h).1

def passwordField : SealedField :=
  ⟨directionControlToAgent, ascii "User", ascii "password", [ascii "d1"]⟩

def otherDevice : SealedField :=
  ⟨directionControlToAgent, ascii "User", ascii "password", [ascii "d12:"]⟩

theorem unforged_toySuite {recipient priv : UInt8} {plaintext aad' info' : Bytes}
    (h : aad.sum ≠ aad'.sum) :
    Unforged toySuite toyDraw recipient plaintext aad info priv aad' info' := by
  rintro eph nonce key key' plaintext' - - - - hct
  have htag : checksum overhead aad = checksum overhead aad' :=
    append_inj_right' hct (by rw [length_checksum, length_checksum])
  exact absurd (replicate_right_injective (by decide) htag) h

/-- What is sealed for one device does not open for another. -/
theorem devices_separate :
    ∃ aad info aad' info', fieldSealContext passwordField = .ok (aad, info) ∧
      fieldSealContext otherDevice = .ok (aad', info') ∧ aad ≠ aad' ∧ info = info' ∧
      ∀ blob plaintext',
        sealToPublicKey toySuite toyDraw (some 3) [9] aad info = .ok blob →
          openWithPrivateKey toySuite (some 3) blob aad' info' ≠ .ok plaintext' := by
  obtain ⟨⟨aad, info⟩, hf⟩ : ∃ r, fieldSealContext passwordField = .ok r := ⟨_, rfl⟩
  obtain ⟨⟨aad', info'⟩, hg⟩ : ∃ r, fieldSealContext otherDevice = .ok r := ⟨_, rfl⟩
  have hne : passwordField ≠ otherDevice := by decide
  have hsum : aad.sum ≠ aad'.sum := by
    rw [(fieldSealContext_ok hf).1, (fieldSealContext_ok hg).1]
    decide +kernel
  obtain ⟨haad, hinfo, hopens⟩ := contexts_separate hf hg
  refine ⟨aad, info, aad', info', hf, hg, mt haad.mp hne, hinfo.mpr ⟨rfl, rfl, rfl⟩, ?_⟩
  intro blob plaintext' hseal hopen
  exact hne (hopens _ _ toySuite toyDraw 3 3 [9] plaintext' blob (unforged_toySuite hsum) hseal hopen)

end PowerManage.Crypto
