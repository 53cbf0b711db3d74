import PowerManage.Lib.Text

/-!
# Authenticated encryption

The two functions of `crypto/aead.go`.  AES-GCM is a parameter: `Gcm` holds what the proofs may use
of it, that a ciphertext opens to a plaintext exactly if it is that plaintext sealed, and that
sealing adds the tag and nothing else.  The nonce is drawn by the caller of the model, as the source
draws it from the system's random numbers.
-/

namespace PowerManage.Crypto

abbrev Bytes := List UInt8

/-- The errors of the package. -/
inductive CryptoError where
  | invalidKey
  | aadRequired
  | malformedCiphertext
  | infoRequired
  | nilRecipient
  | nilPrivateKey
  | invalidDirection
  | emptySegment
  | openFailed
  | generateNonce (err : String)
  | generateEphemeralKey (err : String)
  | parseEphemeralKey (err : String)
  | ecdh (err : String)
  | hkdf (err : String)
  deriving DecidableEq

def CryptoError.message : CryptoError → String
  | invalidKey => "crypto: key must be 32 bytes (AES-256)"
  | aadRequired => "crypto: AAD is required (domain separation; no naked AEAD calls)"
  | malformedCiphertext => "crypto: ciphertext too short"
  | infoRequired => "crypto: HKDF info is required (domain separation; no naked seal calls)"
  | nilRecipient => "crypto: nil recipient public key"
  | nilPrivateKey => "crypto: nil private key"
  | invalidDirection => "crypto: invalid field-seal direction"
  | emptySegment => "crypto: field-seal context contains an empty segment"
  | openFailed => "crypto: open: cipher: message authentication failed"
  | generateNonce err => "crypto: generate nonce: " ++ err
  | generateEphemeralKey err => "crypto: generate ephemeral key: " ++ err
  | parseEphemeralKey err => "crypto: parse ephemeral public key: " ++ err
  | ecdh err => "crypto: ecdh: " ++ err
  | hkdf err => "crypto: hkdf: " ++ err

def keyLen : Nat := 32

def nonceSize : Nat := 12

def overhead : Nat := 16

/-- AES-256-GCM: it opens exactly what was sealed with the same key, nonce and data. -/
structure Gcm where
  sealWith : Bytes → Bytes → Bytes → Bytes → Bytes
  openWith : Bytes → Bytes → Bytes → Bytes → Option Bytes
  openWith_iff : ∀ {key nonce ct aad pt : Bytes},
    openWith key nonce ct aad = some pt ↔ ct = sealWith key nonce pt aad
  length_sealWith : ∀ key nonce pt aad, (sealWith key nonce pt aad).length = pt.length + overhead

/-- A nonce of the length that GCM takes. -/
structure Nonce where
  bytes : Bytes
  length_bytes : bytes.length = nonceSize

/-- `SealWithAAD`, with what `rand.Read` answers. -/
def sealWithAAD (G : Gcm) (rand : Except String Nonce) (key plaintext aad : Bytes) :
    Except CryptoError Bytes :=
  if key.length ≠ keyLen then .error .invalidKey
  else if aad = [] then .error .aadRequired
  else match rand with
    | .error err => .error (.generateNonce err)
    | .ok nonce => .ok (nonce.bytes ++ G.sealWith key nonce.bytes plaintext aad)

/-- The nonce is read off the front. -/
def openWithAAD (G : Gcm) (key ciphertext aad : Bytes) : Except CryptoError Bytes :=
  if key.length ≠ keyLen then .error .invalidKey
  else if aad = [] then .error .aadRequired
  else if ciphertext.length < nonceSize + overhead then .error .malformedCiphertext
  else
    match G.openWith key (ciphertext.take nonceSize) (ciphertext.drop nonceSize) aad with
    | none => .error .openFailed
    | some pt => .ok pt

theorem bind_eq_ok {ε α β : Type} {x : Except ε α} {f : α → Except ε β} {b : β} :
    x >>= f = .ok b ↔ ∃ a, x = .ok a ∧ f a = .ok b := by
  cases x with
  | error e =>
    constructor
    · intro h; cases h
    · rintro ⟨a, h, -⟩; cases h
  | ok a =>
    constructor
    · intro h; exact ⟨a, rfl, h⟩
    · rintro ⟨a', h, hf⟩; cases h; exact hf

section

variable {G : Gcm} {rand : Except String Nonce} {key plaintext aad sealed : Bytes}

theorem sealWithAAD_ok (h : sealWithAAD G rand key plaintext aad = .ok sealed) :
    key.length = keyLen ∧ aad ≠ [] ∧ ∃ nonce, rand = .ok nonce ∧
      sealed = nonce.bytes ++ G.sealWith key nonce.bytes plaintext aad := by
  unfold sealWithAAD at h
  split_ifs at h with hkey haad
  cases hrand : rand with
  | error err => rw [hrand] at h; cases h
  | ok nonce =>
    rw [hrand] at h
    exact ⟨not_not.mp hkey, haad, nonce, rfl, (Except.ok.inj h).symm⟩

theorem openWithAAD_ok_iff (hkey : key.length = keyLen) (haad : aad ≠ []) (nonce : Nonce)
    (ct : Bytes) : openWithAAD G key (nonce.bytes ++ ct) aad = .ok plaintext ↔
      ct = G.sealWith key nonce.bytes plaintext aad := by
  have htake : (nonce.bytes ++ ct).take nonceSize = nonce.bytes :=
    List.take_left' nonce.length_bytes
  have hdrop : (nonce.bytes ++ ct).drop nonceSize = ct := List.drop_left' nonce.length_bytes
  rw [← G.openWith_iff, openWithAAD, if_neg (not_not.mpr hkey), if_neg haad, htake, hdrop]
  constructor
  · intro h
    split_ifs at h
    cases hopen : G.openWith key nonce.bytes ct aad with
    | none => rw [hopen] at h; cases h
    | some pt => rw [hopen] at h; rw [Except.ok.inj h]
  · intro h
    have hlong : ¬ (nonce.bytes ++ ct).length < nonceSize + overhead := by
      rw [List.length_append, nonce.length_bytes, G.openWith_iff.mp h, G.length_sealWith]
      omega
    rw [if_neg hlong, h]

end

end PowerManage.Crypto
