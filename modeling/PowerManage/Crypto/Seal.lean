import PowerManage.Crypto.Aead

/-!
# Sealing to a public key

`crypto/seal.go`: an ephemeral key agreement with the recipient's key, a key derived from it, and
the plaintext sealed under that key.  X25519 and HKDF are parameters with the laws that make them
what they are named after; the ephemeral key and the nonce come in as the draws of the call.

What was sealed is opened again with the same additional data and info exactly if it was not empty
(`open_sealed_iff`): the length guard of the opening side asks for at least one byte of plaintext,
and the sealing side does not.
-/

namespace PowerManage.Crypto

open List

def x25519KeyLen : Nat := 32

def aeadOverhead : Nat := 12 + 16

def sealedOverhead : Nat := x25519KeyLen + aeadOverhead

/-- The key agreement: both sides come to the same secret. -/
structure X25519 (Priv Pub : Type) where
  publicKey : Priv → Pub
  bytes : Pub → Bytes
  newPublicKey : Bytes → Except String Pub
  ecdh : Priv → Pub → Except String Bytes
  length_bytes : ∀ p, (bytes p).length = x25519KeyLen
  newPublicKey_bytes : ∀ p, newPublicKey (bytes p) = .ok p
  ecdh_comm : ∀ a b, ecdh a (publicKey b) = ecdh b (publicKey a)

/-- HKDF-SHA256 of a secret, a salt and an info string, to a number of bytes. -/
structure Hkdf where
  key : Bytes → Bytes → Bytes → Nat → Except String Bytes
  length_key : ∀ {secret salt info : Bytes} {n : Nat} {k : Bytes},
    key secret salt info n = .ok k → k.length = n

/-- The primitives that `Seal` is built from. -/
structure Suite (Priv Pub : Type) where
  x25519 : X25519 Priv Pub
  hkdf : Hkdf
  gcm : Gcm

/-- What the random source gives to one `Seal`, or how it fails. -/
structure Draw (Priv : Type) where
  key : Except String Priv
  nonce : Except String Nonce

section

variable {Priv Pub : Type} (S : Suite Priv Pub)

def expandKey (shared ephPub recipientPub info : Bytes) : Except CryptoError Bytes :=
  match S.hkdf.key shared (ephPub ++ recipientPub) info keyLen with
  | .error err => .error (.hkdf err)
  | .ok key => .ok key

def deriveSealKey (eph : Priv) (recipient : Pub) (info : Bytes) : Except CryptoError Bytes :=
  match S.x25519.ecdh eph recipient with
  | .error err => .error (.ecdh err)
  | .ok shared =>
    expandKey S shared (S.x25519.bytes (S.x25519.publicKey eph)) (S.x25519.bytes recipient) info

def deriveOpenKey (priv : Priv) (ephPub : Pub) (info : Bytes) : Except CryptoError Bytes :=
  match S.x25519.ecdh priv ephPub with
  | .error err => .error (.ecdh err)
  | .ok shared =>
    expandKey S shared (S.x25519.bytes ephPub) (S.x25519.bytes (S.x25519.publicKey priv)) info

/-- `none` is the nil pointer. -/
def sealToPublicKey (draw : Draw Priv) (recipient : Option Pub) (plaintext aad info : Bytes) :
    Except CryptoError Bytes :=
  match recipient with
  | none => .error .nilRecipient
  | some recipient =>
    if aad = [] then .error .aadRequired
    else if info = [] then .error .infoRequired
    else
      match draw.key with
      | .error err => .error (.generateEphemeralKey err)
      | .ok eph => do
        let key ← deriveSealKey S eph recipient info
        let sealed ← sealWithAAD S.gcm draw.nonce key plaintext aad
        return S.x25519.bytes (S.x25519.publicKey eph) ++ sealed

/-- The ephemeral key is read off the front, then the nonce. -/
def openWithPrivateKey (priv : Option Priv) (sealed aad info : Bytes) :
    Except CryptoError Bytes :=
  match priv with
  | none => .error .nilPrivateKey
  | some priv =>
    if aad = [] then .error .aadRequired
    else if info = [] then .error .infoRequired
    else if sealed.length ≤ sealedOverhead then .error .malformedCiphertext
    else
      match S.x25519.newPublicKey (sealed.take x25519KeyLen) with
      | .error err => .error (.parseEphemeralKey err)
      | .ok ephPub => do
        let key ← deriveOpenKey S priv ephPub info
        openWithAAD S.gcm key (sealed.drop x25519KeyLen) aad

end

/-! ## Key derivation -/

variable {aad info key : Bytes}

section Derivation

variable {Priv Pub : Type} {S : Suite Priv Pub}

theorem bytes_injective : Function.Injective S.x25519.bytes := by
  intro p q h
  have hparse := S.x25519.newPublicKey_bytes p
  rw [h, S.x25519.newPublicKey_bytes] at hparse
  exact (Except.ok.inj hparse).symm

theorem salt_inj {e e' r r' : Pub}
    (h : S.x25519.bytes e ++ S.x25519.bytes r = S.x25519.bytes e' ++ S.x25519.bytes r') :
    e = e' ∧ r = r' := by
  have hlength : (S.x25519.bytes e).length = (S.x25519.bytes e').length := by
    rw [S.x25519.length_bytes, S.x25519.length_bytes]
  obtain ⟨he, hr⟩ := append_inj h hlength
  exact ⟨bytes_injective he, bytes_injective hr⟩

theorem expandKey_ok {shared e r : Bytes} (h : expandKey S shared e r info = .ok key) :
    S.hkdf.key shared (e ++ r) info keyLen = .ok key := by
  unfold expandKey at h
  cases hkey : S.hkdf.key shared (e ++ r) info keyLen with
  | error err => rw [hkey] at h; cases h
  | ok k => rw [hkey] at h; rw [Except.ok.inj h]

theorem deriveSealKey_ok {eph : Priv} {recipient : Pub}
    (h : deriveSealKey S eph recipient info = .ok key) :
    ∃ shared, S.x25519.ecdh eph recipient = .ok shared ∧
      S.hkdf.key shared (S.x25519.bytes (S.x25519.publicKey eph) ++ S.x25519.bytes recipient) info
        keyLen = .ok key := by
  unfold deriveSealKey at h
  cases hshared : S.x25519.ecdh eph recipient with
  | error err => rw [hshared] at h; cases h
  | ok shared => rw [hshared] at h; exact ⟨shared, rfl, expandKey_ok h⟩

theorem deriveOpenKey_ok {priv : Priv} {ephPub : Pub}
    (h : deriveOpenKey S priv ephPub info = .ok key) :
    ∃ shared, S.x25519.ecdh priv ephPub = .ok shared ∧
      S.hkdf.key shared (S.x25519.bytes ephPub ++ S.x25519.bytes (S.x25519.publicKey priv)) info
        keyLen = .ok key := by
  unfold deriveOpenKey at h
  cases hshared : S.x25519.ecdh priv ephPub with
  | error err => rw [hshared] at h; cases h
  | ok shared => rw [hshared] at h; exact ⟨shared, rfl, expandKey_ok h⟩

theorem deriveOpenKey_eq (eph priv : Priv) (info : Bytes) :
    deriveOpenKey S priv (S.x25519.publicKey eph) info =
      deriveSealKey S eph (S.x25519.publicKey priv) info := by
  rw [deriveOpenKey, deriveSealKey, S.x25519.ecdh_comm]

theorem length_of_deriveSealKey {eph : Priv} {recipient : Pub}
    (h : deriveSealKey S eph recipient info = .ok key) : key.length = keyLen := by
  obtain ⟨shared, -, hkey⟩ := deriveSealKey_ok h
  exact S.hkdf.length_key hkey

/-- HKDF, which is no injection into 32 bytes, does not give one key for different inputs in the two
derivations. -/
def NoCollision (S : Suite Priv Pub) (eph : Priv) (recipient : Pub) (info : Bytes) (priv : Priv)
    (ephPub : Pub) (info' : Bytes) : Prop :=
  ∀ shared shared' key, S.x25519.ecdh eph recipient = .ok shared →
    S.x25519.ecdh priv ephPub = .ok shared' →
    S.hkdf.key shared (S.x25519.bytes (S.x25519.publicKey eph) ++ S.x25519.bytes recipient) info
      keyLen = .ok key →
    S.hkdf.key shared' (S.x25519.bytes ephPub ++ S.x25519.bytes (S.x25519.publicKey priv)) info'
      keyLen = .ok key →
    S.x25519.bytes (S.x25519.publicKey eph) ++ S.x25519.bytes recipient =
      S.x25519.bytes ephPub ++ S.x25519.bytes (S.x25519.publicKey priv) ∧ info = info'

/-- The opening side derives the sealing key only from the same public keys and the same info. -/
def KeyBound (S : Suite Priv Pub) (eph : Priv) (recipient : Pub) (info : Bytes) : Prop :=
  ∀ priv ephPub info' key, NoCollision S eph recipient info priv ephPub info' →
    deriveSealKey S eph recipient info = .ok key → deriveOpenKey S priv ephPub info' = .ok key →
    ephPub = S.x25519.publicKey eph ∧ S.x25519.publicKey priv = recipient ∧ info' = info

theorem keyBound (eph : Priv) (recipient : Pub) (info : Bytes) :
    KeyBound S eph recipient info := by
  intro priv ephPub info' key hno hseal hopen
  obtain ⟨shared, hshared, hkey⟩ := deriveSealKey_ok hseal
  obtain ⟨shared', hshared', hkey'⟩ := deriveOpenKey_ok hopen
  obtain ⟨hsalt, hinfo⟩ := hno shared shared' key hshared hshared' hkey hkey'
  obtain ⟨heph, hrecipient⟩ := salt_inj hsalt
  exact ⟨heph.symm, hrecipient.symm, hinfo.symm⟩

end Derivation

/-! ## Sealing and opening -/

section RoundTrip

variable {Priv Pub : Type} {S : Suite Priv Pub} {draw : Draw Priv}

theorem sealToPublicKey_ok {recipient : Pub} {plaintext blob : Bytes}
    (h : sealToPublicKey S draw (some recipient) plaintext aad info = .ok blob) :
    aad ≠ [] ∧ info ≠ [] ∧ ∃ eph key nonce, draw.key = .ok eph ∧
      deriveSealKey S eph recipient info = .ok key ∧ draw.nonce = .ok nonce ∧
      blob = S.x25519.bytes (S.x25519.publicKey eph) ++
        (nonce.bytes ++ S.gcm.sealWith key nonce.bytes plaintext aad) := by
  simp only [sealToPublicKey] at h
  split_ifs at h with haad hinfo
  cases heph : draw.key with
  | error err => rw [heph] at h; cases h
  | ok eph =>
    rw [heph] at h
    obtain ⟨key, hkey, h⟩ := bind_eq_ok.mp h
    obtain ⟨sealed, hsealed, h⟩ := bind_eq_ok.mp h
    obtain ⟨-, -, nonce, hnonce, rfl⟩ := sealWithAAD_ok hsealed
    exact ⟨haad, hinfo, eph, key, nonce, rfl, hkey, hnonce, (Except.ok.inj h).symm⟩

/-- The key is derived from the public key in front, and the rest goes to the AEAD. -/
theorem openWithPrivateKey_append (priv : Priv) (e : Pub) {ct : Bytes} (haad : aad ≠ [])
    (hinfo : info ≠ []) (hlong : aeadOverhead < ct.length) :
    openWithPrivateKey S (some priv) (S.x25519.bytes e ++ ct) aad info =
      (deriveOpenKey S priv e info).bind fun key => openWithAAD S.gcm key ct aad := by
  have hlength := S.x25519.length_bytes e
  have hblob : ¬ (S.x25519.bytes e ++ ct).length ≤ sealedOverhead := by
    rw [length_append, sealedOverhead]
    omega
  simp only [openWithPrivateKey, if_neg haad, if_neg hinfo, if_neg hblob,
    take_left' hlength, drop_left' hlength, S.x25519.newPublicKey_bytes]
  rfl

theorem openWithPrivateKey_short (priv : Priv) {blob : Bytes} (haad : aad ≠ [])
    (hinfo : info ≠ []) (hshort : blob.length ≤ sealedOverhead) :
    openWithPrivateKey S (some priv) blob aad info = .error .malformedCiphertext := by
  simp only [openWithPrivateKey, if_neg haad, if_neg hinfo, if_pos hshort]

/-- An accepted sealing is opened to its plaintext exactly if that was not empty; whatever is
sealed, no other public keys or info lead to its key. -/
theorem open_sealed_iff {priv : Priv} {plaintext aad info blob : Bytes}
    (h : sealToPublicKey S draw (some (S.x25519.publicKey priv)) plaintext aad info = .ok blob) :
    (openWithPrivateKey S (some priv) blob aad info = .ok plaintext ∧
      ∀ eph, draw.key = .ok eph → KeyBound S eph (S.x25519.publicKey priv) info) ↔
      plaintext ≠ [] := by
  obtain ⟨haad, hinfo, eph, key, nonce, -, hkey, -, rfl⟩ := sealToPublicKey_ok h
  have hct : (nonce.bytes ++ S.gcm.sealWith key nonce.bytes plaintext aad).length =
      aeadOverhead + plaintext.length := by
    rw [length_append, nonce.length_bytes, S.gcm.length_sealWith, nonceSize, overhead,
      aeadOverhead]
    omega
  constructor
  · -- an empty plaintext leaves the blob at the length that the guard refuses
    rintro ⟨hopen, -⟩ rfl
    rw [openWithPrivateKey_short priv haad hinfo] at hopen
    · cases hopen
    · rw [length_append, S.x25519.length_bytes, hct]
      exact le_refl _
  · intro hne
    have hpos := length_pos_iff.mpr hne
    refine ⟨?_, fun eph _ => keyBound eph _ info⟩
    rw [openWithPrivateKey_append priv _ haad hinfo (by omega), deriveOpenKey_eq, hkey]
    exact (openWithAAD_ok_iff (length_of_deriveSealKey hkey) haad nonce _).mpr rfl

end RoundTrip

/-! ## A suite to compute with

Keys are bytes and agreement is addition; the derived key and the tag are checksums.  It has none of
the strength of the real primitives and all of the laws. -/

def checksum (n : Nat) (bs : Bytes) : Bytes := List.replicate n bs.sum

@[simp] theorem length_checksum (n : Nat) (bs : Bytes) : (checksum n bs).length = n :=
  length_replicate

def toyX25519 : X25519 UInt8 UInt8 where
  publicKey a := a
  bytes a := List.replicate x25519KeyLen a
  newPublicKey bs := .ok (bs.headD 0)
  ecdh a b := .ok [a + b]
  length_bytes _ := List.length_replicate
  newPublicKey_bytes _ := rfl
  ecdh_comm a b := by rw [add_comm]

def toyHkdf : Hkdf where
  key secret salt info n := .ok (checksum n (secret ++ salt ++ info))
  length_key h := by rw [← Except.ok.inj h, length_checksum]

def toyOpen (ct aad : Bytes) : Option Bytes :=
  let pt := ct.take (ct.length - overhead)
  if ct = pt ++ checksum overhead aad then some pt else none

theorem toyOpen_iff {ct pt : Bytes} :
    toyOpen ct aad = some pt ↔ ct = pt ++ checksum overhead aad := by
  constructor
  · intro h
    simp only [toyOpen] at h
    split_ifs at h with hct
    rw [← Option.some.inj h]
    exact hct
  · rintro rfl
    have htake : (pt ++ checksum overhead aad).take
        ((pt ++ checksum overhead aad).length - overhead) = pt := by
      rw [length_append, length_checksum, Nat.add_sub_cancel, take_left' rfl]
    simp only [toyOpen, htake, if_pos]

def toyGcm : Gcm where
  sealWith _ _ pt aad := pt ++ checksum overhead aad
  openWith _ _ ct aad := toyOpen ct aad
  openWith_iff := toyOpen_iff
  length_sealWith _ _ pt aad := by rw [List.length_append, length_checksum]

def toySuite : Suite UInt8 UInt8 := ⟨toyX25519, toyHkdf, toyGcm⟩

def toyDraw : Draw UInt8 := ⟨.ok 7, .ok ⟨List.replicate nonceSize 5, List.length_replicate⟩⟩

/-- The empty plaintext is sealed, and what comes out is refused as too short. -/
theorem empty_sealed_not_opened : ∃ blob,
    sealToPublicKey toySuite toyDraw (some (toySuite.x25519.publicKey 3)) [] [1] [2] = .ok blob ∧
      openWithPrivateKey toySuite (some 3) blob [1] [2] = .error .malformedCiphertext :=
  ⟨replicate x25519KeyLen 7 ++ (replicate nonceSize 5 ++ checksum overhead [1]),
    by decide +kernel, by decide +kernel⟩

/-- One byte, sealed and opened. -/
theorem byte_sealed_opened : openWithPrivateKey toySuite (some 3)
    (replicate x25519KeyLen 7 ++ (replicate nonceSize 5 ++ (9 :: checksum overhead [1])))
      [1] [2] = .ok [9] := by
  have hseal : sealToPublicKey toySuite toyDraw (some (toySuite.x25519.publicKey 3)) [9] [1] [2] =
      .ok (replicate x25519KeyLen 7 ++
        (replicate nonceSize 5 ++ (9 :: checksum overhead [1]))) := by decide +kernel
  exact ((open_sealed_iff hseal).mpr (cons_ne_nil _ _)).1

end PowerManage.Crypto
