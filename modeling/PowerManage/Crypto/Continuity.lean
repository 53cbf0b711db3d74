import PowerManage.Crypto.Aead
import PowerManage.Lib.Pem

/-!
# Rotating the CA

`crypto/cert.go` decides whether the CA of a renewed certificate may take the place of the enrolled
one.  What is then trusted is decided elsewhere: `WithMTLSFromPEM` loads every certificate of the
file into its pool.

`VerifyCAContinuity` decodes one block of the new file and asks of its certificate that the enrolled
CA signed it.  Nothing is asked of the blocks after it, and nothing of what the new certificate may
be used for (`swapped_anchor`).  `pool_continuous_iff` says that this is all that is missing.  PEM
decoding and the parts of `crypto/x509` that read DER and check signatures are parameters.
-/

namespace PowerManage.Crypto

open Text Pem

/-! ## Certificates -/

/-- The fields of an `x509.Certificate` that are read; times are seconds. -/
structure Certificate where
  raw : Bytes
  version : Nat
  commonName : Str
  basicConstraintsValid : Bool
  isCA : Bool
  /-- The bits of `KeyUsage`; 0 if the certificate does not say. -/
  keyUsage : Nat
  notBefore : Int
  notAfter : Int
deriving DecidableEq

def Certificate.certSign (c : Certificate) : Bool := c.keyUsage.testBit 5

def Certificate.maySign (c : Certificate) : Bool := c.keyUsage = 0 || c.certSign

/-- What is used of `crypto/x509`. -/
structure X509 where
  parseCertificate : Bytes → Except String Certificate
  /-- The signature on the first certificate under the key of the second; `none` is the nil error. -/
  checkSignature : Certificate → Certificate → Option String
  raw_parseCertificate : ∀ {der : Bytes} {c : Certificate},
    parseCertificate der = .ok c → c.raw = der

def constraintSignatureError : String :=
  "x509: invalid signature: parent certificate cannot sign this kind of certificate"

/-- `CheckSignatureFrom`, as it is documented: the parent has to be a CA that may sign. -/
def X509.checkSignatureFrom (X : X509) (c parent : Certificate) : Option String :=
  if (parent.version = 3 ∧ parent.basicConstraintsValid = false) ∨
      (parent.basicConstraintsValid = true ∧ parent.isCA = false) then
    some constraintSignatureError
  else if parent.maySign = false then some constraintSignatureError
  else X.checkSignature c parent

def certificateType : Bytes := ascii "CERTIFICATE"

/-- What the loop of `AppendCertsFromPEM` does with a block. -/
def load (X : X509) (b : Block) : Option Certificate :=
  if b.type ≠ certificateType ∨ b.headers ≠ [] then none
  else
    match X.parseCertificate b.bytes with
    | .error _ => none
    | .ok c => some c

/-- The certificates that `AppendCertsFromPEM` adds to the pool. -/
def appendCertsFromPEM (P : Decoder) (X : X509) (pem : Bytes) : List Certificate :=
  (P.blocks pem).filterMap (load X)

theorem load_eq_some {X : X509} {b : Block} {c : Certificate} (h : load X b = some c) :
    X.parseCertificate b.bytes = .ok c := by
  unfold load at h
  split_ifs at h
  cases hparse : X.parseCertificate b.bytes with
  | error e => rw [hparse] at h; cases h
  | ok c' => rw [hparse] at h; rw [Option.some.inj h]

/-! ## The check -/

/-- Why `VerifyCAContinuity` refuses. -/
inductive ContinuityError
  | newEmpty
  | oldDecode
  | newDecode
  | oldParse (err : String)
  | newParse (err : String)
  | notChained (err : String)
deriving DecidableEq

def ContinuityError.message : ContinuityError → String
  | newEmpty => "new CA is empty"
  | oldDecode => "enrolled CA: failed to decode PEM"
  | newDecode => "new CA: failed to decode PEM"
  | oldParse err => "enrolled CA: " ++ err
  | newParse err => "new CA: " ++ err
  | notChained err => "new CA does not chain to the enrolled CA: " ++ err

/-- `none` is the nil error. -/
def verifyCAContinuity (P : Decoder) (X : X509) (oldCAPEM newCAPEM : Bytes) :
    Option ContinuityError :=
  if newCAPEM = [] then some .newEmpty
  else
    match P.decode oldCAPEM with
    | none => some .oldDecode
    | some (oldBlock, _) =>
      match P.decode newCAPEM with
      | none => some .newDecode
      | some (newBlock, _) =>
        if oldBlock.bytes = newBlock.bytes then none
        else
          match X.parseCertificate oldBlock.bytes with
          | .error err => some (.oldParse err)
          | .ok oldCert =>
            match X.parseCertificate newBlock.bytes with
            | .error err => some (.newParse err)
            | .ok newCert =>
              match X.checkSignatureFrom newCert oldCert with
              | some err => some (.notChained err)
              | none => none

/-! ## What the check covers -/

/-- The certificate may sign others. -/
def Certificate.IsAuthority (c : Certificate) : Prop :=
  c.basicConstraintsValid = true ∧ c.isCA = true ∧ c.maySign = true

/-- The certificate is the enrolled one, or a CA of its own that the enrolled one signed. -/
def Continuous (X : X509) (enrolled : Bytes) (c : Certificate) : Prop :=
  c.raw = enrolled ∨
    c.IsAuthority ∧ ∃ ca, X.parseCertificate enrolled = .ok ca ∧ X.checkSignatureFrom c ca = none

/-- Everything that becomes trusted is continuous with the enrolled certificate. -/
def PoolContinuous (P : Decoder) (X : X509) (oldCAPEM newCAPEM : Bytes) : Prop :=
  ∀ enrolled rest, P.decode oldCAPEM = some (enrolled, rest) →
    ∀ c ∈ appendCertsFromPEM P X newCAPEM, Continuous X enrolled.bytes c

/-- What the check leaves open: that a first certificate of its own is an authority, and that the
others are continuous. -/
def Unchecked (P : Decoder) (X : X509) (oldCAPEM newCAPEM : Bytes) : Prop :=
  ∀ enrolled rest, P.decode oldCAPEM = some (enrolled, rest) →
    (∀ b ∈ (P.blocks newCAPEM).head?, ∀ c ∈ load X b, c.raw ≠ enrolled.bytes → c.IsAuthority) ∧
      ∀ b ∈ (P.blocks newCAPEM).tail, ∀ c ∈ load X b, Continuous X enrolled.bytes c

section

variable {P : Decoder} {X : X509} {oldCAPEM newCAPEM : Bytes}

theorem verifyCAContinuity_eq_none (h : verifyCAContinuity P X oldCAPEM newCAPEM = none) :
    ∃ oldBlock oldRest newBlock newRest, P.decode oldCAPEM = some (oldBlock, oldRest) ∧
      P.decode newCAPEM = some (newBlock, newRest) ∧
      (oldBlock.bytes = newBlock.bytes ∨
        ∃ oldCert newCert, X.parseCertificate oldBlock.bytes = .ok oldCert ∧
          X.parseCertificate newBlock.bytes = .ok newCert ∧
          X.checkSignatureFrom newCert oldCert = none) := by
  unfold verifyCAContinuity at h
  split_ifs at h
  split at h
  · cases h
  rename_i oldBlock oldRest hold
  split at h
  · cases h
  rename_i newBlock newRest hnew
  refine ⟨oldBlock, oldRest, newBlock, newRest, hold, hnew, ?_⟩
  split_ifs at h with hsame
  · exact .inl hsame
  split at h
  · cases h
  rename_i oldCert holdCert
  split at h
  · cases h
  rename_i newCert hnewCert
  split at h
  · cases h
  · rename_i hsigned
    exact .inr ⟨oldCert, newCert, holdCert, hnewCert, hsigned⟩

theorem continuous_first {oldBlock newBlock : Block} {c : Certificate}
    (haccepted : oldBlock.bytes = newBlock.bytes ∨
      ∃ oldCert newCert, X.parseCertificate oldBlock.bytes = .ok oldCert ∧
        X.parseCertificate newBlock.bytes = .ok newCert ∧
        X.checkSignatureFrom newCert oldCert = none)
    (hload : load X newBlock = some c) :
    Continuous X oldBlock.bytes c ↔ (c.raw ≠ oldBlock.bytes → c.IsAuthority) := by
  have hparse := load_eq_some hload
  constructor
  · rintro (hraw | ⟨hauthority, -⟩) hne
    · exact absurd hraw hne
    · exact hauthority
  · intro hauthority
    rcases haccepted with hsame | ⟨oldCert, newCert, hold, hnew, hsigned⟩
    · exact .inl ((X.raw_parseCertificate hparse).trans hsame.symm)
    rw [hparse] at hnew
    obtain rfl := Except.ok.inj hnew
    by_cases hraw : c.raw = oldBlock.bytes
    · exact .inl hraw
    · exact .inr ⟨hauthority hraw, oldCert, hold, hsigned⟩

/-- Of an accepted file, all that becomes trusted is continuous with the enrolled CA if and only if
that is so of what the check does not look at. -/
theorem pool_continuous_iff (h : verifyCAContinuity P X oldCAPEM newCAPEM = none) :
    PoolContinuous P X oldCAPEM newCAPEM ↔ Unchecked P X oldCAPEM newCAPEM := by
  obtain ⟨oldBlock, oldRest, newBlock, newRest, hold, hnew, haccepted⟩ :=
    verifyCAContinuity_eq_none h
  have hblocks := Decoder.blocks_of_some hnew
  have henrolled : ∀ {Q : Block → Prop},
      (∀ enrolled rest, P.decode oldCAPEM = some (enrolled, rest) → Q enrolled) ↔ Q oldBlock := by
    intro Q
    constructor
    · intro hQ
      exact hQ oldBlock oldRest hold
    · intro hQ enrolled rest heq
      rw [hold] at heq
      cases heq
      exact hQ
  rw [PoolContinuous, Unchecked, henrolled, henrolled, appendCertsFromPEM, hblocks]
  simp only [List.head?_cons, List.tail_cons, Option.mem_def, Option.some.injEq, forall_eq',
    List.mem_filterMap, List.mem_cons]
  constructor
  · intro hall
    refine ⟨fun c hload => ?_, fun b hb c hload => hall c ⟨b, .inr hb, hload⟩⟩
    exact (continuous_first haccepted hload).mp (hall c ⟨newBlock, .inl rfl, hload⟩)
  · rintro ⟨hfirst, hothers⟩ c ⟨b, rfl | hb, hload⟩
    · exact (continuous_first haccepted hload).mpr (hfirst c hload)
    · exact hothers b hb c hload

end

/-! ## Three certificates -/

def toyX509 : X509 where
  parseCertificate der :=
    match der with
    | [1] => .ok ⟨[1], 3, "root", true, true, 32, 0, 100⟩
    | [2] => .ok ⟨[2], 3, "server", true, false, 1, 0, 100⟩
    | [3] => .ok ⟨[3], 3, "other root", true, true, 32, 0, 100⟩
    | _ => .error "x509: malformed certificate"
  checkSignature c parent :=
    if parent.raw = [1] ∧ (c.raw = [1] ∨ c.raw = [2]) then none
    else some "x509: ECDSA verification failure"
  raw_parseCertificate := by
    intro der c h
    split at h <;> cases h <;> rfl

def certificatePEM (body : String) : Bytes :=
  ascii ("-----BEGIN CERTIFICATE-----\n" ++ body.toList ++
    "\n-----END CERTIFICATE-----\n")

def rootPEM : Bytes := certificatePEM "AQ=="

def serverPEM : Bytes := certificatePEM "Ag=="

def otherRootPEM : Bytes := certificatePEM "Aw=="

theorem decode_nil : standard.decode [] = none := by decide +kernel

theorem decode_rootPEM : standard.decode rootPEM = some (⟨certificateType, [], [1]⟩, []) := by
  decide +kernel

/-- Behind the enrolled certificate the file brings somebody else's root into the pool; and a server
certificate that the enrolled CA signed is accepted as the new CA. -/
theorem swapped_anchor :
    (verifyCAContinuity standard toyX509 rootPEM (rootPEM ++ otherRootPEM) = none ∧
      ¬ PoolContinuous standard toyX509 rootPEM (rootPEM ++ otherRootPEM)) ∧
    verifyCAContinuity standard toyX509 rootPEM serverPEM = none ∧
      ¬ PoolContinuous standard toyX509 rootPEM serverPEM := by
  have hfirst : standard.decode (rootPEM ++ otherRootPEM) =
      some (⟨certificateType, [], [1]⟩, otherRootPEM) := by decide +kernel
  have hother : standard.decode otherRootPEM = some (⟨certificateType, [], [3]⟩, []) := by
    decide +kernel
  have hserver : standard.decode serverPEM = some (⟨certificateType, [], [2]⟩, []) := by
    decide +kernel
  refine ⟨⟨by decide +kernel, fun hpool => ?_⟩, by decide +kernel, fun hpool => ?_⟩
  · have hmem : (⟨[3], 3, "other root", true, true, 32, 0, 100⟩ : Certificate) ∈
        appendCertsFromPEM standard toyX509 (rootPEM ++ otherRootPEM) := by
      rw [appendCertsFromPEM, Decoder.blocks_of_some hfirst, Decoder.blocks_of_some hother,
        Decoder.blocks_of_none decode_nil]
      decide +kernel
    rcases hpool _ _ decode_rootPEM _ hmem with hraw | ⟨-, ca, hca, hsigned⟩
    · cases hraw
    · cases hca
      cases hsigned
  · have hmem : (⟨[2], 3, "server", true, false, 1, 0, 100⟩ : Certificate) ∈
        appendCertsFromPEM standard toyX509 serverPEM := by
      rw [appendCertsFromPEM]
      decide +kernel
    rcases hpool _ _ decode_rootPEM _ hmem with hraw | ⟨⟨-, hca, -⟩, -⟩
    · cases hraw
    · cases hca

/-- The enrolled CA twice in one file. -/
theorem same_root_continuous :
    PoolContinuous standard toyX509 rootPEM (rootPEM ++ rootPEM) := by
  have haccepted : verifyCAContinuity standard toyX509 rootPEM (rootPEM ++ rootPEM) = none := by
    decide +kernel
  have hfirst : standard.decode (rootPEM ++ rootPEM) =
      some (⟨certificateType, [], [1]⟩, rootPEM) := by decide +kernel
  refine (pool_continuous_iff haccepted).mpr ?_
  intro enrolled rest henrolled
  rw [decode_rootPEM] at henrolled
  cases henrolled
  rw [Decoder.blocks_of_some hfirst, Decoder.blocks_of_some decode_rootPEM,
    Decoder.blocks_of_none decode_nil]
  constructor
  · rintro b ⟨⟩ c hload hne
    exact absurd (toyX509.raw_parseCertificate (load_eq_some hload)) hne
  · intro b hb c hload
    obtain rfl := List.mem_singleton.mp hb
    exact .inl (toyX509.raw_parseCertificate (load_eq_some hload))

end PowerManage.Crypto
