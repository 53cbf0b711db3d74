import PowerManage.Crypto.Continuity
import PowerManage.Lib.Interaction

/-!
# Trust anchors

`sys/catrust`: installing a CA certificate into the trust store of the system.  `Install` checks the
name and the certificate, writes the file as it was given and has the distribution's tool rebuild the
store from it; the tool imports every certificate block that it finds.

The check decodes the first block only.  So what is written brings in vetted CAs exactly if the blocks
after the first are vetted CAs too (`install_vetted_iff`), and a second block can be anything
(`smuggled_anchor`).
-/

namespace PowerManage.CaTrust

open Crypto Text Pem Interaction

/-! ## Backends -/

/-- The tool that builds the trust store of a distribution. -/
inductive Backend
  | caCertificates
  | p11Kit
  | suseCaCertificates
deriving DecidableEq

/-- Where the anchors of a backend may be, and the commands that rebuild its store. -/
structure BackendConfig where
  anchorsDirs : List Str
  installRefresh : List Str
  removeRefresh : List Str

/-- The directories and commands of each backend. -/
def backends : Backend → BackendConfig
  | .caCertificates =>
    ⟨["/usr/local/share/ca-certificates"], ["update-ca-certificates"],
      ["update-ca-certificates", "--fresh"]⟩
  | .p11Kit =>
    ⟨["/etc/pki/ca-trust/source/anchors", "/etc/ca-certificates/trust-source/anchors"],
      ["update-ca-trust", "extract"], ["update-ca-trust", "extract"]⟩
  | .suseCaCertificates =>
    ⟨["/etc/pki/trust/anchors"], ["update-ca-certificates"],
      ["update-ca-certificates"]⟩

/-- A backend and the directory of its anchors. -/
structure Manager where
  cfg : BackendConfig
  anchorsDir : Str

def resolveAnchorsDir (dirExists : Str → Bool) (candidates : List Str) : Str :=
  (candidates.find? dirExists).getD (candidates.headD [])

/-- `New`, for a backend that is known. -/
def newManager (dirExists : Str → Bool) (b : Backend) : Manager :=
  ⟨backends b, resolveAnchorsDir dirExists (backends b).anchorsDirs⟩

/-! ## Validation -/

/-- What `Install` may refuse or fail with. -/
inductive AnchorError
  | invalidName (name : Str)
  | notCertificateBlock
  | malformed (err : String)
  | notCA (commonName : Str)
  | noCertSign (commonName : Str)
  | notYetValid (notBefore : Int)
  | expired (notAfter : Int)
  | write (path : Str) (err : String)
  | run (cmd : Str) (err : String)
  | command (cmd : Str) (exitCode : Int) (stderr : Str)
deriving DecidableEq

/-- The texts; how a time is written is a parameter, and so is `exec.CommandError`. -/
def AnchorError.message (utc : Int → Str)
    (commandError : Str → Int → Str → Str) : AnchorError → Str
  | invalidName name => "catrust: invalid anchor name: " ++ quote name ++
      " (use [A-Za-z0-9._-], no '/' or '..')"
  | notCertificateBlock =>
    "catrust: invalid CA certificate: input is not a PEM CERTIFICATE block"
  | malformed err => "catrust: invalid CA certificate: " ++ err.toList
  | notCA commonName => "catrust: invalid CA certificate: certificate " ++ quote commonName ++
      " is not a CA (BasicConstraints CA=false)"
  | noCertSign commonName => "catrust: invalid CA certificate: certificate " ++
      quote commonName ++ " lacks the keyCertSign key usage (not a usable CA)"
  | notYetValid notBefore =>
    "catrust: invalid CA certificate: certificate is not valid until " ++ utc notBefore
  | expired notAfter =>
    "catrust: invalid CA certificate: certificate expired on " ++ utc notAfter
  | write path err => "catrust: write " ++ path ++ ": " ++ err.toList
  | run cmd err => "catrust: run " ++ cmd ++ ": " ++ err.toList
  | command cmd exitCode stderr => commandError cmd exitCode stderr

def isAnchorChar (c : Char) : Bool := c.isAlphanum || c = '.' || c = '_' || c = '-'

/-- `^[a-zA-Z0-9][a-zA-Z0-9._-]{0,62}$`. -/
def validName : Str → Bool
  | [] => false
  | c :: rest => c.isAlphanum && decide (rest.length ≤ 62) && rest.all isAnchorChar

/-- `none` is the nil error. -/
def validateName (name : Str) : Option AnchorError :=
  if validName name = false ∨ Text.contains name ['.', '.'] = true then some (.invalidName name)
  else none

section

variable (P : Decoder) (X : X509)

def parseCert (certPEM : Bytes) : Except AnchorError Certificate :=
  match P.decode certPEM with
  | none => .error .notCertificateBlock
  | some (block, _) =>
    if block.type ≠ certificateType then .error .notCertificateBlock
    else
      match X.parseCertificate block.bytes with
      | .error err => .error (.malformed err)
      | .ok cert => .ok cert

/-- Only the first block is looked at. -/
def validateCACert (now : Int) (certPEM : Bytes) : Option AnchorError :=
  match parseCert P X certPEM with
  | .error err => some err
  | .ok cert =>
    if cert.isCA = false then some (.notCA cert.commonName)
    else if cert.certSign = false then some (.noCertSign cert.commonName)
    else if now < cert.notBefore then some (.notYetValid cert.notBefore)
    else if now > cert.notAfter then some (.expired cert.notAfter)
    else none

/-! ## Installing -/

/-- What the manager asks of the host. -/
inductive Query
  | writeFile (path : Str) (data : Bytes)
  | run (cmd : List Str)

/-- How a command has ended. -/
structure RunResult where
  exitCode : Int
  stderr : Str

def Answer : Query → Type
  | .writeFile _ _ => Option String
  | .run _ => Except String RunResult

def Manager.anchorPath (m : Manager) (name : Str) : Str :=
  m.anchorsDir ++ '/' :: name ++ ".crt"

/-- The trust store is built anew from the anchors. -/
def refresh (cmd : List Str) : Prog Query Answer (Option AnchorError) :=
  .ask (.run cmd) fun res =>
    match res with
    | .error err => .ret (some (.run (cmd.headD []) err))
    | .ok res =>
      if res.exitCode ≠ 0 then .ret (some (.command (cmd.headD []) res.exitCode res.stderr))
      else .ret none

/-- `Install`, at the time `now`. -/
def install (m : Manager) (now : Int) (name : Str) (certPEM : Bytes) :
    Prog Query Answer (Option AnchorError) :=
  match validateName name with
  | some err => .ret (some err)
  | none =>
    match validateCACert P X now certPEM with
    | some err => .ret (some err)
    | none =>
      .ask (.writeFile (m.anchorPath name) certPEM) fun err =>
        match err with
        | some err => .ret (some (.write (m.anchorPath name) err))
        | none => refresh m.cfg.installRefresh

/-! ## What is written -/

/-- A block that passes every check of `ValidateCACert`. -/
def Vetted (now : Int) (b : Block) : Prop :=
  ∃ c, X.parseCertificate b.bytes = .ok c ∧ c.isCA = true ∧ c.certSign = true ∧
    c.notBefore ≤ now ∧ now ≤ c.notAfter

end

section

variable {P : Decoder} {X : X509} {m : Manager} {now : Int} {name path : Str}
  {certPEM data : Bytes}

theorem vetted_of_validateCACert (h : validateCACert P X now certPEM = none) :
    ∃ block rest, P.decode certPEM = some (block, rest) ∧ Vetted X now block := by
  unfold validateCACert at h
  split at h
  · cases h
  rename_i cert hcert
  split_ifs at h with hca hsign hbefore hafter
  unfold parseCert at hcert
  split at hcert
  · cases hcert
  rename_i block rest hdecode
  split_ifs at hcert
  split at hcert
  · cases hcert
  rename_i cert' hparse
  cases hcert
  exact ⟨block, rest, hdecode, cert, hparse, Bool.eq_true_of_not_eq_false hca,
    Bool.eq_true_of_not_eq_false hsign, by omega, by omega⟩

theorem not_puts_write_refresh (cmd : List Str) :
    ¬ (refresh cmd).Puts (.writeFile path data) := by
  intro h
  cases h with
  | later x h =>
    cases x with
    | error err => cases h
    | ok res =>
      dsimp only at h
      split_ifs at h <;> cases h

theorem validated_of_install (h : (install P X m now name certPEM).Puts (.writeFile path data)) :
    validateName name = none ∧ path = m.anchorPath name ∧ data = certPEM ∧
      validateCACert P X now certPEM = none := by
  unfold install at h
  split at h
  · cases h
  rename_i hname
  split at h
  · cases h
  rename_i hcert
  cases h with
  | here => exact ⟨hname, rfl, rfl, hcert⟩
  | later err h =>
    cases err with
    | some err => cases h
    | none => exact absurd h (not_puts_write_refresh _)

/-- Every certificate block of what `Install` writes is a vetted CA if and only if those after the
first block are. -/
theorem install_vetted_iff
    (h : (install P X m now name certPEM).Puts (.writeFile path data)) :
    (∀ b ∈ P.blocks data, b.type = certificateType → Vetted X now b) ↔
      ∀ b ∈ (P.blocks certPEM).tail, b.type = certificateType → Vetted X now b := by
  obtain ⟨-, -, rfl, hcert⟩ := validated_of_install h
  obtain ⟨block, rest, hdecode, hvetted⟩ := vetted_of_validateCACert hcert
  rw [Decoder.blocks_of_some hdecode, List.forall_mem_cons]
  constructor
  · rintro ⟨-, hrest⟩
    exact hrest
  · intro hrest
    exact ⟨fun _ => hvetted, hrest⟩

end

/-! ## A file with two certificates -/

def debian : Manager := newManager (fun _ => true) .caCertificates

/-- A server certificate after a CA is written with it, and the system's tool is given both. -/
theorem smuggled_anchor :
    (install standard toyX509 debian 50 "corp" (rootPEM ++ serverPEM)).Puts
        (.writeFile "/usr/local/share/ca-certificates/corp.crt" (rootPEM ++ serverPEM)) ∧
      ∃ b ∈ standard.blocks (rootPEM ++ serverPEM), b.type = certificateType ∧
        ¬ Vetted toyX509 50 b := by
  have hfirst : standard.decode (rootPEM ++ serverPEM) =
      some (⟨certificateType, [], [1]⟩, serverPEM) := by decide +kernel
  have hserver : standard.decode serverPEM = some (⟨certificateType, [], [2]⟩, []) := by
    decide +kernel
  constructor
  · exact .here
  · refine ⟨⟨certificateType, [], [2]⟩, ?_, rfl, ?_⟩
    · rw [Decoder.blocks_of_some hfirst, Decoder.blocks_of_some hserver]
      exact List.mem_cons_of_mem _ List.mem_cons_self
    · rintro ⟨c, hparse, hca, -⟩
      cases hparse
      cases hca

/-- Two CAs in one file. -/
theorem two_roots_vetted :
    (install standard toyX509 debian 50 "corp" (rootPEM ++ otherRootPEM)).Puts
        (.writeFile (debian.anchorPath "corp") (rootPEM ++ otherRootPEM)) ∧
      ∀ b ∈ standard.blocks (rootPEM ++ otherRootPEM), b.type = certificateType →
        Vetted toyX509 50 b := by
  have hfirst : standard.decode (rootPEM ++ otherRootPEM) =
      some (⟨certificateType, [], [1]⟩, otherRootPEM) := by decide +kernel
  have hother : standard.decode otherRootPEM = some (⟨certificateType, [], [3]⟩, []) := by
    decide +kernel
  have hputs : (install standard toyX509 debian 50 "corp" (rootPEM ++ otherRootPEM)).Puts
      (.writeFile (debian.anchorPath "corp") (rootPEM ++ otherRootPEM)) := .here
  refine ⟨hputs, (install_vetted_iff hputs).mpr ?_⟩
  rw [Decoder.blocks_of_some hfirst, Decoder.blocks_of_some hother,
    Decoder.blocks_of_none decode_nil]
  intro b hb _
  obtain rfl := List.mem_singleton.mp hb
  exact ⟨_, rfl, rfl, rfl, by decide, by decide⟩

end PowerManage.CaTrust
