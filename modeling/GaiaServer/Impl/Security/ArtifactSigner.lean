import GaiaServer.Impl.Exceptions

/-!
# Signed artifacts

`gaia_server/security/pqc_profile.py`, its keys and signatures, and
`gaia_server/security/artifact_signer.py`. SHA-256 and HMAC-SHA256 are
parameters. What a method draws at random or reads off the clock is an argument
of it, and log lines are left out.
-/

namespace Gaia.Security

/-- The hash functions the module imports. -/
structure Hashes where
  sha256 : Bytes → Bytes
  /-- `hmac.new(key, msg, hashlib.sha256).digest()`. -/
  hmac : Bytes → Bytes → Bytes

structure KEMResult where
  ciphertext : Bytes
  sharedSecret : Bytes
  algorithm : String := "ML-KEM-768"

structure SignatureResult where
  signature : Bytes
  algorithm : String := "ML-DSA-65"
  signerId : String := ""

structure VerificationResult where
  verified : Bool
  algorithm : String
  reason : String := ""
  deriving DecidableEq

/-! ## The profile -/

structure PQCProfile where
  backend : String := "software-stub"
  signerId : String := ""

/-- What `os.urandom(n)` can return. -/
abbrev Urandom (n : Nat) := { b : Bytes // b.length = n }

namespace PQCProfile

variable (p : PQCProfile) (H : Hashes)

/-- The public and the private key, drawn at random. -/
def generateKemKeypair (pub priv : Urandom 32) : Except Exc (Bytes × Bytes) :=
  if p.backend = "software-stub" then .ok (pub, priv)
  else .error ⟨.notImplementedError,
    "openssl35 KEM keygen not yet wired - use EVP_PKEY_keygen with ML-KEM-768"⟩

/-- The secret is made with 16 bytes drawn at random, the ciphertext is 48 others. -/
def kemEncapsulate (peerPublicKey : Bytes) (nonce : Urandom 16) (ciphertext : Urandom 48) :
    Except Exc KEMResult :=
  if p.backend = "software-stub" then
    .ok { ciphertext := ciphertext, sharedSecret := H.sha256 (peerPublicKey ++ nonce) }
  else .error ⟨.notImplementedError, "openssl35 KEM encapsulate not yet wired"⟩

def kemDecapsulate (privateKey ciphertext : Bytes) : Except Exc Bytes :=
  if p.backend = "software-stub" then .ok (H.sha256 (privateKey ++ ciphertext))
  else .error ⟨.notImplementedError, "openssl35 KEM decapsulate not yet wired"⟩

/-- The public and the private key, drawn at random. -/
def generateSigKeypair (pub : Urandom 32) (priv : Urandom 64) : Except Exc (Bytes × Bytes) :=
  if p.backend = "software-stub" then .ok (pub, priv)
  else .error ⟨.notImplementedError, "openssl35 DSA keygen not yet wired"⟩

def signArtifact (privateKey payload : Bytes) : Except Exc SignatureResult :=
  if p.backend = "software-stub" then
    .ok { signature := H.hmac privateKey payload, signerId := p.signerId }
  else .error ⟨.notImplementedError, "openssl35 DSA signing not yet wired"⟩

def verifyArtifact (publicKey payload signature : Bytes) : Except Exc VerificationResult :=
  if p.backend = "software-stub" then
    let expected := H.hmac publicKey payload
    let verified : Bool := signature = expected
    .ok {
      verified := verified
      algorithm := "ML-DSA-65-stub"
      reason := if verified then "" else "signature mismatch (stub)" }
  else .error ⟨.notImplementedError, "openssl35 DSA verification not yet wired"⟩

end PQCProfile

/-! ## The signer -/

structure SignedArtifact where
  artifactKind : String
  payloadDigest : String
  payload : PyVal
  signature : Bytes
  algorithm : String
  signerId : String
  /-- A unix timestamp. -/
  signedAt : Rat
  manifestVersion : Int := 1
  sequence : Int := 0
  kemMetadata : String := "ML-KEM-768"
  notes : List String := []

structure ArtifactSigner where
  pqc : PQCProfile
  privateKey : Bytes
  publicKey : Bytes
  sequence : Int := 0

namespace ArtifactSigner

/-- `json.dumps(payload, sort_keys=True, default=str).encode()`. -/
def canonical (payload : PyVal) : Except Exc Bytes :=
  (jsonDumps { sortKeys := true, defaultStr := true } payload).map encode

variable (s : ArtifactSigner) (H : Hashes)

/-- The artifact, and the signer with its sequence advanced. -/
def sign (artifactKind : String) (payload : PyVal) (now : Rat) :
    Except Exc (SignedArtifact × ArtifactSigner) := do
  let canonical ← canonical payload
  let digest := hexdigest (H.sha256 canonical)
  let sigResult ← s.pqc.signArtifact H s.privateKey canonical
  let sequence := s.sequence + 1
  let artifact : SignedArtifact := {
    artifactKind := artifactKind
    payloadDigest := digest
    payload := payload
    signature := sigResult.signature
    algorithm := sigResult.algorithm
    signerId := if sigResult.signerId = "" then s.pqc.signerId else sigResult.signerId
    signedAt := now
    sequence := sequence }
  return (artifact, { s with sequence := sequence })

def verify (artifact : SignedArtifact) : Except Exc VerificationResult := do
  let canonical ← canonical artifact.payload
  let recomputedDigest := hexdigest (H.sha256 canonical)
  if recomputedDigest ≠ artifact.payloadDigest then
    return {
      verified := false
      algorithm := artifact.algorithm
      reason := "payload digest mismatch" }
  s.pqc.verifyArtifact H s.publicKey canonical artifact.signature

end ArtifactSigner

end Gaia.Security
