import GaiaServer.Impl.Security.ArtifactSigner
import Mathlib.Logic.Function.Basic

/-!
# What a signature protects

`sign` tags the canonical payload under the private key (`sign_spec`), and
`verify` accepts an artifact whose digest and tag under the public key are those
of its canonical payload (`verify_spec`). So an artifact of one's own is accepted
exactly if the keys give the same tag (`signature_correct_iff`), and of an
accepted artifact, the digest and the canonical payload are protected, and the
kind, the time, the KEM metadata and the notes are not (`tamper_evident`).
-/

namespace Gaia.Security

open ArtifactSigner

variable {H : Hashes} {p : PQCProfile} {s s' : ArtifactSigner} {a b : SignedArtifact}

/-- What `sign` returns, it signed with the stub. -/
theorem sign_spec {kind : String} {payload : PyVal} {now : Rat}
    (h : s.sign H kind payload now = .ok (a, s')) :
    s.pqc.backend = "software-stub" ∧ s'.pqc = s.pqc ∧ s'.publicKey = s.publicKey ∧
      ∃ c, canonical a.payload = .ok c ∧ a.payloadDigest = hexdigest (H.sha256 c) ∧
        a.signature = H.hmac s.privateKey c := by
  simp only [sign, bind, Except.bind, pure, Except.pure, PQCProfile.signArtifact] at h
  cases hc : canonical payload with
  | error e => rw [hc] at h; cases h
  | ok c =>
    rw [hc] at h
    dsimp only at h
    by_cases hb : s.pqc.backend = "software-stub"
    · rw [if_pos hb] at h
      cases h
      exact ⟨hb, rfl, rfl, c, hc, rfl, rfl⟩
    · rw [if_neg hb] at h
      cases h

/-- With the stub, `verify` returns on every payload that serializes. -/
theorem verify_spec (hb : s.pqc.backend = "software-stub") {c : Bytes}
    (hc : canonical a.payload = .ok c) :
    ∃ r, s.verify H a = .ok r ∧ (r.verified = true ↔
      a.payloadDigest = hexdigest (H.sha256 c) ∧ a.signature = H.hmac s.publicKey c) := by
  simp only [verify, bind, Except.bind, hc, PQCProfile.verifyArtifact]
  by_cases hd : hexdigest (H.sha256 c) = a.payloadDigest
  · rw [if_neg (not_not.mpr hd), if_pos hb]
    exact ⟨_, rfl, by simp [hd]⟩
  · rw [if_pos hd]
    exact ⟨_, rfl, by simp [Ne.symm hd]⟩

/-! ## Signature correctness -/

/-- A signer with the key pair accepts its own artifacts, and the profile accepts
a signature exactly if it is the one that signing gives. -/
structure SignatureCorrect (H : Hashes) (p : PQCProfile) (pub priv : Bytes) : Prop where
  own : ∀ kind payload now n a s',
    (ArtifactSigner.mk p priv pub n).sign H kind payload now = .ok (a, s') →
      ∃ r, s'.verify H a = .ok r ∧ r.verified = true
  exact : ∀ payload signature,
    (∃ r, p.verifyArtifact H pub payload signature = .ok r ∧ r.verified = true) ↔
      ∃ r, p.signArtifact H priv payload = .ok r ∧ r.signature = signature

theorem generateSigKeypair_spec {r₁ : Urandom 32} {r₂ : Urandom 64} {pub priv : Bytes}
    (h : p.generateSigKeypair r₁ r₂ = .ok (pub, priv)) : p.backend = "software-stub" := by
  by_contra hb
  rw [PQCProfile.generateSigKeypair, if_neg hb] at h
  cases h

/-- For a generated key pair, signatures are correct exactly if both keys give
every payload the same tag. -/
theorem signature_correct_iff {r₁ : Urandom 32} {r₂ : Urandom 64} {pub priv : Bytes}
    (h : p.generateSigKeypair r₁ r₂ = .ok (pub, priv)) :
    SignatureCorrect H p pub priv ↔ ∀ m, H.hmac pub m = H.hmac priv m := by
  have hb := generateSigKeypair_spec h
  constructor
  · intro hs m
    obtain ⟨r, hr, ht⟩ := (hs.exact m (H.hmac pub m)).mp
      ⟨_, by rw [PQCProfile.verifyArtifact, if_pos hb], by simp⟩
    rw [PQCProfile.signArtifact, if_pos hb] at hr
    cases hr
    exact ht.symm
  · intro hm
    refine ⟨fun kind payload now n a s' hs => ?_, fun payload signature => ?_⟩
    · obtain ⟨-, hp, hk, c, hc, hd, hg⟩ := sign_spec hs
      obtain ⟨r, hr, hv⟩ := verify_spec (s := s') (H := H) (hp ▸ hb) hc
      refine ⟨r, hr, hv.mpr ⟨hd, ?_⟩⟩
      rw [hg, hk]
      exact (hm c).symm
    · rw [PQCProfile.verifyArtifact, PQCProfile.signArtifact, if_pos hb, if_pos hb]
      simp only [Except.ok.injEq, exists_eq_left', decide_eq_true_eq, hm]
      exact eq_comm

/-- A private key that is the public key padded to a block, as HMAC pads it. -/
def paddedHmac (key m : Bytes) : Bytes := key ++ List.replicate (64 - key.length) 0 ++ m

theorem padded_correct :
    SignatureCorrect ⟨id, paddedHmac⟩ {} (List.replicate 32 1)
      (List.replicate 32 1 ++ List.replicate 32 0) := by
  have hk : PQCProfile.generateSigKeypair {} ⟨List.replicate 32 1, rfl⟩
      ⟨List.replicate 32 1 ++ List.replicate 32 0, rfl⟩ =
      .ok (List.replicate 32 1, List.replicate 32 1 ++ List.replicate 32 0) := rfl
  refine (signature_correct_iff hk).mpr fun m => ?_
  simp [paddedHmac]

/-- A snapshot, and its canonical form. -/
def snapshot : PyVal :=
  .dict [(.str "kind", .str "consciousness_snapshot"), (.str "epoch", .int 1)]

def snapshotCanonical : Bytes :=
  encode "\x7b\"epoch\": 1, \"kind\": \"consciousness_snapshot\"\x7d"

/-- The hashes of that form, the tags under 32 bytes `1` and 64 bytes `2`. -/
def snapshotHashes : Hashes where
  sha256 := fun m => if m = snapshotCanonical then
      [53, 197, 238, 55, 21, 192, 189, 19, 177, 50, 225, 42, 226, 218, 157, 110, 194, 70, 54, 113,
        173, 76, 42, 20, 220, 178, 172, 118, 246, 220, 182, 132]
    else []
  hmac := fun key m =>
    if m = snapshotCanonical then
      if key = List.replicate 32 1 then
        [19, 46, 160, 3, 213, 225, 242, 208, 22, 173, 199, 13, 221, 59, 89, 199, 246, 245, 21, 206,
          155, 8, 72, 131, 155, 228, 89, 246, 24, 15, 56, 184]
      else if key = List.replicate 64 2 then
        [228, 160, 122, 122, 196, 42, 138, 226, 26, 230, 132, 73, 104, 240, 207, 76, 123, 136, 99,
          109, 211, 137, 46, 176, 10, 82, 17, 86, 45, 145, 210, 171]
      else []
    else []

def snapshotSigner : ArtifactSigner where
  pqc := {}
  privateKey := List.replicate 64 2
  publicKey := List.replicate 32 1

/-- A signer with these keys rejects its own snapshot. -/
theorem own_snapshot_rejected :
    PQCProfile.generateSigKeypair {} ⟨List.replicate 32 1, rfl⟩ ⟨List.replicate 64 2, rfl⟩ =
      .ok (List.replicate 32 1, List.replicate 64 2) ∧
    (do
      let (a, s) ← snapshotSigner.sign snapshotHashes "consciousness_snapshot" snapshot 0
      s.verify snapshotHashes a) =
      .ok ⟨false, "ML-DSA-65-stub", "signature mismatch (stub)"⟩ ∧
    ¬ SignatureCorrect snapshotHashes {} (List.replicate 32 1) (List.replicate 64 2) := by
  refine ⟨rfl, by decide +kernel, fun h => ?_⟩
  obtain ⟨r, hr, ht⟩ := (h.exact snapshotCanonical
    (snapshotHashes.hmac (List.replicate 32 1) snapshotCanonical)).mp ⟨_, rfl, by decide +kernel⟩
  cases hr
  revert ht
  decide +kernel

/-! ## Tamper evidence -/

/-- The artifacts name one signer, and have one version and sequence number. -/
structure SameIssue (a b : SignedArtifact) : Prop where
  signerId : b.signerId = a.signerId
  manifestVersion : b.manifestVersion = a.manifestVersion
  sequence : b.sequence = a.sequence

/-- What carries the signature of an accepted artifact is accepted only with its digest and its
canonical payload; and then it is, if it is of the same signer, version and sequence number. -/
theorem tamper_evident {kind : String} {payload : PyVal} {now : Rat}
    (hinj : ∀ key, Function.Injective (H.hmac key)) (hs : s.sign H kind payload now = .ok (a, s'))
    (hv : ∃ r, s'.verify H a = .ok r ∧ r.verified = true) (hg : b.signature = a.signature)
    {c : Bytes} (hc : canonical b.payload = .ok c) :
    ∃ r, s'.verify H b = .ok r ∧
      (r.verified = true → b.payloadDigest = a.payloadDigest ∧ canonical a.payload = .ok c) ∧
      (SameIssue a b → b.payloadDigest = a.payloadDigest → canonical a.payload = .ok c →
        r.verified = true) := by
  obtain ⟨hb, hp, -, ca, hca, hda, -⟩ := sign_spec hs
  obtain ⟨ra, hra, hva⟩ := verify_spec (s := s') (H := H) (hp ▸ hb) hca
  obtain ⟨rb, hrb, hvb⟩ := verify_spec (s := s') (H := H) (hp ▸ hb) hc
  have hta : a.signature = H.hmac s'.publicKey ca := by
    obtain ⟨r, hr, hv⟩ := hv
    obtain rfl := Except.ok.inj (hra.symm.trans hr)
    exact (hva.mp hv).2
  refine ⟨rb, hrb, fun h => ?_, fun _ hd he => ?_⟩
  · obtain ⟨hd, ht⟩ := hvb.mp h
    obtain rfl : ca = c := hinj _ (by rw [← hta, ← hg, ht])
    exact ⟨hd.trans hda.symm, hca⟩
  · obtain rfl : ca = c := Except.ok.inj (hca.symm.trans he)
    exact hvb.mpr ⟨hd.trans hda, hg.trans hta⟩

/-! ## An artifact under another kind -/

/-- An audit checkpoint, and its canonical form. -/
def checkpoint : PyVal := .dict [(.str "kind", .str "audit_checkpoint"), (.str "epoch", .int 5)]

def checkpointCanonical : Bytes :=
  encode "\x7b\"epoch\": 5, \"kind\": \"audit_checkpoint\"\x7d"

/-- A function without collisions that has a given value at one message. -/
def extend (m value : Bytes) (b : Bytes) : Bytes := if b = m then value else 0 :: b

theorem extend_injective {m value : Bytes} (h : value.head? ≠ some 0) :
    Function.Injective (extend m value) := by
  intro b b' he
  simp only [extend] at he
  split at he <;> split at he
  · rename_i h1 h2; rw [h1, h2]
  · rw [he] at h; exact absurd rfl h
  · rw [← he] at h; exact absurd rfl h
  · exact List.tail_eq_of_cons_eq he

/-- Hashes without collisions, with the values of SHA-256 and, under 32 bytes `1`,
of HMAC at that form. -/
def checkpointHashes : Hashes where
  sha256 := extend checkpointCanonical
    [68, 112, 196, 40, 60, 89, 139, 164, 182, 150, 158, 60, 88, 141, 52, 41, 164, 89, 143, 255, 86,
      40, 170, 27, 24, 62, 246, 136, 84, 159, 65, 10]
  hmac := fun _ => extend checkpointCanonical
    [255, 122, 39, 99, 52, 132, 16, 188, 127, 156, 202, 190, 230, 179, 109, 98, 139, 70, 1, 56, 142,
      132, 122, 213, 70, 231, 22, 227, 174, 50, 254, 206]

/-- A signer whose keys are the same. -/
def checkpointSigner : ArtifactSigner where
  pqc := {}
  privateKey := List.replicate 32 1
  publicKey := List.replicate 32 1

/-- The artifact it signs. -/
def checkpointArtifact : SignedArtifact where
  artifactKind := "audit_checkpoint"
  payloadDigest := hexdigest (checkpointHashes.sha256 checkpointCanonical)
  payload := checkpoint
  signature := checkpointHashes.hmac [] checkpointCanonical
  algorithm := "ML-DSA-65"
  signerId := ""
  signedAt := 0
  sequence := 1

theorem checkpoint_sign : checkpointSigner.sign checkpointHashes "audit_checkpoint" checkpoint 0 =
    .ok (checkpointArtifact, { checkpointSigner with sequence := 1 }) := by
  have hc : canonical checkpoint = .ok checkpointCanonical := by decide +kernel
  rw [sign, hc]
  rfl

/-- The signer, after signing. -/
def checkpointSigned : ArtifactSigner := { checkpointSigner with sequence := 1 }

theorem checkpoint_accepted :
    checkpointSigned.verify checkpointHashes checkpointArtifact =
      .ok ⟨true, "ML-DSA-65-stub", ""⟩ := by
  decide +kernel

theorem checkpoint_injective (key : Bytes) : Function.Injective (checkpointHashes.hmac key) :=
  extend_injective (by decide)

/-- With another digest, the artifact is rejected. -/
theorem tampered_digest_rejected :
    ∃ r, checkpointSigned.verify checkpointHashes { checkpointArtifact with payloadDigest := "0" } =
      .ok r ∧ r.verified = false := by
  obtain ⟨r, hr, hv, -⟩ := tamper_evident (b := { checkpointArtifact with payloadDigest := "0" })
    checkpoint_injective checkpoint_sign ⟨_, checkpoint_accepted, rfl⟩ rfl
    (c := checkpointCanonical) (by decide +kernel)
  refine ⟨r, hr, Bool.eq_false_iff.mpr fun h => ?_⟩
  have := (hv h).1
  revert this
  decide +kernel

/-- With another kind, the artifact is accepted. -/
theorem tampered_kind_accepted :
    (∀ key, Function.Injective (checkpointHashes.hmac key)) ∧
    Function.Injective checkpointHashes.sha256 ∧
    checkpointSigner.sign checkpointHashes "audit_checkpoint" checkpoint 0 =
      .ok (checkpointArtifact, checkpointSigned) ∧
    checkpointSigned.verify checkpointHashes checkpointArtifact =
      .ok ⟨true, "ML-DSA-65-stub", ""⟩ ∧
    checkpointSigned.verify checkpointHashes
      { checkpointArtifact with artifactKind := "emergency_override" } =
        .ok ⟨true, "ML-DSA-65-stub", ""⟩ :=
  ⟨checkpoint_injective, extend_injective (by decide), checkpoint_sign, checkpoint_accepted,
    checkpoint_accepted⟩

end Gaia.Security
