import GaiaServer.Proof.Security.Signatures

/-!
# Replayed artifacts

A signer keeps no record of what it has verified: whatever is signed or verified
before, it accepts an artifact exactly if the stub is its backend and the
artifact is authentic (`verifies_iff`). So over any sequence of calls the artifacts
accepted are the authentic ones presented, in the order in which they are
presented (`accepted_eq`), and each is newer than those before only if the caller
presents them so (`replay_free_iff`). An artifact that is accepted at all is
accepted again (`accepted_again`).
-/

namespace Gaia.Security

open ArtifactSigner

variable {H : Hashes} {s s' : ArtifactSigner} {a b : SignedArtifact}

/-- A call of a signer. -/
inductive SignerCall
  | sign (artifactKind : String) (payload : PyVal) (now : Rat)
  | verify (artifact : SignedArtifact)

/-- The call accepts the artifact. -/
def verifies (H : Hashes) (s : ArtifactSigner) (a : SignedArtifact) : Bool :=
  match s.verify H a with
  | .ok r => r.verified
  | .error _ => false

/-- The signer after a call; one that raises leaves it as it is. -/
def afterCall (H : Hashes) (s : ArtifactSigner) : SignerCall → ArtifactSigner
  | .sign kind payload now =>
    match s.sign H kind payload now with
    | .ok (_, s') => s'
    | .error _ => s
  | .verify _ => s

/-- The artifacts that a sequence of calls accepts. -/
def accepted (H : Hashes) : ArtifactSigner → List SignerCall → List SignedArtifact
  | _, [] => []
  | s, .verify a :: calls =>
    if verifies H s a then a :: accepted H (afterCall H s (.verify a)) calls
    else accepted H (afterCall H s (.verify a)) calls
  | s, call :: calls => accepted H (afterCall H s call) calls

/-- The artifacts that a sequence of calls presents. -/
def presented : List SignerCall → List SignedArtifact
  | [] => []
  | .verify a :: calls => a :: presented calls
  | .sign .. :: calls => presented calls

/-- The second artifact has a greater sequence number, if both name one signer. -/
def Newer (a b : SignedArtifact) : Prop := a.signerId = b.signerId → a.sequence < b.sequence

/-- The digest and the signature are those of the canonical payload. -/
def Authentic (H : Hashes) (s : ArtifactSigner) (a : SignedArtifact) : Prop :=
  ∃ c, canonical a.payload = .ok c ∧ a.payloadDigest = hexdigest (H.sha256 c) ∧
    a.signature = H.hmac s.publicKey c

theorem verifies_iff :
    verifies H s a = true ↔ s.pqc.backend = "software-stub" ∧ Authentic H s a := by
  unfold verifies Authentic
  cases hc : canonical a.payload with
  | error e => simp [verify, hc, bind, Except.bind]
  | ok c =>
    by_cases hb : s.pqc.backend = "software-stub"
    · obtain ⟨r, hr, hv⟩ := verify_spec (H := H) hb hc
      simp [hr, hv, hb]
    · simp only [verify, hc, bind, Except.bind, pure, Except.pure, PQCProfile.verifyArtifact, hb,
        if_false, false_and, iff_false, Bool.not_eq_true]
      split <;> rename_i h
      · split at h <;> cases h
        rfl
      · rfl

theorem afterCall_keys (call : SignerCall) :
    (afterCall H s call).pqc = s.pqc ∧ (afterCall H s call).publicKey = s.publicKey := by
  cases call with
  | verify a => exact ⟨rfl, rfl⟩
  | sign kind payload now =>
    unfold afterCall
    dsimp only
    cases hs : s.sign H kind payload now with
    | error e => exact ⟨rfl, rfl⟩
    | ok r =>
      obtain ⟨-, hp, hk, -⟩ := sign_spec hs
      exact ⟨hp, hk⟩

/-- No call changes what the signer accepts. -/
theorem verifies_afterCall (call : SignerCall) :
    verifies H (afterCall H s call) = verifies H s := by
  obtain ⟨hp, hk⟩ := afterCall_keys (H := H) (s := s) call
  funext a
  simp only [verifies, verify, hp, hk]

theorem accepted_eq (calls : List SignerCall) :
    accepted H s calls = (presented calls).filter (verifies H s) := by
  induction calls generalizing s with
  | nil => rfl
  | cons call calls ih =>
    have hnext := ih (s := afterCall H s call)
    rw [verifies_afterCall] at hnext
    cases call with
    | sign kind payload now => exact hnext
    | verify a =>
      unfold accepted presented
      rw [List.filter_cons, hnext]

/-- Over any sequence of calls, each artifact accepted is newer than those accepted
before, exactly if, with the stub, the authentic artifacts are presented so. -/
theorem replay_free_iff (H : Hashes) (s : ArtifactSigner) (calls : List SignerCall) :
    (accepted H s calls).Pairwise Newer ↔
      (s.pqc.backend = "software-stub" → (presented calls).Pairwise fun a b =>
        Authentic H s a → Authentic H s b → Newer a b) := by
  rw [accepted_eq, List.pairwise_filter]
  simp only [verifies_iff]
  constructor
  · intro h hb
    exact h.imp fun hn ha hb' => hn ⟨hb, ha⟩ ⟨hb, hb'⟩
  · intro h
    by_cases hb : s.pqc.backend = "software-stub"
    · exact (h hb).imp fun hn ha hb' => hn ha.2 hb'.2
    · exact List.pairwise_of_forall fun _ _ ha => absurd ha.1 hb

/-- What is accepted once is accepted as often as it is presented. -/
theorem accepted_again (h : verifies H s a = true) (n : Nat) :
    accepted H s (List.replicate n (.verify a)) = List.replicate n a := by
  induction n with
  | zero => rfl
  | succ n ih =>
    unfold List.replicate accepted
    rw [if_pos h, show afterCall H s (.verify a) = s from rfl, ih]

/-- The audit checkpoint is accepted twice. -/
theorem checkpoint_replayed :
    accepted checkpointHashes checkpointSigned (List.replicate 2 (.verify checkpointArtifact)) =
      List.replicate 2 checkpointArtifact ∧
    ¬ (accepted checkpointHashes checkpointSigned
      (List.replicate 2 (.verify checkpointArtifact))).Pairwise Newer := by
  have haccepted : verifies checkpointHashes checkpointSigned checkpointArtifact = true := by
    simp only [verifies, checkpoint_accepted]
  refine ⟨accepted_again haccepted 2, fun htwice => ?_⟩
  rw [accepted_again haccepted, List.pairwise_replicate] at htwice
  have hnewer : Newer checkpointArtifact checkpointArtifact := htwice.resolve_left (by decide)
  exact absurd (hnewer rfl) (by decide)

end Gaia.Security
