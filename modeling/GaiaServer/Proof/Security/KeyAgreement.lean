import GaiaServer.Impl.Security.ArtifactSigner

/-!
# Whether the two sides agree on a secret

The sender hashes the public key and bytes of its own, 48 in all, the receiver the
private key and the ciphertext, 80 in all. So a draw of keys and randomness gives
one secret exactly if the hash collides on two strings of different lengths
(`agrees_iff`), and every draw does exactly if the hash is constant on the strings
of both lengths (`kem_correct_iff`).
-/

namespace Gaia.Security

variable (p : PQCProfile) (H : Hashes)

/-- For these draws, the receiver recovers the sender's secret. -/
def Agrees (pub priv : Urandom 32) (nonce : Urandom 16) (ciphertext : Urandom 48) : Prop :=
  ∃ keys result, p.generateKemKeypair pub priv = .ok keys ∧
    p.kemEncapsulate H keys.1 nonce ciphertext = .ok result ∧
    p.kemDecapsulate H keys.2 result.ciphertext = .ok result.sharedSecret

variable {p H}

theorem agrees_iff (hb : p.backend = "software-stub") {pub priv : Urandom 32} {nonce : Urandom 16}
    {ciphertext : Urandom 48} :
    Agrees p H pub priv nonce ciphertext ↔
      H.sha256 (priv.1 ++ ciphertext.1) = H.sha256 (pub.1 ++ nonce.1) := by
  simp only [Agrees, PQCProfile.generateKemKeypair, PQCProfile.kemEncapsulate,
    PQCProfile.kemDecapsulate, if_pos hb, Except.ok.injEq, exists_eq_left', exists_and_left]

/-- The strings that the two sides hash. -/
theorem hashed_ne (pub priv : Urandom 32) (nonce : Urandom 16) (ciphertext : Urandom 48) :
    priv.1 ++ ciphertext.1 ≠ pub.1 ++ nonce.1 := by
  intro he
  have hlen := congrArg List.length he
  rw [List.length_append, List.length_append, pub.2, priv.2, nonce.2, ciphertext.2] at hlen
  omega

/-- A string of `m + n` bytes as two draws. -/
theorem exists_draws {m n : Nat} {b : Bytes} (h : b.length = m + n) :
    ∃ (x : Urandom m) (y : Urandom n), b = x.1 ++ y.1 := by
  refine ⟨⟨b.take m, ?_⟩, ⟨b.drop m, ?_⟩, (List.take_append_drop m b).symm⟩
  · rw [List.length_take]
    omega
  · rw [List.length_drop]
    omega

/-- With the stub, the two sides agree for every key pair and all randomness exactly
if the hash takes all strings of 48 and of 80 bytes to one digest. For one draw,
they agree exactly if the two strings hashed, which differ, have the same digest. -/
theorem kem_correct_iff (signerId : String) (H : Hashes) :
    ((∀ pub priv nonce ciphertext,
        Agrees { signerId := signerId } H pub priv nonce ciphertext) ↔
      ∃ digest, ∀ b, b.length = 48 ∨ b.length = 80 → H.sha256 b = digest) ∧
    ∀ (pub priv : Urandom 32) (nonce : Urandom 16) (ciphertext : Urandom 48),
      priv.1 ++ ciphertext.1 ≠ pub.1 ++ nonce.1 ∧
      (Agrees { signerId := signerId } H pub priv nonce ciphertext ↔
        H.sha256 (priv.1 ++ ciphertext.1) = H.sha256 (pub.1 ++ nonce.1)) := by
  refine ⟨?_, fun pub priv nonce ciphertext => ⟨hashed_ne _ _ _ _, agrees_iff rfl⟩⟩
  constructor
  · intro hall
    let pub₀ : Urandom 32 := ⟨List.replicate 32 0, List.length_replicate⟩
    let nonce₀ : Urandom 16 := ⟨List.replicate 16 0, List.length_replicate⟩
    let ciphertext₀ : Urandom 48 := ⟨List.replicate 48 0, List.length_replicate⟩
    have hagree : ∀ (pub priv : Urandom 32) (nonce : Urandom 16) (ciphertext : Urandom 48),
        H.sha256 (priv.1 ++ ciphertext.1) = H.sha256 (pub.1 ++ nonce.1) :=
      fun pub priv nonce ciphertext => (agrees_iff rfl).mp (hall pub priv nonce ciphertext)
    refine ⟨H.sha256 (pub₀.1 ++ nonce₀.1), ?_⟩
    rintro b (hlen | hlen)
    · obtain ⟨pub, nonce, rfl⟩ := exists_draws (m := 32) (n := 16) hlen
      exact (hagree pub pub nonce ciphertext₀).symm.trans (hagree pub₀ pub nonce₀ ciphertext₀)
    · obtain ⟨priv, ciphertext, rfl⟩ := exists_draws (m := 32) (n := 48) hlen
      exact hagree pub₀ priv nonce₀ ciphertext
  · rintro ⟨digest, hdigest⟩ pub priv nonce ciphertext
    rw [agrees_iff rfl, hdigest _ (.inr ?_), hdigest _ (.inl ?_)]
    · rw [List.length_append, pub.2, nonce.2]
    · rw [List.length_append, priv.2, ciphertext.2]

/-- With all bytes drawn zero, and a hash that tells lengths apart, the receiver's
secret is another than the sender's. -/
theorem secrets_differ :
    ¬ Agrees {} ⟨fun b => [b.length.toUInt8], fun _ _ => []⟩
      ⟨List.replicate 32 0, List.length_replicate⟩ ⟨List.replicate 32 0, List.length_replicate⟩
      ⟨List.replicate 16 0, List.length_replicate⟩
      ⟨List.replicate 48 0, List.length_replicate⟩ := by
  rw [agrees_iff rfl]
  decide

end Gaia.Security
