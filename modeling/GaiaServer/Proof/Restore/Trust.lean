import GaiaServer.Proof.Restore.Atomic

/-!
# Trust above degraded

Whether a sequence of restores grants a class above degraded only on an
attestation. A cross-host path always has one; on the others the class asked for
is granted, with or without (`warranted_iff`). So it does exactly if no same-host
manifest without attestation that comes to be restored asks for such a class
(`session_warranted_iff`).
-/

namespace Gaia.Restore

open Storage World RestoreOrchestrator

variable (o : RestoreOrchestrator) (above : TrustClass → Prop)

/-- A property of each restore of a sequence, and the stores before it. -/
def Along (P : World → String → Prop) : List String → World → Prop
  | [], _ => True
  | id :: ids, w => P w id ∧ Along P ids ((o.restore id).run handle w).2

/-- If the restore writes a class above degraded, its manifest carries an
attestation, which is there. -/
def Warranted (w : World) (id : String) : Prop :=
  ∀ r w', (o.restore id).run handle w = (.ok r, w') → above r.grantedTrustClass →
    ∃ raw M ref, stored? o w ("manifests/" ++ id) = some raw ∧ o.core.readManifest raw = .ok M ∧
      given M.attestationRef = some ref ∧ (stored? o w ("attestations/" ++ ref)).isSome

/-- An admissible same-host manifest without attestation asks for no class above
degraded. -/
def Modest (w : World) (id : String) : Prop :=
  ∀ M payload n, Admissible o w id M payload n → M.restorePath ∉ crossHost →
    given M.attestationRef = none → ¬ above M.requestedTrustClass

theorem grantedClass_of_sameHost {M : RestoreManifest} (h : M.restorePath ∉ crossHost) :
    grantedClass M = M.requestedTrustClass := by
  simp only [crossHost, List.mem_cons, List.not_mem_nil, or_false, not_or] at h
  obtain ⟨h1, h2, h3, h4⟩ := h
  simp [grantedClass, h1, h2, h3, h4]

theorem warranted_iff (w : World) (id : String) : Warranted o above w id ↔ Modest o above w id := by
  constructor
  · intro h M payload n hM hp ha hab
    obtain ⟨raw, M', ref, hs, hr, hg, -⟩ := h _ _ (restore_run.mpr ⟨M, payload, n, hM, rfl, rfl⟩)
      (by rwa [result, grantedClass_of_sameHost hp])
    obtain ⟨raw', hs', hr'⟩ := hM.stored
    obtain rfl := Option.some.inj (hs.symm.trans hs')
    obtain rfl := Except.ok.inj (hr.symm.trans hr')
    rw [ha] at hg
    cases hg
  · intro h r w' hrun hab
    obtain ⟨M, payload, n, hM, rfl, rfl⟩ := restore_run.mp hrun
    obtain ⟨raw, hs, hr⟩ := hM.stored
    cases hg : given M.attestationRef with
    | some ref => exact ⟨raw, M, ref, hs, hr, hg, hM.attestation ref hg⟩
    | none =>
      have hp : M.restorePath ∉ crossHost := fun hp => hM.attested hp hg
      rw [result, grantedClass_of_sameHost hp] at hab
      exact absurd hab (h M payload n hM hp hg)

/-- Every class above degraded that a sequence of restores writes is warranted,
exactly if at each of them an admissible same-host manifest without attestation
asks for no such class. -/
theorem session_warranted_iff (ids : List String) (w : World) :
    Along o (Warranted o above) ids w ↔ Along o (Modest o above) ids w := by
  induction ids generalizing w with
  | nil => exact .rfl
  | cons id ids ih => exact and_congr (warranted_iff o above w id) (ih _)

/-- A soft restart without attestation makes an unverified node trusted. -/
theorem soft_not_warranted :
    (∃ w', (softRestart.restore "m1").run handle (sampleWorld softWire "unverified") =
      (.ok (result "m1" softManifest (encode "payload-bytes") 0), w') ∧
      stored? softRestart w' (trustKey "alpha") = some (encode "trusted")) ∧
    ¬ Along softRestart (Warranted softRestart (· = .trusted)) ["m1"]
      (sampleWorld softWire "unverified") := by
  have hrun := restore_run.mpr ⟨softManifest, encode "payload-bytes", 0,
    ⟨soft_checked, nofun⟩, rfl, rfl⟩
  refine ⟨⟨_, hrun, Dict.get?_set_self ..⟩, fun ⟨h, _⟩ => ?_⟩
  obtain ⟨raw, M, ref, hs, hr, hg, -⟩ := h _ _ hrun rfl
  obtain ⟨raw', hs', hr'⟩ := soft_checked.stored
  obtain rfl := Option.some.inj (hs.symm.trans hs')
  obtain rfl := Except.ok.inj (hr.symm.trans hr')
  cases hg

end Gaia.Restore
