import GaiaServer.Framework.Pool
import GaiaServer.Proof.Restore.Atomic

/-!
# Split-brain exclusion

Restores of one node with one token, interleaved (`Contend`). A restore that
returns has swapped the node's trust state away from the token, so the next
swap fails, unless what it granted is the token itself. With a token that does not
encode, none returns (`never_returned`). Without two admissible
manifests of which one is granted the token, at most one restore returns
(`restore_exclusive`, by `Prog.Claims.exclusive`); with two, one after the other
both do (`both_return`).
-/

namespace Gaia.Restore

open Storage World RestoreOrchestrator
open Prog (Returns Claims)

variable {ι : Type} {o : RestoreOrchestrator} {w₀ w : World} {ids : ι → String}
  {node : String} {token : PyStr} {expected : Bytes}

/-- The manifests all name the node, and carry the token. -/
def Contend (o : RestoreOrchestrator) (w₀ : World) (ids : ι → String) (node : String)
    (token : PyStr) : Prop :=
  ∀ i raw M, stored? o w₀ ("manifests/" ++ ids i) = some raw → o.core.readManifest raw = .ok M →
    M.nodeId = node ∧ givenStr M.splitBrainToken = some token

/-- The restores. -/
def restores (o : RestoreOrchestrator) (ids : ι → String) :
    Pool StoreOp StoreRes Exc RestoreResult ι :=
  fun i => o.restore (ids i)

/-- No storage call raises of itself. -/
def noFault : Exc → Prop := fun _ => False

theorem Contend.checked (hc : Contend o w₀ ids node token) {i : ι} {M : RestoreManifest}
    {payload : Bytes} {n : Nat} (h : Checked o w₀ (ids i) M payload n) :
    M.nodeId = node ∧ givenStr M.splitBrainToken = some token := by
  obtain ⟨raw, hs, hr⟩ := h.stored
  exact hc i raw M hs hr

/-- The node's trust state is the one expected. -/
def Claimable (o : RestoreOrchestrator) (node : String) (expected : Bytes) (w : World) : Prop :=
  stored? o w (trustKey node) = some expected

/-- What the calls keep: all but the node's trust state, which does not come back
to the one expected. -/
structure Kept (o : RestoreOrchestrator) (node : String) (expected : Bytes) (w₀ w : World) :
    Prop where
  same : SameOutside (o.registry.metadata.key (trustKey node)) w w₀
  claimable : Claimable o node expected w → Claimable o node expected w₀

/-- The swap of the trust state expected for a value. -/
def Swap (o : RestoreOrchestrator) (node : String) (expected : Bytes) (ok : Bytes → Prop)
    (op : StoreOp) : Prop :=
  ∃ v, ok v ∧ op = .etcdTxn (o.registry.metadata.key (trustKey node)) expected v

/-- A swap that succeeds. -/
def swapped : (op : StoreOp) → StoreRes op → Prop
  | .etcdTxn .., r => r = true
  | _, _ => False

theorem swap_of_claimable (h : Claimable o node expected w) (v : Bytes) :
    handle (.etcdTxn (o.registry.metadata.key (trustKey node)) expected v) w =
      (.ok true, { w with etcd := w.etcd.set (o.registry.metadata.key (trustKey node)) v }) :=
  if_pos h

theorem swap_of_not_claimable (h : ¬ Claimable o node expected w) (v : Bytes) :
    handle (.etcdTxn (o.registry.metadata.key (trustKey node)) expected v) w =
      (.ok false, w) :=
  if_neg h

theorem Kept.swap {v : Bytes} (h : Kept o node expected w₀ w) :
    Kept o node expected w₀
      (handle (.etcdTxn (o.registry.metadata.key (trustKey node)) expected v) w).2 := by
  by_cases ho : Claimable o node expected w
  · rw [swap_of_claimable ho]
    exact ⟨h.same.set v, fun _ => h.claimable ho⟩
  · rwa [swap_of_not_claimable ho]

/-- The checks see the initial stores, whatever the other calls have done. -/
theorem checks_returns (o : RestoreOrchestrator) (w₀ : World) (id node : String)
    (expected : Bytes) :
    Returns handle noFault (Kept o node expected w₀) (Reads o node)
      (fun c => (o.checks id).run handle w₀ = (.ok c, w₀)) (o.checks id) :=
  Returns.of_stable (h := handle) (F := noFault) (A := Reads o node) (fun _ h => h)
    (fun _ _ ha hi => handle_stable ha (Kept.same hi)) (fun _ ha => handle_reads ha w₀)
    (checks_only o id node)

/-- A restore returns only for a manifest that the initial stores support. -/
theorem restore_returns_checked (hc : Contend o w₀ ids node token)
    (he : token.encode = .ok expected) (i : ι) :
    Returns handle noFault (Kept o node expected w₀)
      (fun op => Reads o node op ∨ Swap o node expected (fun _ => True) op)
      (fun _ => ∃ M payload n, Checked o w₀ (ids i) M payload n) (o.restore (ids i)) := by
  rw [restore_eq]
  refine ((checks_returns ..).mono fun _ => .inl).bind fun ⟨M, payload, n⟩ hM => ?_
  obtain ⟨hM, -⟩ := checks_run.mp hM
  obtain ⟨rfl, ht⟩ := hc.checked hM
  rw [promoteTrust_eq ht he]
  refine .call (.inr ⟨_, trivial, rfl⟩) (fun s _ => ?_) fun e hf => hf.elim
  simp only [handle]
  split
  · exact .ret ⟨M, payload, n, hM⟩
  · exact .raise

/-- Without a token that encodes, none returns. -/
theorem restore_never_returns (hc : Contend o w₀ ids node token) {exc : Exc}
    (he : token.encode = .error exc) (i : ι) :
    Returns handle noFault (Kept o node [] w₀) (Reads o node) (fun _ => False)
      (o.restore (ids i)) := by
  rw [restore_eq]
  refine (checks_returns ..).bind fun ⟨M, payload, n⟩ hM => ?_
  obtain ⟨hM, -⟩ := checks_run.mp hM
  rw [promoteTrust_unencodable (hc.checked hM).2 he]
  exact .raise

/-- Swaps for other values than the one expected: one at most succeeds. -/
theorem swap_exclusive (o : RestoreOrchestrator) (w₀ : World) (node : String) (expected : Bytes) :
    Prog.Exclusive handle (Kept o node expected w₀) (Claimable o node expected) (Reads o node)
      (Swap o node expected fun v => Claimable o node expected w₀ → v ≠ expected) swapped where
  inv := by
    rintro op s (ha | ⟨v, -, rfl⟩) hI
    · rwa [handle_reads ha]
    · exact hI.swap
  closed := by
    rintro op s (ha | ⟨v, -, rfl⟩) - hn
    · rwa [handle_reads ha]
    · rwa [swap_of_not_claimable hn]
  wins := by
    rintro _ s r ⟨v, hv, rfl⟩ hI hr hw
    by_cases ho : Claimable o node expected s
    · refine ⟨ho, fun hs => ?_⟩
      rw [swap_of_claimable ho, Claimable, stored?, Dict.get?_set_self] at hs
      exact hv (hI.claimable ho) (Option.some.inj hs)
    · rw [swap_of_not_claimable ho] at hr
      cases hr
      cases hw

/-- A restore claims the node by its swap, if no other admissible one lets it
swap the trust state expected for itself. -/
theorem restore_claims (hc : Contend o w₀ ids node token) (he : token.encode = .ok expected)
    (i : ι) (hv : ∀ M payload n, Checked o w₀ (ids i) M payload n →
      Claimable o node expected w₀ → grantedValue o M ≠ expected) :
    Claims handle noFault (Kept o node expected w₀) (Reads o node)
      (Swap o node expected fun v => Claimable o node expected w₀ → v ≠ expected) swapped
      (o.restore (ids i)) := by
  rw [restore_eq]
  refine (checks_returns ..).bind_claims fun ⟨M, payload, n⟩ hM => ?_
  obtain ⟨hM, -⟩ := checks_run.mp hM
  obtain ⟨rfl, ht⟩ := hc.checked hM
  rw [promoteTrust_eq ht he]
  refine .claim ⟨_, hv M payload n hM, rfl⟩ ?_ ?_ fun e => .raise
  · rintro r rfl
    trivial
  · rintro r hr
    obtain rfl : r = false := Bool.eq_false_iff.mpr hr
    exact .raise

variable [DecidableEq ι]

theorem never_returned (hc : Contend o w₀ ids node token) {exc : Exc}
    (he : token.encode = .error exc) {P : Pool StoreOp StoreRes Exc RestoreResult ι}
    (hr : Pool.Reach handle noFault (restores o ids) w₀ P w) {i : ι} {a : RestoreResult} :
    P i ≠ .ret a := by
  intro hi
  have hI : Kept o node [] w₀ w₀ := ⟨.refl _ _, id⟩
  obtain ⟨-, hret⟩ := Returns.reach (fun ha hI => by rwa [handle_reads ha]) hI
    (restore_never_returns hc he) hr
  have := hret i
  rw [hi] at this
  cases this with
  | ret hq => exact hq

/-- At most one of the restores returns, if of no two admissible manifests one is
granted the token. -/
theorem restore_exclusive (hc : Contend o w₀ ids node token) (he : token.encode = .ok expected)
    (hv : ∀ i j, i ≠ j → ∀ M payload n N payload' n', Admissible o w₀ (ids i) M payload n →
      Admissible o w₀ (ids j) N payload' n' → grantedValue o M ≠ expected)
    {P : Pool StoreOp StoreRes Exc RestoreResult ι}
    (hr : Pool.Reach handle noFault (restores o ids) w₀ P w) {i j : ι} {a b : RestoreResult}
    (hi : P i = .ret a) (hj : P j = .ret b) : i = j := by
  by_contra hij
  have hI : Kept o node expected w₀ w₀ := ⟨.refl _ _, id⟩
  -- both have passed their checks
  obtain ⟨-, hret⟩ := Returns.reach (fun ho hI => by
    rcases ho with ha | ⟨v, -, rfl⟩
    · rwa [handle_reads ha]
    · exact hI.swap) hI (restore_returns_checked hc he) hr
  have hchecked : ∀ k a, P k = .ret a → ∃ M payload n, Checked o w₀ (ids k) M payload n := by
    intro k a hk
    have := hret k
    rw [hk] at this
    cases this with
    | ret hq => exact hq
  obtain ⟨Mi, pi, ni, hMi⟩ := hchecked i a hi
  obtain ⟨Mj, pj, nj, hMj⟩ := hchecked j b hj
  -- so every call has another admissible one beside it
  have hadm : ∀ {k M p n}, Checked o w₀ (ids k) M p n → Claimable o node expected w₀ →
      Admissible o w₀ (ids k) M p n := by
    intro k M p n h ho
    obtain ⟨rfl, ht⟩ := hc.checked h
    exact ⟨h, fun t h' => by rw [ht] at h'; cases h'; exact ⟨expected, he, ho⟩⟩
  refine hij (Claims.exclusive (swap_exclusive o w₀ node expected) hI
    (fun k => restore_claims hc he k fun M p n hM ho => ?_) hr hi hj)
  by_cases hk : k = i
  · exact hv k j (hk ▸ hij) M p n Mj pj nj (hadm hM ho) (hadm hMj ho)
  · exact hv k i hk M p n Mi pi ni (hadm hM ho) (hadm hMi ho)

/-- Two admissible restores one after the other, the first granting the token. -/
theorem both_return (hc : Contend o w₀ ids node token) {i j : ι} (hij : i ≠ j)
    {M N : RestoreManifest} {payload payload' : Bytes} {n n' : Nat}
    (hi : Admissible o w₀ (ids i) M payload n) (hj : Admissible o w₀ (ids j) N payload' n')
    (he : token.encode = .ok expected) (hv : grantedValue o M = expected) :
    ∃ P w, Pool.Reach handle noFault (restores o ids) w₀ P w ∧
      P i = .ret (result (ids i) M payload n) ∧ P j = .ret (result (ids j) N payload' n') := by
  obtain ⟨rfl, ht⟩ := hc.checked hi.toChecked
  -- the first swap leaves the stores as they are
  have hp : promoted o w₀ M = w₀ := by
    obtain ⟨held, hh, hs⟩ := hi.token _ ht
    obtain rfl := Except.ok.inj (he.symm.trans hh)
    rw [promoted, hv, Dict.set_of_get? hs]
  have h0 : Pool.Reach handle noFault (restores o ids) w₀ (restores o ids) w₀ := .start
  have h1 := h0.run_thread i
  rw [restores, restore_run.mpr ⟨M, payload, n, hi, rfl, rfl⟩, hp] at h1
  have h2 := h1.run_thread j
  rw [Function.update_of_ne (Ne.symm hij), restores,
    restore_run.mpr ⟨N, payload', n', hj, rfl, rfl⟩] at h2
  refine ⟨_, _, h2, ?_, Function.update_self ..⟩
  rw [Function.update_of_ne hij]
  exact Function.update_self ..

/-- In every interleaving, at most one of the restores returns. -/
def AtMostOne (o : RestoreOrchestrator) (w₀ : World) (ids : ι → String) : Prop :=
  ∀ P w, Pool.Reach handle noFault (restores o ids) w₀ P w → ∀ i j a b,
    P i = .ret a → P j = .ret b → i = j

/-- At most one of any number of interleaved restores with one node and token
returns, exactly if there are no two with admissible manifests of which one is
granted a class whose string is the token. -/
theorem split_brain_iff (hc : Contend o w₀ ids node token) :
    AtMostOne o w₀ ids ↔
    ∀ i j, i ≠ j → ∀ M payload n N payload' n', Admissible o w₀ (ids i) M payload n →
      Admissible o w₀ (ids j) N payload' n' →
        PyStr.text (o.core.trustValue (grantedClass M)) ≠ token := by
  constructor
  · rintro h i j hij M payload n N payload' n' hi hj rfl
    obtain ⟨P, w, hr, hPi, hPj⟩ := both_return hc hij hi hj rfl rfl
    exact hij (h P w hr i j _ _ hPi hPj)
  · intro hv P w hr i j a b hi hj
    cases token with
    | text t =>
      refine restore_exclusive hc rfl ?_ hr hi hj
      intro i j hij M payload n N payload' n' hM hN he
      exact hv i j hij M payload n N payload' n' hM hN (congrArg PyStr.text (encode_inj.mp he))
    | lone points surrogate => exact (never_returned hc rfl hr hi).elim

/-! ## Two cross-host restores -/

/-- A cross-host manifest of the node, with a token. -/
def crossManifest (token hash : String) : RestoreManifest :=
  { softManifest with
    restorePath := .crossHost
    manifestHash := hash
    attestationRef := some "att1"
    splitBrainToken := some (.text token) }

def crossWire (token hash : String) : List (PyKey × PyVal) :=
  [(.str "manifest_id", .str "m1"), (.str "checkpoint_id", .str "c1"),
    (.str "node_id", .str "alpha"),
    (.str "restore_path", .str "cross_host"), (.str "requested_trust_class", .str "trusted"),
    (.str "manifest_hash", .str hash), (.str "payload_hash", .none),
    (.str "causal_cursor", .none), (.str "attestation_ref", .str "att1"),
    (.str "admissibility_policy_ref", .none), (.str "split_brain_token", .str token)]

def crossCanonical (token : String) : String :=
  "\x7b\"admissibility_policy_ref\":null,\"attestation_ref\":\"att1\",\"causal_cursor\":null," ++
    "\"checkpoint_id\":\"c1\",\"manifest_id\":\"m1\",\"node_id\":\"alpha\"," ++
    "\"payload_hash\":null,\"requested_trust_class\":\"trusted\"," ++
    "\"restore_path\":\"cross_host\",\"split_brain_token\":\"" ++ token ++ "\"\x7d"

/-- Two restores of one such manifest. -/
def crossRestore (token hash : String) (digest : Bytes) : RestoreOrchestrator :=
  sample (crossManifest token hash) (crossWire token hash) (crossCanonical token) digest

theorem cross_manifest {token hash : String} {digest raw : Bytes} {M : RestoreManifest}
    (h : (crossRestore token hash digest).core.readManifest raw = .ok M) :
    M = crossManifest token hash := by
  simp only [crossRestore, sample] at h
  split at h
  · exact (Except.ok.inj h).symm
  · cases h

omit [DecidableEq ι] in
theorem cross_contend (token hash : String) (digest : Bytes) (w : World) (ids : ι → String)
    (ht : token ≠ "") : Contend (crossRestore token hash digest) w ids "alpha" (.text token) := by
  intro i raw M _ hr
  obtain rfl := cross_manifest hr
  exact ⟨rfl, givenStr_text ht⟩

/-- The token is not what a cross-host restore grants. -/
theorem unverified_exclusive :
    AtMostOne (crossRestore "unverified"
        "sha256:b57411d02e611d0a9a9f380d24073032932f53ea2a4dd4ca048873cc912c4de7"
        [181, 116, 17, 208, 46, 97, 29, 10, 154, 159, 56, 13, 36, 7, 48, 50, 147, 47, 83, 234, 42,
          77, 212, 202, 4, 136, 115, 204, 145, 44, 77, 231])
      (sampleWorld (crossWire "unverified"
        "sha256:b57411d02e611d0a9a9f380d24073032932f53ea2a4dd4ca048873cc912c4de7") "unverified")
      fun _ : Fin 2 => "m1" := by
  refine (split_brain_iff (cross_contend _ _ _ _ _ (by decide))).mpr ?_
  intro _ _ _ M _ _ _ _ _ hM _
  obtain ⟨_, _, hr⟩ := hM.stored
  obtain rfl := cross_manifest hr
  exact fun h => absurd (PyStr.text.inj h) (by decide)

def degradedHash : String :=
  "sha256:6fdf87bd5e1878ddec2266575152cf8ae373eace3b4fd5c87238972d49751ba9"

def degradedDigest : Bytes :=
  [111, 223, 135, 189, 94, 24, 120, 221, 236, 34, 102, 87, 81, 82, 207, 138, 227, 115, 234, 206, 59,
    79, 213, 200, 114, 56, 151, 45, 73, 117, 27, 169]

theorem degraded_admissible : Admissible (crossRestore "degraded" degradedHash degradedDigest)
    (sampleWorld (crossWire "degraded" degradedHash) "degraded") "m1"
    (crossManifest "degraded" degradedHash) (encode "payload-bytes") 0 where
  stored := ⟨_, sample_manifest .., sample_readManifest ..⟩
  signed := by decide
  hashed := ⟨crossCanonical "degraded", by decide +kernel, by
    rw [crossRestore, sample_sha256]
    decide +kernel⟩
  attested := by decide
  attestation := by rintro _ ⟨⟩; rfl
  readable := ⟨_, _, sample_reference .., sample_readCheckpointRef ..⟩
  fetched := sample_payload ..
  payloadHash := nofun
  noCursor := fun _ => rfl
  replayed := nofun
  gated := nofun
  token := by rintro _ ⟨⟩; exact ⟨_, rfl, rfl⟩

/-- On a degraded node, with the token `degraded`, both restores return. -/
theorem degraded_both_return :
    Contend (crossRestore "degraded" degradedHash degradedDigest)
      (sampleWorld (crossWire "degraded" degradedHash) "degraded") (fun _ : Fin 2 => "m1") "alpha"
      (.text "degraded") ∧
    ¬ AtMostOne (crossRestore "degraded" degradedHash degradedDigest)
      (sampleWorld (crossWire "degraded" degradedHash) "degraded") fun _ : Fin 2 => "m1" := by
  have hc := cross_contend "degraded" degradedHash degradedDigest
    (sampleWorld (crossWire "degraded" degradedHash) "degraded") (fun _ : Fin 2 => "m1") (by decide)
  refine ⟨hc, fun h => ?_⟩
  obtain ⟨P, w, hr, h0, h1⟩ := both_return hc (i := 0) (j := 1) (by decide) degraded_admissible
    degraded_admissible rfl rfl
  exact absurd (h P w hr 0 1 _ _ h0 h1) (by decide)

end Gaia.Restore
