import GaiaServer.Framework.Resume
import GaiaServer.Proof.Restore.Serial
import GaiaServer.Spec.Restore.Readable

/-!
# A restore that is stopped

A restore that is stopped, at any storage call and by any exception of one, and run again. It has
changed nothing, or has promoted its node (`restore_stopped`). In the second case it does again,
without a split-brain token, what it would have done; with one it is refused, since the node no
longer has the token's trust state: its caller cannot tell its own promotion from another's
(`restarted_restore`).
-/

namespace Gaia.Restore

open Storage World RestoreOrchestrator
open Prog (Cut Exec Agree)
open Relation (ReflTransGen)

variable {o : RestoreOrchestrator} {id : String} {M : RestoreManifest} {w w' : World}

/-! ## Where it is stopped -/

theorem loadManifest_exec (hx : Exec handle (o.loadManifest id) w (.ok M) w') :
    Loaded o w M id := by
  obtain ⟨raw, w₁, hraw, hx⟩ := Exec.bind_ok hx
  obtain rfl : raw = stored? o w ("manifests/" ++ id) := by
    cases hraw with
    | effect hraw =>
      cases hraw
      rfl
    | fault e hraw => cases hraw
  cases hs : stored? o w ("manifests/" ++ id) with
  | none =>
    rw [hs] at hx
    cases hx
  | some raw =>
    rw [hs] at hx
    dsimp only at hx
    cases hr : o.core.readManifest raw with
    | error exc =>
      rw [hr] at hx
      cases hx
    | ok M' =>
      rw [hr] at hx
      dsimp only at hx
      split at hx
      · cases hx
      · rename_i hsigned
        cases hx
        exact ⟨⟨raw, hs, hr⟩, hsigned⟩

/-- The checks have read the manifest. -/
theorem checks_exec {payload : Bytes} {n : Nat}
    (hx : Exec handle (o.checks id) w (.ok (M, payload, n)) w') : Loaded o w M id ∧ w' = w := by
  refine ⟨?_, hx.only_reads (fun op s h => handle_reads h s) (checks_only o id "")⟩
  obtain ⟨M', w₁, hM, hx⟩ := Exec.bind_ok hx
  obtain ⟨⟨⟩, w₂, -, hx⟩ := Exec.bind_ok hx
  obtain ⟨⟨⟩, w₃, -, hx⟩ := Exec.bind_ok hx
  obtain ⟨payload', w₄, -, hx⟩ := Exec.bind_ok hx
  obtain ⟨n', w₅, -, hx⟩ := Exec.bind_ok hx
  obtain ⟨⟨⟩, w₆, -, hx⟩ := Exec.bind_ok hx
  cases hx
  exact loadManifest_exec hM

theorem promoteTrust_cut (hc : Cut handle (o.promoteTrust M) w w') :
    w' = w ∨ w' = promoted o w M ∧ TokenHeld o w M := by
  cases htoken : givenStr M.splitBrainToken with
  | some token =>
    cases he : token.encode with
    | error exc =>
      rw [promoteTrust_unencodable htoken he] at hc
      cases hc
      exact .inl rfl
    | ok expected =>
      rw [promoteTrust_eq htoken he] at hc
      cases hc with
      | stop => exact .inl rfl
      | effect hc =>
        simp only [handle] at hc
        split at hc
        · rename_i hstored
          cases hc
          refine .inr ⟨rfl, fun t ht => ?_⟩
          obtain rfl := Option.some.inj (htoken.symm.trans ht)
          exact ⟨expected, he, hstored⟩
        · cases hc
          exact .inl rfl
      | fault e hc =>
        cases hc
        exact .inl rfl
  | none =>
    rw [promoteTrust, htoken] at hc
    cases hc with
    | stop => exact .inl rfl
    | effect hc =>
      cases hc
      refine .inr ⟨rfl, fun t ht => ?_⟩
      rw [htoken] at ht
      cases ht
    | fault e hc =>
      cases hc
      exact .inl rfl

theorem restore_cut (hc : Cut handle (o.restore id) w w') :
    w' = w ∨ ∃ M, Loaded o w M id ∧ w' = promoted o w M ∧ TokenHeld o w M := by
  have hreads : ∀ op s, Reads o "" op → (handle op s).2 = s := fun _ s h => handle_reads h s
  rw [restore_eq] at hc
  rcases hc.bind_inv with hchecks | ⟨⟨M, payload, n⟩, w₁, hx, hrest⟩
  · exact .inl (hchecks.only_reads hreads (checks_only o id ""))
  · obtain ⟨hM, rfl⟩ := checks_exec hx
    have hp : Cut handle (o.promoteTrust M) w₁ w' := by
      rcases hrest.bind_inv with hp | ⟨granted, w₂, hx, hret⟩
      · exact hp
      · cases hret
        exact hx.cut
    exact (promoteTrust_cut hp).imp_right fun h => ⟨M, hM, h.1, h.2⟩

/-! ## After the promotion -/

theorem promoted_promoted (o : RestoreOrchestrator) (w : World) (M : RestoreManifest) :
    promoted o (promoted o w M) M = promoted o w M := by
  have hset := Dict.set_of_get? (Dict.get?_set_self w.etcd
    (o.registry.metadata.key (trustKey M.nodeId)) (grantedValue o M))
  rw [promoted, promoted, hset]

theorem promoted_agree (o : RestoreOrchestrator) (w : World) (M : RestoreManifest) :
    Agree handle (ReadsNoTrust o) w (promoted o w M) :=
  fun _ ho => handle_stable (ho M.nodeId) ((SameOutside.refl _ w).set _)

theorem Loaded.unique {M' : RestoreManifest} (h : Loaded o w M id) (h' : Loaded o w M' id) :
    M = M' := by
  obtain ⟨⟨raw, hs, hr⟩, -⟩ := h
  obtain ⟨⟨raw', hs', hr'⟩, -⟩ := h'
  obtain rfl := Option.some.inj (hs.symm.trans hs')
  exact Except.ok.inj (hr.symm.trans hr')

theorem Loaded.of_promoted {M' : RestoreManifest} (h : Loaded o (promoted o w M) M' id) :
    Loaded o w M' id := by
  obtain ⟨⟨raw, hs, hr⟩, hsigned⟩ := h
  refine ⟨⟨raw, ?_, hr⟩, hsigned⟩
  rw [← hs]
  exact (Dict.get?_set_of_ne (manifestKey_ne_trustKey _ id M.nodeId) ..).symm

/-- However often a restore has been stopped, it has changed nothing, or promoted its node. -/
theorem restore_stopped (hc : ReflTransGen (Cut handle (o.restore id)) w w') :
    w' = w ∨ ∃ M, Loaded o w M id ∧ w' = promoted o w M ∧ TokenHeld o w M := by
  induction hc with
  | refl => exact .inl rfl
  | tail _ hc ih =>
    rcases ih with rfl | ⟨M, hM, rfl, hp⟩
    · exact restore_cut hc
    · refine .inr ⟨M, hM, ?_, hp⟩
      rcases restore_cut hc with rfl | ⟨M', hM', rfl, -⟩
      · rfl
      · obtain rfl := hM.unique hM'.of_promoted
        exact promoted_promoted o w M

/-! ## Run again -/

/-- The checks come out as they would have. -/
theorem checks_again (o : RestoreOrchestrator) (w : World) (M : RestoreManifest) (id : String) :
    (o.checks id).run handle (promoted o w M) =
      (((o.checks id).run handle w).1, promoted o w M) :=
  (Prog.only_forall (checks_only o id)).run_agree (checks_undisturbed o) (promoted_agree o w M)

theorem restore_of_refused {exc : Exc} (h : (o.checks id).run handle w = (.error exc, w)) :
    (o.restore id).run handle w = (.error exc, w) := by
  rw [restore_eq, Prog.run_bind, h]

/-- A promotion whose token is not the node's trust state. -/
theorem restore_of_claimed {payload expected : Bytes} {n : Nat} {t : PyStr}
    (h : (o.checks id).run handle w = (.ok (M, payload, n), w))
    (ht : givenStr M.splitBrainToken = some t) (he : t.encode = .ok expected)
    (hne : stored? o w (trustKey M.nodeId) ≠ some expected) :
    ∃ exc, (o.restore id).run handle w = (.error exc, w) ∧ exc.cls = .trustPromotionError := by
  refine ⟨⟨.trustPromotionError, "Split-brain CAS failed for node " ++ M.nodeId ++
    " — another restore may have already claimed this node"⟩, ?_, rfl⟩
  rw [stored?] at hne
  rw [restore_eq, Prog.run_bind, h]
  dsimp only
  rw [promoteTrust_eq ht he]
  simp only [Prog.run_bind, Prog.run_call, handle, if_neg hne]
  rfl

/-- A restore that has been stopped and is run again. -/
theorem restarted_restore (hc : ReflTransGen (Cut handle (o.restore id)) w w') :
    w' = w ∨ ∃ M, Loaded o w M id ∧ w' = promoted o w M ∧
      (givenStr M.splitBrainToken = none →
        (o.restore id).run handle w' = (((o.restore id).run handle w).1, w')) ∧
      ∀ t, givenStr M.splitBrainToken = some t → ∃ expected, t.encode = .ok expected ∧
        stored? o w (trustKey M.nodeId) = some expected ∧
        (grantedValue o M ≠ expected → ∃ exc, (o.restore id).run handle w' = (.error exc, w') ∧
          ∀ r, ((o.restore id).run handle w).1 = .ok r → exc.cls = .trustPromotionError) := by
  refine (restore_stopped hc).imp_right ?_
  rintro ⟨M, hM, rfl, hp⟩
  have hagain := checks_again o w M id
  have hfirst : (o.checks id).run handle w = (((o.checks id).run handle w).1, w) :=
    (Prog.only_forall (checks_only o id)).run_agree (checks_undisturbed o) (.refl _ _ w)
  refine ⟨M, hM, rfl, fun hnone => ?_, fun t ht => ?_⟩
  · cases hr : ((o.checks id).run handle w).1 with
    | error exc =>
      rw [hr] at hagain hfirst
      rw [restore_of_refused hagain, restore_of_refused hfirst]
    | ok c =>
      obtain ⟨M', payload, n⟩ := c
      rw [hr] at hagain hfirst
      have hC := (checks_run.mp hfirst).1
      have hC' := (checks_run.mp hagain).1
      obtain rfl := hM.unique ⟨hC.stored, hC.signed⟩
      have htoken : ∀ s : World, TokenHeld o s M := fun s t ht => by
        rw [hnone] at ht
        cases ht
      rw [restore_run.mpr ⟨M, payload, n, ⟨hC', htoken _⟩, rfl, rfl⟩,
        restore_run.mpr ⟨M, payload, n, ⟨hC, htoken w⟩, rfl, rfl⟩, promoted_promoted]
  · obtain ⟨expected, he, hs⟩ := hp t ht
    refine ⟨expected, he, hs, fun hne => ?_⟩
    cases hr : ((o.checks id).run handle w).1 with
    | error exc =>
      rw [hr] at hagain hfirst
      refine ⟨exc, restore_of_refused hagain, fun r hok => ?_⟩
      rw [restore_of_refused hfirst] at hok
      cases hok
    | ok c =>
      obtain ⟨M', payload, n⟩ := c
      rw [hr] at hagain hfirst
      have hC := (checks_run.mp hfirst).1
      obtain rfl := hM.unique ⟨hC.stored, hC.signed⟩
      have hclaimed : stored? o (promoted o w M) (trustKey M.nodeId) ≠ some expected := by
        rw [stored?, promoted, Dict.get?_set_self]
        exact fun he => hne (Option.some.inj he)
      obtain ⟨exc, hrun, hcls⟩ := restore_of_claimed hagain ht he hclaimed
      exact ⟨exc, hrun, fun _ _ => hcls⟩

/-! ## A restore refused by its own promotion -/

def unverifiedHash : String :=
  "sha256:b57411d02e611d0a9a9f380d24073032932f53ea2a4dd4ca048873cc912c4de7"

def unverifiedDigest : Bytes :=
  [181, 116, 17, 208, 46, 97, 29, 10, 154, 159, 56, 13, 36, 7, 48, 50, 147, 47, 83, 234, 42, 77,
    212, 202, 4, 136, 115, 204, 145, 44, 77, 231]

/-- A restore with the token `unverified`, which grants `degraded`. -/
def unverifiedRestore : RestoreOrchestrator :=
  crossRestore "unverified" unverifiedHash unverifiedDigest

def unverifiedWorld : World := sampleWorld (crossWire "unverified" unverifiedHash) "unverified"

theorem unverified_admissible : Admissible unverifiedRestore unverifiedWorld "m1"
    (crossManifest "unverified" unverifiedHash) (encode "payload-bytes") 0 where
  stored := ⟨_, sample_manifest .., sample_readManifest ..⟩
  signed := by decide
  hashed := ⟨crossCanonical "unverified", by decide +kernel, by
    rw [unverifiedRestore, crossRestore, sample_sha256]
    decide +kernel⟩
  attested := by decide
  attestation := by rintro _ ⟨⟩; rfl
  readable := ⟨_, _, sample_reference .., sample_readCheckpointRef ..⟩
  fetched := sample_payload ..
  payloadHash := nofun
  noCursor := fun _ => rfl
  replayed := nofun
  gated := nofun
  token := by rintro _ ⟨⟩; exact ⟨_, rfl, rfl⟩

theorem refused_by_itself : ∃ w' exc,
    Cut handle (unverifiedRestore.restore "m1") unverifiedWorld w' ∧
    (unverifiedRestore.restore "m1").run handle w' = (.error exc, w') ∧
    exc.cls = .trustPromotionError := by
  have hrun := restore_run.mpr ⟨_, _, _, unverified_admissible, rfl, rfl⟩
  have hcut := (Exec.of_run (h := handle) (unverifiedRestore.restore "m1") unverifiedWorld).cut
  rw [hrun] at hcut
  rcases restarted_restore (.single hcut) with he | ⟨M, hM, -, -, htoken⟩
  · have htrust := congrArg (fun w => stored? unverifiedRestore w (trustKey "alpha")) he
    exact absurd htrust (by decide +kernel)
  · obtain rfl := hM.unique ⟨unverified_admissible.stored, unverified_admissible.signed⟩
    obtain ⟨expected, he, -, hrefused⟩ := htoken (.text "unverified") (givenStr_text (by decide))
    obtain rfl := Except.ok.inj he
    obtain ⟨exc, hagain, hcls⟩ := hrefused (by decide)
    exact ⟨_, exc, hcut, hagain, hcls _ (congrArg Prod.fst hrun)⟩

end Gaia.Restore
