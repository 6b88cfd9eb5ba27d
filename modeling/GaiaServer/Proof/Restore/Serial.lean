import GaiaServer.Framework.Serial
import GaiaServer.Proof.Restore.SplitBrain
import Mathlib.Data.List.Induction

/-!
# Concurrent restores are serialisable

Restores of any nodes, interleaved. A restore reads first, and no trust state; then it
writes one and is done (`restore_commitsLast`). So by `Pool.Ends.oneByOne` the restores have
run one after another, in the order in which they end (`restores_one_by_one`), whatever
operations raise.

Alone, a restore depends on the stores that the checks read and on the trust state of its
own node (`SameFor.restore`), and writes that state only. So without faults the restores of
the other nodes may be left out of the order (`restores_independent`).
-/

namespace Gaia.Restore

open Storage World RestoreOrchestrator
open Prog (CommitsLast Undisturbed Agree Only)

variable {ι : Type} {o : RestoreOrchestrator} {w₀ w w' : World} {ids : ι → String}

/-- Reads of anything but trust states. -/
def ReadsNoTrust (o : RestoreOrchestrator) (op : StoreOp) : Prop := ∀ n, Reads o n op

/-- A write of a node's trust state. -/
def WritesTrustOf (o : RestoreOrchestrator) (n : String) (op : StoreOp) : Prop :=
  ∃ v, op = .etcdPut (o.registry.metadata.key (trustKey n)) v ∨
    ∃ t, op = .etcdTxn (o.registry.metadata.key (trustKey n)) t v

def WritesTrust (o : RestoreOrchestrator) (op : StoreOp) : Prop := ∃ n, WritesTrustOf o n op

/-- A write of a trust state changes no other key. -/
theorem WritesTrustOf.sameOutside {n : String} {op : StoreOp} (ho : WritesTrustOf o n op)
    (w : World) : SameOutside (o.registry.metadata.key (trustKey n)) (handle op w).2 w := by
  obtain ⟨v, rfl | ⟨t, rfl⟩⟩ := ho
  · exact (SameOutside.refl _ w).set v
  · simp only [handle]
    split
    · exact (SameOutside.refl _ w).set v
    · exact .refl _ w

/-- It depends on that state only. -/
theorem WritesTrustOf.local {n : String} {op : StoreOp} (ho : WritesTrustOf o n op)
    (hw : stored? o w (trustKey n) = stored? o w' (trustKey n)) :
    (handle op w').1 = (handle op w).1 ∧
      stored? o (handle op w).2 (trustKey n) = stored? o (handle op w').2 (trustKey n) := by
  obtain ⟨v, rfl | ⟨t, rfl⟩⟩ := ho
  · simp only [handle, stored?, Dict.get?_set_self, and_self]
  · simp only [stored?] at hw
    simp only [handle, stored?, hw]
    split
    · simp only [Dict.get?_set_self, and_self]
    · exact ⟨rfl, hw⟩

/-- The checks see nothing of the writes. -/
theorem checks_undisturbed (o : RestoreOrchestrator) :
    Undisturbed handle (ReadsNoTrust o) (WritesTrust o) where
  reads ho w := handle_reads (ho "") w
  stable ho ho' w := by
    obtain ⟨n, ho'⟩ := ho'
    exact handle_stable (ho n) (ho'.sameOutside w)

/-- The promotion is one write of the node's trust state, or fails before it. -/
theorem promoteTrust_call (o : RestoreOrchestrator) (M : RestoreManifest) :
    (∃ exc, o.promoteTrust M = .raise exc) ∨
      ∃ op k, o.promoteTrust M = .call op k ∧ WritesTrustOf o M.nodeId op ∧
        ∀ r, (k r).isEnded = true := by
  cases ht : givenStr M.splitBrainToken with
  | none =>
    rw [promoteTrust, ht]
    refine .inr ⟨_, _, rfl, ⟨_, .inl rfl⟩, fun r => ?_⟩
    cases r <;> rfl
  | some token =>
    cases he : token.encode with
    | error exc => exact .inl ⟨exc, promoteTrust_unencodable ht he⟩
    | ok expected =>
      refine .inr ⟨_, _, promoteTrust_eq ht he, ⟨_, .inr ⟨_, rfl⟩⟩, fun r => ?_⟩
      cases r with
      | error e => rfl
      | ok swapped => cases swapped <;> rfl

/-- A restore writes once, and last. -/
theorem restore_commitsLast (o : RestoreOrchestrator) (id : String) :
    (o.restore id).CommitsLast (ReadsNoTrust o) (WritesTrust o) := by
  rw [restore_eq]
  refine (Prog.only_forall (checks_only o id)).commitsLast_bind fun c => ?_
  rcases promoteTrust_call o c.1 with ⟨exc, hp⟩ | ⟨op, k, hp, ho, hk⟩
  · rw [hp]
    trivial
  rw [hp]
  refine .inr ⟨⟨_, ho⟩, fun r => ?_⟩
  obtain ⟨res, hr⟩ := Prog.isEnded_iff.mp (hk r)
  show Prog.isEnded ((k r).bind _) = true
  rw [hr]
  cases res <;> rfl

theorem restore_not_ended (o : RestoreOrchestrator) (id : String) :
    (o.restore id).isEnded = false := rfl

/-- A restore that will return has not ended when it has read its manifest: the payload is
still to be fetched. -/
theorem restore_started {id : String} {M : RestoreManifest} {payload : Bytes} {n : Nat}
    (hM : Admissible o w id M payload n) :
    ∃ op k, o.restore id = .call op k ∧ (handle op w).2 = w ∧
      (k (handle op w).1).isEnded = false := by
  refine ⟨.etcdGet (o.registry.metadata.key ("manifests/" ++ id)), _, rfl, rfl, ?_⟩
  by_contra hended
  obtain ⟨r, hr⟩ := Prog.isEnded_iff.mp (Bool.eq_true_of_not_eq_false hended)
  -- it would return in stores without the payload, too
  have hrun : ∀ w', (handle (.etcdGet (o.registry.metadata.key ("manifests/" ++ id))) w').1 =
      (handle (.etcdGet (o.registry.metadata.key ("manifests/" ++ id))) w).1 →
      (o.restore id).run handle w' = (r, w') := by
    intro w' hsame
    refine (Prog.run_call ..).trans ?_
    rw [hsame, hr, Prog.run_lift]
    rfl
  have hreturns := (hrun w rfl).symm.trans (restore_run.mpr ⟨M, payload, n, hM, rfl, rfl⟩)
  obtain ⟨rfl, -⟩ := Prod.mk.inj hreturns
  obtain ⟨M', payload', n', hM', -⟩ := restore_run.mp (hrun { w with objects := .empty } rfl)
  have hfetched := hM'.fetched
  rw [object?, Dict.get?_empty] at hfetched
  cases hfetched

/-! ## Nodes apart -/

/-- The node of the manifest under an id. -/
def nodeOf (o : RestoreOrchestrator) (w : World) (id : String) : Option String :=
  (stored? o w ("manifests/" ++ id)).bind fun raw =>
    (o.core.readManifest raw).toOption.map RestoreManifest.nodeId

theorem Checked.nodeOf {id : String} {M : RestoreManifest} {payload : Bytes} {n : Nat}
    (h : Checked o w id M payload n) : nodeOf o w id = some M.nodeId := by
  obtain ⟨raw, hs, hr⟩ := h.stored
  rw [Restore.nodeOf, hs, Option.bind_some, hr]
  rfl

theorem nodeOf_agree (ha : Agree handle (ReadsNoTrust o) w w') (id : String) :
    nodeOf o w' id = nodeOf o w id := by
  have hs : stored? o w' ("manifests/" ++ id) = stored? o w ("manifests/" ++ id) :=
    Except.ok.inj (ha (.etcdGet (o.registry.metadata.key ("manifests/" ++ id)))
      fun n => manifestKey_ne_trustKey _ id n)
  rw [nodeOf, hs, nodeOf]

/-- What a restore alone does to the stores. -/
theorem restore_state (o : RestoreOrchestrator) (w : World) (id : String) :
    ((o.restore id).run handle w).2 = w ∨
      ∃ M, nodeOf o w id = some M.nodeId ∧ ((o.restore id).run handle w).2 = promoted o w M := by
  cases hr : ((o.restore id).run handle w).1 with
  | error e =>
    rcases restore_exec (Prog.Exec.of_run (o.restore id) w) with
      ⟨-, -, hw⟩ | ⟨M, payload, n, hok, -⟩
    · exact .inl hw
    · cases hr.symm.trans hok
  | ok r =>
    obtain ⟨M, payload, n, hM, -, hw⟩ := restore_run.mp (Prod.ext hr rfl)
    exact .inr ⟨M, hM.toChecked.nodeOf, hw⟩

theorem restore_agree (o : RestoreOrchestrator) (w : World) (id : String) :
    Agree handle (ReadsNoTrust o) w ((o.restore id).run handle w).2 := by
  rcases restore_state o w id with hw | ⟨M, -, hw⟩
  · rw [hw]
    exact .refl _ _ w
  · rw [hw]
    exact fun op ho => handle_stable (ho M.nodeId) ((SameOutside.refl _ w).set _)

/-- A restore leaves the other nodes' trust states as they are. -/
theorem restore_elsewhere {id n : String} (hn : nodeOf o w id ≠ some n) :
    stored? o ((o.restore id).run handle w).2 (trustKey n) = stored? o w (trustKey n) := by
  rcases restore_state o w id with hw | ⟨M, hM, hw⟩
  · rw [hw]
  · rw [hw]
    refine Dict.get?_set_of_ne (fun he => hn ?_) ..
    rw [hM, (trustKey_inj _).mp he]

/-- The stores look the same to the checks and at a node's trust state, if there is a node. -/
structure SameFor (o : RestoreOrchestrator) (node : Option String) (w w' : World) : Prop where
  agree : Agree handle (ReadsNoTrust o) w w'
  trust : ∀ n, node = some n → stored? o w (trustKey n) = stored? o w' (trustKey n)

/-- To a restore, stores that look the same for its node are the same. -/
theorem SameFor.restore {id : String} (h : SameFor o (nodeOf o w id) w w') :
    ((o.restore id).run handle w').1 = ((o.restore id).run handle w).1 ∧
      ∀ n, nodeOf o w id = some n → stored? o ((o.restore id).run handle w).2 (trustKey n) =
        stored? o ((o.restore id).run handle w').2 (trustKey n) := by
  have hrun : ∀ {w'}, Agree handle (ReadsNoTrust o) w w' →
      (o.checks id).run handle w' = (((o.checks id).run handle w).1, w') :=
    (Prog.only_forall (checks_only o id)).run_agree (checks_undisturbed o)
  rw [restore_eq, Prog.run_bind, Prog.run_bind, hrun h.agree, hrun (.refl _ _ w)]
  cases hc : ((o.checks id).run handle w).1 with
  | error e => exact ⟨rfl, h.trust⟩
  | ok c =>
    obtain ⟨M, payload, n⟩ := c
    have hM : Checked o w id M payload n :=
      (checks_run.mp (by rw [hrun (.refl _ _ w), hc])).1
    have hn := hM.nodeOf
    rcases promoteTrust_call o M with ⟨exc, hp⟩ | ⟨op, k, hp, ho, hk⟩
    · dsimp only
      rw [hp]
      exact ⟨rfl, h.trust⟩
    obtain ⟨hres, htrust⟩ := ho.local (h.trust _ hn)
    obtain ⟨r, hr⟩ := Prog.isEnded_iff.mp (hk (handle op w).1)
    have hend : ∀ s, (handle op s).1 = (handle op w).1 →
        ((o.promoteTrust M).bind fun granted => (.ret { result id M payload n with
          grantedTrustClass := granted } : Store RestoreResult)).run handle s =
        (r.map fun granted => { result id M payload n with grantedTrustClass := granted },
          (handle op s).2) := by
      intro s hs
      rw [hp, Prog.run_bind, Prog.run_call, hs, hr, Prog.run_lift]
      cases r <;> rfl
    dsimp only
    rw [hend w rfl, hend w' hres]
    refine ⟨rfl, fun m hm => ?_⟩
    obtain rfl := Option.some.inj (hn.symm.trans hm)
    exact htrust

/-- The restores of a node, of those in `order`. -/
def restoresOf (o : RestoreOrchestrator) (w₀ : World) (ids : ι → String) (node : Option String)
    (order : List ι) : List ι :=
  order.filter fun i => nodeOf o w₀ (ids i) = node

theorem afterAll_agree (o : RestoreOrchestrator) (w₀ : World) (ids : ι → String) (order : List ι) :
    Agree handle (ReadsNoTrust o) w₀ (Pool.afterAll handle (restores o ids) w₀ order) := by
  induction order using List.reverseRecOn with
  | nil => exact .refl _ _ w₀
  | append_singleton order i ih =>
    rw [Pool.afterAll_append]
    exact fun op ho => (restore_agree o _ (ids i) op ho).trans (ih op ho)

/-- A node's trust state is what the restores of that node make it. -/
theorem afterAll_sameFor (o : RestoreOrchestrator) (w₀ : World) (ids : ι → String)
    (node : Option String) (order : List ι) :
    SameFor o node (Pool.afterAll handle (restores o ids) w₀ order)
      (Pool.afterAll handle (restores o ids) w₀ (restoresOf o w₀ ids node order)) := by
  have hagree := afterAll_agree o w₀ ids
  refine ⟨fun op ho => (hagree _ op ho).trans (hagree _ op ho).symm, fun n hn => ?_⟩
  induction order using List.reverseRecOn with
  | nil => rfl
  | append_singleton order i ih =>
    have hnode := nodeOf_agree (hagree order) (ids i)
    rw [restoresOf, List.filter_append, Pool.afterAll_append]
    by_cases hi : nodeOf o w₀ (ids i) = node
    · have hsame : SameFor o (nodeOf o _ (ids i))
          (Pool.afterAll handle (restores o ids) w₀ order)
          (Pool.afterAll handle (restores o ids) w₀ (restoresOf o w₀ ids node order)) :=
        ⟨fun op ho => (hagree _ op ho).trans (hagree _ op ho).symm, fun m hm => by
          rw [hnode, hi, hn] at hm
          obtain rfl := Option.some.inj hm
          exact ih⟩
      rw [List.filter_singleton, decide_eq_true hi, cond_true, Pool.afterAll_append]
      exact hsame.restore.2 n (by rw [hnode, hi, hn])
    · rw [List.filter_singleton, decide_eq_false hi, cond_false, List.append_nil]
      refine (restore_elsewhere ?_).trans ih
      rw [hnode, ← hn]
      exact hi

/-! ## Interleaved -/

variable [DecidableEq ι] {P : Pool StoreOp StoreRes Exc RestoreResult ι} {F : Exc → Prop}
  {order : List ι}

/-- Interleaved in any way, and whichever operations raise, the restores that have ended
have run one after another in the order of their ends: each with its result, and all
with the stores. -/
theorem restores_one_by_one (hr : Pool.Ends handle F (restores o ids) w₀ order P w) :
    order.Nodup ∧ (∀ i, i ∈ order ↔ (P i).isEnded = true) ∧
      Pool.OneByOne handle F (restores o ids) P w₀ order w :=
  have hall := hr.oneByOne (checks_undisturbed o) fun i => restore_commitsLast o (ids i)
  ⟨hall.1, hr.mem_iff fun i => restore_not_ended o (ids i), hall.2⟩

/-- Two restores with the token `degraded`, of a degraded node. -/
def degradedPair : Pool StoreOp StoreRes Exc RestoreResult (Fin 2) :=
  restores (crossRestore "degraded" degradedHash degradedDigest) fun _ => "m1"

def degradedWorld : World := sampleWorld (crossWire "degraded" degradedHash) "degraded"

/-- The second reads its manifest, the first restores, and the second goes on. -/
theorem degraded_ends :
    ∃ P w, Pool.Ends handle noFault degradedPair degradedWorld [0, 1] P w := by
  obtain ⟨op, k, hcall, hsame, hmore⟩ := restore_started degraded_admissible
  have h0 : Pool.Ends handle noFault degradedPair degradedWorld [] degradedPair degradedWorld :=
    .start
  have h1 := h0.effect (i := 1) hcall
  rw [degradedWorld, hsame, if_neg (by rw [hmore]; exact Bool.false_ne_true)] at h1
  have h2 := h1.run_thread (i := 0) rfl
  have h3 := h2.run_thread (i := 1) (by
    rw [Function.update_of_ne (by decide), Function.update_self]
    exact hmore)
  exact ⟨_, _, h3⟩

theorem degraded_one_by_one : ∃ P w, [(0 : Fin 2), 1].Nodup ∧
    (∀ i, i ∈ [(0 : Fin 2), 1] ↔ (P i).isEnded = true) ∧
    Pool.OneByOne handle noFault degradedPair P degradedWorld [0, 1] w := by
  obtain ⟨P, w, hr⟩ := degraded_ends
  exact ⟨P, w, restores_one_by_one hr⟩

/-- A restore's result, in any interleaving without faults, is what it is after the restores
of its own node alone that have ended before it; and a node's trust state is what the
restores of that node alone make it. -/
theorem restores_independent (hr : Pool.Ends handle noFault (restores o ids) w₀ order P w) :
    (∀ pre i post, order = pre ++ i :: post →
      P i = Prog.lift ((o.restore (ids i)).run handle (Pool.afterAll handle (restores o ids) w₀
        (restoresOf o w₀ ids (nodeOf o w₀ (ids i)) pre))).1) ∧
    ∀ n, stored? o w (trustKey n) = stored? o (Pool.afterAll handle (restores o ids) w₀
      (restoresOf o w₀ ids (some n) order)) (trustKey n) := by
  have hall : Pool.OneByOne handle noFault (restores o ids) P w₀ order w :=
    (hr.oneByOne (checks_undisturbed o) fun i => restore_commitsLast o (ids i)).2
  obtain ⟨rfl, hres⟩ := hall.run fun _ => id
  refine ⟨fun pre i post he => ?_, fun n => (afterAll_sameFor o w₀ ids (some n) order).trust n rfl⟩
  have hsame := afterAll_sameFor o w₀ ids (nodeOf o w₀ (ids i)) pre
  rw [← nodeOf_agree (afterAll_agree o w₀ ids pre)] at hsame
  rw [hres pre i post he, restores, ← hsame.restore.1, nodeOf_agree (afterAll_agree o w₀ ids pre)]

theorem degraded_independent : ∃ P w, P 1 = Prog.lift
      ((degradedPair 1).run handle (Pool.afterAll handle degradedPair degradedWorld
        (restoresOf (crossRestore "degraded" degradedHash degradedDigest) degradedWorld
          (fun _ : Fin 2 => "m1") (nodeOf (crossRestore "degraded" degradedHash degradedDigest)
            degradedWorld "m1") [0]))).1 ∧
    Pool.Reach handle noFault degradedPair degradedWorld P w := by
  obtain ⟨P, w, hr⟩ := degraded_ends
  exact ⟨P, w, (restores_independent hr).1 [0] 1 [] rfl, Pool.reach_iff_ends.mpr ⟨_, hr⟩⟩

end Gaia.Restore
