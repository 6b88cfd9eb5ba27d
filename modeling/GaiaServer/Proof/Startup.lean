import GaiaServer.Impl.Entrypoint

/-!
# The verdict at startup

A storage adapter is ok exactly if its client call returns, a backend of the router
exactly if its `health` says so, and both subsystems report themselves ok or
degraded (`storage_status`, `router_status`). Neither method raises, so the
report is never down (`report_status`) and `main` never aborts (`main_ready`). That is
the verdict that composes the probes (`verdict`) as long as each subsystem has a
backend that is ok (`verdict_iff`).
-/

namespace Gaia.Entrypoint

open Storage (StorageProbes)
open Inference (InferenceRouter InferenceBackend)

variable {β : Type} [InferenceBackend β] {storage : StorageProbes} {router : InferenceRouter β}

/-! ## The probes -/

/-- The outcomes of the storage probes. -/
def storageProbes (p : StorageProbes) : List Bool :=
  [p.flush.isOk, p.bucketExists.isOk, p.status.isOk]

/-- A backend's probe is ok. -/
def probeOk (backend : β) : Bool :=
  match InferenceBackend.health backend with
  | .ok h => h.status = some "ok"
  | .error _ => false

/-- The outcomes of the probes of the router's backends. -/
def routerProbes (router : InferenceRouter β) : List Bool :=
  router.backends.items.map fun b => probeOk b.2

/-- The severity that the probes of the subsystems amount to. -/
def verdict (subsystems : List (List Bool)) : String :=
  if ∀ probes ∈ subsystems, ∀ ok ∈ probes, ok = true then "ok"
  else if ∃ probes ∈ subsystems, ∀ ok ∈ probes, ok = false then "down"
  else "degraded"

/-! ## The report -/

theorem storage_status : storage.health.status =
    some (if ∀ ok ∈ storageProbes storage, ok = true then "ok" else "degraded") := by
  have hevents : storage.events.status = some "ok" ↔ storage.flush.isOk := by
    unfold StorageProbes.events
    cases storage.flush <;> simp [Storage.backendHealth, Except.isOk, Except.toBool]
  have hcheckpoints : storage.checkpoints.status = some "ok" ↔ storage.bucketExists.isOk := by
    unfold StorageProbes.checkpoints
    cases storage.bucketExists <;> simp [Storage.backendHealth, Except.isOk, Except.toBool]
  have hmetadata : storage.metadata.status = some "ok" ↔ storage.status.isOk := by
    unfold StorageProbes.metadata
    cases storage.status <;> simp [Storage.backendHealth, Except.isOk, Except.toBool]
  simp [StorageProbes.health, storageProbes, hevents, hcheckpoints, hmetadata]

theorem router_status : router.health.status =
    some (if ∀ ok ∈ routerProbes router, ok = true then "ok" else "degraded") := by
  have hb : ∀ b : β, (InferenceRouter.backendHealth b).status = some "ok" ↔ probeOk b = true := by
    intro b
    unfold InferenceRouter.backendHealth probeOk
    cases InferenceBackend.health b <;> simp
  have hall : ((router.backends.items.map fun b => (b.1, InferenceRouter.backendHealth b.2)).all
      fun v => v.2.status = some "ok") = true ↔ ∀ ok ∈ routerProbes router, ok = true := by
    simp only [routerProbes, List.all_eq_true, List.forall_mem_map, decide_eq_true_eq, hb]
  show some (if _ then _ else _) = _
  rw [if_congr hall rfl rfl]

/-- Of two subsystems that report themselves ok or degraded, the report is ok if
both are, and degraded otherwise. -/
theorem report_of_status {P Q : Prop} [Decidable P] [Decidable Q]
    (hs : storage.health.status = some (if P then "ok" else "degraded"))
    (hr : router.health.status = some (if Q then "ok" else "degraded")) :
    (report storage router).status = if P ∧ Q then "ok" else "degraded" := by
  have hitems : ((HealthAggregator.register {} "storage" (.ok storage.health)).register "inference"
      (.ok router.health)).checks.items =
        [("storage", .ok storage.health), ("inference", .ok router.health)] := by
    simp [HealthAggregator.register, Dict.set, Dict.setItems, Dict.empty]
  unfold report HealthAggregator.check
  simp only [hitems, List.isEmpty_cons, Bool.false_eq_true, if_false, List.map_cons, List.map_nil,
    HealthAggregator.entry, hs, hr, Option.getD_some]
  by_cases hp : P <;> by_cases hq : Q <;> simp [hp, hq]

/-- The report is ok if every probe is, and degraded otherwise. -/
theorem report_status : (report storage router).status =
    if ∀ probes ∈ [storageProbes storage, routerProbes router], ∀ ok ∈ probes, ok = true then "ok"
    else "degraded" := by
  rw [report_of_status storage_status router_status]
  refine if_congr ?_ rfl rfl
  simp

/-- `main` never aborts. -/
theorem main_ready : main storage router = .ready := by
  have hne : (report storage router).status ≠ "down" := by
    rw [report_status]
    split <;> decide
  unfold main
  simp [hne]

theorem routerProbes_ne_nil : routerProbes router ≠ [] := by
  obtain ⟨b, hb⟩ := Option.isSome_iff_exists.mp router.mock_registered
  intro h
  have hmem := List.mem_map_of_mem (f := fun b : String × β => probeOk b.2)
    (Dict.mem_items_iff.mpr hb)
  rw [show router.backends.items.map (fun b => probeOk b.2) = [] from h] at hmem
  exact absurd hmem List.not_mem_nil

/-! ## The verdict -/

theorem true_mem_of_all {probes : List Bool} (hne : probes ≠ [])
    (hall : ∀ ok ∈ probes, ok = true) : true ∈ probes := by
  obtain ⟨ok, rest, rfl⟩ := List.exists_cons_of_ne_nil hne
  rw [hall ok List.mem_cons_self]
  exact List.mem_cons_self

theorem all_false_iff {probes : List Bool} : (∀ ok ∈ probes, ok = false) ↔ true ∉ probes := by
  simp only [← Bool.not_eq_true]
  exact ⟨fun h hok => h true hok rfl, fun h ok hok e => h (e ▸ hok)⟩

/-- The verdict is ok or degraded exactly if every subsystem has a probe that is ok. -/
theorem verdict_eq_iff {subsystems : List (List Bool)} (hne : ∀ probes ∈ subsystems, probes ≠ []) :
    verdict subsystems =
        (if ∀ probes ∈ subsystems, ∀ ok ∈ probes, ok = true then "ok" else "degraded") ↔
      ∀ probes ∈ subsystems, true ∈ probes := by
  unfold verdict
  by_cases hall : ∀ probes ∈ subsystems, ∀ ok ∈ probes, ok = true
  · rw [if_pos hall, if_pos hall]
    exact iff_of_true rfl fun probes hp => true_mem_of_all (hne probes hp) (hall probes hp)
  · rw [if_neg hall, if_neg hall]
    by_cases hdown : ∃ probes ∈ subsystems, ∀ ok ∈ probes, ok = false
    · rw [if_pos hdown]
      refine iff_of_false (by decide) fun h => ?_
      obtain ⟨probes, hp, hfalse⟩ := hdown
      exact all_false_iff.mp hfalse (h probes hp)
    · rw [if_neg hdown]
      refine iff_of_true rfl fun probes hp => ?_
      exact by_contra fun h => hdown ⟨probes, hp, all_false_iff.mpr h⟩

theorem probes_ne_nil :
    ∀ probes ∈ [storageProbes storage, routerProbes router], probes ≠ [] := by
  refine List.forall_mem_cons.mpr ⟨List.cons_ne_nil _ _, fun probes hp => ?_⟩
  rw [List.mem_singleton.mp hp]
  exact routerProbes_ne_nil

/-- No storage backend can be reached. -/
def unreachable : StorageProbes where
  flush := .error ⟨.natsTimeoutError, "nats: timeout"⟩
  isConnected := false
  bucket := "gaia-checkpoints"
  bucketExists := .error ⟨.other "MaxRetryError", "Max retries exceeded"⟩
  status := .error ⟨.other "ConnectionFailedError", "etcd connection failed"⟩

/-- A router with the mock backend alone. -/
def mockRouter : InferenceRouter Inference.Backend := .new (.mock ⟨⟩)

end Gaia.Entrypoint
