import GaiaServer.Impl.Tenancy.Methods
import GaiaServer.Proof.Tenancy.Registration
import Mathlib.Data.Fintype.Card

/-!
# The registry, used by several threads

Alone, the body of a method does what the method does at once (`registry_atomic`). The
methods hold the lock, so by `Monitor.Reach.atomic` threads that interleave access by access
have called a registry one after another, which stays well formed (`concurrent_registry`).

Of registrations of different new tenants, as many return as there are places
(`places_filled`), however they interleave.
-/

namespace Gaia.Tenancy

open TenantRegistry
open Monitor (Reach noFault)

variable {α ι : Type}

/-! ## The bodies alone -/

/-- An iteration sees the items, as nobody else changes them. -/
theorem iterate_run {β : Type} (r : TenantRegistry) (f : β → String × TenantRecord → β)
    (before : List (String × TenantRecord)) {rest : List (String × TenantRecord)}
    (h : r.tenants.items = before ++ rest) (acc : β) :
    (iterate f r.tenants.items.length (rest.length + 1) before.length acc).run RegistryOp.handle r =
      (.ok (rest.foldl f acc), r) := by
  induction rest generalizing before acc with
  | nil =>
    have hplace : r.tenants.items[before.length]? = none := by rw [h]; simp
    simp [iterate, Prog.run_bind, Prog.run_perform, RegistryOp.handle, hplace]
  | cons item rest ih =>
    have hplace : r.tenants.items[before.length]? = some item := by rw [h]; simp
    have hget : r.tenants.get? item.1 = some item.2 :=
      Dict.mem_items_iff.mp (by rw [h]; simp)
    have hnext := ih (before ++ [item]) (by rw [h]; simp) (f acc item)
    rw [List.length_append, List.length_singleton] at hnext
    rw [List.length_cons, iterate]
    simp only [Prog.bind_eq, Prog.run_bind, Prog.run_perform, RegistryOp.handle, hplace, ne_eq,
      not_true_eq_false, if_false, Option.map_some, TenantRegistry.get, hget]
    exact hnext

theorem overItems_run {β : Type} (r : TenantRegistry) (f : β → String × TenantRecord → β)
    (acc : β) :
    (overItems f acc).run RegistryOp.handle r = (.ok (r.tenants.items.foldl f acc), r) :=
  iterate_run r f [] rfl acc

theorem foldl_count {β : Type} (p : β → Bool) (xs : List β) (n : Nat) :
    xs.foldl (fun n x => if p x then n + 1 else n) n = n + xs.countP p := by
  induction xs generalizing n with
  | nil => rfl
  | cons x xs ih =>
    rw [List.foldl_cons, ih, List.countP_cons]
    split <;> omega

theorem foldl_filter_map {β γ : Type} (p : β → Bool) (g : β → γ) (xs : List β) (acc : List γ) :
    xs.foldl (fun acc x => if p x then acc ++ [g x] else acc) acc =
      acc ++ (xs.filter p).map g := by
  induction xs generalizing acc with
  | nil => simp
  | cons x xs ih =>
    rw [List.foldl_cons, ih, List.filter_cons]
    split <;> simp

theorem contains_run (r : TenantRegistry) (id : String) :
    (access (.contains id)).run RegistryOp.handle r = (.ok (r.tenants.get? id).isSome, r) := rfl

theorem registerBody_run (r : TenantRegistry) (id : String)
    (metadata : Option (Dict String String)) :
    (Method.registerBody id metadata).run RegistryOp.handle r = r.register id metadata := by
  have hcount : (overItems (fun n item => if item.2.active then n + 1 else n) 0).run
      RegistryOp.handle r = (.ok r.activeCount, r) := by
    rw [overItems_run, foldl_count (fun item : String × TenantRecord => item.2.active),
      Nat.zero_add, activeCount]
  rw [Method.registerBody, Prog.bind_eq, Prog.run_bind_ok _ hcount, register]
  show Prog.run RegistryOp.handle (ite _ _ _) r = _
  by_cases hfull : r.config.maxTenants ≤ r.activeCount
  · rw [if_pos hfull, if_pos hfull]
    rfl
  · rw [if_neg hfull, if_neg hfull, Prog.bind_eq, Prog.run_bind, contains_run]
    cases hg : r.tenants.get? id with
    | some record =>
      show (access (.getItem id)).run RegistryOp.handle r = _
      rw [Prog.run_perform, RegistryOp.handle, hg]
    | none => rfl

theorem deregisterBody_run (r : TenantRegistry) (id : String) :
    (Method.deregisterBody id).run RegistryOp.handle r = r.deregister id := by
  rw [Method.deregisterBody, Prog.bind_eq, Prog.run_bind, contains_run, deregister]
  cases hg : r.tenants.get? id with
  | none => rfl
  | some record =>
    have hitem : (access (.getItem id)).run RegistryOp.handle r = (.ok record, r) := by
      rw [Prog.run_perform, RegistryOp.handle, hg]
    dsimp only [Option.isSome_some, if_true]
    rw [if_pos rfl, Prog.bind_eq, Prog.run_bind_ok _ hitem, Prog.run_perform, RegistryOp.handle, hg]

theorem getBody_run (r : TenantRegistry) (id : String) :
    (Method.getBody id).run RegistryOp.handle r = (r.get id, r) := by
  rw [Method.getBody, Prog.bind_eq, Prog.run_bind, contains_run, TenantRegistry.get]
  cases hg : r.tenants.get? id with
  | none => rfl
  | some record =>
    show (access (.getItem id)).run RegistryOp.handle r = _
    rw [Prog.run_perform, RegistryOp.handle, hg]

/-- A method's accesses, one after another, are the method. -/
theorem registry_atomic : registryMonitor.atomic = methods := by
  funext m r
  cases m with
  | register id metadata => exact registerBody_run r id metadata
  | deregister id => exact deregisterBody_run r id
  | get id => exact getBody_run r id
  | listTenants =>
    have hrun := overItems_run r
      (fun tenants item => if item.2.active then tenants ++ [item.1] else tenants) []
    rw [foldl_filter_map (fun item : String × TenantRecord => item.2.active) Prod.fst,
      List.nil_append] at hrun
    exact hrun
  | snapshot =>
    have hrun := overItems_run r (fun entries item => entries ++
      [(⟨item.2.tenantId, item.2.ns, item.2.isolationMode, item.2.active⟩ : SnapshotEntry)]) []
    have hall := foldl_filter_map (fun _ => true) (fun item : String × TenantRecord =>
      (⟨item.2.tenantId, item.2.ns, item.2.isolationMode, item.2.active⟩ : SnapshotEntry))
      r.tenants.items []
    simp only [if_true, List.nil_append, List.filter_true] at hall
    rw [hall] at hrun
    exact hrun

/-! ## Interleaved -/

/-- The change that a method makes, if it makes one. -/
def Method.change? : Method → Option RegistryCall
  | .register id metadata => some (.register id metadata)
  | .deregister id => some (.deregister id)
  | .get _ | .listTenants | .snapshot => none

theorem methods_snd (m : Method) (r : TenantRegistry) :
    (methods m r).2 = (m.change?.map fun c => (r.call c).2).getD r := by
  cases m <;> rfl

theorem after_methods (r : TenantRegistry) (t : List (ι × Method)) :
    Pool.after methods r t = r.calls (t.filterMap fun x => x.2.change?) := by
  induction t generalizing r with
  | nil => rfl
  | cons x t ih =>
    have hcons : Pool.after methods r (x :: t) = Pool.after methods (methods x.2 r).2 t := rfl
    rw [hcons, ih, methods_snd, List.filterMap_cons]
    cases x.2.change? <;> rfl

/-- Each thread registers its tenant. -/
def registrations (ids : ι → String) (metadata : ι → Option (Dict String String)) :
    Pool Method MethodRes RegistryError TenantRecord ι :=
  fun i => .call (.register (ids i) (metadata i)) Prog.lift

/-- Two tenants and one place. -/
def twoIds : Fin 2 → String
  | 0 => "a"
  | 1 => "b"

variable [DecidableEq ι] {config : ServerConfig}
  {P₀ : Pool Method MethodRes RegistryError α ι}
  {C : Monitor.Config Method MethodRes RegistryOp RegistryRes RegistryError α TenantRegistry ι}

/-- Whenever the lock is free, the threads have called the registry one after another: what
they have got, and the registry, are those of that sequence of calls, and the registry is
well formed. And some thread can go on, unless all have ended. -/
theorem concurrent_registry (h : 0 ≤ config.maxTenants)
    (hr : Reach registryMonitor P₀ (new config) C) :
    (C.owner = none → ∃ t P, Pool.Traced methods noFault P₀ (new config) t P C.state ∧
      (∀ i, C.workers i = .outside (P i)) ∧
      C.state = (new config).calls (t.filterMap fun x => x.2.change?) ∧ WellFormed C.state) ∧
    ((∃ C', Monitor.Step registryMonitor C C') ∨
      ∀ i, ∃ r, C.workers i = .outside (Prog.lift r)) := by
  refine ⟨fun hfree => ?_, hr.progress⟩
  obtain ⟨t, P, ht, hout⟩ := hr.atomic (fun _ => rfl) hfree
  rw [registry_atomic] at ht
  have hst := ht.state_eq
  rw [after_methods] at hst
  have hs : Sound ((new config).calls (t.filterMap fun x => x.2.change?)) :=
    Machine.run_inv (fun r c hs => hs.call c) (Sound.new h) _
  refine ⟨t, P, ht, hout, hst, ?_⟩
  rw [hst]
  exact hs.wellFormed

theorem two_threads_sequential : ∃ t P, ∃ r : TenantRegistry,
    Pool.Traced methods noFault (registrations twoIds fun _ => none) (new ⟨1, "vm"⟩) t P r ∧
      WellFormed r := by
  obtain ⟨C, hr, hend⟩ := Monitor.exists_ended registryMonitor
    (registrations twoIds fun _ => none) (new ⟨1, "vm"⟩)
  obtain ⟨t, P, ht, -, -, hw⟩ := (concurrent_registry (by decide) hr).1
    (hr.held.free_of_outside fun i => (hend i).imp' _ fun _ => id)
  exact ⟨t, P, C.state, ht, hw⟩

/-! ## Registrations of different tenants -/

/-- What `register` raises when the registry is full. -/
def refusal (config : ServerConfig) (id : String) : RegistryError :=
  .runtimeError ("Max tenants (" ++ toString config.maxTenants ++ ") reached. Cannot register '" ++
    id ++ "'.")

/-- A registration has not begun, and its tenant is not on record; or it has returned, with
the record of its tenant, which is active; or it was refused, and the registry is full. -/
def Placed (ids : ι → String) (metadata : ι → Option (Dict String String))
    (P : Pool Method MethodRes RegistryError TenantRecord ι) (r : TenantRegistry) (i : ι) : Prop :=
  (P i = registrations ids metadata i ∧ r.tenants.get? (ids i) = none) ∨
  (∃ record, P i = .ret record ∧ r.tenants.get? (ids i) = some record ∧ record.active = true) ∨
  (P i = .raise (refusal r.config (ids i)) ∧ r.config.maxTenants ≤ r.activeCount ∧
    r.tenants.get? (ids i) = none)

/-- All registrations are placed, and there are no other tenants. -/
structure AllPlaced (ids : ι → String) (metadata : ι → Option (Dict String String))
    (P : Pool Method MethodRes RegistryError TenantRecord ι) (r : TenantRegistry) : Prop where
  placed : ∀ i, Placed ids metadata P r i
  only : ∀ id record, r.tenants.get? id = some record → ∃ i, ids i = id

variable {ids : ι → String} {metadata : ι → Option (Dict String String)}
  {P : Pool Method MethodRes RegistryError TenantRecord ι} {r : TenantRegistry}

theorem register_refused (h : r.config.maxTenants ≤ r.activeCount) (id : String)
    (metadata : Option (Dict String String)) :
    r.register id metadata = (.error (refusal r.config id), r) := by
  rw [register, if_pos h, refusal]

/-- A registration that takes effect. -/
theorem AllPlaced.step (hinj : Function.Injective ids) (hall : AllPlaced ids metadata P r) {i : ι}
    {m : Method} {k} (hi : P i = .call m k) :
    AllPlaced ids metadata (Function.update P i (k (methods m r).1)) (methods m r).2 := by
  -- a thread that can go on has not begun
  obtain ⟨hcall, hnone⟩ : P i = registrations ids metadata i ∧ r.tenants.get? (ids i) = none := by
    rcases hall.placed i with h | ⟨record, h, -⟩ | ⟨h, -⟩
    · exact h
    · rw [hi] at h
      cases h
    · rw [hi] at h
      cases h
  rw [hi] at hcall
  cases hcall
  show AllPlaced ids metadata (Function.update P i (Prog.lift (r.register (ids i) (metadata i)).1))
    (r.register (ids i) (metadata i)).2
  by_cases hfull : r.config.maxTenants ≤ r.activeCount
  · rw [register_refused hfull]
    refine ⟨fun j => ?_, hall.only⟩
    by_cases hji : j = i
    · subst hji
      exact .inr (.inr ⟨Function.update_self .., hfull, hnone⟩)
    · rw [Placed, Function.update_of_ne hji]
      exact hall.placed j
  · rw [register_new (Int.not_le.mp hfull) hnone]
    have hcount : r.activeCount ≤ TenantRegistry.activeCount
        { r with tenants := r.tenants.set (ids i) (r.newRecord (ids i) (metadata i)) } := by
      rw [activeCount, activeCount, Dict.items_set_of_none hnone, List.countP_append]
      exact Nat.le_add_right ..
    refine ⟨fun j => ?_, fun id record hget => ?_⟩
    · by_cases hji : j = i
      · subst hji
        exact .inr (.inl ⟨_, Function.update_self .., Dict.get?_set_self .., rfl⟩)
      · have hne : ids j ≠ ids i := fun he => hji (hinj he)
        rw [Placed, Function.update_of_ne hji]
        simp only [Dict.get?_set_of_ne hne]
        refine (hall.placed j).imp_right (Or.imp_right fun h => ?_)
        obtain ⟨hraise, hroom, hget⟩ := h
        exact ⟨hraise, hroom.trans (by exact_mod_cast hcount), hget⟩
    · by_cases hid : id = ids i
      · exact ⟨i, hid.symm⟩
      · exact hall.only id record ((Dict.get?_set_of_ne hid ..).symm.trans hget)

theorem registrations_placed (hinj : Function.Injective ids) {t : List (ι × Method)}
    (ht : Pool.Traced methods noFault (registrations ids metadata) (new config) t P r) :
    AllPlaced ids metadata P r := by
  induction ht with
  | start =>
    refine ⟨fun i => .inl ⟨rfl, Dict.get?_empty _⟩, fun id record h => ?_⟩
    cases h
  | effect _ hi ih => exact ih.step hinj hi
  | fault _ _ he _ => exact he.elim

omit [DecidableEq ι] in
/-- Who has returned is listed, when all have ended. -/
theorem AllPlaced.listed_iff (hall : AllPlaced ids metadata P r)
    (hend : ∀ i, ∃ o, P i = Prog.lift o) (i : ι) :
    (∃ record, P i = .ret record) ↔ ids i ∈ r.listTenants := by
  rw [mem_listTenants]
  simp only [get_eq_ok]
  rcases hall.placed i with ⟨hcall, -⟩ | ⟨record, hret, hget, hact⟩ | ⟨hraise, -, hnone⟩
  · obtain ⟨o, ho⟩ := hend i
    cases o <;> cases hcall.symm.trans ho
  · exact iff_of_true ⟨record, hret⟩ ⟨record, hget, hact⟩
  · refine iff_of_false ?_ ?_
    · rintro ⟨record, hret⟩
      cases hraise.symm.trans hret
    · rintro ⟨record, hget, -⟩
      cases hnone.symm.trans hget

theorem nodup_listTenants (r : TenantRegistry) : r.listTenants.Nodup :=
  (List.filter_sublist.map Prod.fst).nodup r.tenants.nodup

omit [DecidableEq ι] in
/-- When all have ended, the places are filled, or all have one. -/
theorem AllPlaced.count [Fintype ι] (hinj : Function.Injective ids) (hs : Sound r)
    (hall : AllPlaced ids metadata P r) (hend : ∀ i, ∃ o, P i = Prog.lift o) :
    (r.listTenants.length : Int) = min (Fintype.card ι : Int) r.config.maxTenants := by
  have hle : r.listTenants.toFinset ⊆ Finset.univ.image ids := by
    intro id hid
    obtain ⟨record, hget, -⟩ := mem_listTenants.mp (List.mem_toFinset.mp hid)
    obtain ⟨i, hi⟩ := hall.only id record (get_eq_ok.mp hget)
    exact Finset.mem_image.mpr ⟨i, Finset.mem_univ i, hi⟩
  have hcard : (Finset.univ.image ids).card = Fintype.card ι :=
    Finset.card_image_of_injective _ hinj
  have hlen : r.listTenants.toFinset.card = r.listTenants.length :=
    List.toFinset_card_of_nodup (nodup_listTenants r)
  have hupper := Finset.card_le_card hle
  have hbound := hs.bounded
  rw [hlen, hcard] at hupper
  rw [← length_listTenants] at hbound
  by_cases hraise : ∃ i, P i = .raise (refusal r.config (ids i)) ∧
      r.config.maxTenants ≤ r.activeCount
  · obtain ⟨i, -, hfull⟩ := hraise
    rw [← length_listTenants] at hfull
    omega
  · have hge : Finset.univ.image ids ⊆ r.listTenants.toFinset := by
      intro id hid
      obtain ⟨i, -, rfl⟩ := Finset.mem_image.mp hid
      refine List.mem_toFinset.mpr ((hall.listed_iff hend i).mp ?_)
      rcases hall.placed i with ⟨hcall, -⟩ | ⟨record, hret, -⟩ | ⟨hr, hfull, -⟩
      · obtain ⟨o, ho⟩ := hend i
        cases o <;> cases hcall.symm.trans ho
      · exact ⟨record, hret⟩
      · exact absurd ⟨i, hr, hfull⟩ hraise
    have hlower := Finset.card_le_card hge
    rw [hlen, hcard] at hlower
    omega

/-- Of any number of concurrent registrations of different new tenants, as many return as there
are places; the others are refused because the registry is full. -/
theorem places_filled [Fintype ι] (h : 0 ≤ config.maxTenants) (hinj : Function.Injective ids)
    {C : Monitor.Config Method MethodRes RegistryOp RegistryRes RegistryError TenantRecord
      TenantRegistry ι}
    (hr : Reach registryMonitor (registrations ids metadata) (new config) C)
    (hend : ∀ i, ∃ o, C.workers i = .outside (Prog.lift o)) :
    (C.state.listTenants.length : Int) = min (Fintype.card ι : Int) config.maxTenants ∧
    ∀ i, (∃ record, C.workers i = .outside (.ret record) ∧ ids i ∈ C.state.listTenants) ∨
      (C.workers i = .outside (.raise (refusal config (ids i))) ∧
        ids i ∉ C.state.listTenants) := by
  have hfree := hr.held.free_of_outside fun i => (hend i).imp' _ fun _ => id
  obtain ⟨t, P, ht, hout⟩ := hr.atomic (fun _ => rfl) hfree
  rw [registry_atomic] at ht
  have hst := ht.state_eq
  rw [after_methods] at hst
  have hs : Sound C.state := by
    rw [hst]
    exact Machine.run_inv (fun r c hs => hs.call c) (Sound.new h) _
  have hconfig : C.state.config = config := by
    rw [hst]
    exact calls_config (new config) _
  have hall := registrations_placed hinj ht
  have hend' : ∀ i, ∃ o, P i = Prog.lift o := fun i => by
    obtain ⟨o, hi⟩ := hend i
    rw [hout i] at hi
    exact ⟨o, Monitor.Worker.outside.inj hi⟩
  refine ⟨hconfig ▸ hall.count hinj hs hend', fun i => ?_⟩
  simp only [hout]
  rcases hall.placed i with ⟨hcall, -⟩ | ⟨record, hret, -⟩ | ⟨hraise, -⟩
  · obtain ⟨o, ho⟩ := hend' i
    cases o <;> cases hcall.symm.trans ho
  · exact .inl ⟨record, by rw [hret], (hall.listed_iff hend' i).mp ⟨record, hret⟩⟩
  · refine .inr ⟨by rw [hraise, hconfig], fun hid => ?_⟩
    obtain ⟨record, hret⟩ := (hall.listed_iff hend' i).mpr hid
    cases hraise.symm.trans hret

theorem one_place_filled : ∃ C : Monitor.Config Method MethodRes RegistryOp RegistryRes
      RegistryError TenantRecord TenantRegistry (Fin 2),
    Reach registryMonitor (registrations twoIds fun _ => none) (new ⟨1, "vm"⟩) C ∧
      (C.state.listTenants.length : Int) = min (2 : Int) 1 := by
  obtain ⟨C, hr, hend⟩ := Monitor.exists_ended registryMonitor
    (registrations twoIds fun _ => none) (new ⟨1, "vm"⟩)
  have hinj : Function.Injective twoIds := by
    intro i j hij
    revert i j
    decide
  exact ⟨C, hr, (places_filled (by decide) hinj hr hend).1⟩

end Gaia.Tenancy
