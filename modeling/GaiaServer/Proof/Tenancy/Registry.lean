import GaiaServer.Framework.Machine
import GaiaServer.Impl.Tenancy.TenantRegistry

/-!
# The tenant registry over its calls

A registry that has only been called is well formed (`WellFormed`): never more
active tenants than allowed, each under its own id and in a namespace of its
own. A call of `register` or `deregister` keeps this (`WellFormed.call`), drops
no tenant and changes nothing of one but its activity (`call_keeps`), and changes
nothing at all if it raises (`call_error`). `registry_invariant` is any sequence of calls.
-/

namespace Gaia.Tenancy

open TenantRegistry

variable {r r' : TenantRegistry}

/-- The registry after a sequence of calls, the ones that raise included. -/
def TenantRegistry.calls (r : TenantRegistry) (cs : List RegistryCall) : TenantRegistry :=
  Machine.run (fun r c => (r.call c).2) r cs

/-- What holds of a registry between calls. -/
structure WellFormed (r : TenantRegistry) : Prop where
  bounded : (r.listTenants.length : Int) ≤ r.config.maxTenants
  keyed : ∀ id record, r.get id = .ok record → record.tenantId = id
  once : (r.snapshot.map (·.tenantId)).Nodup
  separate : ∀ e ∈ r.snapshot, ∀ e' ∈ r.snapshot, e.ns = e'.ns → e.tenantId = e'.tenantId
  listed : r.listTenants = (r.snapshot.filter (·.active)).map (·.tenantId)

/-- Every tenant of `r` is one of `r'`, and in its snapshot, with the same
namespace, isolation mode and metadata. -/
def Keeps (r r' : TenantRegistry) : Prop :=
  ∀ id record, r.get id = .ok record → ∃ record', r'.get id = .ok record' ∧
    record'.tenantId = record.tenantId ∧ record'.ns = record.ns ∧
    record'.isolationMode = record.isolationMode ∧ record'.metadata = record.metadata ∧
    ⟨record'.tenantId, record'.ns, record'.isolationMode, record'.active⟩ ∈ r'.snapshot

namespace TenantRegistry

theorem get_eq_ok {id : String} {record : TenantRecord} :
    r.get id = .ok record ↔ r.tenants.get? id = some record := by
  rw [get]
  cases r.tenants.get? id <;> simp

theorem length_listTenants (r : TenantRegistry) : r.listTenants.length = r.activeCount := by
  rw [listTenants, List.length_map, activeCount, List.countP_eq_length_filter]

theorem activeCount_set_le (r : TenantRegistry) (id : String) (t : TenantRecord) :
    TenantRegistry.activeCount { r with tenants := r.tenants.set id t } ≤
      r.activeCount + if t.active then 1 else 0 :=
  Dict.countP_setItems_le (fun i : String × TenantRecord => i.2.active) id t r.tenants.items

/-! ## One call -/

/-- A call changes nothing, or sets one tenant: a new one while there is room, or
one that is there, to inactive. -/
theorem call_cases (r : TenantRegistry) (c : RegistryCall) :
    (r.call c).2 = r ∨ ∃ id record, (r.call c).2 = { r with tenants := r.tenants.set id record } ∧
      (r.call c).1 = .ok () ∧
      ((r.tenants.get? id = none ∧ (r.activeCount : Int) < r.config.maxTenants ∧
          ∃ metadata, record = r.newRecord id metadata) ∨
        ∃ old, r.tenants.get? id = some old ∧ record = { old with active := false }) := by
  cases c with
  | register id metadata =>
    simp only [call, register]
    split
    · exact .inl rfl
    · rename_i hroom
      cases hg : r.tenants.get? id with
      | some record => exact .inl rfl
      | none =>
        refine .inr ⟨id, r.newRecord id metadata, rfl, rfl, .inl ⟨hg, ?_, metadata, rfl⟩⟩
        omega
  | deregister id =>
    simp only [call, deregister]
    cases hg : r.tenants.get? id with
    | none => exact .inl rfl
    | some old => exact .inr ⟨id, { old with active := false }, rfl, rfl, .inr ⟨old, hg, rfl⟩⟩

/-- A call that raises changes nothing. -/
theorem call_error {c : RegistryCall} {e : RegistryError} (h : (r.call c).1 = .error e) :
    (r.call c).2 = r := by
  rcases r.call_cases c with he | ⟨id, record, -, hok, -⟩
  · exact he
  · rw [hok] at h
    cases h

theorem register_get {id : String} {metadata : Option (Dict String String)} {record : TenantRecord}
    (h : (r.register id metadata).1 = .ok record) :
    (r.register id metadata).2.get id = .ok record := by
  rw [get_eq_ok]
  rw [register] at h ⊢
  split at h
  · cases h
  · rename_i hroom
    rw [if_neg hroom]
    cases hg : r.tenants.get? id with
    | some old =>
      rw [hg] at h
      cases h
      exact hg
    | none =>
      rw [hg] at h
      cases h
      exact Dict.get?_set_self ..

theorem mem_snapshot {e : SnapshotEntry} :
    e ∈ r.snapshot ↔ ∃ id record, r.tenants.get? id = some record ∧
      e = ⟨record.tenantId, record.ns, record.isolationMode, record.active⟩ := by
  simp only [snapshot, List.mem_map, Prod.exists, Dict.mem_items_iff, eq_comm (b := e)]

end TenantRegistry

/-! ## What calls keep -/

theorem Keeps.refl (r : TenantRegistry) : Keeps r r := fun id record h =>
  ⟨record, h, rfl, rfl, rfl, rfl, mem_snapshot.mpr ⟨id, record, get_eq_ok.mp h, rfl⟩⟩

theorem Keeps.trans {r'' : TenantRegistry} (h : Keeps r r') (h' : Keeps r' r'') : Keeps r r'' := by
  intro id record hr
  obtain ⟨record', hr', hid, hns, hmode, hmeta, -⟩ := h id record hr
  obtain ⟨record'', hr'', hid', hns', hmode', hmeta', hs⟩ := h' id record' hr'
  exact ⟨record'', hr'', hid'.trans hid, hns'.trans hns, hmode'.trans hmode, hmeta'.trans hmeta, hs⟩

theorem call_keeps (r : TenantRegistry) (c : RegistryCall) : Keeps r (r.call c).2 := by
  rcases r.call_cases c with he | ⟨id, record, he, -, hset⟩
  · rw [he]
    exact .refl r
  · intro id' record' hr
    rw [get_eq_ok] at hr
    rw [he]
    by_cases hid : id' = id
    · subst hid
      rcases hset with ⟨hnone, -⟩ | ⟨old, hold, rfl⟩
      · rw [hnone] at hr
        cases hr
      · obtain rfl := Option.some.inj (hold.symm.trans hr)
        have hget := Dict.get?_set_self r.tenants id' { old with active := false }
        exact ⟨_, get_eq_ok.mpr hget, rfl, rfl, rfl, rfl, mem_snapshot.mpr ⟨id', _, hget, rfl⟩⟩
    · have hget := (Dict.get?_set_of_ne hid r.tenants record).trans hr
      exact ⟨record', get_eq_ok.mpr hget, rfl, rfl, rfl, rfl, mem_snapshot.mpr ⟨id', _, hget, rfl⟩⟩

/-- What the calls preserve: no more active tenants than allowed, each stored
under its id, in the namespace that goes with it. -/
structure Sound (r : TenantRegistry) : Prop where
  bounded : (r.activeCount : Int) ≤ r.config.maxTenants
  record : ∀ id t, r.tenants.get? id = some t → t.tenantId = id ∧ t.ns = "gaia-" ++ id

theorem Sound.new {config : ServerConfig} (h : 0 ≤ config.maxTenants) : Sound (.new config) where
  bounded := h
  record := fun id t ht => by
    rw [TenantRegistry.new, Dict.get?_empty] at ht
    cases ht

theorem Sound.call (h : Sound r) (c : RegistryCall) : Sound (r.call c).2 := by
  rcases r.call_cases c with he | ⟨id, t, he, -, hset⟩
  · rwa [he]
  · rw [he]
    constructor
    · have hcount := r.activeCount_set_le id t
      have hb := h.bounded
      show (_ : Int) ≤ r.config.maxTenants
      rcases hset with ⟨-, hroom, -⟩ | ⟨old, -, rfl⟩
      · split at hcount <;> omega
      · simp only [Bool.false_eq_true, if_false] at hcount
        omega
    · intro id' t' ht'
      rw [Dict.get?_set] at ht'
      split at ht'
      · rename_i hid
        obtain rfl := Option.some.inj ht'
        subst hid
        rcases hset with ⟨-, -, metadata, rfl⟩ | ⟨old, hold, rfl⟩
        · exact ⟨rfl, rfl⟩
        · exact h.record id' old hold
      · exact h.record id' t' ht'

theorem Sound.wellFormed (h : Sound r) : WellFormed r := by
  have hkey : ∀ i ∈ r.tenants.items, i.2.tenantId = i.1 := fun i hi =>
    (h.record i.1 i.2 (Dict.mem_items_iff.mp hi)).1
  have hids : r.snapshot.map (·.tenantId) = r.tenants.items.map Prod.fst := by
    rw [snapshot, List.map_map]
    exact List.map_congr_left hkey
  have hbound := h.bounded
  rw [← length_listTenants] at hbound
  refine ⟨hbound, fun id t ht => (h.record id t (get_eq_ok.mp ht)).1, ?_, ?_, ?_⟩
  · rw [hids]
    exact r.tenants.nodup
  · intro e he e' he' hns
    obtain ⟨id, t, ht, rfl⟩ := mem_snapshot.mp he
    obtain ⟨id', t', ht', rfl⟩ := mem_snapshot.mp he'
    obtain ⟨h1, h2⟩ := h.record id t ht
    obtain ⟨h1', h2'⟩ := h.record id' t' ht'
    show t.tenantId = t'.tenantId
    have hns' : "gaia-" ++ id = "gaia-" ++ id' := by rw [← h2, ← h2']; exact hns
    rw [h1, h1', ← String.toList_inj]
    simpa [← String.toList_inj] using hns'
  · rw [listTenants, snapshot, List.filter_map, List.map_map]
    refine (List.map_congr_left fun i hi => ?_).symm
    exact hkey i (List.mem_of_mem_filter hi)

/-- Whatever calls it has had, a registry is well formed; whatever calls follow,
its tenants stay; and a call that raises leaves it as it is. -/
theorem registry_invariant {config : ServerConfig} (h : 0 ≤ config.maxTenants)
    (before : List RegistryCall) :
    WellFormed ((new config).calls before) ∧
    (∀ after, Keeps ((new config).calls before) (((new config).calls before).calls after)) ∧
    (∀ id metadata record,
      (((new config).calls before).register id metadata).1 = .ok record →
        (((new config).calls before).register id metadata).2.get id = .ok record) ∧
    ∀ c e, (((new config).calls before).call c).1 = .error e →
      (((new config).calls before).call c).2 = (new config).calls before := by
  have hs : Sound ((new config).calls before) :=
    Machine.run_inv (fun r c h => h.call c) (Sound.new h) before
  refine ⟨hs.wellFormed, fun after => ?_, fun id metadata record hr => ?_, fun c e => call_error⟩
  · exact Machine.run_rel Keeps.refl Keeps.trans call_keeps _ after
  · exact register_get hr

/-- With room for one, a tenant that has gone is still on record, next to its
successor. -/
theorem departed_tenant_kept :
    ∃ record, ((new ⟨1, "vm"⟩).calls
      [.register "a" none, .register "b" none, .deregister "a", .register "b" none]).get "a" =
        .ok record ∧ record.ns = "gaia-a" ∧ record.isolationMode = "vm" := by
  have h0 : 0 ≤ (ServerConfig.mk 1 "vm").maxTenants := by decide
  have hr : ((new ⟨1, "vm"⟩).calls [.register "a" none]).get "a" =
      .ok ⟨"a", "gaia-a", "vm", true, .empty⟩ := by rfl
  obtain ⟨record, hget, -, hns, hmode, -⟩ := (registry_invariant h0 [.register "a" none]).2.1
    [.register "b" none, .deregister "a", .register "b" none] "a" _ hr
  exact ⟨record, hget, hns, hmode⟩

end Gaia.Tenancy
