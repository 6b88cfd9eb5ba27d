import GaiaServer.Proof.Tenancy.Registry

/-!
# What a registration does

`register` looks at the number of active tenants first, and then whether the id
is on record, active or not. So a tenant that was deregistered stays on record as
it is (`deregistered_iff`: the inactive tenants are those that were deregistered),
and a registration of it that returns gives the inactive record back
(`register_registers_iff`). And the registration of a tenant that is active is
refused like any other when the registry is full (`register_again_iff`).
-/

namespace Gaia.Tenancy

open TenantRegistry

variable {r : TenantRegistry} {id : String} {record : TenantRecord}

/-- In the course of the calls, `id` was deregistered while it was on record. -/
def Deregistered (config : ServerConfig) (cs : List RegistryCall) (id : String) : Prop :=
  ∃ before after, cs = before ++ .deregister id :: after ∧
    ∃ record, ((new config).calls before).get id = .ok record

namespace TenantRegistry

theorem mem_listTenants :
    id ∈ r.listTenants ↔ ∃ record, r.get id = .ok record ∧ record.active = true := by
  simp only [listTenants, List.mem_map, List.mem_filter, Prod.exists, Dict.mem_items_iff,
    get_eq_ok, exists_and_right, exists_eq_right]

theorem call_config (r : TenantRegistry) (c : RegistryCall) : (r.call c).2.config = r.config := by
  rcases r.call_cases c with he | ⟨_, _, he, -⟩ <;> rw [he]

theorem calls_config (r : TenantRegistry) (cs : List RegistryCall) :
    (r.calls cs).config = r.config :=
  Machine.run_inv (I := fun r' : TenantRegistry => r'.config = r.config)
    (fun r' c h => (r'.call_config c).trans h) rfl cs

theorem calls_append (r : TenantRegistry) (cs : List RegistryCall) (c : RegistryCall) :
    r.calls (cs ++ [c]) = ((r.calls cs).call c).2 :=
  Machine.run_append r cs [c]

/-! ## The calls, by what they find -/

theorem register_full (id : String) (h : r.config.maxTenants ≤ r.activeCount)
    (metadata : Option (Dict String String)) :
    ∃ e, r.register id metadata = (.error e, r) := by
  unfold register
  rw [if_pos h]
  exact ⟨_, rfl⟩

theorem register_known (h : (r.activeCount : Int) < r.config.maxTenants)
    (hget : r.get id = .ok record) (metadata : Option (Dict String String)) :
    r.register id metadata = (.ok record, r) := by
  unfold register
  rw [if_neg (by omega), get_eq_ok.mp hget]

theorem register_new (h : (r.activeCount : Int) < r.config.maxTenants)
    (hget : r.tenants.get? id = none) (metadata : Option (Dict String String)) :
    r.register id metadata = (.ok (r.newRecord id metadata),
      { r with tenants := r.tenants.set id (r.newRecord id metadata) }) := by
  unfold register
  rw [if_neg (by omega), hget]

/-! ## The inactive tenants -/

/-- An inactive record is under an id after a call if it was before, or if the
call deregistered the id. -/
theorem inactive_call (r : TenantRegistry) (c : RegistryCall) (id : String) :
    (∃ record, (r.call c).2.get id = .ok record ∧ record.active = false) ↔
      (∃ record, r.get id = .ok record ∧ record.active = false) ∨
        c = .deregister id ∧ ∃ record, r.get id = .ok record := by
  cases c with
  | register id' metadata =>
    simp only [reduceCtorEq, false_and, or_false]
    by_cases hroom : (r.activeCount : Int) < r.config.maxTenants
    · cases hg : r.tenants.get? id' with
      | some old => rw [call, register_known hroom (get_eq_ok.mpr hg)]
      | none =>
        rw [call, register_new hroom hg]
        by_cases hid : id = id'
        · subst hid
          simp [get_eq_ok, hg, newRecord]
        · simp [get_eq_ok, Dict.get?_set_of_ne hid]
    · obtain ⟨e, he⟩ := register_full id' (Int.not_lt.mp hroom) metadata
      rw [call, he]
  | deregister id' =>
    simp only [call, deregister, RegistryCall.deregister.injEq]
    cases hg : r.tenants.get? id' with
    | none =>
      refine ⟨.inl, ?_⟩
      rintro (h | ⟨rfl, record, hrecord⟩)
      · exact h
      · rw [get_eq_ok, hg] at hrecord
        cases hrecord
    | some old =>
      by_cases hid : id = id'
      · subst hid
        simp [get_eq_ok, hg]
      · simp [get_eq_ok, Dict.get?_set_of_ne hid, Ne.symm hid]

end TenantRegistry

/-- The inactive tenants are those that were deregistered, however often they
were registered again. -/
theorem deregistered_iff (config : ServerConfig) (cs : List RegistryCall) (id : String) :
    Deregistered config cs id ↔
      ∃ record, ((new config).calls cs).get id = .ok record ∧ record.active = false := by
  -- the last call is the only one that the induction has not seen
  induction cs using List.reverseRecOn with
  | nil =>
    refine iff_of_false ?_ ?_
    · rintro ⟨before, after, he, -⟩
      simp at he
    · rintro ⟨record, hget, -⟩
      rw [get_eq_ok] at hget
      cases hget
  | append_singleton cs c ih =>
    rw [calls_append, inactive_call, ← ih]
    constructor
    · rintro ⟨before, after, he, hknown⟩
      rcases List.eq_nil_or_concat after with rfl | ⟨after', c', rfl⟩
      · obtain ⟨rfl, hc⟩ := List.append_inj' he rfl
        exact .inr ⟨List.singleton_inj.mp hc, hknown⟩
      · rw [List.concat_eq_append, ← List.cons_append, ← List.append_assoc] at he
        exact .inl ⟨before, after', (List.append_inj' he rfl).1, hknown⟩
    · rintro (⟨before, after, rfl, hknown⟩ | ⟨rfl, hknown⟩)
      · exact ⟨before, after ++ [c], by simp, hknown⟩
      · exact ⟨cs, [], rfl, hknown⟩

/-! ## Registration -/

/-- A registration that returns leaves the tenant active and listed, in any
registry that has only been called, exactly if it finds the registry full (and
raises) or the tenant was never deregistered. -/
theorem register_registers_iff (config : ServerConfig) (cs : List RegistryCall) (id : String)
    (metadata : Option (Dict String String)) :
    (∀ record, (((new config).calls cs).register id metadata).1 = .ok record →
      record.active = true ∧ id ∈ (((new config).calls cs).register id metadata).2.listTenants) ↔
    (config.maxTenants ≤ ((new config).calls cs).activeCount ∨ ¬ Deregistered config cs id) := by
  rw [deregistered_iff]
  have hconfig : ((new config).calls cs).config = config := calls_config (new config) cs
  generalize (new config).calls cs = r at hconfig
  subst hconfig
  by_cases hfull : r.config.maxTenants ≤ r.activeCount
  · obtain ⟨e, he⟩ := register_full id hfull metadata
    rw [he]
    exact iff_of_true (by simp) (.inl hfull)
  · have hroom : (r.activeCount : Int) < r.config.maxTenants := by omega
    rw [or_iff_right hfull]
    cases hg : r.tenants.get? id with
    | some old =>
      have hget : r.get id = .ok old := get_eq_ok.mpr hg
      rw [register_known hroom hget metadata]
      simp only [mem_listTenants, hget, Except.ok.injEq, forall_eq', exists_eq_left', and_self,
        Bool.not_eq_false]
    | none =>
      rw [register_new hroom hg metadata]
      refine iff_of_true ?_ ?_
      · rintro record hrecord
        obtain rfl := Except.ok.inj hrecord
        refine ⟨rfl, mem_listTenants.mpr ⟨_, get_eq_ok.mpr (Dict.get?_set_self ..), rfl⟩⟩
      · rintro ⟨record, hget, -⟩
        rw [get_eq_ok, hg] at hget
        cases hget

/-- A tenant that left and comes back is given its inactive record, and is not
listed. -/
theorem returning_tenant_inactive :
    ∃ record, (((new {}).calls [.register "a" none, .deregister "a"]).register "a" none).1 =
        .ok record ∧ record.active = false ∧
      "a" ∉ (((new {}).calls [.register "a" none, .deregister "a"]).register "a"
        none).2.listTenants :=
  ⟨⟨"a", "gaia-a", "namespace", false, .empty⟩, by rfl, rfl, by decide⟩

/-- The registration of a tenant on record, so of any active one, gives its record
back and changes nothing, in any registry that has only been called, exactly if
the registry is not full. -/
theorem register_again_iff (config : ServerConfig) (cs : List RegistryCall) {id : String}
    {record : TenantRecord} (hget : ((new config).calls cs).get id = .ok record)
    (metadata : Option (Dict String String)) :
    ((new config).calls cs).register id metadata = (.ok record, (new config).calls cs) ↔
      (((new config).calls cs).activeCount : Int) < config.maxTenants := by
  have hconfig : ((new config).calls cs).config = config := calls_config (new config) cs
  generalize (new config).calls cs = r at hget hconfig
  subst hconfig
  constructor
  · intro h
    by_contra hfull
    obtain ⟨e, he⟩ := register_full id (Int.not_lt.mp hfull) metadata
    rw [he] at h
    cases h
  · intro hroom
    exact register_known hroom hget metadata

theorem register_again_of_two :
    ((new ⟨2, "vm"⟩).calls [.register "a" none]).register "a" none =
        (.ok ⟨"a", "gaia-a", "vm", true, .empty⟩, (new ⟨2, "vm"⟩).calls [.register "a" none]) ↔
      (((new ⟨2, "vm"⟩).calls [.register "a" none]).activeCount : Int) < 2 :=
  register_again_iff ⟨2, "vm"⟩ [.register "a" none] (by rfl) none

/-- The only tenant there may be is refused a second registration. -/
theorem full_registry_refuses_again :
    ((new ⟨1, "vm"⟩).calls [.register "a" none]).listTenants = ["a"] ∧
    (((new ⟨1, "vm"⟩).calls [.register "a" none]).register "a" none).1 =
      .error (.runtimeError "Max tenants (1) reached. Cannot register 'a'.") := by
  refine ⟨by rfl, by rfl⟩

end Gaia.Tenancy
