import GaiaServer.Framework.Machine
import GaiaServer.Proof.Sandbox.Methods

/-!
# Guest ids

The sandboxes of all tenants, with the workloads that they say they admitted and have
not said they terminated (`Cluster`). Their ids are distinct, and the registries hold
exactly them, along every run in which no guest is registered under an id that one of
them has and every call that changes a registry goes on to return (`identified_iff`).
-/

namespace Gaia.Sandbox

open Function (update)
open Machine

variable {out : Outside} {tenantId packageUrl intent guestId : String}
  {resourceProfile : Option Profile}

/-! ## Runs -/

/-- A call on the sandbox of a tenant, and what the modules outside do during it. -/
inductive Call
  | admitGuest (tenantId packageUrl intent : String) (resourceProfile : Option Profile)
      (out : Outside)
  | terminateGuest (tenantId guestId : String) (out : Outside)

/-- A workload, with its record as its admission left it. -/
structure Workload where
  tenantId : String
  guestId : String
  guest : Guest

/-- A sandbox for each tenant, and what their calls have returned: the tenants of the
admissions and of the terminations, and the workloads admitted and not terminated. -/
structure Cluster where
  sandbox : String → GuestSandbox
  live : List Workload := []
  admitted : List String := []
  terminated : List String := []

namespace Cluster

/-- The cluster with another state of a sandbox. -/
def put (c : Cluster) (tenantId : String) (s : GuestSandbox) : Cluster :=
  { c with sandbox := update c.sandbox tenantId s }

/-- The cluster after an admission has returned. -/
def enter (c : Cluster) (tenantId guestId : String) (s : GuestSandbox) : Cluster :=
  { c.put tenantId s with
    live := c.live ++ ((s.activeGuests.get? guestId).map (⟨tenantId, guestId, ·⟩)).toList
    admitted := c.admitted ++ [tenantId] }

/-- The cluster after a call has said that it terminated a guest. -/
def leave (c : Cluster) (tenantId guestId : String) (s : GuestSandbox) : Cluster :=
  { c.put tenantId s with
    live := c.live.filter fun w => ¬ (w.tenantId = tenantId ∧ w.guestId = guestId)
    terminated := c.terminated ++ [tenantId] }

def afterAdmission (c : Cluster) (tenantId : String) :
    Except Raised Admission × GuestSandbox → Cluster
  | (.ok reply, s) => c.enter tenantId reply.guestId s
  | (.error _, s) => c.put tenantId s

def afterTermination (c : Cluster) (tenantId guestId : String) :
    Except Raised Termination × GuestSandbox → Cluster
  | (.ok reply, s) =>
    if reply.status = "terminated" then c.leave tenantId guestId s else c.put tenantId s
  | (.error _, s) => c.put tenantId s

def step (c : Cluster) : Call → Cluster
  | .admitGuest tenantId packageUrl intent resourceProfile out =>
    c.afterAdmission tenantId
      ((admitGuest packageUrl intent resourceProfile).run (handle out) (c.sandbox tenantId))
  | .terminateGuest tenantId guestId out =>
    c.afterTermination tenantId guestId
      ((terminateGuest guestId).run (handle out) (c.sandbox tenantId))

/-- New sandboxes. -/
def start (nodeId : String → String) (codex : String → Option Codex) : Cluster :=
  { sandbox := fun tenantId =>
      { tenantId := tenantId, nodeId := nodeId tenantId, codex := codex tenantId } }

/-- The live workloads of a tenant. -/
def liveOf (c : Cluster) (tenantId : String) : List Workload :=
  c.live.filter fun w => w.tenantId = tenantId

end Cluster

/-- The ids of the live workloads are distinct, so that a termination under one of
them ends one workload, each tenant's registry holds exactly the records of its own,
and its list has as many entries as it admitted less those it terminated. -/
structure Identified (c : Cluster) : Prop where
  distinct : (c.live.map Workload.guestId).Nodup
  ends : ∀ w ∈ c.live, ∀ s, c.live.Perm (w :: (c.leave w.tenantId w.guestId s).live)
  records : ∀ tenantId, (c.sandbox tenantId).activeGuests.items =
    (c.liveOf tenantId).map fun w => (w.guestId, w.guest)
  counted : ∀ tenantId, (c.sandbox tenantId).listGuests.length + c.terminated.count tenantId =
    c.admitted.count tenantId

/-- After the registration of a guest the admission goes on to return: the energy
report raises at most an `ImportError`, and the `get` of the launch's result returns for
both keys. -/
def Answers (out : Outside) (s : GuestSandbox) (packageUrl : String) (result : LaunchResult)
    (resourceProfile : Option Profile) : Prop :=
  out.afterwards s.tenantId s.nodeId (s.tenantId ++ ":" ++ packageUrl) result
    (profileOf resourceProfile) = .ok ()

/-- A guest that passes steps 1 and 2 has an id that no live workload has, and its
admission returns; or it does not, and its record was there already. A termination of
a registered guest has a final seal that raises nothing. -/
def Fresh (c : Cluster) : Call → Prop
  | .admitGuest tenantId packageUrl intent resourceProfile out =>
    ∀ result, out.passed tenantId packageUrl intent = .ok result →
      (Answers out (c.sandbox tenantId) packageUrl result resourceProfile ∧
        ∀ w ∈ c.live, w.guestId ≠ tenantId ++ ":" ++ packageUrl) ∨
      (¬ Answers out (c.sandbox tenantId) packageUrl result resourceProfile ∧
        (c.sandbox tenantId).activeGuests.get? (tenantId ++ ":" ++ packageUrl) =
          some ⟨packageUrl, intent, result, profileOf resourceProfile⟩)
  | .terminateGuest tenantId guestId out =>
    (c.sandbox tenantId).activeGuests.contains guestId →
      out.finalSeal (c.sandbox tenantId).codex = .ok ()

/-! ## What a call does -/

variable {c : Cluster} {s : GuestSandbox} {guest : Guest} {result : LaunchResult}

theorem Cluster.put_self : c.put tenantId (c.sandbox tenantId) = c := by
  rw [Cluster.put, Function.update_eq_self]

@[simp] theorem Cluster.put_sandbox_self : (c.put tenantId s).sandbox tenantId = s :=
  Function.update_self ..

theorem Cluster.put_sandbox_of_ne {t : String} (ht : t ≠ tenantId) :
    (c.put tenantId s).sandbox t = c.sandbox t := Function.update_of_ne ht ..

@[simp] theorem Cluster.enter_sandbox :
    (c.enter tenantId guestId s).sandbox = (c.put tenantId s).sandbox := rfl

@[simp] theorem Cluster.leave_sandbox :
    (c.leave tenantId guestId s).sandbox = (c.put tenantId s).sandbox := rfl

theorem Cluster.liveOf_enter (hg : s.activeGuests.get? guestId = some guest) (t : String) :
    (c.enter tenantId guestId s).liveOf t =
      c.liveOf t ++ if tenantId = t then [⟨tenantId, guestId, guest⟩] else [] := by
  simp only [liveOf, enter, hg, Option.map_some, Option.toList_some, List.filter_append,
    List.filter_singleton, Bool.cond_decide]

theorem Cluster.liveOf_leave_self : (c.leave tenantId guestId s).liveOf tenantId =
    (c.liveOf tenantId).filter fun w => w.guestId ≠ guestId := by
  simp only [liveOf, leave, List.filter_filter]
  refine List.filter_congr fun w _ => ?_
  by_cases hw : w.tenantId = tenantId <;> simp [hw]

theorem Cluster.liveOf_leave_of_ne {t : String} (ht : t ≠ tenantId) :
    (c.leave tenantId guestId s).liveOf t = c.liveOf t := by
  simp only [liveOf, leave, List.filter_filter]
  refine List.filter_congr fun w _ => ?_
  by_cases hw : w.tenantId = t
  · simp [hw, ht]
  · simp [hw]

theorem reply_cases (out : Outside) (s : GuestSandbox) (packageUrl : String)
    (result : LaunchResult) (resourceProfile : Option Profile) :
    (Answers out s packageUrl result resourceProfile ∧ ∃ reply,
      out.reply s.tenantId s.nodeId (s.tenantId ++ ":" ++ packageUrl) result
        (profileOf resourceProfile) = .ok reply ∧
          reply.guestId = s.tenantId ++ ":" ++ packageUrl) ∨
    (¬ Answers out s packageUrl result resourceProfile ∧ ∃ exc,
      out.reply s.tenantId s.nodeId (s.tenantId ++ ":" ++ packageUrl) result
        (profileOf resourceProfile) = .error exc) := by
  unfold Answers
  rw [← reply_of_afterwards]
  cases hreply : out.reply s.tenantId s.nodeId (s.tenantId ++ ":" ++ packageUrl) result
      (profileOf resourceProfile) with
  | error exc => exact .inr ⟨by simp [Except.map], exc, rfl⟩
  | ok reply => exact .inl ⟨rfl, reply, rfl, reply_guestId hreply⟩

/-- An admission changes nothing, or registers a guest and returns, or registers it and
raises. -/
theorem step_admission (ho : (c.sandbox tenantId).tenantId = tenantId) (packageUrl intent : String)
    (resourceProfile : Option Profile) (out : Outside) :
    ((∃ exc, out.passed tenantId packageUrl intent = .error exc) ∧
        c.step (.admitGuest tenantId packageUrl intent resourceProfile out) = c) ∨
      ∃ result, out.passed tenantId packageUrl intent = .ok result ∧
        ((Answers out (c.sandbox tenantId) packageUrl result resourceProfile ∧
            c.step (.admitGuest tenantId packageUrl intent resourceProfile out) =
              c.enter tenantId (tenantId ++ ":" ++ packageUrl) ((c.sandbox tenantId).register
                packageUrl intent result (profileOf resourceProfile))) ∨
          (¬ Answers out (c.sandbox tenantId) packageUrl result resourceProfile ∧
            c.step (.admitGuest tenantId packageUrl intent resourceProfile out) =
              c.put tenantId ((c.sandbox tenantId).register
                packageUrl intent result (profileOf resourceProfile)))) := by
  have hrun := admitGuest_run out (c.sandbox tenantId) packageUrl intent resourceProfile
  unfold Cluster.step
  dsimp only
  rw [hrun, ho]
  cases out.passed tenantId packageUrl intent with
  | error exc => exact .inl ⟨⟨exc, rfl⟩, Cluster.put_self⟩
  | ok result =>
    refine .inr ⟨result, rfl, ?_⟩
    dsimp only
    rcases reply_cases out (c.sandbox tenantId) packageUrl result resourceProfile with
      ⟨hans, reply, hreply, hid⟩ | ⟨hans, exc, hreply⟩
    · rw [ho] at hreply hid
      exact .inl ⟨hans, by rw [hreply, ← hid]; rfl⟩
    · rw [ho] at hreply
      exact .inr ⟨hans, by rw [hreply]; rfl⟩

/-- A termination changes nothing, or deletes a record and says so, or deletes it and
raises. -/
theorem step_termination (c : Cluster) (tenantId guestId : String) (out : Outside) :
    (¬ (c.sandbox tenantId).activeGuests.contains guestId ∧
        c.step (.terminateGuest tenantId guestId out) = c) ∨
      ((c.sandbox tenantId).activeGuests.contains guestId ∧ ∃ s,
        s.activeGuests = (c.sandbox tenantId).activeGuests.erase guestId ∧
          s.tenantId = (c.sandbox tenantId).tenantId ∧
            ((out.finalSeal (c.sandbox tenantId).codex = .ok () ∧
                c.step (.terminateGuest tenantId guestId out) = c.leave tenantId guestId s) ∨
              ((∃ exc, out.finalSeal (c.sandbox tenantId).codex = .error exc) ∧
                c.step (.terminateGuest tenantId guestId out) = c.put tenantId s))) := by
  obtain ⟨codex, hrun⟩ := terminateGuest_run out (c.sandbox tenantId) guestId
  unfold Cluster.step
  dsimp only
  rw [hrun]
  by_cases hc : (c.sandbox tenantId).activeGuests.contains guestId
  · rw [if_pos hc]
    refine .inr ⟨hc, { c.sandbox tenantId with
      codex := codex
      activeGuests := (c.sandbox tenantId).activeGuests.erase guestId }, rfl, rfl, ?_⟩
    cases out.finalSeal (c.sandbox tenantId).codex with
    | error exc => exact .inr ⟨⟨exc, rfl⟩, rfl⟩
    | ok _ => exact .inl ⟨rfl, rfl⟩
  · rw [if_neg hc]
    exact .inl ⟨hc, Cluster.put_self⟩

/-! ## What a call keeps -/

variable {guests : Dict String Guest}

theorem listGuests_length : s.listGuests.length = s.activeGuests.items.length := List.length_map ..

theorem Identified.get?_eq_none (hp : Identified c) (h : ∀ w ∈ c.live, w.guestId ≠ guestId) :
    (c.sandbox tenantId).activeGuests.get? guestId = none := by
  cases hg : (c.sandbox tenantId).activeGuests.get? guestId with
  | none => rfl
  | some guest =>
    have hitem := Dict.mem_items_iff.mpr hg
    rw [hp.records tenantId] at hitem
    obtain ⟨w, hw, he⟩ := List.mem_map.mp hitem
    exact absurd (congrArg Prod.fst he) (h w (List.mem_of_mem_filter hw))

/-- Where the ids are distinct, a termination under one of them ends one workload. -/
theorem leave_perm (hd : (c.live.map Workload.guestId).Nodup) {w : Workload} (hw : w ∈ c.live)
    (s : GuestSandbox) : c.live.Perm (w :: (c.leave w.tenantId w.guestId s).live) := by
  have hlive : c.live.Nodup := hd.of_map
  have hout : w ∉ (c.leave w.tenantId w.guestId s).live := by
    intro hmem
    simp [Cluster.leave] at hmem
  refine (List.perm_ext_iff_of_nodup hlive (List.nodup_cons.mpr ⟨hout, hlive.filter _⟩)).mpr
    fun x => ?_
  simp only [Cluster.leave, List.mem_cons, List.mem_filter, decide_eq_true_eq]
  constructor
  · intro hx
    by_cases hid : x.guestId = w.guestId
    · exact .inl (List.inj_on_of_nodup_map hd hx hw hid)
    · exact .inr ⟨hx, fun h => hid h.2⟩
  · rintro (rfl | ⟨hx, -⟩)
    · exact hw
    · exact hx

theorem identified_enter (hp : Identified c)
    (hs : s.activeGuests = (c.sandbox tenantId).activeGuests.set guestId guest) :
    Identified (c.enter tenantId guestId s) ↔ ∀ w ∈ c.live, w.guestId ≠ guestId := by
  have hlive : (c.enter tenantId guestId s).live = c.live ++ [⟨tenantId, guestId, guest⟩] := by
    simp [Cluster.enter, hs]
  constructor
  · intro h w hw he
    have hdistinct := h.distinct
    rw [hlive, List.map_append] at hdistinct
    exact (List.nodup_append.mp hdistinct).2.2 _ (List.mem_map_of_mem hw) _
      (List.mem_singleton_self _) he
  · intro hnew
    have hitems : s.activeGuests.items =
        (c.sandbox tenantId).activeGuests.items ++ [(guestId, guest)] := by
      rw [hs, Dict.items_set_of_none (hp.get?_eq_none hnew)]
    have hdistinct : ((c.enter tenantId guestId s).live.map Workload.guestId).Nodup := by
      rw [hlive, List.map_append, List.nodup_append]
      refine ⟨hp.distinct, List.nodup_singleton _, fun a ha b hb he => ?_⟩
      obtain ⟨w, hw, rfl⟩ := List.mem_map.mp ha
      exact hnew w hw (he.trans (List.mem_singleton.mp hb))
    refine ⟨hdistinct, fun w hw => leave_perm hdistinct hw, fun t => ?_, fun t => ?_⟩
    · rw [Cluster.liveOf_enter (by rw [hs, Dict.get?_set_self]), List.map_append, ← hp.records]
      by_cases ht : t = tenantId
      · subst ht
        rw [Cluster.enter_sandbox, Cluster.put_sandbox_self, hitems, if_pos rfl]
        rfl
      · rw [Cluster.enter_sandbox, Cluster.put_sandbox_of_ne ht, if_neg (Ne.symm ht)]
        exact (List.append_nil _).symm
    · have hcount := hp.counted t
      rw [listGuests_length] at hcount ⊢
      by_cases ht : t = tenantId
      · subst ht
        rw [Cluster.enter_sandbox, Cluster.put_sandbox_self, hitems, List.length_append]
        simp only [Cluster.enter, Cluster.put, List.count_append, List.length_singleton,
          List.count_singleton_self]
        omega
      · rw [Cluster.enter_sandbox, Cluster.put_sandbox_of_ne ht]
        simpa [Cluster.enter, Cluster.put, Ne.symm ht] using hcount

/-- Without an admission or a termination, the registries may not change. -/
theorem identified_put (hp : Identified c) : Identified (c.put tenantId s) ↔
    s.activeGuests = (c.sandbox tenantId).activeGuests := by
  constructor
  · intro h
    refine Dict.ext ?_
    have hrecords := h.records tenantId
    rw [Cluster.put_sandbox_self] at hrecords
    rw [hrecords, hp.records]
    rfl
  · intro hs
    have hsame : ∀ t, ((c.put tenantId s).sandbox t).activeGuests = (c.sandbox t).activeGuests := by
      intro t
      by_cases ht : t = tenantId
      · subst ht
        rw [Cluster.put_sandbox_self, hs]
      · rw [Cluster.put_sandbox_of_ne ht]
    refine ⟨hp.distinct, fun w hw => leave_perm hp.distinct hw, fun t => ?_, fun t => ?_⟩
    · rw [hsame, hp.records]
      rfl
    · have hcount := hp.counted t
      rw [listGuests_length] at hcount ⊢
      rwa [hsame]

theorem identified_put_set (hp : Identified c)
    (hs : s.activeGuests = (c.sandbox tenantId).activeGuests.set guestId guest) :
    Identified (c.put tenantId s) ↔
      (c.sandbox tenantId).activeGuests.get? guestId = some guest := by
  rw [identified_put hp, hs]
  constructor
  · intro h
    rw [← h, Dict.get?_set_self]
  · exact Dict.set_of_get?

theorem not_identified_put_erase (hp : Identified c)
    (hs : s.activeGuests = (c.sandbox tenantId).activeGuests.erase guestId)
    (hg : (c.sandbox tenantId).activeGuests.get? guestId = some guest) :
    ¬ Identified (c.put tenantId s) := by
  rw [identified_put hp, hs]
  intro h
  have hlen := Dict.length_erase hg
  rw [h] at hlen
  omega

theorem identified_leave (hp : Identified c)
    (hs : s.activeGuests = (c.sandbox tenantId).activeGuests.erase guestId)
    (hg : (c.sandbox tenantId).activeGuests.get? guestId = some guest) :
    Identified (c.leave tenantId guestId s) := by
  have hitems : s.activeGuests.items =
      (c.sandbox tenantId).activeGuests.items.filter fun p => p.1 ≠ guestId := by
    rw [hs, Dict.erase]
  have hdistinct : ((c.leave tenantId guestId s).live.map Workload.guestId).Nodup :=
    hp.distinct.sublist (List.filter_sublist.map _)
  refine ⟨hdistinct, fun w hw => leave_perm hdistinct hw, fun t => ?_, fun t => ?_⟩
  · by_cases ht : t = tenantId
    · subst ht
      rw [Cluster.liveOf_leave_self, Cluster.leave_sandbox, Cluster.put_sandbox_self, hitems,
        hp.records, List.filter_map]
      rfl
    · rw [Cluster.liveOf_leave_of_ne ht, Cluster.leave_sandbox, Cluster.put_sandbox_of_ne ht,
        hp.records]
  · have hcount := hp.counted t
    rw [listGuests_length] at hcount ⊢
    by_cases ht : t = tenantId
    · subst ht
      have hlen := Dict.length_erase hg
      rw [Cluster.leave_sandbox, Cluster.put_sandbox_self, hs]
      simp only [Cluster.leave, Cluster.put, List.count_append, List.count_singleton_self]
      omega
    · rw [Cluster.leave_sandbox, Cluster.put_sandbox_of_ne ht]
      simpa [Cluster.leave, Cluster.put, Ne.symm ht] using hcount

/-! ## Every call -/

/-- Each sandbox is its tenant's. -/
def Own (c : Cluster) : Prop := ∀ tenantId, (c.sandbox tenantId).tenantId = tenantId

theorem Own.put (ho : Own c) (hs : s.tenantId = tenantId) : Own (c.put tenantId s) := by
  intro t
  by_cases ht : t = tenantId
  · subst ht
    rw [Cluster.put_sandbox_self, hs]
  · rw [Cluster.put_sandbox_of_ne ht, ho]

theorem Own.step (ho : Own c) (call : Call) : Own (c.step call) := by
  cases call with
  | admitGuest tenantId packageUrl intent resourceProfile out =>
    rcases step_admission (ho tenantId) packageUrl intent resourceProfile out with
      ⟨-, hstep⟩ | ⟨result, -, ⟨-, hstep⟩ | ⟨-, hstep⟩⟩
    · rwa [hstep]
    · rw [hstep]
      exact ho.put (ho tenantId)
    · rw [hstep]
      exact ho.put (ho tenantId)
  | terminateGuest tenantId guestId out =>
    rcases step_termination c tenantId guestId out with
      ⟨-, hstep⟩ | ⟨-, s, -, hid, ⟨-, hstep⟩ | ⟨-, hstep⟩⟩
    · rwa [hstep]
    · rw [hstep]
      exact ho.put (hid.trans (ho tenantId))
    · rw [hstep]
      exact ho.put (hid.trans (ho tenantId))

theorem register_guests (ho : s.tenantId = tenantId) (packageUrl intent : String)
    (result : LaunchResult) (profile : Profile) :
    (s.register packageUrl intent result profile).activeGuests =
      s.activeGuests.set (tenantId ++ ":" ++ packageUrl) ⟨packageUrl, intent, result, profile⟩ := by
  rw [GuestSandbox.register, ho]

theorem fresh_of_rejected {exc : Raised}
    (hexc : out.passed tenantId packageUrl intent = .error exc) :
    Fresh c (.admitGuest tenantId packageUrl intent resourceProfile out) := by
  intro result hresult
  rw [hexc] at hresult
  cases hresult

theorem fresh_of_passed (hresult : out.passed tenantId packageUrl intent = .ok result) :
    Fresh c (.admitGuest tenantId packageUrl intent resourceProfile out) ↔
      (Answers out (c.sandbox tenantId) packageUrl result resourceProfile ∧
        ∀ w ∈ c.live, w.guestId ≠ tenantId ++ ":" ++ packageUrl) ∨
      (¬ Answers out (c.sandbox tenantId) packageUrl result resourceProfile ∧
        (c.sandbox tenantId).activeGuests.get? (tenantId ++ ":" ++ packageUrl) =
          some ⟨packageUrl, intent, result, profileOf resourceProfile⟩) := by
  constructor
  · exact fun h => h result hresult
  · intro h result' hr
    obtain rfl := Except.ok.inj (hresult.symm.trans hr)
    exact h

theorem identified_admission (ho : Own c) (hp : Identified c) (tenantId packageUrl intent : String)
    (resourceProfile : Option Profile) (out : Outside) :
    Identified (c.step (.admitGuest tenantId packageUrl intent resourceProfile out)) ↔
      Fresh c (.admitGuest tenantId packageUrl intent resourceProfile out) := by
  rcases step_admission (ho tenantId) packageUrl intent resourceProfile out with
    ⟨⟨exc, hexc⟩, hstep⟩ | ⟨result, hresult, ⟨hans, hstep⟩ | ⟨hans, hstep⟩⟩
  · rw [hstep]
    exact iff_of_true hp (fresh_of_rejected hexc)
  · rw [hstep, identified_enter hp (register_guests (ho tenantId) ..), fresh_of_passed hresult,
      and_iff_right hans, or_iff_left fun h => h.1 hans]
  · rw [hstep, identified_put_set hp (register_guests (ho tenantId) ..), fresh_of_passed hresult,
      and_iff_right hans, or_iff_right fun h => hans h.1]

theorem identified_termination (hp : Identified c) (tenantId guestId : String) (out : Outside) :
    Identified (c.step (.terminateGuest tenantId guestId out)) ↔
      Fresh c (.terminateGuest tenantId guestId out) := by
  rcases step_termination c tenantId guestId out with
    ⟨hno, hstep⟩ | ⟨hyes, s, hs, -, ⟨hseal, hstep⟩ | ⟨⟨exc, hseal⟩, hstep⟩⟩
  · rw [hstep]
    exact iff_of_true hp fun h => absurd h hno
  · obtain ⟨guest, hg⟩ := Option.isSome_iff_exists.mp hyes
    rw [hstep]
    exact iff_of_true (identified_leave hp hs hg) fun _ => hseal
  · obtain ⟨guest, hg⟩ := Option.isSome_iff_exists.mp hyes
    rw [hstep]
    refine iff_of_false (not_identified_put_erase hp hs hg) fun h => ?_
    have hok := h hyes
    rw [hseal] at hok
    cases hok

theorem identified_start (nodeId : String → String) (codex : String → Option Codex) :
    Identified (.start nodeId codex) :=
  ⟨List.nodup_nil, fun _ hw => absurd hw List.not_mem_nil, fun _ => rfl, fun _ => rfl⟩

/-- The ids identify the workloads along a run exactly if each call of it is fresh. -/
theorem identified_iff (nodeId : String → String) (codex : String → Option Codex)
    (calls : List Call) :
    Always Cluster.step Identified (.start nodeId codex) calls ↔
      EveryStep Cluster.step Fresh (.start nodeId codex) calls := by
  have hown : ∀ (c : Cluster) (call : Call), Own c → Own (c.step call) :=
    fun _ call ho => ho.step call
  have hstep : ∀ (c : Cluster) (call : Call), Own c → Identified c →
      (Identified (c.step call) ↔ Fresh c call) := by
    intro c call ho hp
    cases call with
    | admitGuest tenantId packageUrl intent resourceProfile out =>
      exact identified_admission ho hp tenantId packageUrl intent resourceProfile out
    | terminateGuest tenantId guestId out => exact identified_termination hp tenantId guestId out
  have hstart : Own (.start nodeId codex) := fun _ => rfl
  exact always_iff hown hstep hstart (identified_start nodeId codex) calls

/-- Modules that cannot be imported. -/
def nothing : Outside :=
  let missing : Raised := ⟨.importError, "No module named 'gaia_hypervisor'"⟩
  { importCodex := .error missing
    newCodex := .error missing
    invokeStage := fun _ => .error missing
    importGate := .error missing
    enforceCodexOnInstall := fun _ _ => .error missing
    importUniverse := .error missing
    newUniverse := .error missing
    launchApp := fun _ _ => .error missing
    importMonitor := .error missing
    report := fun _ _ _ _ => .error missing }

/-- Two tenants whose names and packages fall together around the separator. -/
theorem separator_collides : ¬ Always Cluster.step Identified
    (.start (fun _ => "gaia-server-node-0") fun _ => none)
    [.admitGuest "a:b" "c" "" none nothing, .admitGuest "a" "b:c" "" none nothing] := by
  intro h
  have hp := h _ (List.prefix_refl _)
  have hids : (run Cluster.step (.start (fun _ => "gaia-server-node-0") fun _ => none)
      [.admitGuest "a:b" "c" "" none nothing, .admitGuest "a" "b:c" "" none nothing]).live.map
        Workload.guestId = ["a:b:c", "a:b:c"] := by
    decide
  exact absurd (hids ▸ hp.distinct) (by decide)

end Gaia.Sandbox
