import GaiaServer.Proof.Planetary.FleetView
import GaiaServer.Proof.Planetary.Latest
import GaiaServer.Proof.Planetary.Rejected
import GaiaServer.Spec.Planetary.Sections

/-!
# Partial pushes

The snapshot of a node is made of the last payload that the hub accepted from it, whatever
the earlier ones carried (`snapshot_pushes`): the hub replaces what it holds. So it holds
what merging the payloads gives exactly if each section that the last payload leaves out
had its default value before (`mergesPartial_iff`). A payload whose love score is no
number is rejected as a whole.
-/

namespace Gaia.Planetary

open Machine Merge

variable {ν Φ : Type} {P : Python ν Φ} {nodeId : String} {s : PlanetarySnapshot ν Φ}

/-- A snapshot that is made of a payload holds what the payload carries, and defaults. -/
theorem held_ofPayload (hP : P.float P.zeroValue = .ok P.zero) {payload : Dict String ν} {now : ν}
    (h : PlanetaryStateHub.ofPayload P nodeId payload now = .ok s) (k : Section) :
    s.held k = (carried P payload k).getD (defaultOf P k) := by
  simp only [PlanetaryStateHub.ofPayload, bind, Except.bind] at h
  cases hf : P.float (payload.get "love_score" P.zeroValue) with
  | error exc =>
    rw [hf] at h
    cases h
  | ok loveScore =>
    rw [hf] at h
    obtain rfl := Except.ok.inj h
    cases k with
    | loveScore =>
      rw [Dict.get] at hf
      simp only [PlanetarySnapshot.held, carried, defaultOf]
      cases hg : payload.get? "love_score" with
      | none =>
        rw [hg, Option.getD_none, hP] at hf
        exact (Except.ok.inj hf).symm
      | some v =>
        rw [hg, Option.getD_some] at hf
        rw [Option.bind_some, hf]
        rfl
    | _ => rfl

/-! ## Pushes of a node -/

/-- The hub after the calls of `push_dict`. -/
def pushes (P : Python ν Φ) (calls : List (PushCall ν)) : PlanetaryStateHub ν Φ :=
  run (fun hub call => (hub.pushDict P call.nodeId call.payload call.now).2) {} calls

/-- The payload is accepted: its love score, if it has one, is a number. -/
def PushCall.accepted (P : Python ν Φ) (call : PushCall ν) : Bool :=
  (P.float (call.payload.get "love_score" P.zeroValue)).isOk

/-- The calls that the hub accepts from a node. -/
def acceptedFrom (P : Python ν Φ) (nodeId : String) (calls : List (PushCall ν)) :
    List (PushCall ν) :=
  calls.filter fun call => call.nodeId = nodeId && call.accepted P

theorem accepted_iff {call : PushCall ν} : call.accepted P = true ↔
    ∃ s, PlanetaryStateHub.ofPayload P call.nodeId call.payload call.now = .ok s := by
  unfold PushCall.accepted
  cases hf : P.float (call.payload.get "love_score" P.zeroValue) with
  | error exc =>
    rw [ofPayload_error hf]
    simp [Except.isOk, Except.toBool]
  | ok loveScore =>
    exact iff_of_true rfl (ofPayload_ok hf)

theorem acceptedFrom_append (calls : List (PushCall ν)) (call : PushCall ν) :
    acceptedFrom P nodeId (calls ++ [call]) =
      if call.nodeId = nodeId ∧ call.accepted P = true then acceptedFrom P nodeId calls ++ [call]
      else acceptedFrom P nodeId calls := by
  by_cases h : call.nodeId = nodeId ∧ call.accepted P = true
  · simp [acceptedFrom, h]
  · rw [if_neg h]
    simpa [acceptedFrom] using h

/-- What a lookup sees after a push. -/
theorem snapshot_pushDict (hub : PlanetaryStateHub ν Φ) (call : PushCall ν) (nodeId : String) :
    (hub.pushDict P call.nodeId call.payload call.now).2.snapshot nodeId =
      if call.nodeId = nodeId ∧ call.accepted P = true then
        (PlanetaryStateHub.ofPayload P nodeId call.payload call.now).toOption
      else hub.snapshot nodeId := by
  cases hp : PlanetaryStateHub.ofPayload P call.nodeId call.payload call.now with
  | error exc =>
    have hrej : ¬ call.accepted P = true := by
      rw [accepted_iff, hp]
      intro h
      obtain ⟨_, h⟩ := h
      cases h
    rw [pushDict_error hp, if_neg fun h => hrej h.2]
  | ok s =>
    have hacc : call.accepted P = true := accepted_iff.mpr ⟨s, hp⟩
    have hid : s.nodeId = call.nodeId := (ofPayload_fields hp).1
    rw [pushDict_ok hp]
    dsimp only
    rw [snapshot_store, hid]
    by_cases hn : nodeId = call.nodeId
    · subst hn
      rw [if_pos rfl, if_pos ⟨rfl, hacc⟩, hp]
      rfl
    · rw [if_neg hn, if_neg fun h => hn h.1.symm]

/-- A node's snapshot is made of the last payload that the hub accepted from it. -/
theorem snapshot_pushes (calls : List (PushCall ν)) (nodeId : String) :
    (pushes P calls).snapshot nodeId = (acceptedFrom P nodeId calls).getLast?.bind fun call =>
      (PlanetaryStateHub.ofPayload P nodeId call.payload call.now).toOption := by
  induction calls using List.reverseRecOn with
  | nil => rfl
  | append_singleton calls call ih =>
    have hrun : pushes P (calls ++ [call]) =
        ((pushes P calls).pushDict P call.nodeId call.payload call.now).2 := run_append ..
    rw [hrun, snapshot_pushDict, ih, acceptedFrom_append]
    split
    · rw [List.getLast?_append, List.getLast?_singleton]
      rfl
    · rfl

/-! ## Merging -/

/-- The payloads that the hub accepts from a node, as partial updates. -/
def updatesFrom (P : Python ν Φ) (nodeId : String) (calls : List (PushCall ν)) :
    List (Update Section (Section.Value ν Φ)) :=
  (acceptedFrom P nodeId calls).map fun call => carried P call.payload

/-- The node's snapshot, once there is one, holds of each section the value of the last
payload that carried it, and the default if there is none. -/
def MergesPartial (P : Python ν Φ) (calls : List (PushCall ν)) (nodeId : String) : Prop :=
  acceptedFrom P nodeId calls ≠ [] → ∃ s, (pushes P calls).snapshot nodeId = some s ∧
    ∀ k, s.held k = merged (defaultOf P) (updatesFrom P nodeId calls) k

/-- Each section that the node's last payload leaves out had its default value before. -/
def LastComplete (P : Python ν Φ) (calls : List (PushCall ν)) (nodeId : String) : Prop :=
  ∀ earlier last, updatesFrom P nodeId calls = earlier ++ [last] → ∀ k, last k = none →
    merged (defaultOf P) earlier k = defaultOf P k

/-- The hub replaces what it holds of a node. -/
theorem held_pushes (hP : P.float P.zeroValue = .ok P.zero) {calls : List (PushCall ν)}
    (h : acceptedFrom P nodeId calls ≠ []) : ∃ s, (pushes P calls).snapshot nodeId = some s ∧
      ∀ k, s.held k = replaced (defaultOf P) (updatesFrom P nodeId calls) k := by
  obtain ⟨last, hlast⟩ : ∃ last, (acceptedFrom P nodeId calls).getLast? = some last :=
    ⟨_, List.getLast?_eq_some_getLast h⟩
  have hmem : last ∈ acceptedFrom P nodeId calls := List.mem_of_getLast? hlast
  obtain ⟨-, hcond⟩ := List.mem_filter.mp hmem
  rw [Bool.and_eq_true, decide_eq_true_eq, accepted_iff] at hcond
  obtain ⟨rfl, s, hs⟩ := hcond
  refine ⟨s, ?_, fun k => ?_⟩
  · rw [snapshot_pushes, hlast, Option.bind_some, hs]
    rfl
  · rw [held_ofPayload hP hs, replaced, updatesFrom, List.getLast?_map, hlast]
    rfl

/-- The node's snapshot merges its payloads exactly if each section that the last one
leaves out had its default value before. -/
theorem mergesPartial_iff (P : Python ν Φ) (hP : P.float P.zeroValue = .ok P.zero)
    (calls : List (PushCall ν)) (nodeId : String) :
    MergesPartial P calls nodeId ↔ LastComplete P calls nodeId := by
  by_cases hnil : acceptedFrom P nodeId calls = []
  · have hu : updatesFrom P nodeId calls = [] := by rw [updatesFrom, hnil, List.map_nil]
    refine iff_of_true (fun h => absurd hnil h) fun earlier last he => ?_
    rw [hu] at he
    exact absurd he.symm (List.append_ne_nil_of_right_ne_nil _ (List.cons_ne_nil _ _))
  · obtain ⟨s, hs, hheld⟩ := held_pushes hP hnil
    have hmerges : MergesPartial P calls nodeId ↔ ∀ k,
        replaced (defaultOf P) (updatesFrom P nodeId calls) k =
          merged (defaultOf P) (updatesFrom P nodeId calls) k := by
      simp only [MergesPartial, hs, ← hheld, Option.some.injEq, exists_eq_left']
      exact ⟨fun h => h hnil, fun h _ => h⟩
    rw [hmerges]
    constructor
    · intro h earlier last he k hk
      rw [he] at h
      exact replaced_eq_merged_iff.mp (h k) hk
    · intro h k
      have hne : updatesFrom P nodeId calls ≠ [] := by simpa [updatesFrom] using hnil
      have he := (List.dropLast_append_getLast hne).symm
      rw [he]
      exact replaced_eq_merged_iff.mpr (h _ _ he k)

/-- A push of observations, and one of energy. -/
def observationsThenEnergy : List (PushCall Plain) :=
  [⟨"a", .single "observations" (.dict 3), .number 1⟩, ⟨"a", .single "energy" (.dict 2), .number 2⟩]

/-- A push of energy alone takes the observations away. -/
theorem energy_drops_observations :
    ¬ ∀ (calls : List (PushCall Plain)) (nodeId : String),
      MergesPartial Plain.python calls nodeId := by
  intro h
  obtain ⟨s, hs, hheld⟩ := h observationsThenEnergy "a" (by decide)
  have hobs : s.observations = .dict 3 := hheld .observations
  have hlast : ((pushes Plain.python observationsThenEnergy).snapshot "a").map
      PlanetarySnapshot.observations = some (.dict 0) := rfl
  rw [hs, Option.map_some, hobs] at hlast
  exact absurd hlast (by decide)

/-- Two pushes of energy. -/
def energyTwice : List (PushCall Plain) :=
  [⟨"a", .single "energy" (.dict 1), .number 1⟩, ⟨"a", .single "energy" (.dict 2), .number 2⟩]

/-- The second push carries what the first did. -/
theorem energy_merges : MergesPartial Plain.python energyTwice "a" := by
  refine (mergesPartial_iff Plain.python rfl energyTwice "a").mpr fun earlier last he k hk => ?_
  have hsplit : [carried Plain.python (.single "energy" (.dict 1))] ++
      [carried Plain.python (.single "energy" (.dict 2))] = earlier ++ [last] := he
  obtain ⟨rfl, hlast⟩ := List.append_inj' hsplit rfl
  obtain rfl := (List.cons.inj hlast).1
  cases k with
  | energy => cases hk
  | _ => rfl

end Gaia.Planetary
