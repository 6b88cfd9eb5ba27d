import GaiaServer.Framework.Machine
import GaiaServer.Impl.Ipc.GrpcServer
import GaiaServer.Proof.Planetary.Summary

/-!
# The fleet view

An accepted push stores a snapshot whose observations have a length, under a
timestamp that nothing checked (`accepted_cases`). So after pushes that were all
accepted the views return exactly if `max` can compare the timestamps that the nodes
pushed last (`viewable_iff`); those that compare as times do are no obstacle
(`comparable_of_byTime`).
-/

namespace Gaia.Planetary

open Machine

variable {ν Φ T : Type} {P : Python ν Φ} {server : GaiaGrpcServer ν Φ}
  {hub : PlanetaryStateHub ν Φ}

/-! ## The view -/

/-- The summary and every request for a snapshot return. -/
structure Viewable (P : Python ν Φ) (server : GaiaGrpcServer ν Φ) : Prop where
  summary : ∀ hub, server.planetaryHub = some hub → ∃ summary, hub.fleetSummary P = .ok summary
  snapshot : ∀ nodeId, ∃ reply, server.planetaryStateSnapshot P nodeId = .ok reply

/-- `max` compares the values without an exception. -/
def Comparable (gt : ν → ν → Except Exc Bool) : List ν → Prop
  | [] => True
  | x :: xs => Compares gt x xs

theorem exists_ok_map {α β : Type} {x : Except Exc α} {f : α → β} :
    (∃ b, x.map f = .ok b) ↔ ∃ a, x = .ok a := by
  cases x with
  | error exc => simp [Except.map]
  | ok a => simp [Except.map]

theorem fleetSummary_ok_iff (h : Measured P hub.values) :
    (∃ summary, hub.fleetSummary P = .ok summary) ↔
      Comparable P.gt (hub.values.map PlanetarySnapshot.timestamp) := by
  cases hv : hub.values with
  | nil => simp [fleetSummary_empty hv, Comparable]
  | cons first rest =>
    rw [List.map_cons, Comparable, ← pyMax_ok_iff,
      ← exists_ok_map (f := FleetSummary.latestSnapshotTs), fleetSummary_latest hv h, exists_ok_map]

theorem viewable_of_summary (h : Measured P hub.values)
    (hs : ∃ summary, hub.fleetSummary P = .ok summary) : Viewable P ⟨some hub⟩ := by
  refine ⟨fun hub' he => ?_, fun nodeId => ?_⟩
  · obtain rfl := Option.some.inj he
    exact hs
  · unfold GaiaGrpcServer.planetaryStateSnapshot
    cases nodeId with
    | none => exact exists_ok_map.mpr hs
    | some nodeId =>
      dsimp only
      cases hn : hub.snapshot nodeId with
      | none => exact ⟨_, rfl⟩
      | some s => exact exists_ok_map.mpr (h s (mem_values.mpr ⟨nodeId, hn⟩))

theorem viewable_hub (h : Measured P hub.values) :
    Viewable P ⟨some hub⟩ ↔ Comparable P.gt (hub.values.map PlanetarySnapshot.timestamp) := by
  rw [← fleetSummary_ok_iff h]
  exact ⟨fun hv => hv.summary hub rfl, viewable_of_summary h⟩

/-! ## Accepted pushes -/

/-- The arguments of `planetary_state_push`, and the time that it reads. -/
structure PushCall (ν : Type) where
  nodeId : String
  payload : Dict String ν
  now : ν

def PushCall.timestamp (call : PushCall ν) : ν := call.payload.get "timestamp" call.now

/-- The server after a push. -/
def afterCall (P : Python ν Φ) (server : GaiaGrpcServer ν Φ) (call : PushCall ν) :
    GaiaGrpcServer ν Φ :=
  (server.planetaryStatePush P call.nodeId call.payload call.now).2

/-- The push returns `accepted=True`. -/
def Accepted (P : Python ν Φ) (server : GaiaGrpcServer ν Φ) (call : PushCall ν) : Prop :=
  ∃ ack, (server.planetaryStatePush P call.nodeId call.payload call.now).1 = .ok ack ∧
    ack.accepted = true

/-- An accepted push has a hub, and stores a snapshot in it. -/
theorem accepted_cases {call : PushCall ν} (h : Accepted P server call) :
    ∃ hub s, server = ⟨some hub⟩ ∧ afterCall P server call = ⟨some (hub.store s)⟩ ∧
      s.nodeId = call.nodeId ∧ s.timestamp = call.timestamp ∧
        ∃ n, P.len s.observations = .ok n := by
  obtain ⟨ack, hack, hacc⟩ := h
  obtain ⟨wired⟩ := server
  unfold GaiaGrpcServer.planetaryStatePush PlanetaryStateHub.pushDict at hack
  unfold afterCall GaiaGrpcServer.planetaryStatePush PlanetaryStateHub.pushDict
  cases wired with
  | none =>
    obtain rfl := Except.ok.inj hack
    exact absurd hacc Bool.false_ne_true
  | some hub =>
    dsimp only at hack ⊢
    cases hp : PlanetaryStateHub.ofPayload P call.nodeId call.payload call.now with
    | error exc => simp [hp] at hack
    | ok s =>
      obtain ⟨hid, htime, -⟩ := ofPayload_fields hp
      simp only [hp, PlanetaryStateHub.push] at hack ⊢
      cases hl : P.len s.observations with
      | error exc => simp [hl, Except.map] at hack
      | ok n => exact ⟨hub, s, rfl, rfl, hid, htime, n, hl⟩

/-- The timestamps that the nodes pushed last, the nodes in the order of their
first push. -/
def lastStamps (calls : List (PushCall ν)) : List ν :=
  (calls.foldl (fun stamps call => stamps.set call.nodeId call.timestamp) Dict.empty).items.map
    Prod.snd

theorem measured_store {s : PlanetarySnapshot ν Φ} (h : Measured P hub.values)
    (hs : ∃ n, P.len s.observations = .ok n) : Measured P (hub.store s).values := by
  intro s' hs'
  obtain ⟨nodeId, hget⟩ := mem_values.mp hs'
  rw [PlanetaryStateHub.snapshot, PlanetaryStateHub.store, Dict.get?_set] at hget
  split at hget
  · obtain rfl := Option.some.inj hget
    exact hs
  · exact h s' (mem_values.mpr ⟨nodeId, hget⟩)

/-- After accepted pushes the observations have a length, and the timestamps are
those pushed last. -/
theorem accepted_run (calls : List (PushCall ν)) (hm : Measured P hub.values)
    (h : EveryStep (afterCall P) (Accepted P) ⟨some hub⟩ calls) :
    ∃ hub', run (afterCall P) ⟨some hub⟩ calls = ⟨some hub'⟩ ∧ Measured P hub'.values ∧
      hub'.snapshots.map PlanetarySnapshot.timestamp =
        calls.foldl (fun stamps call => stamps.set call.nodeId call.timestamp)
          (hub.snapshots.map PlanetarySnapshot.timestamp) := by
  induction calls generalizing hub with
  | nil => exact ⟨hub, rfl, hm, rfl⟩
  | cons call calls ih =>
    obtain ⟨hacc, hrest⟩ := everyStep_cons.mp h
    obtain ⟨hub₀, s, hhub, hstep, hid, ht, hlen⟩ := accepted_cases hacc
    obtain rfl := Option.some.inj (GaiaGrpcServer.mk.inj hhub)
    rw [hstep] at hrest
    obtain ⟨hub', hrun, hm', hstamps⟩ := ih (measured_store hm hlen) hrest
    rw [PlanetaryStateHub.store, Dict.map_set, hid, ht] at hstamps
    exact ⟨hub', by rw [← hrun, ← hstep]; rfl, hm', hstamps⟩

/-- A server that is wired to a hub, or not. -/
def GaiaGrpcServer.initial (wired : Bool) : GaiaGrpcServer ν Φ :=
  ⟨if wired then some {} else none⟩

theorem lastStamps_subset (calls : List (PushCall ν)) :
    lastStamps calls ⊆ calls.map PushCall.timestamp := by
  have hfold : ∀ (calls : List (PushCall ν)) (stamps : Dict String ν) (nodeId : String) (t : ν),
      (calls.foldl (fun stamps call => stamps.set call.nodeId call.timestamp) stamps).get? nodeId =
        some t → stamps.get? nodeId = some t ∨ t ∈ calls.map PushCall.timestamp := by
    intro calls
    induction calls with
    | nil => exact fun _ _ _ h => .inl h
    | cons call calls ih =>
      intro stamps nodeId t h
      rcases ih _ nodeId t h with hget | hmem
      · rw [Dict.get?_set] at hget
        split at hget
        · obtain rfl := Option.some.inj hget
          exact .inr List.mem_cons_self
        · exact .inl hget
      · exact .inr (List.mem_cons_of_mem _ hmem)
  intro t ht
  obtain ⟨⟨nodeId, t⟩, hitem, rfl⟩ := List.mem_map.mp ht
  rcases hfold calls .empty nodeId t (Dict.mem_items_iff.mp hitem) with hget | hmem
  · rw [Dict.get?_empty] at hget
    cases hget
  · exact hmem

/-- Timestamps that compare as times are comparable. -/
theorem comparable_of_byTime [LinearOrder T] {time : ν → T} {calls : List (PushCall ν)}
    (h : ByTime P.gt time (calls.map PushCall.timestamp)) :
    Comparable P.gt (lastStamps calls) := by
  have hby := h.mono (lastStamps_subset calls)
  cases hl : lastStamps calls with
  | nil => trivial
  | cons t ts =>
    rw [hl] at hby
    obtain ⟨greatest, -, hmax, -⟩ := pyMax_greatest hby
    exact pyMax_ok_iff.mp ⟨greatest, hmax⟩

/-! ## The server -/

theorem viewable_unwired : Viewable P (.initial false) :=
  ⟨fun _ he => absurd he (by simp [GaiaGrpcServer.initial]), fun _ => ⟨_, rfl⟩⟩

theorem lastStamps_hub {calls : List (PushCall ν)}
    (h : hub.snapshots.map PlanetarySnapshot.timestamp =
      calls.foldl (fun stamps call => stamps.set call.nodeId call.timestamp) .empty) :
    lastStamps calls = hub.values.map PlanetarySnapshot.timestamp := by
  rw [lastStamps, ← h]
  simp [Dict.map, PlanetaryStateHub.values]

/-- After accepted pushes the views return exactly if the timestamps that the nodes
pushed last are comparable. -/
theorem viewable_iff (P : Python ν Φ) (wired : Bool) (calls : List (PushCall ν))
    (h : EveryStep (afterCall P) (Accepted P) (.initial wired) calls) :
    Viewable P (run (afterCall P) (.initial wired) calls) ↔ Comparable P.gt (lastStamps calls) := by
  cases wired with
  | false =>
    cases calls with
    | nil => exact iff_of_true viewable_unwired trivial
    | cons call calls =>
      obtain ⟨hub, s, hhub, -⟩ := accepted_cases (everyStep_cons.mp h).1
      exact absurd hhub (by simp [GaiaGrpcServer.initial])
  | true =>
    have hm : Measured P ({} : PlanetaryStateHub ν Φ).values :=
      fun _ hs => absurd hs List.not_mem_nil
    obtain ⟨hub', hrun, hm', hstamps⟩ := accepted_run calls hm h
    rw [lastStamps_hub hstamps, ← viewable_hub hm', ← hrun]
    rfl

/-- A push of a node with no observations. -/
def stamped (nodeId : String) (timestamp : Plain) : PushCall Plain :=
  ⟨nodeId, .single "timestamp" timestamp, .number 0⟩

theorem accepted_stamped (t t' : Plain) :
    EveryStep (afterCall Plain.python) (Accepted Plain.python) (.initial true)
      [stamped "a" t, stamped "b" t'] := by
  exact everyStep_cons.mpr ⟨⟨_, rfl, rfl⟩, everyStep_cons.mpr ⟨⟨_, rfl, rfl⟩, everyStep_nil⟩⟩

theorem numbers_viewable :
    Viewable Plain.python (run (afterCall Plain.python) (.initial true)
      [stamped "a" (.number 1), stamped "b" (.number 2)]) :=
  (viewable_iff _ _ _ (accepted_stamped _ _)).mpr ⟨true, rfl, trivial⟩

theorem text_not_viewable :
    EveryStep (afterCall Plain.python) (Accepted Plain.python) (.initial true)
        [stamped "a" (.number 1), stamped "b" (.text "abc")] ∧
      ¬ Viewable Plain.python (run (afterCall Plain.python) (.initial true)
        [stamped "a" (.number 1), stamped "b" (.text "abc")]) := by
  refine ⟨accepted_stamped _ _, fun h => ?_⟩
  obtain ⟨reply, hreply⟩ := h.snapshot none
  cases hreply

end Gaia.Planetary
