import GaiaServer.Impl.Ipc.GrpcServer
import GaiaServer.Proof.Planetary.Summary

/-!
# Pushes that raise

`push_dict` can raise in two places: when it makes the snapshot, if the love score is no
number, and after it has stored the snapshot, if the observations have no length, which
the log line asks for (`pushDict_ok`). In the second the snapshot stays. So a push that
raises leaves the hub as it was exactly if it raises in the first place, or the hub held
that very snapshot already (`rejectedKeeps_iff`).
-/

namespace Gaia.Planetary

variable {ν Φ : Type} {P : Python ν Φ} {hub hub' : PlanetaryStateHub ν Φ} {nodeId : String}
  {payload : Dict String ν} {now : ν} {s : PlanetarySnapshot ν Φ}

/-- The views of the hub are those of another. -/
structure SameView (P : Python ν Φ) (hub hub' : PlanetaryStateHub ν Φ) : Prop where
  snapshot : ∀ nodeId, hub'.snapshot nodeId = hub.snapshot nodeId
  nodeCount : hub'.nodeCount = hub.nodeCount
  fleetSummary : hub'.fleetSummary P = hub.fleetSummary P

theorem SameView.refl (P : Python ν Φ) (hub : PlanetaryStateHub ν Φ) : SameView P hub hub :=
  ⟨fun _ => rfl, rfl, rfl⟩

/-- After a call of `push_dict` or `planetary_state_push` that raises, the hub is seen as
it was before. -/
def RejectedKeeps (P : Python ν Φ) (hub : PlanetaryStateHub ν Φ) (nodeId : String)
    (payload : Dict String ν) (now : ν) : Prop :=
  (∀ exc hub', hub.pushDict P nodeId payload now = (.error exc, hub') → SameView P hub hub') ∧
    ∀ exc server', (GaiaGrpcServer.mk (some hub)).planetaryStatePush P nodeId payload now =
      (.error exc, server') → ∃ hub', server'.planetaryHub = some hub' ∧ SameView P hub hub'

/-- The love score of the payload is no number, or its observations have a length, or the
hub holds the snapshot of the payload already. -/
def Harmless (P : Python ν Φ) (hub : PlanetaryStateHub ν Φ) (nodeId : String)
    (payload : Dict String ν) (now : ν) : Prop :=
  (∃ exc, P.float (payload.get "love_score" P.zeroValue) = .error exc) ∨
    (∃ n, P.len (payload.get "observations" P.emptyDict) = .ok n) ∨
    ∃ s, PlanetaryStateHub.ofPayload P nodeId payload now = .ok s ∧ hub.snapshot nodeId = some s

/-! ## The two places -/

theorem pushDict_error {exc : Exc}
    (h : PlanetaryStateHub.ofPayload P nodeId payload now = .error exc) :
    hub.pushDict P nodeId payload now = (.error exc, hub) := by
  rw [PlanetaryStateHub.pushDict, h]

/-- A push stores the snapshot that it makes, and then takes the length. -/
theorem pushDict_ok (h : PlanetaryStateHub.ofPayload P nodeId payload now = .ok s) :
    hub.pushDict P nodeId payload now =
      ((P.len s.observations).map fun _ => s, hub.store s) := by
  rw [PlanetaryStateHub.pushDict, h]
  dsimp only
  rw [PlanetaryStateHub.push]
  cases P.len s.observations <;> rfl

/-- The service raises what the hub raises, and nothing else. -/
theorem planetaryStatePush_error {exc : Exc} {server' : GaiaGrpcServer ν Φ}
    (h : (GaiaGrpcServer.mk (some hub)).planetaryStatePush P nodeId payload now =
      (.error exc, server')) :
    ∃ hub', hub.pushDict P nodeId payload now = (.error exc, hub') ∧ server' = ⟨some hub'⟩ := by
  unfold GaiaGrpcServer.planetaryStatePush at h
  rcases hp : hub.pushDict P nodeId payload now with ⟨exc' | s, hub'⟩
  · simp only [hp, Prod.mk.injEq, Except.error.injEq] at h
    obtain ⟨rfl, rfl⟩ := h
    exact ⟨hub', rfl, rfl⟩
  · simp [hp] at h

/-! ## What is left -/

/-- Storing a snapshot shows, unless it is there already. -/
theorem sameView_store_iff : SameView P hub (hub.store s) ↔ hub.snapshot s.nodeId = some s := by
  constructor
  · intro h
    have hs : (hub.store s).snapshot s.nodeId = some s := Dict.get?_set_self ..
    rw [← h.snapshot s.nodeId, hs]
  · intro h
    have hsame : hub.store s = hub := by
      unfold PlanetaryStateHub.store
      rw [Dict.set_of_get? h]
    rw [hsame]
    exact SameView.refl P hub

theorem pushDict_keeps_iff :
    (∀ exc hub', hub.pushDict P nodeId payload now = (.error exc, hub') → SameView P hub hub') ↔
      Harmless P hub nodeId payload now := by
  unfold Harmless
  cases hf : P.float (payload.get "love_score" P.zeroValue) with
  | error exc =>
    rw [pushDict_error (ofPayload_error hf)]
    refine iff_of_true (fun exc' hub' he => ?_) (.inl ⟨exc, rfl⟩)
    obtain ⟨-, rfl⟩ := Prod.mk.inj he
    exact SameView.refl P hub
  | ok loveScore =>
    obtain ⟨s, hs⟩ : ∃ s, PlanetaryStateHub.ofPayload P nodeId payload now = .ok s :=
      ofPayload_ok hf
    obtain ⟨rfl, -, hobs⟩ := ofPayload_fields hs
    rw [pushDict_ok hs, hs, ← hobs]
    cases hl : P.len s.observations with
    | ok n =>
      refine iff_of_true (fun exc' hub' he => ?_) (.inr (.inl ⟨n, rfl⟩))
      cases congrArg Prod.fst he
    | error exc =>
      -- The snapshot is stored, and the length raises.
      constructor
      · intro h
        exact .inr (.inr ⟨s, rfl, sameView_store_iff.mp (h exc _ rfl)⟩)
      · intro h exc' hub' he
        obtain ⟨-, rfl⟩ := Prod.mk.inj he
        obtain ⟨_, h⟩ | ⟨_, h⟩ | ⟨s', hs', h⟩ := h
        · cases h
        · cases h
        · obtain rfl := Except.ok.inj hs'
          exact sameView_store_iff.mpr h

/-- A push that raises leaves the hub as it was exactly if the love score is no number,
the observations have a length, or the snapshot is there already. -/
theorem rejectedKeeps_iff (P : Python ν Φ) (hub : PlanetaryStateHub ν Φ) (nodeId : String)
    (payload : Dict String ν) (now : ν) :
    RejectedKeeps P hub nodeId payload now ↔ Harmless P hub nodeId payload now := by
  rw [← pushDict_keeps_iff]
  constructor
  · intro h
    exact h.1
  · intro h
    refine ⟨h, fun exc server' he => ?_⟩
    obtain ⟨hub', hp, rfl⟩ := planetaryStatePush_error he
    exact ⟨hub', rfl, h exc hub' hp⟩

/-- A push whose observations are a number raises, and its snapshot stays. -/
theorem number_stays :
    (∃ exc, (({} : PlanetaryStateHub Plain Int).pushDict Plain.python "a"
      (.single "observations" (.number 5)) (.number 0)).1 = .error exc) ∧
      ¬ ∀ (hub : PlanetaryStateHub Plain Int) (nodeId : String) (payload : Dict String Plain)
        (now : Plain), RejectedKeeps Plain.python hub nodeId payload now := by
  refine ⟨⟨_, rfl⟩, fun h => ?_⟩
  have hcount := ((h {} "a" (.single "observations" (.number 5)) (.number 0)).1 _ _ rfl).nodeCount
  revert hcount
  decide

end Gaia.Planetary
