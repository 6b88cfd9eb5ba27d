import GaiaServer.Framework.Machine
import GaiaServer.Proof.Planetary.Summary

/-!
# The latest snapshots

Each push replaces what the hub holds of a node (`snapshot_store`), whatever its time. So
the hub always holds the latest snapshot of each node exactly if each is pushed
no earlier than those of its node with a lower time (`latest_iff`). Then the latest
time of all never goes back (`latest_mono`), and the order of the nodes among each
other does not matter (`latest_unique`).
-/

namespace Gaia.Planetary

open Machine

variable {ν Φ T : Type} {P : Python ν Φ} {hub : PlanetaryStateHub ν Φ}

/-! ## Pushes -/

/-- A call of `push` or `push_dict`. -/
inductive Push (ν Φ : Type)
  | typed (snapshot : PlanetarySnapshot ν Φ)
  | dict (nodeId : String) (payload : Dict String ν) (now : ν)

/-- The snapshot that a call pushes, if it makes one. -/
def landed (P : Python ν Φ) : Push ν Φ → Option (PlanetarySnapshot ν Φ)
  | .typed snapshot => some snapshot
  | .dict nodeId payload now =>
    match PlanetaryStateHub.ofPayload P nodeId payload now with
    | .ok snapshot => some snapshot
    | .error _ => none

/-- The hub after a call. -/
def afterPush (P : Python ν Φ) (hub : PlanetaryStateHub ν Φ) : Push ν Φ → PlanetaryStateHub ν Φ
  | .typed snapshot => (hub.push P snapshot).2
  | .dict nodeId payload now => (hub.pushDict P nodeId payload now).2

/-- A hub, and all that was pushed to it. -/
structure Log (ν Φ : Type) where
  hub : PlanetaryStateHub ν Φ := {}
  pushed : List (PlanetarySnapshot ν Φ) := []

/-- The hub and the log after a call. -/
def Log.step (P : Python ν Φ) (l : Log ν Φ) (a : Push ν Φ) : Log ν Φ :=
  ⟨afterPush P l.hub a, l.pushed ++ (landed P a).toList⟩

theorem afterPush_eq (a : Push ν Φ) :
    afterPush P hub a = ((landed P a).map hub.store).getD hub := by
  cases a with
  | typed snapshot => rfl
  | dict nodeId payload now =>
    simp only [afterPush, landed, PlanetaryStateHub.pushDict, PlanetaryStateHub.push]
    cases PlanetaryStateHub.ofPayload P nodeId payload now with
    | error exc => rfl
    | ok snapshot =>
      dsimp only
      cases P.len snapshot.observations <;> rfl

/-- What a lookup sees after a push. -/
theorem snapshot_store (s : PlanetarySnapshot ν Φ) (nodeId : String) :
    (hub.store s).snapshot nodeId = if nodeId = s.nodeId then some s else hub.snapshot nodeId :=
  Dict.get?_set ..

/-- What the hub holds of a node was pushed, by that node. -/
def Sound (l : Log ν Φ) : Prop :=
  ∀ nodeId s, l.hub.snapshot nodeId = some s → s.nodeId = nodeId ∧ s ∈ l.pushed

theorem Sound.step {l : Log ν Φ} (h : Sound l) (a : Push ν Φ) : Sound (l.step P a) := by
  intro nodeId s' hs'
  unfold Log.step at hs' ⊢
  rw [afterPush_eq] at hs'
  cases hl : landed P a with
  | none =>
    rw [hl] at hs'
    obtain ⟨hid, hmem⟩ := h nodeId s' hs'
    exact ⟨hid, List.mem_append_left _ hmem⟩
  | some s =>
    simp only [hl, Option.map_some, Option.getD_some, snapshot_store] at hs'
    split at hs'
    · rename_i he
      obtain rfl := Option.some.inj hs'
      exact ⟨he.symm, by simp⟩
    · obtain ⟨hid, hmem⟩ := h nodeId s' hs'
      exact ⟨hid, List.mem_append_left _ hmem⟩

theorem Sound.initial : Sound ({} : Log ν Φ) := by
  intro nodeId s hs
  simp [PlanetaryStateHub.snapshot] at hs

theorem Sound.subset {l : Log ν Φ} (h : Sound l) : l.hub.values ⊆ l.pushed := by
  intro s hs
  obtain ⟨nodeId, hs⟩ := mem_values.mp hs
  exact (h nodeId s hs).2

/-! ## The latest of each node -/

variable [LinearOrder T] (time : ν → T)

/-- Of each node that pushed, the hub holds the snapshot of the greatest time. -/
def Latest (l : Log ν Φ) : Prop :=
  ∀ s ∈ l.pushed, ∃ latest ∈ l.pushed, l.hub.snapshot s.nodeId = some latest ∧
    latest.nodeId = s.nodeId ∧ time s.timestamp ≤ time latest.timestamp

/-- The push is not earlier than what the hub holds of its node. -/
def InOrder (P : Python ν Φ) (l : Log ν Φ) (a : Push ν Φ) : Prop :=
  ∀ s, landed P a = some s → ∀ old, l.hub.snapshot s.nodeId = some old →
    time old.timestamp ≤ time s.timestamp

theorem latest_step {l : Log ν Φ} (hs : Sound l) (hl : Latest time l) (a : Push ν Φ) :
    Latest time (l.step P a) ↔ InOrder time P l a := by
  unfold Log.step InOrder
  rw [afterPush_eq]
  cases landed P a with
  | none => simpa [Latest] using hl
  | some s =>
    simp only [Option.map_some, Option.getD_some, Option.toList_some, Option.some.injEq, forall_eq']
    constructor
    · intro h old hold
      obtain ⟨hid, hmem⟩ := hs _ _ hold
      obtain ⟨latest, -, hlatest, -, hle⟩ := h old (List.mem_append_left _ hmem)
      rw [snapshot_store, if_pos hid] at hlatest
      obtain rfl := Option.some.inj hlatest
      exact hle
    · intro h s' hs'
      dsimp only
      simp only [snapshot_store]
      by_cases he : s'.nodeId = s.nodeId
      · -- The node is the one that pushes: what it pushed before is no later than what
        -- the hub held, and that no later than this.
        refine ⟨s, by simp, if_pos he, he.symm, ?_⟩
        rcases List.mem_append.mp hs' with hs' | hs'
        · obtain ⟨old, -, hold, -, hle⟩ := hl s' hs'
          exact hle.trans (h old (he ▸ hold))
        · rw [List.mem_singleton.mp hs']
      · rcases List.mem_append.mp hs' with hs' | hs'
        · obtain ⟨latest, hmem, hlatest, hid, hle⟩ := hl s' hs'
          exact ⟨latest, List.mem_append_left _ hmem, by rw [if_neg he, hlatest], hid, hle⟩
        · exact absurd (congrArg PlanetarySnapshot.nodeId (List.mem_singleton.mp hs')) he

theorem always_latest_iff (as : List (Push ν Φ)) :
    Always (Log.step P) (Latest time) {} as ↔ EveryStep (Log.step P) (InOrder time P) {} as := by
  have hstep : ∀ (l : Log ν Φ) a, Sound l → Sound (l.step P a) := fun l a h => h.step a
  have hempty : Latest time ({} : Log ν Φ) := fun _ hp => absurd hp List.not_mem_nil
  exact always_iff hstep (fun l a hs hl => latest_step time hs hl a) .initial hempty as

/-! ## The latest of all -/

/-- What the calls push. -/
def landings (P : Python ν Φ) (as : List (Push ν Φ)) : List (PlanetarySnapshot ν Φ) :=
  as.flatMap fun a => (landed P a).toList

theorem pushed_run (l : Log ν Φ) (as : List (Push ν Φ)) :
    (run (Log.step P) l as).pushed = l.pushed ++ landings P as := by
  induction as generalizing l with
  | nil => exact (List.append_nil _).symm
  | cons a as ih =>
    refine (ih (l.step P a)).trans ?_
    simp [Log.step, landings]

theorem landings_perm {as bs : List (Push ν Φ)} (h : bs.Perm as) (s : PlanetarySnapshot ν Φ) :
    s ∈ landings P bs ↔ s ∈ landings P as := by
  simp only [landings, List.mem_flatMap, h.mem_iff]

theorem sound_run (as : List (Push ν Φ)) : Sound (run (Log.step P) {} as) :=
  run_inv (fun _ a h => h.step a) .initial as

/-- The timestamps compare as their times, and the observations have a length. -/
structure Numeric (P : Python ν Φ) (time : ν → T) (ss : List (PlanetarySnapshot ν Φ)) : Prop where
  byTime : ByTime P.gt time (ss.map PlanetarySnapshot.timestamp)
  measured : Measured P ss

theorem Numeric.mono {ss ss' : List (PlanetarySnapshot ν Φ)} {time : ν → T}
    (h : Numeric P time ss') (hsub : ss ⊆ ss') : Numeric P time ss :=
  ⟨h.byTime.mono (List.map_subset _ hsub), fun s hs => h.measured s (hsub hs)⟩

/-- Two snapshots of one node and one time are the same. -/
def Distinct (time : ν → T) (ss : List (PlanetarySnapshot ν Φ)) : Prop :=
  ∀ s ∈ ss, ∀ s' ∈ ss, s.nodeId = s'.nodeId → time s.timestamp = time s'.timestamp → s = s'

/-- The latest timestamp of the summary. -/
def latestTs (P : Python ν Φ) (hub : PlanetaryStateHub ν Φ) : Except Exc (Option ν) :=
  (hub.fleetSummary P).map FleetSummary.latestSnapshotTs

/-- The summaries return, and the latest timestamp of the second is not earlier. -/
def NeverBack (P : Python ν Φ) (hub hub' : PlanetaryStateHub ν Φ) : Prop :=
  hub.values = [] ∨ ∃ t t', latestTs P hub = .ok (some t) ∧ latestTs P hub' = .ok (some t') ∧
    time t ≤ time t'

variable {time}

/-- The latest timestamp is that of a snapshot that the hub holds, and none is
later. -/
theorem latestTs_greatest {ss : List (PlanetarySnapshot ν Φ)} (hn : Numeric P time ss)
    (hsub : hub.values ⊆ ss) (hne : hub.values ≠ []) :
    ∃ s ∈ hub.values, latestTs P hub = .ok (some s.timestamp) ∧
      ∀ s' ∈ hub.values, time s'.timestamp ≤ time s.timestamp := by
  obtain ⟨first, rest, hv⟩ := List.exists_cons_of_ne_nil hne
  have hby : ByTime P.gt time (first.timestamp :: rest.map PlanetarySnapshot.timestamp) := by
    rw [← List.map_cons, ← hv]
    exact hn.byTime.mono (List.map_subset _ hsub)
  obtain ⟨t, ht, hmax, hle⟩ := pyMax_greatest hby
  rw [← List.map_cons, ← hv] at ht hle
  obtain ⟨s, hs, rfl⟩ := List.mem_map.mp ht
  refine ⟨s, hs, ?_, fun s' hs' => hle _ (List.mem_map_of_mem hs')⟩
  rw [latestTs, fleetSummary_latest hv fun s hs => hn.measured s (hsub hs), hmax]
  rfl

/-- A push in order does not take the latest timestamp back. -/
theorem latest_mono {l : Log ν Φ} {a : Push ν Φ} (hs : Sound l)
    (hn : Numeric P time (l.step P a).pushed) (ho : InOrder time P l a) :
    NeverBack time P l.hub (l.step P a).hub := by
  by_cases hne : l.hub.values = []
  · exact .inl hne
  · have hold : l.pushed ⊆ (l.step P a).pushed := List.subset_append_left ..
    obtain ⟨s, hmem, hlatest, -⟩ := latestTs_greatest hn (List.Subset.trans hs.subset hold) hne
    obtain ⟨nodeId, hsnap⟩ := mem_values.mp hmem
    obtain rfl := (hs nodeId s hsnap).1
    -- The node of the latest snapshot holds it still, or one no earlier.
    obtain ⟨s', hsnap', hle⟩ : ∃ s', (l.step P a).hub.snapshot s.nodeId = some s' ∧
        time s.timestamp ≤ time s'.timestamp := by
      unfold Log.step
      rw [afterPush_eq]
      cases hl : landed P a with
      | none => exact ⟨s, hsnap, le_rfl⟩
      | some new =>
        simp only [Option.map_some, Option.getD_some, snapshot_store]
        by_cases he : s.nodeId = new.nodeId
        · exact ⟨new, if_pos he, ho new hl s (he ▸ hsnap)⟩
        · exact ⟨s, by rw [if_neg he, hsnap], le_rfl⟩
    have hmem' := mem_values.mpr ⟨s.nodeId, hsnap'⟩
    obtain ⟨t, -, hlatest', hmax⟩ :=
      latestTs_greatest hn (hs.step a).subset (List.ne_nil_of_mem hmem')
    exact .inr ⟨_, _, hlatest, hlatest', hle.trans (hmax s' hmem')⟩

/-- Two logs of the same snapshots that both hold the latest hold the same. -/
theorem latest_unique {l l' : Log ν Φ} (hs : Sound l) (hl : Latest time l) (hl' : Latest time l')
    (hp : ∀ s, s ∈ l.pushed ↔ s ∈ l'.pushed) (hd : Distinct time l.pushed) {nodeId : String}
    {s : PlanetarySnapshot ν Φ} (h : l.hub.snapshot nodeId = some s) :
    l'.hub.snapshot nodeId = some s := by
  obtain ⟨rfl, hmem⟩ := hs nodeId s h
  obtain ⟨s', hmem', hs', hid, hle⟩ := hl' s ((hp s).mp hmem)
  obtain ⟨s'', -, hs'', -, hle'⟩ := hl s' ((hp s').mpr hmem')
  rw [hid, h] at hs''
  obtain rfl := Option.some.inj hs''
  rw [hs', hd s hmem s' ((hp s').mpr hmem') hid.symm (hle.antisymm hle')]

/-! ## The hub -/

variable (time) in
/-- The hub holds the latest snapshot of each node after every push, and no push takes
the latest timestamp back. -/
def KeepsLatest (P : Python ν Φ) (as : List (Push ν Φ)) : Prop :=
  Always (Log.step P) (Latest time) {} as ∧
    EveryStep (Log.step P) (fun l a => NeverBack time P l.hub (l.step P a).hub) {} as

variable (time) in
/-- Each push is not earlier than what the hub holds of its node. -/
def ArrivesInOrder (P : Python ν Φ) (as : List (Push ν Φ)) : Prop :=
  EveryStep (Log.step P) (InOrder time P) {} as

theorem keepsLatest_iff {as : List (Push ν Φ)} (hn : Numeric P time (landings P as)) :
    KeepsLatest time P as ↔ ArrivesInOrder time P as := by
  refine ⟨fun h => (always_latest_iff time as).mp h.1, fun ho => ?_⟩
  refine ⟨(always_latest_iff time as).mpr ho, fun pre a post he => ?_⟩
  refine latest_mono (sound_run pre) (hn.mono fun s hs => ?_) (ho pre a post he)
  -- What is pushed by then is pushed by the calls.
  have hpre : (run (Log.step P) {} (pre ++ [a])).pushed = landings P (pre ++ [a]) := pushed_run {} _
  rw [run_append] at hpre
  have hmem : s ∈ landings P (pre ++ [a]) := hpre ▸ hs
  rw [he, ← List.singleton_append, ← List.append_assoc, landings, List.flatMap_append]
  exact List.mem_append_left _ hmem

theorem latest_final {as : List (Push ν Φ)} (ho : ArrivesInOrder time P as) :
    Latest time (run (Log.step P) {} as) :=
  (always_latest_iff time as).mpr ho as (List.prefix_refl as)

theorem final_unique {as bs : List (Push ν Φ)} (h : bs.Perm as) (hd : Distinct time (landings P as))
    (ha : ArrivesInOrder time P as) (hb : ArrivesInOrder time P bs) (nodeId : String) :
    (run (Log.step P) {} bs).hub.snapshot nodeId =
      (run (Log.step P) {} as).hub.snapshot nodeId := by
  have hpa : (run (Log.step P) {} as).pushed = landings P as := pushed_run {} as
  have hpb : (run (Log.step P) {} bs).pushed = landings P bs := pushed_run {} bs
  have hp : ∀ s, s ∈ (run (Log.step P) {} as).pushed ↔ s ∈ (run (Log.step P) {} bs).pushed :=
    fun s => by rw [hpa, hpb, landings_perm h]
  have hdb : Distinct time (landings P bs) := fun s hs s' hs' =>
    hd s ((landings_perm h s).mp hs) s' ((landings_perm h s').mp hs')
  refine Option.ext fun s => ⟨fun hs => ?_, fun hs => ?_⟩
  · exact latest_unique (sound_run bs) (latest_final hb) (latest_final ha) (fun s => (hp s).symm)
      (hpb ▸ hdb) hs
  · exact latest_unique (sound_run as) (latest_final ha) (latest_final hb) hp (hpa ▸ hd) hs

/-- The time of a number. -/
def Plain.seconds : Plain → Int
  | .number n => n
  | _ => 0

/-- A push of the node `a` at a time. -/
def pushAt (n : Int) : Push Plain Int :=
  .dict "a" (.single "timestamp" (.number n)) (.number 0)

/-- What it pushes. -/
def snapshotAt (n : Int) : PlanetarySnapshot Plain Int where
  nodeId := "a"
  timestamp := .number n
  observations := .dict 0
  energy := .dict 0
  climate := .dict 0
  biosphere := .dict 0
  network := .dict 0
  integrity := .dict 0
  loveScore := 0
  metadata := .dict 0

theorem landings_pushAt (m n : Int) :
    landings Plain.python [pushAt m, pushAt n] = [snapshotAt m, snapshotAt n] := rfl

theorem numeric_pushAt (m n : Int) :
    Numeric Plain.python Plain.seconds (landings Plain.python [pushAt m, pushAt n]) := by
  rw [landings_pushAt]
  refine ⟨fun a ha b hb => ?_, fun s hs => ⟨0, ?_⟩⟩
  · simp only [List.map_cons, List.map_nil, List.mem_cons, List.not_mem_nil, or_false] at ha hb
    obtain rfl | rfl := ha <;> obtain rfl | rfl := hb <;> rfl
  · simp only [List.mem_cons, List.not_mem_nil, or_false] at hs
    obtain rfl | rfl := hs <;> rfl

theorem distinct_pushAt {m n : Int} (h : m ≠ n) :
    Distinct Plain.seconds (landings Plain.python [pushAt m, pushAt n]) := by
  rw [landings_pushAt]
  intro s hs s' hs' _ ht
  simp only [List.mem_cons, List.not_mem_nil, or_false] at hs hs'
  obtain rfl | rfl := hs <;> obtain rfl | rfl := hs'
  · rfl
  · exact absurd ht h
  · exact absurd ht.symm h
  · rfl

/-- The hub keeps the latest snapshots exactly if those of each node arrive in the
order of their times, and any two such orders of arrival leave the same. -/
theorem latest_iff (P : Python ν Φ) (time : ν → T) (as : List (Push ν Φ))
    (hn : Numeric P time (landings P as)) (hd : Distinct time (landings P as)) :
    (KeepsLatest time P as ↔ ArrivesInOrder time P as) ∧
      ∀ bs, bs.Perm as → ArrivesInOrder time P as → ArrivesInOrder time P bs → ∀ nodeId,
        (run (Log.step P) {} bs).hub.snapshot nodeId =
          (run (Log.step P) {} as).hub.snapshot nodeId :=
  ⟨keepsLatest_iff hn, fun _ h ha hb => final_unique h hd ha hb⟩

theorem forwards_kept : KeepsLatest Plain.seconds Plain.python [pushAt 1, pushAt 2] := by
  refine (latest_iff _ _ _ (numeric_pushAt 1 2) (distinct_pushAt (by decide))).1.mpr ?_
  refine everyStep_cons.mpr ⟨fun s _ old hold => ?_,
    everyStep_cons.mpr ⟨fun s hs old hold => ?_, everyStep_nil⟩⟩
  · simp [PlanetaryStateHub.snapshot] at hold
  · obtain rfl : snapshotAt 2 = s := Option.some.inj hs
    obtain rfl : snapshotAt 1 = old := Option.some.inj hold
    decide

theorem backwards_overwritten :
    Numeric Plain.python Plain.seconds (landings Plain.python [pushAt 2, pushAt 1]) ∧
      Distinct Plain.seconds (landings Plain.python [pushAt 2, pushAt 1]) ∧
        ¬ KeepsLatest Plain.seconds Plain.python [pushAt 2, pushAt 1] := by
  refine ⟨numeric_pushAt 2 1, distinct_pushAt (by decide), fun h => ?_⟩
  have hlatest := h.1 [pushAt 2, pushAt 1] (List.prefix_refl _)
  obtain ⟨s, -, hs, -, hle⟩ := hlatest (snapshotAt 2) List.mem_cons_self
  have hheld : (run (Log.step Plain.python) {} [pushAt 2, pushAt 1]).hub.snapshot "a" =
      some (snapshotAt 1) := rfl
  obtain rfl := Option.some.inj (hheld.symm.trans hs)
  exact absurd hle (by decide)

end Gaia.Planetary
