import GaiaServer.Impl.Planetary.StateHub
import Mathlib.Order.Defs.LinearOrder

/-!
# The fleet summary

Over snapshots whose observations have a length, the summary returns exactly if the
maximum of the timestamps does, and has that as its latest timestamp
(`fleetSummary_latest`). The maximum compares each timestamp with the greatest of
those before it, and returns exactly if no such comparison raises
(`pyMax_ok_iff`); among timestamps that compare as the times they stand for, it is one
of them and no earlier than any (`pyMax_greatest`).
-/

namespace Gaia.Planetary

variable {ν Φ T : Type} {P : Python ν Φ} {hub : PlanetaryStateHub ν Φ}

/-! ## The maximum -/

/-- Going on from a greatest so far, no comparison raises. -/
def Compares (gt : ν → ν → Except Exc Bool) : ν → List ν → Prop
  | _, [] => True
  | greatest, x :: xs =>
    ∃ greater, gt x greatest = .ok greater ∧ Compares gt (if greater then x else greatest) xs

theorem pyMax_ok_iff {gt : ν → ν → Except Exc Bool} {greatest : ν} {xs : List ν} :
    (∃ t, pyMax gt greatest xs = .ok t) ↔ Compares gt greatest xs := by
  induction xs generalizing greatest with
  | nil => simp [pyMax, Compares]
  | cons x xs ih =>
    simp only [pyMax, Compares, bind, Except.bind]
    cases gt x greatest with
    | error exc => simp
    | ok greater => simp [ih]

/-- Comparing by time. -/
def ByTime [LinearOrder T] (gt : ν → ν → Except Exc Bool) (time : ν → T) (xs : List ν) : Prop :=
  ∀ a ∈ xs, ∀ b ∈ xs, gt a b = .ok (decide (time b < time a))

theorem ByTime.mono [LinearOrder T] {gt : ν → ν → Except Exc Bool} {time : ν → T}
    {xs ys : List ν} (h : ByTime gt time ys) (hsub : xs ⊆ ys) : ByTime gt time xs :=
  fun a ha b hb => h a (hsub ha) b (hsub hb)

theorem pyMax_greatest [LinearOrder T] {gt : ν → ν → Except Exc Bool} {time : ν → T} {x : ν}
    {xs : List ν} (h : ByTime gt time (x :: xs)) :
    ∃ t ∈ x :: xs, pyMax gt x xs = .ok t ∧ ∀ y ∈ x :: xs, time y ≤ time t := by
  induction xs generalizing x with
  | nil => exact ⟨x, List.mem_singleton_self x, rfl, by simp⟩
  | cons y ys ih =>
    have hxy : gt y x = .ok (decide (time x < time y)) := h y (by simp) x (by simp)
    have hskip : x :: ys ⊆ x :: y :: ys := by simp
    simp only [pyMax, hxy, bind, Except.bind]
    by_cases hlt : time x < time y
    · simp only [hlt, decide_true, if_true]
      obtain ⟨t, ht, hmax, hle⟩ := ih (h.mono (List.subset_cons_self ..))
      refine ⟨t, List.mem_cons_of_mem _ ht, hmax, List.forall_mem_cons.mpr ⟨?_, hle⟩⟩
      exact hlt.le.trans (hle y (by simp))
    · simp only [hlt, decide_false, Bool.false_eq_true, if_false]
      obtain ⟨t, ht, hmax, hle⟩ := ih (h.mono hskip)
      obtain ⟨hx, hys⟩ := List.forall_mem_cons.mp hle
      refine ⟨t, hskip ht, hmax, List.forall_mem_cons.mpr ⟨hx, List.forall_mem_cons.mpr ⟨?_, hys⟩⟩⟩
      exact (not_lt.mp hlt).trans hx

/-! ## The summary -/

/-- The observations of every snapshot have a length. -/
def Measured (P : Python ν Φ) (ss : List (PlanetarySnapshot ν Φ)) : Prop :=
  ∀ s ∈ ss, ∃ n, P.len s.observations = .ok n

theorem entries_ok {items : List (String × PlanetarySnapshot ν Φ)}
    (h : Measured P (items.map Prod.snd)) :
    ∃ entries, items.mapM (PlanetaryStateHub.entry P) = .ok entries := by
  induction items with
  | nil => exact ⟨[], rfl⟩
  | cons item items ih =>
    obtain ⟨⟨n, hn⟩, hrest⟩ := List.forall_mem_cons.mp h
    obtain ⟨entries, he⟩ := ih hrest
    rw [List.mapM_cons, he]
    simp only [PlanetaryStateHub.entry, hn, bind, Except.bind, pure, Except.pure]
    exact ⟨_, rfl⟩

theorem fleetSummary_latest {first : PlanetarySnapshot ν Φ} {rest : List (PlanetarySnapshot ν Φ)}
    (hv : hub.values = first :: rest) (h : Measured P hub.values) :
    (hub.fleetSummary P).map FleetSummary.latestSnapshotTs =
      (pyMax P.gt first.timestamp (rest.map PlanetarySnapshot.timestamp)).map some := by
  obtain ⟨entries, he⟩ := entries_ok h
  unfold PlanetaryStateHub.fleetSummary
  rw [hv]
  simp only [bind, Except.bind, he]
  cases pyMax P.gt first.timestamp (rest.map PlanetarySnapshot.timestamp) <;> rfl

theorem fleetSummary_empty (hv : hub.values = []) :
    hub.fleetSummary P = .ok ⟨0, [], P.zero, none, []⟩ := by
  unfold PlanetaryStateHub.fleetSummary
  rw [hv]

theorem mem_values {s : PlanetarySnapshot ν Φ} :
    s ∈ hub.values ↔ ∃ nodeId, hub.snapshot nodeId = some s := by
  simp only [PlanetaryStateHub.values, PlanetaryStateHub.snapshot, List.mem_map,
    ← Dict.mem_items_iff]
  exact ⟨fun ⟨p, hp, he⟩ => ⟨p.1, he ▸ hp⟩, fun ⟨nodeId, h⟩ => ⟨_, h, rfl⟩⟩

/-! ## The snapshot of a payload -/

section OfPayload

variable {nodeId : String} {payload : Dict String ν} {now : ν}

/-- The love score alone can keep a payload from becoming a snapshot. -/
theorem ofPayload_error {exc : Exc}
    (h : P.float (payload.get "love_score" P.zeroValue) = .error exc) :
    PlanetaryStateHub.ofPayload P nodeId payload now = .error exc := by
  simp only [PlanetaryStateHub.ofPayload, bind, Except.bind, h]

theorem ofPayload_ok {loveScore : Φ}
    (h : P.float (payload.get "love_score" P.zeroValue) = .ok loveScore) :
    ∃ s, PlanetaryStateHub.ofPayload P nodeId payload now = .ok s := by
  simp only [PlanetaryStateHub.ofPayload, bind, Except.bind, h]
  exact ⟨_, rfl⟩

theorem ofPayload_fields {s : PlanetarySnapshot ν Φ}
    (h : PlanetaryStateHub.ofPayload P nodeId payload now = .ok s) :
    s.nodeId = nodeId ∧ s.timestamp = payload.get "timestamp" now ∧
      s.observations = payload.get "observations" P.emptyDict := by
  simp only [PlanetaryStateHub.ofPayload, bind, Except.bind] at h
  split at h
  · cases h
  · obtain rfl := Except.ok.inj h
    exact ⟨rfl, rfl, rfl⟩

end OfPayload

/-! ## Numbers, texts and dicts -/

/-- Values of three kinds. -/
inductive Plain
  | number (n : Int)
  | text (s : String)
  | dict (size : Nat)
  deriving DecidableEq

/-- Numbers compare with numbers and texts with texts, and a float is a number. -/
def Plain.python : Python Plain Int where
  gt
    | .number a, .number b => .ok (decide (b < a))
    | .text a, .text b => .ok (decide (b < a))
    | _, _ => .error ⟨.typeError, "'>' not supported between these instances"⟩
  len
    | .number _ => .error ⟨.typeError, "object of type 'int' has no len()"⟩
    | .text s => .ok s.length
    | .dict size => .ok size
  float
    | .number n => .ok n
    | .text _ => .error ⟨.valueError, "could not convert string to float"⟩
    | .dict _ => .error ⟨.typeError, "float() argument must be a string or a real number"⟩
  average xs := xs.sum / xs.length
  zero := 0
  zeroValue := .number 0
  emptyDict := .dict 0

end Gaia.Planetary
