import GaiaServer.Framework.JsonStable
import GaiaServer.Impl.Gather

/-!
# Complete health reports

The check reports every registered name exactly if each result can be reported
(`complete_iff`): it is an `Exception`, or a mapping with a status that has a hash. One
check that was cancelled, or one unhashable status, breaks the report of all of them. On
results that `HealthAggregator.check` is modelled for, the status of the report is the
same (`check_refines`).
-/

namespace Gaia.Gather

open Json (mapM_ok_iff forall₂_exists forall₂_mem_left)

variable {objects : String → Bool} {results : Dict String GatherResult}

/-- What the report is to hold of a result: the mapping that was returned, or the
failure as down. -/
def Records : GatherResult → Mapping → Prop
  | .returned mapping, m => m = mapping
  | .exception _, m => m.get? (.str "status") = some (.str "down")
  | .exit _, m => m.get? (.str "status") = some (.str "down")

/-- The check returns a report of exactly the registered names, each result recorded. -/
def Complete (objects : String → Bool) (results : Dict String GatherResult) : Prop :=
  ∃ report, check objects results = .ok report ∧ report.subsystems.keys = results.keys ∧
    ∀ name r, results.get? name = some r →
      ∃ m, report.subsystems.get? name = some (.mapping m) ∧ Records r m

/-- A result that the check can report. -/
def Reportable (objects : String → Bool) : GatherResult → Prop
  | .returned mapping => hashable objects (mapping.get (.str "status") (.str "unknown")) = true
  | .exception _ => True
  | .exit _ => False

theorem statusElement_ok_iff {r : GatherResult} :
    (∃ status, statusElement objects (subsystem r) = .ok status) ↔ Reportable objects r := by
  cases r with
  | returned mapping =>
    simp only [statusElement, subsystem, statusOf, Reportable, bind, Except.bind]
    split
    · rename_i h
      exact iff_of_true ⟨_, rfl⟩ h
    · rename_i h
      exact iff_of_false (fun he => by obtain ⟨_, he⟩ := he; cases he) h
  | exception exc => exact iff_of_true ⟨.str "down", rfl⟩ trivial
  | exit exc => exact iff_of_false (fun he => by obtain ⟨_, he⟩ := he; cases he) id

theorem exists_mapM_iff {α β ε : Type} {f : α → Except ε β} {xs : List α} :
    (∃ ys, xs.mapM f = .ok ys) ↔ ∀ x ∈ xs, ∃ y, f x = .ok y := by
  simp only [mapM_ok_iff]
  constructor
  · intro h x hx
    obtain ⟨ys, h⟩ := h
    obtain ⟨y, -, hy⟩ := forall₂_mem_left h x hx
    exact ⟨y, hy⟩
  · exact forall₂_exists

/-- The elements of the set of statuses. -/
def statuses (objects : String → Bool) (results : Dict String GatherResult) :
    Except Exc (List PyVal) :=
  results.items.mapM fun item => statusElement objects (subsystem item.2)

theorem exists_statuses_iff : (∃ ss, statuses objects results = .ok ss) ↔
    ∀ item ∈ results.items, Reportable objects item.2 := by
  rw [statuses, exists_mapM_iff]
  exact forall₂_congr fun _ _ => statusElement_ok_iff

theorem check_of_nil (h : results.items = []) : check objects results = .ok ⟨"ok", .empty⟩ := by
  rw [check, h]
  rfl

theorem check_of_ne_nil (h : results.items ≠ []) : check objects results =
    (statuses objects results).map fun ss => ⟨overall ss, results.map subsystem⟩ := by
  have hm : (results.map subsystem).items.mapM (fun v => statusElement objects v.2) =
      statuses objects results := by
    rw [Dict.map, List.mapM_map]
    rfl
  rw [check, if_neg (by simpa using h)]
  dsimp only
  rw [hm]
  cases statuses objects results <;> rfl

/-- The check returns exactly if each result can be reported. -/
theorem exists_check_iff : (∃ report, check objects results = .ok report) ↔
    ∀ item ∈ results.items, Reportable objects item.2 := by
  by_cases hnil : results.items = []
  · rw [check_of_nil hnil, hnil]
    exact iff_of_true ⟨_, rfl⟩ fun _ h => absurd h List.not_mem_nil
  · rw [check_of_ne_nil hnil, ← exists_statuses_iff]
    cases statuses objects results with
    | error exc =>
      constructor
      · intro h
        obtain ⟨_, h⟩ := h
        cases h
      · intro h
        obtain ⟨_, h⟩ := h
        cases h
    | ok ss => exact iff_of_true ⟨_, rfl⟩ ⟨ss, rfl⟩

/-- The subsystems of the report are the results, each with its value. -/
theorem subsystems_of_ok {report : GatherReport} (h : check objects results = .ok report) :
    report.subsystems = results.map subsystem := by
  by_cases hnil : results.items = []
  · rw [check_of_nil hnil] at h
    obtain rfl := Except.ok.inj h
    exact Dict.ext (by simp [Dict.empty, Dict.map, hnil])
  · rw [check_of_ne_nil hnil] at h
    cases hs : statuses objects results with
    | error exc =>
      rw [hs] at h
      cases h
    | ok ss =>
      rw [hs] at h
      obtain rfl := Except.ok.inj h
      rfl

theorem subsystem_records {r : GatherResult} (h : Reportable objects r) :
    ∃ m, subsystem r = .mapping m ∧ Records r m := by
  cases r with
  | returned mapping => exact ⟨mapping, rfl, rfl⟩
  | exception exc =>
    refine ⟨_, rfl, ?_⟩
    rw [Records, Dict.get?_set_of_ne (by decide), Dict.get?_single]
    exact if_pos rfl
  | exit exc => exact h.elim

/-- The report is complete exactly if each result is an `Exception`, or a mapping whose
status has a hash. -/
theorem complete_iff (objects : String → Bool) (results : Dict String GatherResult) :
    Complete objects results ↔ ∀ item ∈ results.items, Reportable objects item.2 := by
  rw [← exists_check_iff]
  constructor
  · intro h
    obtain ⟨report, hc, -⟩ := h
    exact ⟨report, hc⟩
  · intro h
    have hall := exists_check_iff.mp h
    obtain ⟨report, hc⟩ := h
    have hsub := subsystems_of_ok hc
    refine ⟨report, hc, ?_, fun name r hr => ?_⟩
    · rw [hsub]
      simp [Dict.keys, Dict.map]
    · obtain ⟨m, hm, hrec⟩ := subsystem_records (hall _ (Dict.mem_items_iff.mpr hr))
      refine ⟨m, ?_, hrec⟩
      rw [hsub, Dict.get?_map, hr, Option.map_some, hm]

/-- A check that returns, beside one that was cancelled. -/
def oneCancelled : Dict String GatherResult :=
  (Dict.single "storage" (.returned (.single (.str "status") (.str "ok")))).set "inference"
    (.exit ⟨.cancelledError, ""⟩)

/-- One cancelled check breaks the report of both. -/
theorem cancelled_breaks_report :
    check (fun _ => true) oneCancelled =
        .error ⟨.other "AttributeError", "object has no attribute 'get'"⟩ ∧
      ¬ ∀ results, Complete (fun _ => true) results := by
  refine ⟨rfl, fun h => ?_⟩
  obtain ⟨report, hc, -⟩ := h oneCancelled
  cases hc

/-! ## The checks that are not cancelled -/

/-- A result that is what the check returned or raised. -/
def Stands : Except Exc Health → GatherResult → Prop
  | .ok health, .returned mapping => mapping.get? (.str "status") = health.status.map .str
  | .error exc, .exception exc' => exc' = exc
  | _, _ => False

theorem statusElement_stands {outcome : Except Exc Health} {r : GatherResult}
    (h : Stands outcome r) : statusElement objects (subsystem r) =
      .ok (.str ((HealthAggregator.entry outcome).status.getD "unknown")) := by
  cases outcome with
  | ok health =>
    cases r with
    | returned mapping =>
      have hget : mapping.get? (.str "status") = health.status.map .str := h
      simp only [statusElement, subsystem, statusOf, Dict.get, hget, HealthAggregator.entry]
      cases health.status <;> rfl
    | exception exc => exact h.elim
    | exit exc => exact h.elim
  | error exc =>
    cases r with
    | returned mapping => exact h.elim
    | exception exc' => rfl
    | exit exc' => exact h.elim

theorem overall_texts (ss : List String) : overall (ss.map .str) =
    if ss.contains "ok" && ss.all (· = "ok") then "ok"
    else if ss.contains "down" then "down"
    else "degraded" := by
  have hany : ∀ s, (ss.map PyVal.str).any (isText s) = ss.contains s := by
    intro s
    rw [List.any_map, List.contains_eq_any_beq]
    congr 1
    funext s'
    show decide (s' = s) = (s == s')
    rw [Bool.eq_iff_iff, decide_eq_true_eq, beq_iff_eq]
    exact eq_comm
  have hall : (ss.map PyVal.str).all (isText "ok") = ss.all (· = "ok") := by
    rw [List.all_map]
    rfl
  rw [overall, hany, hany, hall]

/-- On results that stand for what the checks return or raise, the status is that of the
model in which none is cancelled. -/
theorem check_refines {agg : HealthAggregator}
    (h : List.Forall₂ (fun a r => a.1 = r.1 ∧ Stands a.2 r.2) agg.checks.items results.items) :
    ∃ report, check objects results = .ok report ∧ report.status = agg.check.status := by
  have hs : statuses objects results = .ok ((agg.checks.items.map fun a =>
      (HealthAggregator.entry a.2).status.getD "unknown").map .str) := by
    rw [statuses, mapM_ok_iff]
    simp only [List.forall₂_map_right_iff]
    refine h.flip.imp fun r a har => ?_
    exact statusElement_stands har.2
  have hlen := h.length_eq
  unfold HealthAggregator.check
  by_cases hnil : results.items = []
  · have hnil' : agg.checks.items = [] := by
      rw [hnil] at hlen
      exact List.length_eq_zero_iff.mp hlen
    rw [check_of_nil hnil, hnil']
    exact ⟨_, rfl, rfl⟩
  · have hne : ¬ agg.checks.items.isEmpty = true := by
      rw [List.isEmpty_iff]
      intro hnil'
      rw [hnil'] at hlen
      exact hnil (List.length_eq_zero_iff.mp hlen.symm)
    rw [check_of_ne_nil hnil, hs, if_neg hne]
    refine ⟨_, rfl, ?_⟩
    dsimp only
    rw [overall_texts, List.map_map]
    rfl

end Gaia.Gather
