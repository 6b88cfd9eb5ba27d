import GaiaServer.Impl.Ipc.GrpcServer
import GaiaServer.Impl.Observability.Telemetry

/-!
# Windowed reads

After any number of turns, failed ones among them, the collector keeps the last 1000
of the snapshots that were collected (`kept_after`). So `latest` is the last
snapshot collected, and `history` and `memory_replay` are the requested suffix, save
for one limit: a limit of 0 slices from `-0`, which is the start, and returns all that
there is (`windowedReads_iff`).
-/

namespace Gaia.Observability

open Planetary (GaiaGrpcServer)

variable {ε : Type}

/-- The snapshots that the turns collect, in order. -/
def collected (nodeId : String) (turns : List Turn) : List TelemetrySnapshot :=
  turns.filterMap fun t => (collect nodeId t.consciousness t.now).toOption

namespace TelemetryCollector

variable {c : TelemetryCollector}

theorem append_kept (c : TelemetryCollector) (snap : TelemetrySnapshot) :
    (c.append snap).kept = (c.kept ++ [snap]).rtake maxHistory :=
  trim_eq (by decide) (c.kept ++ [snap])

/-- A failed turn keeps what there is; the other appends, whether or not its log lines
raise. -/
theorem turn_snd (c : TelemetryCollector) (t : Turn) : (c.turn t).2 =
    (collect c.nodeId t.consciousness t.now).toOption.elim c c.append := by
  unfold turn
  cases collect c.nodeId t.consciousness t.now <;> rfl

theorem turn_nodeId (c : TelemetryCollector) (t : Turn) : (c.turn t).2.nodeId = c.nodeId := by
  rw [turn_snd]
  cases (collect c.nodeId t.consciousness t.now).toOption <;> rfl

theorem collected_cons (nodeId : String) (t : Turn) (turns : List Turn) :
    collected nodeId (t :: turns) =
      (collect nodeId t.consciousness t.now).toOption.toList ++ collected nodeId turns := by
  unfold collected
  rw [List.filterMap_cons]
  cases (collect nodeId t.consciousness t.now).toOption <;> rfl

theorem turn_kept (h : c.kept.length ≤ maxHistory) (t : Turn) : (c.turn t).2.kept =
    (c.kept ++ (collect c.nodeId t.consciousness t.now).toOption.toList).rtake maxHistory := by
  rw [turn_snd]
  cases (collect c.nodeId t.consciousness t.now).toOption with
  | none =>
    rw [Option.toList_none, List.append_nil]
    exact (rtake_of_length_le h).symm
  | some snap => exact append_kept c snap

/-- The loop keeps the last of what was there and of what it collects. -/
theorem kept_run (h : c.kept.length ≤ maxHistory) (turns : List Turn) :
    (c.collectLoop turns).kept = (c.kept ++ collected c.nodeId turns).rtake maxHistory := by
  induction turns generalizing c with
  | nil =>
    rw [collected, List.filterMap_nil, List.append_nil]
    exact (rtake_of_length_le h).symm
  | cons t turns ih =>
    have hkept := turn_kept h t
    have hlen : (c.turn t).2.kept.length ≤ maxHistory := by
      rw [hkept, length_rtake]
      exact Nat.min_le_left ..
    have hrun : c.collectLoop (t :: turns) = (c.turn t).2.collectLoop turns := rfl
    rw [hrun, ih hlen, hkept, turn_nodeId, collected_cons, rtake_append, List.append_assoc]

/-- The collector after the turns. -/
def after (nodeId : String) (turns : List Turn) : TelemetryCollector :=
  collectLoop ⟨nodeId, []⟩ turns

theorem kept_after (nodeId : String) (turns : List Turn) :
    (after nodeId turns).kept = (collected nodeId turns).rtake maxHistory :=
  kept_run (Nat.zero_le _) turns

end TelemetryCollector

open TelemetryCollector (after)

/-! ## The reads -/

/-- `history(limit)` and `memory_replay(limit)` are the last of what there is, as many
as asked for, and `latest()` is the last. -/
structure WindowedReads (nodeId : String) (turns : List Turn) (events : List ε) (limit : Nat) :
    Prop where
  history : (after nodeId turns).history limit = (collected nodeId turns).rtake
    (min limit (min 1000 (collected nodeId turns).length))
  latest : (after nodeId turns).latest = (collected nodeId turns).getLast?
  replay : GaiaGrpcServer.memoryReplay events limit = events.rtake (min limit events.length)

theorem rtake_min_length {α : Type} (xs : List α) (n : Nat) :
    xs.rtake (min n xs.length) = xs.rtake n := by
  have hall : xs.rtake xs.length = xs := rtake_of_length_le le_rfl
  rw [← rtake_rtake, hall]

theorem latest_eq (nodeId : String) (turns : List Turn) :
    (after nodeId turns).latest = (collected nodeId turns).getLast? := by
  unfold TelemetryCollector.latest
  rw [TelemetryCollector.kept_after]
  exact getLast?_rtake (by decide) _

theorem history_iff {nodeId : String} {turns : List Turn} {limit : Nat} :
    (after nodeId turns).history limit = (collected nodeId turns).rtake
        (min limit (min 1000 (collected nodeId turns).length)) ↔
      limit ≠ 0 ∨ collected nodeId turns = [] := by
  have hkept := TelemetryCollector.kept_after nodeId turns
  have hnil : (collected nodeId turns).rtake 1000 = [] ↔ collected nodeId turns = [] := by
    rw [← List.length_eq_zero_iff, length_rtake, ← List.length_eq_zero_iff]
    omega
  rw [← min_assoc, rtake_min_length, ← rtake_rtake, TelemetryCollector.history, hkept]
  exact sliceFrom_neg_iff.trans (or_congr_right hnil)

theorem memoryReplay_iff {events : List ε} {limit : Nat} :
    GaiaGrpcServer.memoryReplay events limit = events.rtake (min limit events.length) ↔
      limit ≠ 0 ∨ events = [] := by
  rw [rtake_min_length]
  exact sliceFrom_neg_iff

/-- The windowed reads are the suffixes asked for exactly if the limit is not 0, or
there is nothing to read. -/
theorem windowedReads_iff (nodeId : String) (turns : List Turn) (events : List ε) (limit : Nat) :
    WindowedReads nodeId turns events limit ↔
      limit ≠ 0 ∨ (collected nodeId turns = [] ∧ events = []) := by
  rw [or_and_left, ← history_iff, ← memoryReplay_iff]
  constructor
  · intro h
    exact ⟨h.history, h.replay⟩
  · intro h
    exact ⟨h.1, latest_eq nodeId turns, h.2⟩

/-- What a substrate without cores answers. -/
def coreless : PyVal :=
  .dict [(.str "core_states", .dict []), (.str "evidence", .dict [(.str "composite_cgi", .int 1)]),
    (.str "memory_event_count", .int 0)]

/-- A turn that collects, with one that fails before it. -/
def oneCollected : List Turn :=
  [{ consciousness := .error ⟨.other "RuntimeError", "no substrate"⟩, now := "30.0" },
    { consciousness := .ok coreless, now := "60.0" }]

/-- A limit of 0 returns all. -/
theorem zero_limit_returns_all :
    ¬ ∀ (nodeId : String) (turns : List Turn) (events : List Nat) (limit : Nat),
      WindowedReads nodeId turns events limit := by
  intro h
  have hhist := (h "node" oneCollected [] 0).history
  have hlen := congrArg List.length hhist
  revert hlen
  decide

end Gaia.Observability
