import GaiaServer.Proof.Restore.Steps

/-!
# The causal tail

`replay_events` asks for at most 1000 events and returns their number. What it
reads are the first messages of the stream's tail (`pending_eq_tail`), each of them
decoded (`length_of_decodeEvents`), so the number is that of the tail or 1000, if this
is less (`replay_count`). It tells the two apart only for a tail of up to 1000
(`replay_complete_iff`).
-/

namespace Gaia.Storage

variable {core : Codec} {w : World}

/-- A subscription after a sequence number delivers the tail. -/
theorem pending_eq_tail {stream : String} {n : Int} {sub : Subscription}
    (h : w.subscription stream (some n) = .ok sub) : w.pending sub = w.tail stream n := by
  obtain ⟨name, hsource, hn, rfl⟩ := subscription_eq_ok.mp h
  obtain ⟨⟨name, s⟩, hs, rfl⟩ := Option.map_eq_some_iff.mp hsource
  have hget : w.streams.get? name = some s :=
    Dict.mem_items_iff.mp (List.mem_of_find?_eq_some hs)
  rw [World.pending, hget, World.tail, hs]
  refine List.filter_congr fun m _ => ?_
  have hpos := (hn n rfl).1
  have hseq : ((some n).getD 0 + 1).toNat ≤ m.seq ↔ n < m.seq := by
    rw [Option.getD_some]
    omega
  simp only [hseq]

/-- If decoding never raises a timeout, what is decoded is decoded to the end. -/
theorem length_of_decodeEvents
    (hdec : ∀ data exc, core.readEnvelope data = .error exc → exc.cls ≠ .natsTimeoutError)
    {msgs : List StreamMsg} {events : List EventEnvelope}
    (h : decodeEvents core msgs = .ok events) : events.length = msgs.length := by
  induction msgs generalizing events with
  | nil =>
    cases h
    rfl
  | cons m msgs ih =>
    rw [decodeEvents] at h
    cases hr : core.readEnvelope m.data with
    | error exc =>
      simp only [hr, hdec m.data exc hr, if_false] at h
      cases h
    | ok envelope =>
      simp only [hr] at h
      cases hd : decodeEvents core msgs with
      | error exc =>
        rw [hd] at h
        cases h
      | ok rest =>
        rw [hd] at h
        cases h
        rw [List.length_cons, List.length_cons, ih hd]

/-- The events read are as many as the tail's messages, up to the limit. -/
theorem length_of_eventsAfter
    (hdec : ∀ data exc, core.readEnvelope data = .error exc → exc.cls ≠ .natsTimeoutError)
    {stream : String} {n : Int} {limit : Nat} {events : List EventEnvelope}
    (h : w.eventsAfter core stream (some n) limit = .ok events) :
    events.length = min limit (w.tail stream n).length := by
  rw [World.eventsAfter] at h
  cases hs : w.subscription stream (some n) with
  | error exc =>
    rw [hs] at h
    cases h
  | ok sub =>
    rw [hs] at h
    rw [length_of_decodeEvents hdec h, List.length_take, pending_eq_tail hs]

end Gaia.Storage

namespace Gaia.Restore

open Storage World RestoreOrchestrator

variable {o : RestoreOrchestrator} {w w' : World} {M : RestoreManifest} {cursor : String} {n : Int}

/-- What the replay counts. -/
theorem replay_count
    (hdec : ∀ data exc, o.core.readEnvelope data = .error exc → exc.cls ≠ .natsTimeoutError)
    (hc : given M.causalCursor = some cursor) (hn : pyInt (replace cursor "seq:" "") = some n)
    {stream : String} {k : Nat} (h : (o.replayEvents M stream).run handle w = (.ok k, w')) :
    k = min 1000 (w.tail stream n).length := by
  obtain ⟨⟨-, hreplayed⟩, -⟩ := replayEvents_run.mp h
  obtain ⟨seq, events, hseq, he, -, rfl⟩ := hreplayed cursor hc
  obtain rfl := Option.some.inj (hseq.symm.trans hn)
  exact length_of_eventsAfter hdec he

/-- For a manifest whose cursor is read as the number `n`: whenever `replay_events`
returns, it has counted the events after `n` exactly if there are at most 1000; and so
has a restore of that manifest that returns. -/
theorem replay_complete_iff
    (hdec : ∀ data exc, o.core.readEnvelope data = .error exc → exc.cls ≠ .natsTimeoutError)
    (hc : given M.causalCursor = some cursor) (hn : pyInt (replace cursor "seq:" "") = some n) :
    (∀ stream k w', (o.replayEvents M stream).run handle w = (.ok k, w') →
      (k = (w.tail stream n).length ↔ (w.tail stream n).length ≤ 1000)) ∧
    ∀ id r w', (∃ raw, stored? o w ("manifests/" ++ id) = some raw ∧
        o.core.readManifest raw = .ok M) →
      (o.restore id).run handle w = (.ok r, w') →
      (r.eventsReplayed = (w.tail "gaia-checkpoints" n).length ↔
        (w.tail "gaia-checkpoints" n).length ≤ 1000) := by
  have hcount : ∀ stream k w', (o.replayEvents M stream).run handle w = (.ok k, w') →
      (k = (w.tail stream n).length ↔ (w.tail stream n).length ≤ 1000) := by
    intro stream k w' h
    have hk := replay_count hdec hc hn h
    omega
  refine ⟨hcount, fun id r w' ⟨raw, hs, hr⟩ h => ?_⟩
  obtain ⟨M', payload, k, hM, rfl, -⟩ := restore_run.mp h
  obtain ⟨raw', hs', hr'⟩ := hM.stored
  obtain rfl := Option.some.inj (hs.symm.trans hs')
  obtain rfl := Except.ok.inj (hr.symm.trans hr')
  exact hcount _ k w (replayEvents_run.mpr ⟨⟨hM.noCursor, hM.replayed⟩, rfl⟩)

/-! ## A stream of ticks -/

def tick (i : Nat) : StreamMsg := ⟨i + 1, "gaia-checkpoints.tick", []⟩

/-- A stream that holds `count` messages. -/
def ticks (count : Nat) (h : count < maxSeq) : Stream where
  subjects := ["gaia-checkpoints.>"]
  messages := (List.range count).map tick
  lastSeq := count
  increasing := by
    have he : ((List.range count).map tick).map StreamMsg.seq ++ [count + 1] =
        (List.range (count + 1)).map (· + 1) := by
      simp [List.range_succ, Function.comp_def, tick]
    rw [he, List.pairwise_map]
    exact List.pairwise_lt_range.imp Nat.succ_lt_succ
  bounded := h

def ticking (count : Nat) (h : count < maxSeq) : World :=
  ⟨.empty, .empty, .single "ticks" (ticks count h)⟩

/-- An orchestrator whose codec reads every message as a tick. -/
def ticker : RestoreOrchestrator where
  core := {
    readManifest := fun _ => .error ⟨.valueError, "unknown"⟩
    manifestWire := fun M => M.rest
    readCheckpointRef := fun _ => .error ⟨.valueError, "unknown"⟩
    checkpointRefWire := fun ref => ref.rest
    readEnvelope := fun _ => .ok ⟨"gaia-checkpoints", "tick", []⟩
    envelopeWire := fun e => e.rest
    trustValue := fun _ => "unverified" }
  sha256 := fun _ => []
  repr := fun s => "'" ++ s ++ "'"

def tickManifest : RestoreManifest where
  manifestId := "m1"
  checkpointId := "c1"
  nodeId := "alpha"
  restorePath := .softRestart
  requestedTrustClass := .trusted
  manifestHash := "sha256:00"
  payloadHash := none
  causalCursor := some "seq:0"
  attestationRef := none
  admissibilityPolicyRef := none
  splitBrainToken := none
  rest := []

theorem tail_ticking {count : Nat} (h : count < maxSeq) :
    ((ticking count h).tail "gaia-checkpoints" 0).length = count := by
  have hf : (ticking count h).streamFor ("gaia-checkpoints" ++ ".>") =
      some ("ticks", ticks count h) := rfl
  have hcov : Subject.covers (Subject.tokens ("gaia-checkpoints" ++ ".>"))
      (Subject.tokens "gaia-checkpoints.tick") = true := by decide
  have hall : ∀ m ∈ (ticks count h).messages, ((0 : Int) < m.seq &&
      Subject.covers (Subject.tokens ("gaia-checkpoints" ++ ".>")) (Subject.tokens m.subject)) := by
    intro m hm
    obtain ⟨i, -, rfl⟩ := List.mem_map.mp hm
    have hpos : (0 : Int) < (i + 1 : Nat) := by omega
    rw [show (tick i).subject = "gaia-checkpoints.tick" from rfl, hcov, Bool.and_true,
      decide_eq_true_eq]
    exact hpos
  rw [World.tail, hf]
  show ((ticks count h).messages.filter _).length = count
  rw [List.filter_eq_self.mpr hall]
  simp [ticks]

theorem decodeEvents_ticker (msgs : List StreamMsg) :
    ∃ events, decodeEvents ticker.core msgs = .ok events := by
  induction msgs with
  | nil => exact ⟨[], rfl⟩
  | cons m msgs ih =>
    obtain ⟨events, h⟩ := ih
    have hread : ticker.core.readEnvelope m.data = .ok ⟨"gaia-checkpoints", "tick", []⟩ := rfl
    exact ⟨_, by rw [decodeEvents, hread, h]; rfl⟩

theorem ticker_decodes (data : Bytes) (exc : Exc) (h : ticker.core.readEnvelope data = .error exc) :
    exc.cls ≠ .natsTimeoutError := nomatch h

/-- The replay counts the ticks up to 1000. -/
theorem replay_ticking {count : Nat} (h0 : 0 < count) (h : count < maxSeq) :
    (ticker.replayEvents tickManifest).run handle (ticking count h) =
      (.ok (min 1000 count), ticking count h) := by
  have hsub : (ticking count h).subscription "gaia-checkpoints" (some 0) =
      .ok ⟨"ticks", "gaia-checkpoints.>", 1⟩ := by rfl
  obtain ⟨events, he⟩ := decodeEvents_ticker
    (((ticking count h).pending ⟨"ticks", "gaia-checkpoints.>", 1⟩).take 1000)
  have hafter : (ticking count h).eventsAfter ticker.core "gaia-checkpoints" (some 0) 1000 =
      .ok events := by rw [World.eventsAfter, hsub]; exact he
  have hlen := length_of_eventsAfter ticker_decodes hafter
  rw [tail_ticking] at hlen
  have hcursor : pyInt (replace "seq:0" "seq:" "") = some 0 := by decide
  refine replayEvents_run.mpr ⟨⟨fun hc => ?_, fun cursor hc => ?_⟩, rfl⟩
  · exact absurd hc (by decide)
  · obtain rfl : "seq:0" = cursor := Option.some.inj hc
    refine ⟨0, events, hcursor, hafter, fun e => ?_, hlen.symm⟩
    rw [e, List.length_nil] at hlen
    omega

theorem three_fit : 3 < maxSeq := by decide

/-- Three ticks are counted. -/
theorem three_replayed : ∃ k w',
    (ticker.replayEvents tickManifest).run handle (ticking 3 three_fit) = (.ok k, w') ∧
      k = ((ticking 3 three_fit).tail "gaia-checkpoints" 0).length := by
  have hrun := replay_ticking (show 0 < 3 by decide) three_fit
  have hcursor : pyInt (replace "seq:0" "seq:" "") = some 0 := by decide
  refine ⟨_, _, hrun, ?_⟩
  refine ((replay_complete_iff ticker_decodes rfl hcursor).1 _ _ _ hrun).mpr ?_
  rw [tail_ticking]
  decide

theorem many_fit : 1001 < maxSeq := by decide

/-- Of 1001 ticks, 1000 are counted. -/
theorem tail_cut_short :
    (ticker.replayEvents tickManifest).run handle (ticking 1001 many_fit) =
        (.ok 1000, ticking 1001 many_fit) ∧
      ((ticking 1001 many_fit).tail "gaia-checkpoints" 0).length = 1001 :=
  ⟨replay_ticking (by decide) many_fit, tail_ticking many_fit⟩

end Gaia.Restore
