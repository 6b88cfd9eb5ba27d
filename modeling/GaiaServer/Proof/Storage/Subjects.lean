import GaiaServer.Impl.Storage.Exists
import GaiaServer.Proof.Storage.Canonical
import GaiaServer.Proof.Storage.Linear

/-!
# What `exists` tells of a subject

`exists` looks for the stream that the first token of its argument names. The canonical streams
store what is published under `gaia.…`, which is no stream's name, and nothing under their own
names (`not_accepts`). Whatever processes write and read, this does not change (`Filed.publish`),
so `exists` answers `False` for each subject that a canonical stream holds a message of, and
`True` for subjects that it holds no message of (`exists_by_name`).
-/

namespace Gaia.Storage

open World
open Monitor (Reach)

variable {core : Codec} {metadata : EtcdMetadataStore} {w w' : World}

/-- The messages of a stream are where its filters file them; the canonical streams have the
filters of the bootstrap; and no stream has the name that these begin with. -/
structure Filed (w : World) : Prop where
  accepted : ∀ name s, w.streams.get? name = some s → ∀ m ∈ s.messages, s.accepts m.subject = true
  canonical : Canonical w
  unnamed : w.streams.get? "gaia" = none

theorem Filed.of_streams (h : Filed w) (hs : w'.streams = w.streams) : Filed w' where
  accepted := by
    rw [hs]
    exact h.accepted
  canonical a ha s hget := h.canonical a ha s (hs ▸ hget)
  unnamed := by
    rw [hs]
    exact h.unnamed

theorem Filed.publish (h : Filed w) (subject : String) (data : Bytes) :
    Filed (handle (.publish subject data) w).2 := by
  rcases publish_cases w subject data with ⟨exc, he⟩ | ⟨name, s, room, hs, hget, he⟩
  · rw [he]
    exact h
  · have hacc : s.accepts subject = true := by simpa using List.find?_some hs
    rw [he]
    refine ⟨fun name' s' hs' m hm => ?_, fun a ha s' hs' => ?_, ?_⟩
    · dsimp only at hs'
      rw [Dict.get?_set] at hs'
      split at hs'
      · obtain rfl := Option.some.inj hs'
        rcases List.mem_append.mp hm with hm | hm
        · exact h.accepted name s hget m hm
        · rw [List.mem_singleton.mp hm]
          exact hacc
      · exact h.accepted name' s' hs' m hm
    · dsimp only at hs'
      rw [Dict.get?_set] at hs'
      split at hs'
      · rename_i e
        obtain rfl := Option.some.inj hs'
        exact h.canonical a ha s (e ▸ hget)
      · exact h.canonical a ha s' hs'
    · refine (Dict.get?_set_of_ne (fun e => ?_) ..).trans h.unnamed
      rw [← e, h.unnamed] at hget
      cases hget

theorem Filed.atomic (h : Filed w) (c : StoreCall) :
    Filed ((processes core metadata).atomic c w).2 := by
  rcases atomic_streams core metadata c w with hs | ⟨subject, data, hs⟩
  · exact h.of_streams hs
  · rw [hs]
    exact h.publish subject data

theorem Filed.after {ι : Type} (h : Filed w) (t : List (ι × StoreCall)) :
    Filed (Pool.after (processes core metadata).atomic w t) :=
  List.foldlRecOn t _ h fun _ hs x _ => hs.atomic x.2

/-- The answer, for a subject by its tokens. -/
theorem subjectExists_iff {uri : String} {first : Subject.Token} {rest : List Subject.Token}
    (h : Subject.tokens uri = first :: rest) :
    JetStreamEventStore.subjectExists uri w = true ↔
      ∃ s, w.streams.get? (String.ofList first) = some s ∧ s.messages ≠ [] := by
  rw [JetStreamEventStore.subjectExists, World.streamInfo, h, List.headD_cons]
  cases w.streams.get? (String.ofList first) with
  | none => simp
  | some s => simp [List.length_pos_iff]

/-- What a canonical stream stores begins with `gaia`. -/
theorem tokens_of_accepts {s : Stream} {a : String × List String} (ha : a ∈ streams)
    (hs : s.subjects = a.2) {subject : String} (h : s.accepts subject = true) :
    ∃ rest, Subject.tokens subject = "gaia".toList :: rest := by
  rw [Stream.accepts, hs, List.any_eq_true] at h
  obtain ⟨f, hf, hc⟩ := h
  obtain ⟨fs, ht⟩ := List.head?_eq_some_iff.mp (streams_filters a ha f hf)
  rw [ht] at hc
  cases hsub : Subject.tokens subject with
  | nil =>
    rw [hsub] at hc
    cases hc
  | cons t ts =>
    rw [hsub] at hc
    rw [← Subject.head_eq_of_covers hc (by decide) (by decide)]
    exact ⟨ts, rfl⟩

variable {α ι : Type} [DecidableEq ι]

/-- Whatever processes write and read: `exists` answers `False` for every subject that a canonical
stream holds a message of. For a subject under the stream's own name, of which it never holds a
message, the answer is whether it holds any message at all. -/
theorem exists_by_name {P₀ : Pool StoreCall StoreCall.Result Exc α ι} {w₀ : World}
    {C : Monitor.Config StoreCall StoreCall.Result StoreOp StoreRes Exc α World ι}
    (h₀ : Filed w₀) (hr : Reach (processes core metadata) P₀ w₀ C) {a : String × List String}
    (ha : a ∈ streams) {s : Stream} (hs : C.state.streams.get? a.1 = some s) :
    (∀ m ∈ s.messages, JetStreamEventStore.subjectExists m.subject C.state = false) ∧
    ∀ topic, (∀ m ∈ s.messages, m.subject ≠ a.1 ++ "." ++ topic) ∧
      (JetStreamEventStore.subjectExists (a.1 ++ "." ++ topic) C.state = true ↔
        s.messages ≠ []) := by
  obtain ⟨t, P, ht, -⟩ := hr.linearizable (processes_linearizable core metadata)
  have hfiled : Filed C.state := ht.state_eq ▸ h₀.after t
  have hsubjects := hfiled.canonical a ha s hs
  constructor
  · intro m hm
    obtain ⟨rest, htokens⟩ := tokens_of_accepts ha hsubjects (hfiled.accepted a.1 s hs m hm)
    rw [Bool.eq_false_iff, ne_eq, subjectExists_iff htokens, String.ofList_toList, hfiled.unnamed]
    rintro ⟨s', hs', -⟩
    cases hs'
  · intro topic
    constructor
    · intro m hm e
      have hacc := hfiled.accepted a.1 s hs m hm
      rw [e, not_accepts ha hsubjects] at hacc
      cases hacc
    · have htokens : Subject.tokens (a.1 ++ "." ++ topic) =
          a.1.toList :: Subject.tokens topic := by
        rw [Subject.tokens_append_dot, Subject.tokens_of_dot_notMem (streams_names a ha).1]
        rfl
      rw [subjectExists_iff htokens, String.ofList_toList, hs]
      simp

/-! ## A checkpoint's event -/

/-- A server that holds an event of a checkpoint. -/
def announced : World where
  etcd := .empty
  objects := .empty
  streams := .single "gaia-checkpoints"
    ((Stream.create ["gaia.checkpoints.>"]).store "gaia.checkpoints.created" []
      (Stream.create_room _))

theorem announced_filed : Filed announced where
  accepted name s hs m hm := by
    rw [announced, Dict.get?_single] at hs
    split at hs
    · obtain rfl := Option.some.inj hs
      rw [List.mem_singleton.mp hm]
      decide +kernel
    · cases hs
  canonical := by
    intro a ha s hs
    rw [announced, Dict.get?_single] at hs
    split at hs
    · rename_i e
      obtain rfl := Option.some.inj hs
      rw [streams_unique a ha ("gaia-checkpoints", ["gaia.checkpoints.>"]) (by decide) e]
      rfl
    · cases hs
  unnamed := by decide

theorem announced_unseen :
    JetStreamEventStore.subjectExists "gaia.checkpoints.created" announced = false := by
  have hr : Reach (processes eventCodec {}) (fun _ : Unit => .ret ()) announced _ := .start
  have hs : announced.streams.get? "gaia-checkpoints" = some _ := rfl
  exact (exists_by_name announced_filed hr
    (a := ("gaia-checkpoints", ["gaia.checkpoints.>"])) (by decide) hs).1
      ⟨1, "gaia.checkpoints.created", []⟩ (List.mem_singleton_self _)

end Gaia.Storage
