import GaiaServer.Impl.Storage.Stores

/-!
# Keys, and what a read can see

Under one namespace, keys that do not start with a slash stay apart
(`EtcdMetadataStore.key_inj`).

A client call that only reads, and not the etcd key `key`
(`StoreOp.ReadsOutside`), changes nothing (`handle_reads`) and gives the same
result on all states that agree outside `key` (`handle_stable`). A publication is
refused, or stored in the stream that takes its subject (`publish_cases`).
-/

namespace Gaia.Storage

open World

/-! ## Keys -/

theorem EtcdMetadataStore.key_eq (s : EtcdMetadataStore) {k : String}
    (h : k.toList.head? ≠ some '/') :
    s.key k = "/" ++ s.ns ++ "/" ++ k := by
  rw [key]
  cases hk : k.toList with
  | nil => rw [lstrip, hk, List.dropWhile_nil, ← hk, String.ofList_toList]
  | cons c cs =>
    rw [lstrip_of_head hk fun e => h (by rw [hk, e]; rfl)]

theorem EtcdMetadataStore.key_inj (s : EtcdMetadataStore) {k k' : String}
    (h : k.toList.head? ≠ some '/') (h' : k'.toList.head? ≠ some '/') :
    s.key k = s.key k' ↔ k = k' := by
  rw [s.key_eq h, s.key_eq h', ← String.toList_inj, String.toList_append,
    String.toList_append (t := k'), List.append_cancel_left_eq, String.toList_inj]

/-! ## Reads -/

/-- The call only reads, and not the etcd key `key`; a scan may read any key. -/
def StoreOp.ReadsOutside (key : String) : StoreOp → Prop
  | .etcdGet k => k ≠ key
  | .getObject .. | .findStream _ | .subscribe .. | .nextMsg .. | .unsubscribe _ => True
  | .etcdPut .. | .etcdDelete _ | .etcdTxn .. | .etcdGetPrefix _ | .putObject .. | .addStream ..
  | .publish .. => False

/-- The states agree but for the value of the etcd key `key`. -/
structure World.SameOutside (key : String) (w w' : World) : Prop where
  etcd : ∀ k, k ≠ key → w.etcd.get? k = w'.etcd.get? k
  objects : w.objects = w'.objects
  streams : w.streams = w'.streams

theorem World.SameOutside.refl (key : String) (w : World) : SameOutside key w w :=
  ⟨fun _ _ => rfl, rfl, rfl⟩

theorem World.SameOutside.set {key : String} {w w' : World} (h : SameOutside key w w') (v : Bytes) :
    SameOutside key { w with etcd := w.etcd.set key v } w' :=
  ⟨fun k hk => (Dict.get?_set_of_ne hk ..).trans (h.etcd k hk), h.objects, h.streams⟩

variable {key : String} {op : StoreOp}

theorem handle_reads (h : op.ReadsOutside key) (w : World) : (handle op w).2 = w := by
  cases op with
  | etcdGet k => rfl
  | getObject bucket name => simp only [handle]; split <;> rfl
  | findStream name => simp only [handle]; split <;> rfl
  | subscribe filter startSeq =>
    simp only [handle]
    split
    · rfl
    · cases startSeq with
      | none => rfl
      | some n => dsimp only; split <;> rfl
  | nextMsg sub received => simp only [handle]; split <;> rfl
  | unsubscribe sub => rfl
  | etcdPut | etcdDelete | etcdTxn | etcdGetPrefix | putObject | addStream | publish => exact h.elim

theorem handle_stable {w w' : World} (h : op.ReadsOutside key) (hs : SameOutside key w w') :
    (handle op w).1 = (handle op w').1 := by
  cases op with
  | etcdGet k => exact congrArg Except.ok (hs.etcd k h)
  | getObject bucket name =>
    simp only [handle, hs.objects]
    split <;> rfl
  | findStream name =>
    simp only [handle, hs.streams]
    split <;> rfl
  | subscribe filter startSeq =>
    have hf : w.streamFor filter = w'.streamFor filter := by rw [streamFor, streamFor, hs.streams]
    simp only [handle, hf]
    split
    · rfl
    · cases startSeq with
      | none => rfl
      | some n => dsimp only; split <;> rfl
  | nextMsg sub received =>
    have hp : w.pending sub = w'.pending sub := by rw [pending, pending, hs.streams]
    simp only [handle, hp]
    split <;> rfl
  | unsubscribe sub => rfl
  | etcdPut | etcdDelete | etcdTxn | etcdGetPrefix | putObject | addStream | publish => exact h.elim

/-! ## Publishing -/

/-- What is published is refused, or stored under the next number. -/
theorem publish_cases (w : World) (subject : String) (data : Bytes) :
    (∃ exc, handle (.publish subject data) w = (.error exc, w)) ∨
      ∃ name s, ∃ room : s.lastSeq + 1 < maxSeq, w.streamOf subject = some (name, s) ∧
        w.streams.get? name = some s ∧ handle (.publish subject data) w =
          (.ok (s.lastSeq + 1), { w with
            streams := w.streams.set name (s.store subject data room) }) := by
  simp only [handle]
  cases hs : w.streamOf subject with
  | none => exact .inl ⟨_, rfl⟩
  | some found =>
    obtain ⟨name, s⟩ := found
    by_cases room : s.lastSeq + 1 < maxSeq
    · have hget := Dict.mem_items_iff.mp (List.mem_of_find?_eq_some hs)
      exact .inr ⟨name, s, room, rfl, hget, dif_pos room⟩
    · exact .inl ⟨_, dif_neg room⟩

end Gaia.Storage
