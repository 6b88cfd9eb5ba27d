import GaiaServer.Proof.Storage.Frame
import GaiaServer.Spec.Storage.Metadata
import Mathlib.Data.List.TakeWhile

/-!
# What a scan gives back

`put` and `delete` change the entry of their key under the namespace
(`calls_entry`), and `get_prefix` finds each entry there is under a prefix once
(`mem_scan_calls`), with the key that etcd has for it. `get`, `delete` and
`compare_and_swap` put the namespace before a key that has it already, so that they
miss the entry, unless there is nothing but slashes to put before it (`key_entry`,
`scanned_keys_iff`).
-/

namespace Gaia.Storage

open World
open Prog (run_perform)

variable {s : EtcdMetadataStore} {w : World} {k k' : String}

/-! ## Keys -/

namespace EtcdMetadataStore

theorem key_eq_entry (s : EtcdMetadataStore) (k : String) : s.key k = s.entry (lstrip '/' k) := rfl

theorem entry_inj (s : EtcdMetadataStore) : s.entry k = s.entry k' ↔ k = k' := by
  rw [entry, entry, ← String.toList_inj, String.toList_append, String.toList_append (t := k'),
    List.append_cancel_left_eq, String.toList_inj]

/-- The entries under a key are those whose keys start with it. -/
theorem startsWith_key {key : String} (p : String) :
    startsWith key (s.key p) = true ↔
      ∃ k, key = s.entry k ∧ startsWith k (lstrip '/' p) = true := by
  simp only [startsWith_iff]
  constructor
  · rintro ⟨tail, rfl⟩
    exact ⟨lstrip '/' p ++ tail, String.append_assoc .., tail, rfl⟩
  · rintro ⟨_, rfl, tail, rfl⟩
    exact ⟨tail, (String.append_assoc ..).symm⟩

/-- The namespace has nothing but slashes. -/
def Slashes (s : EtcdMetadataStore) : Prop := ∀ c ∈ s.ns.toList, c = '/'

instance (s : EtcdMetadataStore) : Decidable s.Slashes :=
  List.decidableBAll (fun c => c = '/') s.ns.toList

/-- Where a method looks that is given an entry's key: at the entry if the namespace
is slashes, else at one below it. -/
theorem key_entry (hk : lstrip '/' k = k) :
    s.key (s.entry k) = s.entry (if s.Slashes then k else lstrip '/' s.ns ++ "/" ++ k) := by
  have hlist : (s.entry k).toList = '/' :: s.ns.toList ++ '/' :: k.toList := by
    simp [entry]
  have hk' : k.toList.dropWhile (· = '/') = k.toList := by
    rw [← String.toList_inj, lstrip, String.toList_ofList] at hk
    exact hk
  rw [key_eq_entry, entry_inj, ← String.toList_inj, lstrip, String.toList_ofList, hlist,
    List.cons_append, List.dropWhile_cons_of_pos (by simp), List.dropWhile_append]
  split
  · rename_i h
    have hs : s.Slashes := fun c hc => by
      have := List.dropWhile_eq_nil_iff.mp (List.isEmpty_iff.mp h) c hc
      simpa using this
    rw [if_pos hs, List.dropWhile_cons_of_pos (by simp), hk']
  · rename_i h
    have hs : ¬ s.Slashes := fun hs => h (List.isEmpty_iff.mpr
      (List.dropWhile_eq_nil_iff.mpr fun c hc => by simp [hs c hc]))
    rw [if_neg hs]
    simp [lstrip]

end EtcdMetadataStore

/-! ## The calls -/

/-- One call changes the map that the entries are. -/
theorem program_entry {m : String → Option Bytes} (hm : ∀ k, w.etcd.get? (s.entry k) = m k)
    (c : MetadataCall) (k : String) :
    ((c.program s).run handle w).2.etcd.get? (s.entry k) = c.update m k := by
  cases c with
  | put key value =>
    show (w.etcd.set (s.key key) value).get? (s.entry k) = _
    simp only [Dict.get?_set, s.key_eq_entry, s.entry_inj, MetadataCall.update,
      Function.update_apply, hm]
  | delete key =>
    show (w.etcd.erase (s.key key)).get? (s.entry k) = _
    simp only [Dict.get?_erase, s.key_eq_entry, s.entry_inj, MetadataCall.update,
      Function.update_apply, hm]

/-- The entries are what the calls left. -/
theorem calls_entry (h₀ : ∀ k, w.etcd.get? (s.entry k) = none) (cs : List MetadataCall)
    (k : String) : (s.calls w cs).etcd.get? (s.entry k) = contents cs k := by
  have hrun : ∀ (cs : List MetadataCall) (w : World) (m : String → Option Bytes),
      (∀ k, w.etcd.get? (s.entry k) = m k) →
      (s.calls w cs).etcd.get? (s.entry k) = Machine.run MetadataCall.update m cs k := by
    intro cs
    induction cs with
    | nil => exact fun w m hm => hm k
    | cons c cs ih => exact fun w m hm => ih _ _ (program_entry hm c)
  exact hrun cs w _ h₀

/-- No key that the calls left a value under starts with a slash. -/
theorem lstrip_of_contents {cs : List MetadataCall} {v : Bytes} (h : contents cs k = some v) :
    lstrip '/' k = k := by
  have hinv : ∀ k v, contents cs k = some v → lstrip '/' k = k := by
    refine Machine.run_inv (I := fun m : String → Option Bytes =>
      ∀ k v, m k = some v → lstrip '/' k = k) (fun m c hm k v hv => ?_)
      (fun k v hv => by cases hv) cs
    cases c with
    | put key value =>
      rw [MetadataCall.update, Function.update_apply] at hv
      split at hv
      · rename_i hk
        rw [hk, lstrip_lstrip]
      · exact hm k v hv
    | delete key =>
      rw [MetadataCall.update, Function.update_apply] at hv
      split at hv
      · cases hv
      · exact hm k v hv
  exact hinv k v h

/-! ## The scan -/

theorem mem_scan {start key : String} {v : Bytes} :
    (v, key) ∈ w.scan start ↔ w.etcd.get? key = some v ∧ startsWith key start = true := by
  simp only [scan, List.mem_map, List.mem_insertionSort, List.mem_filter, Prod.exists,
    Dict.mem_items_iff, Prod.mk.injEq]
  constructor
  · rintro ⟨k, v', h, rfl, rfl⟩
    exact h
  · intro h
    exact ⟨key, v, h, rfl, rfl⟩

/-- A scan gives no key twice. -/
theorem nodup_scan (w : World) (start : String) : ((w.scan start).map Prod.snd).Nodup := by
  have hp := List.perm_insertionSort (fun i j : String × Bytes => i.1.toList ≤ j.1.toList)
    (w.etcd.items.filter fun i => startsWith i.1 start)
  rw [scan, List.map_map]
  show (List.map Prod.fst _).Nodup
  rw [(hp.map Prod.fst).nodup_iff]
  exact w.etcd.nodup.sublist (List.filter_sublist.map _)

/-- After calls on a namespace that held nothing, a scan gives the entries whose keys
start with the prefix. -/
theorem mem_scan_calls (h₀ : ∀ k, w.etcd.get? (s.entry k) = none) {cs : List MetadataCall}
    {p key : String} {v : Bytes} :
    (v, key) ∈ (s.calls w cs).scan (s.key p) ↔
      ∃ k, key = s.entry k ∧ startsWith k (lstrip '/' p) = true ∧ contents cs k = some v := by
  rw [mem_scan, EtcdMetadataStore.startsWith_key]
  constructor
  · rintro ⟨hv, k, rfl, hk⟩
    exact ⟨k, rfl, hk, calls_entry h₀ cs k ▸ hv⟩
  · rintro ⟨k, rfl, hk, hv⟩
    exact ⟨(calls_entry h₀ cs k).trans hv, k, rfl, hk⟩

/-- A key with a value is usable exactly if the store's methods do not change it. -/
theorem usable_iff {key : String} {v : Bytes} (h : w.etcd.get? key = some v) :
    s.Usable w v key ↔ s.key key = key := by
  constructor
  · intro hu
    by_contra hne
    -- the entry is still there after a `delete` that goes elsewhere
    have hdel : w.etcd.erase (s.key key) = w.etcd.erase key :=
      congrArg (fun r => (Prod.snd r).etcd) hu.delete
    have hget := congrArg (fun d : Dict String Bytes => d.get? key) hdel
    simp only [Dict.get?_erase, if_true, Ne.symm hne, if_false, h] at hget
    cases hget
  · intro hkey
    refine ⟨?_, ?_, fun new => ?_⟩
    · show (_, w) = _
      rw [hkey, h]
    · show (_, { w with etcd := w.etcd.erase (s.key key) }) = _
      rw [hkey]
    · rw [EtcdMetadataStore.compareAndSwap, run_perform, hkey, handle, if_pos h]

section

variable (h₀ : ∀ k, w.etcd.get? (s.entry k) = none) {cs : List MetadataCall} {v : Bytes}
  (hv : contents cs k = some v)

include h₀ hv

/-- An entry's key is usable exactly if the namespace is slashes. -/
theorem usable_entry_iff : s.Usable (s.calls w cs) v (s.entry k) ↔ s.Slashes := by
  rw [usable_iff ((calls_entry h₀ cs k).trans hv),
    EtcdMetadataStore.key_entry (lstrip_of_contents hv)]
  by_cases hs : s.Slashes
  · rw [if_pos hs]
    exact iff_of_true rfl hs
  · rw [if_neg hs, EtcdMetadataStore.entry_inj, ← String.toList_inj]
    refine iff_of_false (fun hkey => ?_) hs
    -- a key with the namespace once more is longer
    have hlen := congrArg List.length hkey
    simp only [String.toList_append, List.length_append] at hlen
    have hslash : "/".toList.length = 1 := by rfl
    omega

/-- Given an entry's key, `get` finds its value if the namespace is slashes, or the
entry that it finds has the same. -/
theorem get_entry_iff :
    (s.get (s.entry k)).run handle (s.calls w cs) = (.ok (some v), s.calls w cs) ↔
      s.Slashes ∨ contents cs (lstrip '/' s.ns ++ "/" ++ k) = some v := by
  rw [EtcdMetadataStore.get, run_perform, handle,
    EtcdMetadataStore.key_entry (lstrip_of_contents hv), calls_entry h₀, Prod.mk.injEq,
    Except.ok.injEq, and_iff_left rfl]
  by_cases hs : s.Slashes
  · rw [if_pos hs]
    exact iff_of_true hv (.inl hs)
  · rw [if_neg hs, or_iff_right hs]

end

/-- After any calls on a namespace that held nothing, a scan gives one pair for each
key under the prefix that has a value. All these pairs are usable exactly if the
namespace is slashes or there are none; and `get` gives all their values exactly if
it is slashes or each has an equal one a namespace below. -/
theorem scanned_keys_iff (h₀ : ∀ k, w.etcd.get? (s.entry k) = none) (cs : List MetadataCall)
    (p : String) :
    ∃ results, (s.getPrefix p).run handle (s.calls w cs) = (.ok results, s.calls w cs) ∧
      (results.map Prod.snd).Nodup ∧
      (∀ v key, (v, key) ∈ results ↔ ∃ k, key = s.entry k ∧
        startsWith k (lstrip '/' p) = true ∧ contents cs k = some v) ∧
      ((∀ v key, (v, key) ∈ results → s.Usable (s.calls w cs) v key) ↔
        s.Slashes ∨ ∀ k, startsWith k (lstrip '/' p) = true → contents cs k = none) ∧
      ((∀ v key, (v, key) ∈ results →
          (s.get key).run handle (s.calls w cs) = (.ok (some v), s.calls w cs)) ↔
        s.Slashes ∨ ∀ k v, startsWith k (lstrip '/' p) = true → contents cs k = some v →
          contents cs (lstrip '/' s.ns ++ "/" ++ k) = some v) := by
  refine ⟨(s.calls w cs).scan (s.key p), rfl, nodup_scan _ _, fun v key => mem_scan_calls h₀, ?_,
    ?_⟩
  · constructor
    · intro hall
      by_contra hno
      obtain ⟨hs, hnone⟩ := not_or.mp hno
      refine hnone fun k hk => Option.eq_none_iff_forall_ne_some.mpr fun v hv => hs ?_
      exact (usable_entry_iff h₀ hv).mp (hall v _ ((mem_scan_calls h₀).mpr ⟨k, rfl, hk, hv⟩))
    · intro h v key hmem
      obtain ⟨k, rfl, hk, hv⟩ := (mem_scan_calls h₀).mp hmem
      refine (usable_entry_iff h₀ hv).mpr (h.resolve_right fun hnone => ?_)
      rw [hnone k hk] at hv
      cases hv
  · constructor
    · intro hall
      refine or_iff_not_imp_left.mpr fun hs k v hk hv => ?_
      have hget := hall v _ ((mem_scan_calls h₀).mpr ⟨k, rfl, hk, hv⟩)
      exact ((get_entry_iff h₀ hv).mp hget).resolve_left hs
    · intro h v key hmem
      obtain ⟨k, rfl, hk, hv⟩ := (mem_scan_calls h₀).mp hmem
      exact (get_entry_iff h₀ hv).mpr (h.imp_right fun htwin => htwin k v hk hv)

/-! ## A node found by a scan -/

/-- No service holds anything. -/
def noWorld : World := ⟨.empty, .empty, .empty⟩

/-- Under the namespace `/` a scan gives usable keys. -/
theorem root_namespace_usable : ∃ results,
    (EtcdMetadataStore.getPrefix ⟨"/"⟩ "nodes/").run handle
        (EtcdMetadataStore.calls ⟨"/"⟩ noWorld [.put "nodes/a" [1]]) =
      (.ok results, EtcdMetadataStore.calls ⟨"/"⟩ noWorld [.put "nodes/a" [1]]) ∧
    ([1], "///nodes/a") ∈ results ∧
    EtcdMetadataStore.Usable ⟨"/"⟩ (EtcdMetadataStore.calls ⟨"/"⟩ noWorld [.put "nodes/a" [1]])
      [1] "///nodes/a" := by
  obtain ⟨results, hrun, -, hmem, husable, -⟩ := scanned_keys_iff (s := ⟨"/"⟩) (w := noWorld)
    (fun _ => rfl) [.put "nodes/a" [1]] "nodes/"
  have hfound : ([1], "///nodes/a") ∈ results :=
    (hmem _ _).mpr ⟨"nodes/a", by decide, by decide, by decide⟩
  have hslashes : EtcdMetadataStore.Slashes ⟨"/"⟩ := List.forall_mem_singleton.mpr rfl
  exact ⟨results, hrun, hfound, husable.mpr (.inl hslashes) _ _ hfound⟩

/-- The key that a scan gives for a node finds nothing, and a swap of its value with
that key fails. -/
theorem scanned_key_unusable :
    ((EtcdMetadataStore.getPrefix {} "nodes/").run handle
      (EtcdMetadataStore.calls {} noWorld [.put "nodes/a" [1]])).1 =
        .ok [([1], "/gaia/nodes/a")] ∧
    ((EtcdMetadataStore.get {} "/gaia/nodes/a").run handle
      (EtcdMetadataStore.calls {} noWorld [.put "nodes/a" [1]])).1 = .ok none ∧
    ((EtcdMetadataStore.compareAndSwap {} "/gaia/nodes/a" [1] [2]).run handle
      (EtcdMetadataStore.calls {} noWorld [.put "nodes/a" [1]])).1 = .ok false := by
  refine ⟨by rfl, by rfl, by rfl⟩

end Gaia.Storage
