import Mathlib.Data.List.Nodup
import Mathlib.Data.List.Perm.Basic
import Mathlib.Tactic.Common

/-!
# Insertion-ordered dictionaries

Python's `dict`, over any key type with decidable equality: a list of items
without a repeated key (`Dict.nodup`), so that a dictionary with two values for
one key cannot be built. `d[k] = v` (`set`) keeps the place of a key that is
there and appends one that is not; `del d[k]` (`erase`) drops it.

* `get?_set`: what a lookup sees after an update;
* `mem_items_iff`: the items are the graph of `get?`;
* `map_set`: an update, under a map of the values.
-/

namespace Gaia

universe u v

variable {κ : Type u} {ν : Type v}

/-- A dictionary: its items, oldest key first. -/
structure Dict (κ : Type u) (ν : Type v) where
  items : List (κ × ν)
  nodup : (items.map Prod.fst).Nodup

namespace Dict

theorem ext {d e : Dict κ ν} (h : d.items = e.items) : d = e := by
  cases d; cases e; cases h; rfl

instance [DecidableEq κ] [DecidableEq ν] : DecidableEq (Dict κ ν) := fun d e =>
  decidable_of_iff (d.items = e.items) ⟨ext, fun h => h ▸ rfl⟩

/-- `{}`. -/
def empty : Dict κ ν := ⟨[], List.nodup_nil⟩

/-- `{k: v}`. -/
def single (k : κ) (v : ν) : Dict κ ν := ⟨[(k, v)], List.nodup_singleton _⟩

instance : Inhabited (Dict κ ν) := ⟨empty⟩

/-- `d.keys()`. -/
def keys (d : Dict κ ν) : List κ := d.items.map Prod.fst

variable [DecidableEq κ]

/-- `d.get(k)`: the value under `k`, if there is one. -/
def get? (d : Dict κ ν) (k : κ) : Option ν := (d.items.find? fun p => p.1 = k).map Prod.snd

/-- `d.get(k, default)`. -/
def get (d : Dict κ ν) (k : κ) (default : ν) : ν := (d.get? k).getD default

/-- `k in d`. -/
def contains (d : Dict κ ν) (k : κ) : Bool := (d.get? k).isSome

theorem mem_items_iff {d : Dict κ ν} {k : κ} {v : ν} : (k, v) ∈ d.items ↔ d.get? k = some v := by
  obtain ⟨items, nodup⟩ := d
  simp only [get?]
  induction items with
  | nil => simp
  | cons p items ih =>
    obtain ⟨k', v'⟩ := p
    simp only [List.map_cons, List.nodup_cons] at nodup
    by_cases hk : k' = k
    · subst hk
      have : (k', v) ∉ items := fun h => nodup.1 (List.mem_map_of_mem h)
      simp [this, eq_comm]
    · simp [hk, Ne.symm hk, ih nodup.2]

@[simp] theorem get?_empty (k : κ) : (empty : Dict κ ν).get? k = none := rfl

theorem get?_single (k k' : κ) (v : ν) :
    (single k v).get? k' = if k' = k then some v else none := by
  by_cases h : k' = k
  · simp [single, get?, h]
  · simp [single, get?, h, Ne.symm h]

/-! ## Updates -/

/-- `d[k] = v` on the items. -/
def setItems (k : κ) (v : ν) : List (κ × ν) → List (κ × ν)
  | [] => [(k, v)]
  | (k', v') :: items => if k' = k then (k', v) :: items else (k', v') :: setItems k v items

theorem map_fst_setItems (k : κ) (v : ν) (items : List (κ × ν)) :
    (setItems k v items).map Prod.fst =
      if k ∈ items.map Prod.fst then items.map Prod.fst else items.map Prod.fst ++ [k] := by
  induction items with
  | nil => simp [setItems]
  | cons p items ih =>
    obtain ⟨k', v'⟩ := p
    by_cases hk : k' = k
    · simp [setItems, hk]
    · simp only [setItems, hk, if_false, List.map_cons, ih, List.mem_cons, Ne.symm hk, false_or]
      split <;> simp

theorem find?_setItems (k : κ) (v : ν) (items : List (κ × ν)) (k' : κ) :
    ((setItems k v items).find? fun p => p.1 = k').map Prod.snd =
      if k' = k then some v else (items.find? fun p => p.1 = k').map Prod.snd := by
  induction items with
  | nil =>
    by_cases h : k' = k
    · simp [setItems, h]
    · simp [setItems, h, Ne.symm h]
  | cons p items ih =>
    obtain ⟨k₀, v₀⟩ := p
    simp only [setItems]
    split
    · rename_i h₀
      by_cases h : k' = k
      · simp [h₀, h]
      · simp [h₀, h, Ne.symm h]
    · rename_i h₀
      by_cases h₁ : k₀ = k'
      · subst h₁; simp [h₀]
      · simp only [List.find?_cons, h₁, decide_false, ih]

theorem countP_setItems_le (p : κ × ν → Bool) (k : κ) (v : ν) (items : List (κ × ν)) :
    (setItems k v items).countP p ≤ items.countP p + if p (k, v) then 1 else 0 := by
  induction items with
  | nil => simp [setItems, List.countP_cons]
  | cons i items ih =>
    obtain ⟨k', v'⟩ := i
    by_cases hk : k' = k
    · simp only [setItems, hk, if_true, List.countP_cons]
      omega
    · simp only [setItems, hk, if_false, List.countP_cons]
      omega

/-- `d[k] = v`. -/
def set (d : Dict κ ν) (k : κ) (v : ν) : Dict κ ν where
  items := setItems k v d.items
  nodup := by
    rw [map_fst_setItems]
    split
    · exact d.nodup
    · rename_i h
      exact List.nodup_append.mpr ⟨d.nodup, List.nodup_singleton _, by
        intro a ha b hb; rw [List.mem_singleton] at hb; subst hb; exact fun e => h (e ▸ ha)⟩

/-- `del d[k]`, on a key that may be missing. -/
def erase (d : Dict κ ν) (k : κ) : Dict κ ν where
  items := d.items.filter fun p => p.1 ≠ k
  nodup := d.nodup.sublist (List.filter_sublist.map _)

theorem get?_set (d : Dict κ ν) (k k' : κ) (v : ν) :
    (d.set k v).get? k' = if k' = k then some v else d.get? k' :=
  find?_setItems k v d.items k'

@[simp] theorem get?_set_self (d : Dict κ ν) (k : κ) (v : ν) : (d.set k v).get? k = some v := by
  simp [get?_set]

theorem get?_erase (d : Dict κ ν) (k k' : κ) :
    (d.erase k).get? k' = if k' = k then none else d.get? k' := by
  rw [get?, erase, List.find?_filter]
  split
  · rename_i h
    rw [Option.map_eq_none_iff, List.find?_eq_none]
    intro p _
    simp [h]
  · rename_i h
    rw [get?]
    congr 2
    funext p
    by_cases hp : p.1 = k'
    · simp [hp, h]
    · simp [hp]

theorem get?_set_of_ne {k k' : κ} (h : k' ≠ k) (d : Dict κ ν) (v : ν) :
    (d.set k v).get? k' = d.get? k' := by
  simp [get?_set, h]

/-- Setting a key to the value that it has changes nothing. -/
theorem set_of_get? {d : Dict κ ν} {k : κ} {v : ν} (h : d.get? k = some v) : d.set k v = d := by
  have hi : ∀ items : List (κ × ν), (items.find? fun p => p.1 = k).map Prod.snd = some v →
      setItems k v items = items := by
    intro items hf
    induction items with
    | nil => cases hf
    | cons p items ih =>
      obtain ⟨k₀, v₀⟩ := p
      by_cases hk : k₀ = k
      · simp only [hk, List.find?_cons, decide_true, Option.map_some, Option.some.injEq] at hf
        simp [setItems, hk, hf]
      · simp only [hk, List.find?_cons, decide_false] at hf
        simp [setItems, hk, ih hf]
  exact ext (hi d.items h)

theorem setItems_of_not_mem {k : κ} {items : List (κ × ν)} (h : k ∉ items.map Prod.fst) (v : ν) :
    setItems k v items = items ++ [(k, v)] := by
  induction items with
  | nil => rfl
  | cons p items ih =>
    rw [List.map_cons, List.mem_cons, not_or] at h
    rw [setItems, if_neg (Ne.symm h.1), ih h.2, List.cons_append]

theorem mem_setItems {k : κ} {v : ν} {items : List (κ × ν)} {i : κ × ν}
    (hi : i ∈ setItems k v items) : i ∈ items ∨ i = (k, v) := by
  induction items with
  | nil => exact .inr (List.mem_singleton.mp hi)
  | cons p items ih =>
    obtain ⟨k', v'⟩ := p
    rw [setItems] at hi
    split at hi
    · rename_i hk
      rw [List.mem_cons, hk] at hi
      exact hi.symm.imp_left (List.mem_cons_of_mem _)
    · obtain rfl | hi := List.mem_cons.mp hi
      · exact .inl List.mem_cons_self
      · exact (ih hi).imp_left (List.mem_cons_of_mem _)

/-- A new key comes last. -/
theorem items_set_of_none {d : Dict κ ν} {k : κ} (h : d.get? k = none) (v : ν) :
    (d.set k v).items = d.items ++ [(k, v)] := by
  refine setItems_of_not_mem (fun hk => ?_) v
  obtain ⟨⟨k', v'⟩, hi, rfl⟩ := List.mem_map.mp hk
  rw [mem_items_iff.mp hi] at h
  cases h

/-- A key that is there is the key of one item. -/
theorem length_erase {d : Dict κ ν} {k : κ} {v : ν} (h : d.get? k = some v) :
    (d.erase k).items.length + 1 = d.items.length := by
  have hone : d.items.countP (fun p => decide (p.1 = k)) = 1 := by
    have hmem : k ∈ d.items.map Prod.fst := List.mem_map_of_mem (mem_items_iff.mpr h)
    have hcount := List.count_eq_one_of_mem d.nodup hmem
    rw [List.count_eq_countP, List.countP_map] at hcount
    rw [← hcount]
    exact List.countP_congr fun p _ => by simp
  have hsplit := List.length_eq_countP_add_countP (fun p => decide (p.1 = k)) (l := d.items)
  rw [erase, ← List.countP_eq_length_filter, hsplit, hone, Nat.add_comm]
  simp

theorem get_set (d : Dict κ ν) (k k' : κ) (v dflt : ν) :
    (d.set k v).get k' dflt = if k' = k then v else d.get k' dflt := by
  simp only [get, get?_set]; split <;> rfl

theorem get_single (k k' : κ) (v dflt : ν) :
    (single k v).get k' dflt = if k' = k then v else dflt := by
  simp only [get, get?_single]; split <;> rfl

/-! ## Values -/

/-- `{k: g(v) for k, v in d.items()}`. -/
def map {γ : Type*} (g : ν → γ) (d : Dict κ ν) : Dict κ γ where
  items := d.items.map fun p => (p.1, g p.2)
  nodup := by simpa [Function.comp_def] using d.nodup

theorem get?_map {γ : Type*} (g : ν → γ) (d : Dict κ ν) (k : κ) :
    (d.map g).get? k = (d.get? k).map g := by
  simp only [get?, map, List.find?_map, Option.map_map, Function.comp_def]

/-- What `g` sees of an update is the update of what it sees. -/
theorem map_set {γ : Type*} (g : ν → γ) (d : Dict κ ν) (k : κ) (v : ν) :
    (d.set k v).map g = (d.map g).set k (g v) := by
  have hi : ∀ items : List (κ × ν), (setItems k v items).map (fun p => (p.1, g p.2)) =
      setItems k (g v) (items.map fun p => (p.1, g p.2)) := by
    intro items
    induction items with
    | nil => rfl
    | cons p items ih =>
      obtain ⟨k₀, v₀⟩ := p
      by_cases hk : k₀ = k
      · simp [setItems, hk]
      · simp [setItems, hk, ih]
  exact ext (hi d.items)

/-- An update that keeps what `g` sees of the value keeps what it sees of all. -/
theorem map_set_of_get? {γ : Type*} {g : ν → γ} {d : Dict κ ν} {k : κ} {v v' : ν}
    (hget : d.get? k = some v) (hg : g v' = g v) : (d.set k v').map g = d.map g := by
  rw [map_set, hg, set_of_get?]
  rw [get?_map, hget, Option.map_some]

/-- A test on every item, as a test on every key. -/
theorem all_items_iff {d : Dict κ ν} {p : κ → ν → Prop} :
    (∀ i ∈ d.items, p i.1 i.2) ↔ ∀ k v, d.get? k = some v → p k v := by
  constructor
  · intro h k v hv; exact h (k, v) (mem_items_iff.mpr hv)
  · rintro h ⟨k, v⟩ hm; exact h k v (mem_items_iff.mp hm)

end Dict

end Gaia
