import GaiaServer.Framework.JsonRoundTrip
import Mathlib.Algebra.Order.Ring.Cast
import Mathlib.Data.List.Forall2
import Mathlib.Data.List.Pairwise

/-!
# What decoding keeps of a text

A value that was encoded and decoded is encoded to the same text exactly if that text
has its keys in order (`KeysSorted`): decoding makes every key a string, and strings
are sorted as such. A dictionary of numbers was sorted by the numbers, before they
became text, so the text is in order exactly if the texts of the numbers are
(`InOrder`).

* `tree_encoded`: a value becomes a tree that the decoder reads back;
* `tree_value`: the value of a tree is encoded with its keys in order;
* `dumps_loads_iff`: the text stays the same exactly if the value was in order.
-/

namespace Gaia

/-! ## Values -/

/-- `u` is `v`, or somewhere in it. -/
inductive PyVal.Within (u : PyVal) : PyVal → Prop
  | self : Within u u
  | list {x : PyVal} {xs : List PyVal} (hx : x ∈ xs) (h : Within u x) : Within u (.list xs)
  | tuple {x : PyVal} {xs : List PyVal} (hx : x ∈ xs) (h : Within u x) : Within u (.tuple xs)
  | dict {i : PyKey × PyVal} {items : List (PyKey × PyVal)} (hi : i ∈ items)
      (h : Within u i.2) : Within u (.dict items)

/-- `a` and `b` can be keys of one dictionary: numbers that are equal cannot. -/
def PyKey.Differ (a b : PyKey) : Prop := a ≠ b ∧ (a.num? = b.num? → a.num? = Option.none)

/-- `a` and `b` are numbers, and `a` is less. -/
def PyKey.NumLt (a b : PyKey) : Prop := ∃ q r, a.num? = some q ∧ b.num? = some r ∧ q < r

/-- `a` comes before `b` where keys are sorted, or is equal to it. -/
def PyKey.Le (a b : PyKey) : Prop :=
  (∃ s t, a = .str s ∧ b = .str t ∧ s.toList ≤ t.toList) ∨
    ∃ q r, a.num? = some q ∧ b.num? = some r ∧ q ≤ r

namespace Json

/-- The text of `a` comes before that of `b`. -/
def TextLt (a b : PyKey) : Prop :=
  ∃ s t, keyText a = .ok s ∧ keyText b = .ok t ∧ s.toList < t.toList

/-- The texts of the numbers among the keys are in the order of the numbers. -/
def KeysInOrder (items : List (PyKey × PyVal)) : Prop :=
  ∀ i ∈ items, ∀ j ∈ items, i.1.NumLt j.1 → TextLt i.1 j.1

end Json

namespace PyVal

/-- What Python's types grant: the keys of a dictionary differ, and a float has the
text of a float. -/
structure WellFormed (reprFloat : String → String) (v : PyVal) : Prop where
  keys : ∀ {items}, Within (.dict items) v → (items.map Prod.fst).Pairwise PyKey.Differ
  floats : ∀ {r}, Within (.float r) v → Json.FloatRepr reprFloat r

section

variable {reprFloat : String → String}

theorem wellFormed_list {xs : List PyVal} :
    WellFormed reprFloat (.list xs) ↔ ∀ x ∈ xs, WellFormed reprFloat x := by
  constructor
  · exact fun h x hx => ⟨fun hw => h.keys (.list hx hw), fun hw => h.floats (.list hx hw)⟩
  · refine fun h => ⟨fun hw => ?_, fun hw => ?_⟩
    · cases hw with
      | list hx hw => exact (h _ hx).keys hw
    · cases hw with
      | list hx hw => exact (h _ hx).floats hw

theorem wellFormed_tuple {xs : List PyVal} :
    WellFormed reprFloat (.tuple xs) ↔ ∀ x ∈ xs, WellFormed reprFloat x := by
  constructor
  · exact fun h x hx => ⟨fun hw => h.keys (.tuple hx hw), fun hw => h.floats (.tuple hx hw)⟩
  · refine fun h => ⟨fun hw => ?_, fun hw => ?_⟩
    · cases hw with
      | tuple hx hw => exact (h _ hx).keys hw
    · cases hw with
      | tuple hx hw => exact (h _ hx).floats hw

theorem wellFormed_dict {items : List (PyKey × PyVal)} : WellFormed reprFloat (.dict items) ↔
    (items.map Prod.fst).Pairwise PyKey.Differ ∧ ∀ i ∈ items, WellFormed reprFloat i.2 := by
  constructor
  · refine fun h => ⟨h.keys .self, fun i hi => ?_⟩
    exact ⟨fun hw => h.keys (.dict hi hw), fun hw => h.floats (.dict hi hw)⟩
  · refine fun h => ⟨fun hw => ?_, fun hw => ?_⟩
    · cases hw with
      | self => exact h.1
      | dict hi hw => exact (h.2 _ hi).keys hw
    · cases hw with
      | dict hi hw => exact (h.2 _ hi).floats hw

theorem wellFormed_float {r : String} :
    WellFormed reprFloat (.float r) ↔ Json.FloatRepr reprFloat r := by
  constructor
  · exact fun h => h.floats .self
  · refine fun h => ⟨fun hw => (by cases hw), fun hw => ?_⟩
    cases hw
    exact h

end

/-- In every dictionary, at any depth, numbers and their texts are in the same
order. -/
def InOrder (v : PyVal) : Prop := ∀ {items}, Within (.dict items) v → Json.KeysInOrder items

/-- `v` has no parts. -/
def IsLeaf : PyVal → Prop
  | .list _ | .tuple _ | .dict _ => False
  | _ => True

theorem inOrder_leaf {v : PyVal} (hv : v.IsLeaf) : InOrder v := by
  intro items hw
  cases hw with
  | self | list | tuple | dict => exact hv.elim

theorem inOrder_list {xs : List PyVal} : InOrder (.list xs) ↔ ∀ x ∈ xs, InOrder x := by
  constructor
  · exact fun h x hx _ hw => h (.list hx hw)
  · intro h items hw
    cases hw with
    | list hx hw => exact h _ hx hw

theorem inOrder_tuple {xs : List PyVal} : InOrder (.tuple xs) ↔ ∀ x ∈ xs, InOrder x := by
  constructor
  · exact fun h x hx _ hw => h (.tuple hx hw)
  · intro h items hw
    cases hw with
    | tuple hx hw => exact h _ hx hw

theorem inOrder_dict {items : List (PyKey × PyVal)} :
    InOrder (.dict items) ↔ Json.KeysInOrder items ∧ ∀ i ∈ items, InOrder i.2 := by
  constructor
  · exact fun h => ⟨h .self, fun i hi _ hw => h (.dict hi hw)⟩
  · intro h items hw
    cases hw with
    | self => exact h.1
    | dict hi hw => exact h.2 _ hi hw

end PyVal

namespace Json

/-! ## Conversion, element by element -/

theorem mapM_ok_iff {α β ε : Type} {f : α → Except ε β} {xs : List α} {ys : List β} :
    xs.mapM f = .ok ys ↔ List.Forall₂ (fun x y => f x = .ok y) xs ys := by
  induction xs generalizing ys with
  | nil =>
    rw [List.forall₂_nil_left_iff]
    exact ⟨fun h => (Except.ok.inj h).symm, fun h => h ▸ rfl⟩
  | cons x xs ih =>
    rw [List.mapM_cons, List.forall₂_cons_left_iff]
    simp only [← ih]
    cases f x with
    | error e => simp [bind, Except.bind]
    | ok y =>
      cases xs.mapM f with
      | error e => simp [bind, Except.bind]
      | ok ys' => simp [bind, Except.bind, pure, Except.pure, eq_comm]

theorem forall₂_exists {α β : Type} {R : α → β → Prop} {xs : List α}
    (h : ∀ x ∈ xs, ∃ y, R x y) : ∃ ys, List.Forall₂ R xs ys := by
  induction xs with
  | nil => exact ⟨[], .nil⟩
  | cons x xs ih =>
    rw [List.forall_mem_cons] at h
    obtain ⟨y, hy⟩ := h.1
    obtain ⟨ys, hys⟩ := ih h.2
    exact ⟨y :: ys, .cons hy hys⟩

theorem forall₂_mem_left {α β : Type} {R : α → β → Prop} {xs : List α} {ys : List β}
    (h : List.Forall₂ R xs ys) : ∀ x ∈ xs, ∃ y ∈ ys, R x y := by
  induction h with
  | nil => exact List.forall_mem_nil _
  | @cons x y xs ys hxy _ ih =>
    refine List.forall_mem_cons.mpr ⟨⟨y, List.mem_cons_self, hxy⟩, fun x' hx' => ?_⟩
    obtain ⟨y', hy', hr⟩ := ih x' hx'
    exact ⟨y', List.mem_cons_of_mem _ hy', hr⟩

theorem forall₂_mem_right {α β : Type} {R : α → β → Prop} {xs : List α} {ys : List β}
    (h : List.Forall₂ R xs ys) : ∀ y ∈ ys, ∃ x ∈ xs, R x y :=
  forall₂_mem_left h.flip

/-- What holds between any two elements, one before the other, holds of what they
stand for. -/
theorem forall₂_pairwise {α β : Type} {R : α → β → Prop} {S : α → α → Prop} {T : β → β → Prop}
    {xs : List α} {ys : List β} (h : List.Forall₂ R xs ys) (hS : xs.Pairwise S)
    (hT : ∀ x x' y y', x ∈ xs → x' ∈ xs → R x y → R x' y' → S x x' → T y y') : ys.Pairwise T := by
  induction h with
  | nil => exact .nil
  | @cons x y xs ys hxy h ih =>
    rw [List.pairwise_cons] at hS ⊢
    refine ⟨fun y' hy' => ?_, ih hS.2 fun x₁ x₂ y₁ y₂ h₁ h₂ =>
      hT x₁ x₂ y₁ y₂ (List.mem_cons_of_mem _ h₁) (List.mem_cons_of_mem _ h₂)⟩
    obtain ⟨x', hx', hr⟩ := forall₂_mem_right h y' hy'
    exact hT x x' y y' List.mem_cons_self (List.mem_cons_of_mem _ hx') hxy hr (hS.1 x' hx')

/-! ## Sorted keys -/

theorem pairwise_insertionSort_key {α β : Type} [LinearOrder β] (f : α → β) (xs : List α) :
    (xs.insertionSort fun i j => f i ≤ f j).Pairwise fun i j => f i ≤ f j := by
  have : Std.Total fun i j => f i ≤ f j := ⟨fun i j => le_total (f i) (f j)⟩
  have : IsTrans α fun i j => f i ≤ f j := ⟨fun i j k => le_trans⟩
  exact List.pairwise_insertionSort _ xs

theorem sortItems_ok {α : Type} {items sorted : List (PyKey × α)}
    (h : sortItems items = .ok sorted) :
    sorted.Perm items ∧ sorted.Pairwise fun i j => i.1.Le j.1 := by
  rw [sortItems] at h
  split at h
  · rename_i hlen
    obtain rfl := Except.ok.inj h
    refine ⟨.refl _, ?_⟩
    cases items with
    | nil => exact .nil
    | cons i items =>
      obtain rfl := List.eq_nil_of_length_eq_zero (Nat.le_zero.mp (Nat.le_of_succ_le_succ hlen))
      exact List.pairwise_singleton _ _
  split at h
  · rename_i hstr
    obtain rfl := Except.ok.inj h
    refine ⟨List.perm_insertionSort _ _, ?_⟩
    have hkey : ∀ i ∈ items, ∃ s, i.1 = .str s := fun i hi => by
      have hi := List.all_eq_true.mp hstr i hi
      revert hi
      cases i.1 <;> simp [PyKey.str?]
    have hsorted := pairwise_insertionSort_key (fun i : PyKey × α => i.1.str?.getD []) items
    refine hsorted.imp_of_mem fun {i j} hi hj hle => ?_
    obtain ⟨s, hs⟩ := hkey i ((List.mem_insertionSort _).mp hi)
    obtain ⟨t, ht⟩ := hkey j ((List.mem_insertionSort _).mp hj)
    rw [hs, ht] at hle ⊢
    exact .inl ⟨s, t, rfl, rfl, hle⟩
  split at h
  · rename_i hnum
    obtain rfl := Except.ok.inj h
    refine ⟨List.perm_insertionSort _ _, ?_⟩
    have hkey : ∀ i ∈ items, ∃ q, i.1.num? = some q := fun i hi =>
      Option.isSome_iff_exists.mp (List.all_eq_true.mp hnum i hi)
    have hsorted := pairwise_insertionSort_key (fun i : PyKey × α => i.1.num?.getD ⊥) items
    refine hsorted.imp_of_mem fun {i j} hi hj hle => ?_
    obtain ⟨q, hq⟩ := hkey i ((List.mem_insertionSort _).mp hi)
    obtain ⟨r, hr⟩ := hkey j ((List.mem_insertionSort _).mp hj)
    rw [hq, hr] at hle
    exact .inr ⟨q, r, hq, hr, hle⟩
  · cases h

/-- Strings are sorted. -/
theorem sortItems_str {α : Type} {items : List (PyKey × α)} (h : ∀ i ∈ items, ∃ s, i.1 = .str s) :
    ∃ sorted, sortItems items = .ok sorted := by
  have hall : (items.all fun i => i.1.str?.isSome) = true := List.all_eq_true.mpr fun i hi => by
    obtain ⟨s, hs⟩ := h i hi
    rw [hs]
    rfl
  rw [sortItems, if_pos hall]
  split
  · exact ⟨_, rfl⟩
  · exact ⟨_, rfl⟩

/-- Strings that are sorted stay as they are. -/
theorem sortItems_sorted {α β : Type} {key : β → String} {value : β → α} {xs : List β}
    (h : xs.Pairwise fun x y => (key x).toList ≤ (key y).toList) :
    sortItems (xs.map fun x => (PyKey.str (key x), value x)) =
      .ok (xs.map fun x => (PyKey.str (key x), value x)) := by
  have hall : ((xs.map fun x => (PyKey.str (key x), value x)).all fun i => i.1.str?.isSome) =
      true := by
    rw [List.all_map]
    exact List.all_eq_true.mpr fun x _ => rfl
  rw [sortItems, if_pos hall]
  split
  · rfl
  · exact congrArg Except.ok (List.Pairwise.insertionSort_eq (List.pairwise_map.mpr h))

/-- Of keys that differ, the first in the order is less. -/
theorem lt_of_le_of_differ {a b : PyKey} (h : a.Le b) (hd : a.Differ b) :
    (∃ s t, a = .str s ∧ b = .str t ∧ s.toList < t.toList) ∨ a.NumLt b := by
  obtain ⟨s, t, rfl, rfl, hle⟩ | ⟨q, r, hq, hr, hle⟩ := h
  · refine .inl ⟨s, t, rfl, rfl, lt_of_le_of_ne hle fun he => hd.1 ?_⟩
    rw [String.toList_inj.mp he]
  · refine .inr ⟨q, r, hq, hr, lt_of_le_of_ne hle fun he => ?_⟩
    rw [hd.2 (by rw [hq, hr, he])] at hq
    cases hq

theorem not_numLt_of_le {a b : PyKey} (h : a.Le b) : ¬ b.NumLt a := by
  intro ⟨q, r, hq, hr, hlt⟩
  obtain ⟨s, t, rfl, rfl, -⟩ | ⟨q', r', hq', hr', hle⟩ := h
  · cases hq
  · obtain rfl := Option.some.inj (hr.symm.trans hq')
    obtain rfl := Option.some.inj (hq.symm.trans hr')
    exact absurd hlt (not_lt.mpr hle)

theorem numLt_int {m n : Int} : (PyKey.int m).NumLt (.int n) ↔ m < n := by
  simp only [PyKey.NumLt, PyKey.num?, Option.some.injEq, exists_and_left, exists_eq_left']
  rw [WithBot.coe_lt_coe, WithTop.coe_lt_coe, Int.cast_lt]

theorem textLt_str {s t : String} : TextLt (.str s) (.str t) ↔ s.toList < t.toList := by
  constructor
  · intro ⟨s', t', hs, ht, hlt⟩
    rwa [Except.ok.inj hs, Except.ok.inj ht]
  · exact fun h => ⟨s, t, rfl, rfl, h⟩

theorem differ_symm {a b : PyKey} (h : a.Differ b) : b.Differ a :=
  ⟨h.1.symm, fun he => he ▸ h.2 he.symm⟩

/-- The texts of sorted keys are in order exactly if the texts of the numbers are. -/
theorem pairwise_textLt_iff {items sorted : List (PyKey × PyVal)} (hp : sorted.Perm items)
    (hle : sorted.Pairwise fun i j => i.1.Le j.1)
    (hd : (items.map Prod.fst).Pairwise PyKey.Differ) :
    (sorted.Pairwise fun i j => TextLt i.1 j.1) ↔ KeysInOrder items := by
  have hdiffer : sorted.Pairwise fun i j => i.1.Differ j.1 :=
    List.pairwise_map.mp (((hp.map Prod.fst).pairwise_iff differ_symm).mpr hd)
  constructor
  · intro htext i hi j hj
    let Agree (i j : PyKey × PyVal) : Prop :=
      (i.1.NumLt j.1 → TextLt i.1 j.1) ∧ (j.1.NumLt i.1 → TextLt j.1 i.1)
    have : Std.Symm Agree := ⟨fun i j h => ⟨h.2, h.1⟩⟩
    have hself : ∀ i ∈ sorted, Agree i i := fun i _ => by
      have hirrefl : ¬ i.1.NumLt i.1 := fun ⟨q, r, hq, hr, hlt⟩ =>
        hlt.ne (Option.some.inj (hq.symm.trans hr))
      exact ⟨fun h => absurd h hirrefl, fun h => absurd h hirrefl⟩
    have hagree : sorted.Pairwise Agree := (hle.and htext).imp fun {i j} h =>
      ⟨fun _ => h.2, fun hlt => absurd hlt (not_numLt_of_le h.1)⟩
    exact (hagree.forall_of_forall hself (hp.mem_iff.mpr hi) (hp.mem_iff.mpr hj)).1
  · intro horder
    refine (hle.and hdiffer).imp_of_mem fun {i j} hi hj h => ?_
    obtain ⟨s, t, hs, ht, hlt⟩ | hlt := lt_of_le_of_differ h.1 h.2
    · rw [hs, ht]
      exact textLt_str.mpr hlt
    · exact horder i (hp.mem_iff.mp hi) j (hp.mem_iff.mp hj) hlt

/-! ## Trees -/

/-- The keys of every dictionary are in order, and differ. -/
inductive KeysSorted : JsonTree → Prop
  | null : KeysSorted .null
  | bool (b : Bool) : KeysSorted (.bool b)
  | int (n : Int) : KeysSorted (.int n)
  | float (l : String) : KeysSorted (.float l)
  | str (s : String) : KeysSorted (.str s)
  | arr {xs : List JsonTree} (hxs : ∀ x ∈ xs, KeysSorted x) : KeysSorted (.arr xs)
  | obj {items : List (String × JsonTree)}
      (hkeys : items.Pairwise fun i j => i.1.toList < j.1.toList)
      (hitems : ∀ i ∈ items, KeysSorted i.2) : KeysSorted (.obj items)

theorem keysSorted_arr {xs : List JsonTree} : KeysSorted (.arr xs) ↔ ∀ x ∈ xs, KeysSorted x := by
  constructor
  · intro h
    cases h with
    | arr hxs => exact hxs
  · exact .arr

theorem keysSorted_obj {items : List (String × JsonTree)} : KeysSorted (.obj items) ↔
    (items.Pairwise fun i j => i.1.toList < j.1.toList) ∧ ∀ i ∈ items, KeysSorted i.2 := by
  constructor
  · intro h
    cases h with
    | obj hkeys hitems => exact ⟨hkeys, hitems⟩
  · exact fun h => .obj h.1 h.2

variable {args : DumpsArgs}

theorem tree_list_ok {xs : List PyVal} {t : JsonTree} : tree args (.list xs) = .ok t ↔
    ∃ ts, List.Forall₂ (fun x u => tree args x = .ok u) xs ts ∧ t = .arr ts := by
  simp only [← mapM_ok_iff]
  rw [tree, trees_eq, List.mapM_map]
  show (List.mapM (tree args) xs >>= fun ts => pure (JsonTree.arr ts)) = _ ↔ _
  cases List.mapM (tree args) xs with
  | error e => simp [bind, Except.bind]
  | ok ts => simp [bind, Except.bind, pure, Except.pure, eq_comm]

theorem tree_tuple (xs : List PyVal) : tree args (.tuple xs) = tree args (.list xs) := by
  rw [tree, tree]

/-- A dictionary's item becomes an item of the tree. -/
def ItemTree (args : DumpsArgs) (i : PyKey × PyVal) (j : String × JsonTree) : Prop :=
  keyText i.1 = .ok j.1 ∧ tree args i.2 = .ok j.2

theorem itemTree_ok {i : PyKey × PyVal} {j : String × JsonTree} :
    itemTree (i.1, tree args i.2) = .ok j ↔ ItemTree args i j := by
  rw [itemTree, ItemTree]
  cases keyText i.1 with
  | error e => simp [bind, Except.bind]
  | ok key =>
    cases tree args i.2 with
    | error e => simp [bind, Except.bind]
    | ok u => simp [bind, Except.bind, pure, Except.pure, Prod.ext_iff]

theorem tree_dict_ok {items : List (PyKey × PyVal)} {t : JsonTree} :
    tree args (.dict items) = .ok t ↔ ∃ sorted ts, ordered args items = .ok sorted ∧
      List.Forall₂ (ItemTree args) sorted ts ∧ t = .obj ts := by
  have hitems : ∀ sorted ts, List.Forall₂ (ItemTree args) sorted ts ↔
      (sorted.map fun i => (i.1, tree args i.2)).mapM itemTree = .ok ts := by
    intro sorted ts
    rw [mapM_ok_iff, List.forall₂_map_left_iff]
    simp only [itemTree_ok]
  simp only [hitems]
  rw [tree_dict, itemTrees_eq, ordered_map]
  cases ordered args items with
  | error e => simp [Except.map, Except.bind]
  | ok sorted =>
    show (List.mapM itemTree _).map JsonTree.obj = _ ↔ _
    simp only [Except.ok.injEq, exists_and_left, exists_eq_left']
    cases (sorted.map fun i => (i.1, tree args i.2)).mapM itemTree with
    | error e => simp [Except.map]
    | ok ts => simp [Except.map, eq_comm]

theorem ordered_perm {α : Type} {items sorted : List (PyKey × α)}
    (h : ordered args items = .ok sorted) : sorted.Perm items := by
  rw [ordered] at h
  split at h
  · exact (sortItems_ok h).1
  · rw [Except.ok.inj h]

/-! ## The tree of a value -/

variable {reprFloat : String → String}

/-- A value becomes a tree that the decoder reads back. -/
theorem tree_encoded {v : PyVal} {t : JsonTree} (hv : v.WellFormed reprFloat)
    (h : tree args v = .ok t) : Encoded reprFloat t := by
  have harr : ∀ {xs : List PyVal} {t : JsonTree},
      (∀ x ∈ xs, ∀ {u}, x.WellFormed reprFloat → tree args x = .ok u → Encoded reprFloat u) →
      (∀ x ∈ xs, x.WellFormed reprFloat) → tree args (.list xs) = .ok t → Encoded reprFloat t := by
    intro xs t ih hv h
    obtain ⟨ts, hts, rfl⟩ := tree_list_ok.mp h
    refine .arr fun u hu => ?_
    obtain ⟨x, hx, hxu⟩ := forall₂_mem_right hts u hu
    exact ih x hx (hv x hx) hxu
  induction v using PyVal.rec_on_values generalizing t with
  | none =>
    obtain rfl := Except.ok.inj h
    exact .null
  | bool b =>
    obtain rfl := Except.ok.inj h
    exact .bool b
  | int n =>
    rw [tree, intText] at h
    split at h
    · rename_i hn
      obtain rfl := Except.ok.inj h
      exact .int hn
    · cases h
  | float r =>
    obtain rfl := Except.ok.inj h
    exact .float (hv.floats .self)
  | str s =>
    obtain rfl := Except.ok.inj h
    exact .str s
  | list xs ih => exact harr ih (PyVal.wellFormed_list.mp hv) h
  | tuple xs ih =>
    rw [tree_tuple] at h
    exact harr ih (PyVal.wellFormed_tuple.mp hv) h
  | dict items ih =>
    obtain ⟨sorted, ts, hsorted, hts, rfl⟩ := tree_dict_ok.mp h
    refine .obj fun j hj => ?_
    obtain ⟨i, hi, -, hij⟩ := forall₂_mem_right hts j hj
    have hi := (ordered_perm hsorted).mem_iff.mp hi
    exact ih i hi ((PyVal.wellFormed_dict.mp hv).2 i hi) hij
  | obj t s =>
    rw [tree] at h
    split at h
    · obtain rfl := Except.ok.inj h
      exact .str s
    · cases h

theorem keysSorted_leaf {v : PyVal} {t : JsonTree} (hv : v.IsLeaf) (h : tree args v = .ok t) :
    KeysSorted t := by
  cases v with
  | none =>
    obtain rfl := Except.ok.inj h
    exact .null
  | bool b =>
    obtain rfl := Except.ok.inj h
    exact .bool b
  | int n =>
    rw [tree, intText] at h
    split at h
    · obtain rfl := Except.ok.inj h
      exact .int n
    · cases h
  | float r =>
    obtain rfl := Except.ok.inj h
    exact .float _
  | str s =>
    obtain rfl := Except.ok.inj h
    exact .str s
  | list | tuple | dict => exact hv.elim
  | obj t s =>
    rw [tree] at h
    split at h
    · obtain rfl := Except.ok.inj h
      exact .str s
    · cases h

section

variable {P : PyVal → Prop}

theorem keysSorted_list_iff {xs : List PyVal} {t : JsonTree} (h : tree args (.list xs) = .ok t)
    (ih : ∀ x ∈ xs, ∀ u, tree args x = .ok u → (KeysSorted u ↔ P x)) :
    KeysSorted t ↔ ∀ x ∈ xs, P x := by
  obtain ⟨ts, hts, rfl⟩ := tree_list_ok.mp h
  rw [keysSorted_arr]
  constructor
  · intro hs x hx
    obtain ⟨u, hu, hxu⟩ := forall₂_mem_left hts x hx
    exact (ih x hx u hxu).mp (hs u hu)
  · intro hP u hu
    obtain ⟨x, hx, hxu⟩ := forall₂_mem_right hts u hu
    exact (ih x hx u hxu).mpr (hP x hx)

theorem keysSorted_dict_iff (hsort : args.sortKeys = true) {items : List (PyKey × PyVal)}
    {t : JsonTree} (hd : (items.map Prod.fst).Pairwise PyKey.Differ)
    (h : tree args (.dict items) = .ok t)
    (ih : ∀ i ∈ items, ∀ u, tree args i.2 = .ok u → (KeysSorted u ↔ P i.2)) :
    KeysSorted t ↔ KeysInOrder items ∧ ∀ i ∈ items, P i.2 := by
  obtain ⟨sorted, ts, hsorted, hts, rfl⟩ := tree_dict_ok.mp h
  rw [ordered, if_pos hsort] at hsorted
  obtain ⟨hperm, hle⟩ := sortItems_ok hsorted
  rw [keysSorted_obj, ← pairwise_textLt_iff hperm hle hd]
  refine and_congr ⟨fun hs => ?_, fun hs => ?_⟩ ⟨fun hs i hi => ?_, fun hP j hj => ?_⟩
  · refine forall₂_pairwise hts.flip hs fun j j' i i' _ _ hij hij' hlt => ?_
    exact ⟨_, _, hij.1, hij'.1, hlt⟩
  · refine forall₂_pairwise hts hs fun i i' j j' _ _ hij hij' h => ?_
    obtain ⟨s, t, hi, hj, hlt⟩ := h
    rwa [Except.ok.inj (hij.1.symm.trans hi), Except.ok.inj (hij'.1.symm.trans hj)]
  · obtain ⟨j, hj, hij⟩ := forall₂_mem_left hts i (hperm.mem_iff.mpr hi)
    exact (ih i hi j.2 hij.2).mp (hs j hj)
  · obtain ⟨i, hi, hij⟩ := forall₂_mem_right hts j hj
    have hi := hperm.mem_iff.mp hi
    exact (ih i hi j.2 hij.2).mpr (hP i hi)

end

/-- The text of a value has its keys in order exactly if the value is. -/
theorem keysSorted_iff (hsort : args.sortKeys = true) {v : PyVal} {t : JsonTree}
    (hv : v.WellFormed reprFloat) (h : tree args v = .ok t) : KeysSorted t ↔ v.InOrder := by
  have hleaf : ∀ {v : PyVal} {t : JsonTree}, v.IsLeaf → tree args v = .ok t →
      (KeysSorted t ↔ v.InOrder) := fun hv h =>
    iff_of_true (keysSorted_leaf hv h) (PyVal.inOrder_leaf hv)
  induction v using PyVal.rec_on_values generalizing t with
  | none => exact hleaf trivial h
  | bool b => exact hleaf trivial h
  | int n => exact hleaf trivial h
  | float r => exact hleaf trivial h
  | str s => exact hleaf trivial h
  | list xs ih =>
    have hxs := PyVal.wellFormed_list.mp hv
    rw [PyVal.inOrder_list]
    exact keysSorted_list_iff h fun x hx u hxu => ih x hx (hxs x hx) hxu
  | tuple xs ih =>
    have hxs := PyVal.wellFormed_tuple.mp hv
    rw [tree_tuple] at h
    rw [PyVal.inOrder_tuple]
    exact keysSorted_list_iff h fun x hx u hxu => ih x hx (hxs x hx) hxu
  | dict items ih =>
    obtain ⟨hd, hitems⟩ := PyVal.wellFormed_dict.mp hv
    rw [PyVal.inOrder_dict]
    exact keysSorted_dict_iff hsort hd h fun i hi u hiu => ih i hi (hitems i hi) hiu
  | obj t s => exact hleaf trivial h

/-! ## The value of a tree -/

theorem values_eq (ts : List JsonTree) :
    JsonTree.values reprFloat ts = ts.map (JsonTree.value reprFloat) := by
  induction ts with
  | nil => rfl
  | cons t ts ih => rw [JsonTree.values, ih, List.map_cons]

/-- The keys of a dictionary that was decoded differ and are strings. -/
theorem valueItems_spec (P : PyVal → Prop) {items : List (String × JsonTree)}
    (hitems : ∀ i ∈ items, P (i.2.value reprFloat)) (done : List (PyKey × PyVal))
    (hnodup : (done.map Prod.fst).Nodup) (hdone : ∀ i ∈ done, (∃ s, i.1 = .str s) ∧ P i.2) :
    ((JsonTree.valueItems reprFloat done items).map Prod.fst).Nodup ∧
      ∀ i ∈ JsonTree.valueItems reprFloat done items, (∃ s, i.1 = .str s) ∧ P i.2 := by
  induction items generalizing done with
  | nil => exact ⟨hnodup, hdone⟩
  | cons i items ih =>
    obtain ⟨k, x⟩ := i
    rw [List.forall_mem_cons] at hitems
    have hset := ((Dict.mk done hnodup).set (.str k) (x.value reprFloat)).nodup
    refine ih hitems.2 _ hset fun j hj => ?_
    obtain hj | rfl := Dict.mem_setItems hj
    · exact hdone j hj
    · exact ⟨⟨k, rfl⟩, hitems.1⟩

/-- Keys that differ keep their items. -/
theorem valueItems_of_nodup {items : List (String × JsonTree)} {done : List (PyKey × PyVal)}
    (h : (done.map Prod.fst ++ items.map fun i => PyKey.str i.1).Nodup) :
    JsonTree.valueItems reprFloat done items =
      done ++ items.map fun i => (.str i.1, i.2.value reprFloat) := by
  induction items generalizing done with
  | nil => exact (List.append_nil _).symm
  | cons i items ih =>
    obtain ⟨k, x⟩ := i
    have hk : PyKey.str k ∉ done.map Prod.fst := fun hmem =>
      (List.nodup_append.mp h).2.2 _ hmem _ List.mem_cons_self rfl
    rw [List.map_cons, List.append_cons] at h
    rw [JsonTree.valueItems, Dict.setItems_of_not_mem hk, ih]
    · rw [List.append_assoc, List.singleton_append, List.map_cons]
    · rwa [List.map_append]

theorem literalRepr_floatText {r : String} (hr : FloatRepr reprFloat r) :
    literalRepr reprFloat (String.ofList (floatText r)) = r := by
  cases hr with
  | nan => rfl
  | inf => rfl
  | negInf => rfl
  | finite hl hr =>
    rw [hl.floatText, String.ofList_toList, literalRepr, if_neg (hl.ne rfl), if_neg (hl.ne rfl),
      if_neg (hl.ne rfl), hr]

theorem tree_int {n : Int} (hn : (Nat.toDigits 10 n.natAbs).length ≤ maxStrDigits) :
    tree args (.int n) = .ok (.int n) := by
  rw [tree, intText, if_pos hn]
  rfl

/-- The keys of a dictionary that was decoded are sorted as strings, and differ. -/
theorem tree_valueItems (hsort : args.sortKeys = true) {items : List (String × JsonTree)}
    (ih : ∀ i ∈ items, ∃ u, tree args (i.2.value reprFloat) = .ok u ∧ Encoded reprFloat u ∧
      KeysSorted u) :
    ∃ u, tree args (.dict (JsonTree.valueItems reprFloat [] items)) = .ok u ∧
      Encoded reprFloat u ∧ KeysSorted u := by
  obtain ⟨hnodup, hspec⟩ := valueItems_spec
    (fun v => ∃ u, tree args v = .ok u ∧ Encoded reprFloat u ∧ KeysSorted u)
    ih [] List.nodup_nil (List.forall_mem_nil _)
  obtain ⟨sorted, hsorted⟩ := sortItems_str fun i hi => (hspec i hi).1
  obtain ⟨hperm, hle⟩ := sortItems_ok hsorted
  have hitem : ∀ i ∈ sorted, ∃ j : String × JsonTree,
      i.1 = .str j.1 ∧ tree args i.2 = .ok j.2 ∧ Encoded reprFloat j.2 ∧ KeysSorted j.2 := by
    intro i hi
    obtain ⟨⟨s, hs⟩, u, hu⟩ := hspec i (hperm.mem_iff.mp hi)
    exact ⟨(s, u), hs, hu⟩
  obtain ⟨us, hus⟩ := forall₂_exists hitem
  have hne : sorted.Pairwise fun i j => i.1 ≠ j.1 :=
    List.pairwise_map.mp ((hperm.map Prod.fst).nodup_iff.mpr hnodup)
  refine ⟨.obj us, tree_dict_ok.mpr ⟨sorted, us, ?_, ?_, rfl⟩, .obj fun j hj => ?_,
    .obj ?_ fun j hj => ?_⟩
  · rw [ordered, if_pos hsort, hsorted]
  · refine hus.imp fun i j h => ⟨?_, h.2.1⟩
    rw [h.1, keyText]
  · obtain ⟨i, -, h⟩ := forall₂_mem_right hus j hj
    exact h.2.2.1
  · refine forall₂_pairwise hus (hle.and hne) fun i i' j j' _ _ hij hij' h => ?_
    rw [hij.1, hij'.1] at h
    obtain ⟨s, t, hs, ht, hle⟩ | ⟨q, r, hq, -, -⟩ := h.1
    · cases hs
      cases ht
      refine lt_of_le_of_ne hle fun he => h.2 ?_
      rw [String.toList_inj.mp he]
    · cases hq
  · obtain ⟨i, -, h⟩ := forall₂_mem_right hus j hj
    exact h.2.2.2

/-- The value of a tree is encoded, with its keys in order. -/
theorem tree_value (hsort : args.sortKeys = true) {t : JsonTree} (ht : Encoded reprFloat t) :
    ∃ u, tree args (t.value reprFloat) = .ok u ∧ Encoded reprFloat u ∧ KeysSorted u := by
  induction ht with
  | null => exact ⟨.null, rfl, .null, .null⟩
  | bool b => exact ⟨.bool b, rfl, .bool b, .bool b⟩
  | @int n hn => exact ⟨.int n, tree_int hn, .int hn, .int n⟩
  | @float r hr =>
    refine ⟨_, ?_, .float hr, .float _⟩
    rw [JsonTree.value, literalRepr_floatText hr, tree]
  | str s => exact ⟨.str s, rfl, .str s, .str s⟩
  | @arr xs _ ih =>
    obtain ⟨us, hus⟩ := forall₂_exists ih
    refine ⟨.arr us, ?_, .arr fun u hu => ?_, .arr fun u hu => ?_⟩
    · rw [JsonTree.value, values_eq, tree_list_ok]
      exact ⟨us, List.forall₂_map_left_iff.mpr (hus.imp fun x u h => h.1), rfl⟩
    · obtain ⟨x, -, h⟩ := forall₂_mem_right hus u hu
      exact h.2.1
    · obtain ⟨x, -, h⟩ := forall₂_mem_right hus u hu
      exact h.2.2
  | obj _ ih =>
    rw [JsonTree.value]
    exact tree_valueItems hsort ih

/-- A tree with its keys in order is the tree of its value. -/
theorem tree_value_of_sorted (hsort : args.sortKeys = true) {t : JsonTree}
    (ht : Encoded reprFloat t) (hs : KeysSorted t) : tree args (t.value reprFloat) = .ok t := by
  induction ht with
  | null => rfl
  | bool b => rfl
  | int hn => exact tree_int hn
  | float hr => rw [JsonTree.value, literalRepr_floatText hr, tree]
  | str s => rfl
  | @arr xs _ ih =>
    have hs := keysSorted_arr.mp hs
    rw [JsonTree.value, values_eq, tree_list_ok]
    exact ⟨xs, List.forall₂_map_left_iff.mpr
      (List.forall₂_same.mpr fun x hx => ih x hx (hs x hx)), rfl⟩
  | @obj items _ ih =>
    obtain ⟨hkeys, hs⟩ := keysSorted_obj.mp hs
    have hnodup : (items.map fun i => PyKey.str i.1).Nodup := by
      refine List.pairwise_map.mpr (hkeys.imp fun {i j} hlt he => ?_)
      rw [PyKey.str.inj he] at hlt
      exact lt_irrefl _ hlt
    rw [JsonTree.value, valueItems_of_nodup (by rwa [List.map_nil, List.nil_append]),
      List.nil_append, tree_dict_ok]
    refine ⟨items.map fun i => (.str i.1, i.2.value reprFloat), items, ?_, ?_, rfl⟩
    · rw [ordered, if_pos hsort]
      exact sortItems_sorted (hkeys.imp fun hlt => hlt.le)
    · refine List.forall₂_map_left_iff.mpr (List.forall₂_same.mpr fun i hi => ?_)
      exact ⟨rfl, ih i hi (hs i hi)⟩

/-! ## Encoding, decoding and encoding again -/

/-- What was encoded can be decoded, and encoded again to the same text exactly if the
value is in order. -/
theorem dumps_loads_iff (hargs : Separators args) (hsort : args.sortKeys = true) {v : PyVal}
    (hv : v.WellFormed reprFloat) {s : String} (h : dumps args v = .ok s) :
    ∃ v' s', loads reprFloat s = some v' ∧ dumps args v' = .ok s' ∧ (s' = s ↔ v.InOrder) := by
  rw [dumps, text_eq] at h
  cases ht : tree args v with
  | error e =>
    rw [ht] at h
    cases h
  | ok t =>
    rw [ht] at h
    obtain rfl := Except.ok.inj h
    have htree := tree_encoded hv ht
    obtain ⟨u, hu, hencoded, hsorted⟩ := tree_value hsort htree
    refine ⟨_, String.ofList (print args u), loads_print hargs htree, ?_, ?_⟩
    · rw [dumps, text_eq, hu]
      rfl
    · rw [← keysSorted_iff hsort hv ht, String.ofList_inj]
      constructor
      · intro he
        rwa [← print_inj hargs hencoded htree he]
      · intro hs
        rw [tree_value_of_sorted hsort htree hs] at hu
        rw [Except.ok.inj hu]

end Json

end Gaia
