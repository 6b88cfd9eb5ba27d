import GaiaServer.Framework.Json

/-!
# The tree of a JSON text

What `json.dumps` writes, before it is written (`JsonTree`): keys are strings, in the
order of the text, tuples are arrays, and a float is its literal. The encoder is a
conversion to a tree (`Json.tree`), then a plain printer (`Json.print`), and nothing
else (`text_eq`). Values have an induction principle with one case for a list and one
for a dictionary (`PyVal.rec_on_values`).
-/

namespace Gaia

inductive JsonTree
  | null
  | bool (b : Bool)
  | int (n : Int)
  | float (literal : String)
  | str (s : String)
  | arr (xs : List JsonTree)
  | obj (items : List (String × JsonTree))

/-! ## Induction -/

section

variable {P : PyVal → Prop} (none : P .none) (bool : ∀ b, P (.bool b)) (int : ∀ n, P (.int n))
  (float : ∀ r, P (.float r)) (str : ∀ s, P (.str s)) (list : ∀ xs, (∀ x ∈ xs, P x) → P (.list xs))
  (tuple : ∀ xs, (∀ x ∈ xs, P x) → P (.tuple xs))
  (dict : ∀ items, (∀ i ∈ items, P i.2) → P (.dict items)) (obj : ∀ t s, P (.obj t s))

include none bool int float str list tuple dict obj in
theorem PyVal.rec_on_values (v : PyVal) : P v := by
  refine @PyVal.rec P (fun xs => ∀ x ∈ xs, P x) (fun items => ∀ i ∈ items, P i.2) (fun i => P i.2)
    none bool int float str list tuple dict obj ?_ ?_ ?_ ?_ ?_ v
  · exact List.forall_mem_nil _
  · exact fun x xs hx hxs => List.forall_mem_cons.mpr ⟨hx, hxs⟩
  · exact List.forall_mem_nil _
  · exact fun i items hi hitems => List.forall_mem_cons.mpr ⟨hi, hitems⟩
  · exact fun k v hv => hv

end

namespace Json

/-! ## Printing -/

mutual

/-- The text of a tree. -/
def print (args : DumpsArgs) : JsonTree → List Char
  | .null => "null".toList
  | .bool b => boolText b
  | .int n => (if n < 0 then ['-'] else []) ++ Nat.toDigits 10 n.natAbs
  | .float l => l.toList
  | .str s => strText s
  | .arr xs => bracket '[' ']' args (prints args xs)
  | .obj items => bracket '\x7b' '\x7d' args (printItems args items)

def prints (args : DumpsArgs) : List JsonTree → List (List Char)
  | [] => []
  | x :: xs => print args x :: prints args xs

def printItems (args : DumpsArgs) : List (String × JsonTree) → List (List Char)
  | [] => []
  | (k, x) :: items => (strText k ++ args.keySep.toList ++ print args x) :: printItems args items

end

theorem prints_eq (args : DumpsArgs) (xs : List JsonTree) :
    prints args xs = xs.map (print args) := by
  induction xs with
  | nil => rfl
  | cons x xs ih => rw [prints, ih, List.map_cons]

/-- `key: value`. -/
def printItem (args : DumpsArgs) (i : String × JsonTree) : List Char :=
  strText i.1 ++ args.keySep.toList ++ print args i.2

theorem printItems_eq (args : DumpsArgs) (items : List (String × JsonTree)) :
    printItems args items = items.map (printItem args) := by
  induction items with
  | nil => rfl
  | cons i items ih =>
    obtain ⟨k, x⟩ := i
    rw [printItems, ih, List.map_cons, printItem]

/-! ## The tree of a value -/

/-- The items of a dictionary, in the order of its text. -/
def ordered {α : Type} (args : DumpsArgs) (items : List (PyKey × α)) :
    Except EncodeError (List (PyKey × α)) :=
  if args.sortKeys then sortItems items else .ok items

/-- A dictionary's item, its value converted. -/
def itemTree (i : PyKey × Except EncodeError JsonTree) :
    Except EncodeError (String × JsonTree) := do
  let key ← keyText i.1
  let value ← i.2
  return (key, value)

mutual

def tree (args : DumpsArgs) : PyVal → Except EncodeError JsonTree
  | .none => .ok .null
  | .bool b => .ok (.bool b)
  | .int n => (intText n).map fun _ => .int n
  | .float repr => .ok (.float (String.ofList (floatText repr)))
  | .str s => .ok (.str s)
  | .list xs => do return .arr (← (trees args xs).mapM id)
  | .tuple xs => do return .arr (← (trees args xs).mapM id)
  | .dict items => do
    let items ← ordered args (itemTrees args items)
    return .obj (← items.mapM itemTree)
  | .obj _ s => if args.defaultStr then .ok (.str s) else .error .typeError

def trees (args : DumpsArgs) : List PyVal → List (Except EncodeError JsonTree)
  | [] => []
  | x :: xs => tree args x :: trees args xs

def itemTrees (args : DumpsArgs) :
    List (PyKey × PyVal) → List (PyKey × Except EncodeError JsonTree)
  | [] => []
  | (k, v) :: items => (k, tree args v) :: itemTrees args items

end

variable {args : DumpsArgs}

theorem trees_eq (xs : List PyVal) : trees args xs = xs.map (tree args) := by
  induction xs with
  | nil => rfl
  | cons x xs ih => rw [trees, ih, List.map_cons]

theorem itemTrees_eq (items : List (PyKey × PyVal)) :
    itemTrees args items = items.map fun i => (i.1, tree args i.2) := by
  induction items with
  | nil => rfl
  | cons i items ih => rw [itemTrees, ih, List.map_cons]

theorem texts_eq (xs : List PyVal) : texts args xs = xs.map (text args) := by
  induction xs with
  | nil => rfl
  | cons x xs ih => rw [texts, ih, List.map_cons]

theorem itemTexts_eq (items : List (PyKey × PyVal)) :
    itemTexts args items = items.map fun i => (i.1, text args i.2) := by
  induction items with
  | nil => rfl
  | cons i items ih => rw [itemTexts, ih, List.map_cons]

/-! ## The encoder prints the tree -/

/-- Converting and then mapping, element by element. -/
theorem mapM_eq_map {α β γ ε : Type} {f : α → Except ε β} {g : α → Except ε γ} {p : β → γ}
    {xs : List α} (h : ∀ a ∈ xs, g a = (f a).map p) : xs.mapM g = (xs.mapM f).map (List.map p) := by
  induction xs with
  | nil => rfl
  | cons a xs ih =>
    rw [List.forall_mem_cons] at h
    rw [List.mapM_cons, List.mapM_cons, h.1, ih h.2]
    cases f a with
    | error e => rfl
    | ok b =>
      show (List.map p <$> xs.mapM f >>= fun cs => pure (p b :: cs)) = _
      cases xs.mapM f <;> rfl

/-- Sorting looks at the keys only. -/
theorem sortItems_map {α β : Type} (f : α → β) (items : List (PyKey × α)) :
    sortItems (items.map fun i => (i.1, f i.2)) =
      (sortItems items).map (List.map fun i => (i.1, f i.2)) := by
  have hall : ∀ p : PyKey → Bool, (items.map fun i => (i.1, f i.2)).all (fun i => p i.1) =
      items.all fun i => p i.1 := fun p => by
    rw [List.all_map]
    rfl
  rw [sortItems, sortItems, List.length_map, hall fun k => k.str?.isSome,
    hall fun k => k.num?.isSome]
  split
  · rfl
  · split
    · refine congrArg Except.ok (Eq.symm ?_)
      apply List.map_insertionSort
      exact fun _ _ _ _ => .rfl
    · split
      · refine congrArg Except.ok (Eq.symm ?_)
        apply List.map_insertionSort
        exact fun _ _ _ _ => .rfl
      · rfl

theorem ordered_map {α β : Type} (f : α → β) (items : List (PyKey × α)) :
    ordered args (items.map fun i => (i.1, f i.2)) =
      (ordered args items).map (List.map fun i => (i.1, f i.2)) := by
  rw [ordered, ordered]
  split
  · exact sortItems_map f items
  · rfl

theorem text_dict (items : List (PyKey × PyVal)) :
    text args (.dict items) = (ordered args (itemTexts args items)).bind fun sorted =>
      (sorted.mapM (itemText args)).map (bracket '\x7b' '\x7d' args) := by
  have hwrite : ∀ sorted : List (PyKey × Except EncodeError (List Char)),
      (do return bracket '\x7b' '\x7d' args (← sorted.mapM (itemText args))) =
        (sorted.mapM (itemText args)).map (bracket '\x7b' '\x7d' args) := by
    intro sorted
    cases sorted.mapM (itemText args) <;> rfl
  rw [text, ordered]
  split
  · cases sortItems (itemTexts args items) with
    | error e => rfl
    | ok sorted => exact hwrite sorted
  · exact hwrite (itemTexts args items)

theorem tree_dict (items : List (PyKey × PyVal)) :
    tree args (.dict items) = (ordered args (itemTrees args items)).bind fun sorted =>
      (sorted.mapM itemTree).map .obj := by
  rw [tree]
  cases ordered args (itemTrees args items) with
  | error e => rfl
  | ok sorted =>
    show (sorted.mapM itemTree >>= _) = (sorted.mapM itemTree).map _
    cases sorted.mapM itemTree <;> rfl

theorem itemText_eq (args : DumpsArgs) (i : PyKey × Except EncodeError JsonTree) :
    itemText args (i.1, i.2.map (print args)) = (itemTree i).map (printItem args) := by
  rw [itemText, itemTree]
  cases keyText i.1 with
  | error e => rfl
  | ok key => cases i.2 <;> rfl

/-- The encoder is the conversion, and then the printer. -/
theorem text_eq (args : DumpsArgs) (v : PyVal) : text args v = (tree args v).map (print args) := by
  have harray : ∀ xs : List PyVal, (∀ x ∈ xs, text args x = (tree args x).map (print args)) →
      (texts args xs).mapM id = ((trees args xs).mapM id).map (prints args) := by
    intro xs ih
    rw [texts_eq, trees_eq, List.mapM_map, List.mapM_map]
    show List.mapM (text args) xs = (List.mapM (tree args) xs).map (prints args)
    rw [mapM_eq_map ih]
    congr 1
    funext ts
    rw [prints_eq]
  induction v using PyVal.rec_on_values with
  | none => rfl
  | bool b => rfl
  | int n =>
    rw [text, tree, intText]
    split <;> rfl
  | float r =>
    rw [text, tree, Except.map, print, String.toList_ofList]
  | str s => rfl
  | list xs ih =>
    rw [text, tree, harray xs ih]
    cases (trees args xs).mapM id <;> rfl
  | tuple xs ih =>
    rw [text, tree, harray xs ih]
    cases (trees args xs).mapM id <;> rfl
  | dict items ih =>
    have hitems : itemTexts args items =
        (itemTrees args items).map fun i => (i.1, i.2.map (print args)) := by
      rw [itemTexts_eq, itemTrees_eq, List.map_map]
      exact List.map_congr_left fun i hi => Prod.ext rfl (ih i hi)
    rw [text_dict, tree_dict, hitems, ordered_map]
    cases ordered args (itemTrees args items) with
    | error e => rfl
    | ok sorted =>
      have hwrite : (sorted.map fun i => (i.1, i.2.map (print args))).mapM (itemText args) =
          (sorted.mapM itemTree).map (printItems args) := by
        rw [List.mapM_map, funext fun items => printItems_eq args items]
        exact mapM_eq_map fun i _ => itemText_eq args i
      refine (congrArg (Except.map (bracket '\x7b' '\x7d' args)) hwrite).trans ?_
      show _ = Except.map _ (Except.map _ (sorted.mapM itemTree))
      cases sorted.mapM itemTree <;> rfl
  | obj t s =>
    rw [text, tree]
    split <;> rfl

end Json

end Gaia
