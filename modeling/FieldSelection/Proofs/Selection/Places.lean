import FieldSelection.Proofs.Table
import FieldSelection.Selection.Path

/-!
# Places in a selection

* `at?` answers what stands along keys: the selection itself along no key, and below a leaf nothing.
  `argumentAt?` answers an argument of what stands there.
* `KeptIn` says that a selection still stands in another one, as it was: at every place the same
  keys in the same order with the same kinds of items, the same arguments and the same mark. What
  the other one has besides comes after that.

Adding a key or an argument keeps a selection (`keptIn_putNew`, `keptIn_setNewArgument`), and so
does keeping what stands under a key (`keptIn_put`). What is kept is found at the same place
(`Selection.KeptIn.at?`).

What holds everywhere in a selection holds at its top and everywhere in its items
(`Selection.everywhere_iff`).
-/

namespace FieldSelection

/-! ## 1. What stands along keys -/

/-- What stands along keys, from an item on. -/
def Item.at? : List Key → Item → Option Item
  | [], item => some item
  | _ :: _, .leaf => none
  | key :: keys, .node s => (s.get? key).bind (Item.at? keys)

/-- What stands along keys, from a selection on. -/
def Selection.at? (s : Selection) (keys : List Key) : Option Item :=
  Item.at? keys (.node s)

/-- The value of an argument of a node; a leaf has no arguments. -/
def Item.argument? (name : String) : Item → Option Literal
  | .leaf => none
  | .node s => s.argument? name

/-- The value of an argument of what stands along keys. -/
def Selection.argumentAt? (s : Selection) (keys : List Key) (name : String) : Option Literal :=
  (s.at? keys).bind (Item.argument? name)

namespace Selection

@[simp] theorem at?_nil (s : Selection) : s.at? [] = some (.node s) := rfl

theorem at?_cons (s : Selection) (key : Key) (keys : List Key) :
    s.at? (key :: keys) = (s.get? key).bind (Item.at? keys) := rfl

/-- Below a leaf there is nothing. -/
theorem eq_nil_of_at?_leaf {keys : List Key} {item : Item}
    (h : Item.at? keys .leaf = some item) : keys = [] ∧ item = .leaf := by
  cases keys with
  | nil => exact ⟨rfl, (Option.some.inj h).symm⟩
  | cons key keys => cases h

theorem at?_empty_concat (keys : List Key) (key : Key) : empty.at? (keys ++ [key]) = none := by
  cases keys <;> rfl

/-- A place is reached in two legs. -/
theorem at?_append (item : Item) (keys keys' : List Key) :
    Item.at? (keys ++ keys') item = (Item.at? keys item).bind (Item.at? keys') := by
  induction keys generalizing item with
  | nil => rfl
  | cons key keys ih =>
    cases item with
    | leaf => rfl
    | node s =>
      rw [List.cons_append, Item.at?, Item.at?]
      cases s.get? key with
      | none => rfl
      | some item => exact ih item

/-- On the way to what stands at a place, something stands everywhere. -/
theorem isSome_at?_of_append {s : Selection} {keys rest : List Key}
    (h : (s.at? (keys ++ rest)).isSome = true) : (s.at? keys).isSome = true := by
  rw [at?, at?_append] at h
  exact Option.isSome_of_isSome_bind h

/-- What stands under a key of the node at a place. -/
theorem at?_concat {s u : Selection} {keys : List Key} (h : s.at? keys = some (.node u))
    (key : Key) : s.at? (keys ++ [key]) = u.get? key := by
  rw [at?, at?_append, ← at?, h, Option.bind_some, Item.at?]
  cases u.get? key <;> rfl

/-- A place with something below it holds a node. -/
theorem exists_node_of_at?_concat {s : Selection} {keys : List Key} {key : Key}
    (h : (s.at? (keys ++ [key])).isSome = true) : ∃ u, s.at? keys = some (.node u) := by
  rw [at?, at?_append] at h
  cases hi : Item.at? keys (.node s) with
  | none => rw [hi] at h; cases h
  | some item =>
    cases item with
    | leaf => rw [hi] at h; cases h
    | node u => exact ⟨u, hi⟩

end Selection

/-! ## 2. Selections that are kept -/

mutual

/-- The selection still stands in another one. -/
def Selection.KeptIn : Selection → Selection → Prop
  | ⟨a, w, is⟩, ⟨b, v, js⟩ => a <+: b ∧ w = v ∧ Selection.ItemsKeptIn is js

/-- The items still stand ahead of others, each under its key. -/
def Selection.ItemsKeptIn : List (Key × Item) → List (Key × Item) → Prop
  | [], _ => True
  | (key, item) :: is, (key', item') :: js =>
    key = key' ∧ Item.KeptIn item item' ∧ Selection.ItemsKeptIn is js
  | _ :: _, [] => False

/-- A leaf is still a leaf, and a node still stands in a node. -/
def Item.KeptIn : Item → Item → Prop
  | .leaf, .leaf => True
  | .node s, .node t => Selection.KeptIn s t
  | _, _ => False

end

mutual

theorem Selection.keptIn_refl : ∀ s : Selection, s.KeptIn s
  | ⟨a, _, is⟩ => ⟨List.prefix_refl a, rfl, Selection.itemsKeptIn_refl is⟩

theorem Selection.itemsKeptIn_refl : ∀ is : List (Key × Item), Selection.ItemsKeptIn is is
  | [] => trivial
  | (_, item) :: is => ⟨rfl, Item.keptIn_refl item, Selection.itemsKeptIn_refl is⟩

theorem Item.keptIn_refl : ∀ item : Item, item.KeptIn item
  | .leaf => trivial
  | .node s => Selection.keptIn_refl s

end

mutual

theorem Selection.KeptIn.trans : ∀ {r s t : Selection}, r.KeptIn s → s.KeptIn t → r.KeptIn t
  | ⟨_, _, _⟩, ⟨_, _, _⟩, ⟨_, _, _⟩, ⟨ha, hw, h⟩, ⟨ha', hw', h'⟩ =>
      ⟨ha.trans ha', hw.trans hw', Selection.ItemsKeptIn.trans h h'⟩

theorem Selection.ItemsKeptIn.trans : ∀ {is js ks : List (Key × Item)},
    Selection.ItemsKeptIn is js → Selection.ItemsKeptIn js ks → Selection.ItemsKeptIn is ks
  | [], _, _, _, _ => trivial
  | (_, item) :: is, (_, item') :: js, (_, item'') :: ks, ⟨hkey, hi, h⟩, ⟨hkey', hi', h'⟩ =>
      ⟨hkey.trans hkey', Item.KeptIn.trans hi hi', Selection.ItemsKeptIn.trans h h'⟩

theorem Item.KeptIn.trans : ∀ {x y z : Item}, x.KeptIn y → y.KeptIn z → x.KeptIn z
  | .leaf, .leaf, .leaf, _, _ => trivial
  | .node r, .node s, .node t, h, h' => Selection.KeptIn.trans (r := r) (s := s) (t := t) h h'

end

namespace Selection

variable {s t : Selection}

/-! ## 3. What keeps a selection -/

/-- Changing an item so that it is kept, or adding one, keeps the items. -/
theorem itemsKeptIn_alter {key : Key} (fresh : Item) {onto : Item → Item} :
    ∀ {is : List (Key × Item)}, (∀ old, Table.get? key is = some old → old.KeptIn (onto old)) →
      ItemsKeptIn is (Table.alter key fresh onto is)
  | [], _ => trivial
  | (key', item) :: is, h => by
      rw [Table.alter]
      split
      · rename_i hkey
        exact ⟨rfl, h item (if_pos hkey), itemsKeptIn_refl is⟩
      · rename_i hkey
        refine ⟨rfl, Item.keptIn_refl item, itemsKeptIn_alter fresh fun old hold => h old ?_⟩
        rwa [Table.get?_cons, if_neg hkey]

theorem keptIn_withItems {is : List (Key × Item)} (h : ItemsKeptIn s.items is) :
    s.KeptIn (s.withItems is) := by
  obtain ⟨a, w, js⟩ := s
  exact ⟨List.prefix_refl a, rfl, h⟩

/-- Putting an item in the place of one that stands in it keeps the selection. -/
theorem keptIn_put {key : Key} {item : Item}
    (h : ∀ old, s.get? key = some old → old.KeptIn item) : s.KeptIn (s.put key item) :=
  keptIn_withItems (itemsKeptIn_alter item h)

theorem keptIn_putNew (s : Selection) (key : Key) (item : Item) : s.KeptIn (s.putNew key item) :=
  keptIn_withItems (itemsKeptIn_alter item fun old _ => Item.keptIn_refl old)

theorem keptIn_setNewArgument (s : Selection) (name : String) (value : Literal) :
    s.KeptIn (s.setNewArgument name value) := by
  obtain ⟨a, w, is⟩ := s
  exact ⟨Table.prefix_putNew name value a, rfl, itemsKeptIn_refl is⟩

/-! ## 4. What is kept is found -/

theorem get?_of_itemsKeptIn {key : Key} {item : Item} : ∀ {is js : List (Key × Item)},
    ItemsKeptIn is js → Table.get? key is = some item →
      ∃ item', Table.get? key js = some item' ∧ item.KeptIn item'
  | (key', old) :: is, (_, new) :: js, ⟨rfl, hold, h⟩, hget => by
      rw [Table.get?_cons] at hget ⊢
      split at hget
      · rename_i hkey
        cases hget
        exact ⟨new, if_pos hkey, hold⟩
      · rename_i hkey
        obtain ⟨item', hitem', hkept⟩ := get?_of_itemsKeptIn h hget
        exact ⟨item', by rwa [if_neg hkey], hkept⟩

theorem KeptIn.get? (h : s.KeptIn t) {key : Key} {item : Item} (hget : s.get? key = some item) :
    ∃ item', t.get? key = some item' ∧ item.KeptIn item' := by
  obtain ⟨a, w, is⟩ := s
  obtain ⟨b, v, js⟩ := t
  exact get?_of_itemsKeptIn h.2.2 hget

end Selection

/-- What is kept is found at its place. -/
theorem Item.KeptIn.at? {x y : Item} (h : x.KeptIn y) {keys : List Key} {item : Item}
    (hat : x.at? keys = some item) : ∃ item', y.at? keys = some item' ∧ item.KeptIn item' := by
  induction keys generalizing x y with
  | nil =>
    cases hat
    exact ⟨y, rfl, h⟩
  | cons key keys ih =>
    match x, y, h with
    | .node s, .node t, h =>
      obtain ⟨i, hi, hat⟩ := Option.bind_eq_some_iff.mp hat
      obtain ⟨j, hj, hij⟩ := Selection.KeptIn.get? h hi
      obtain ⟨item', hitem', hkept⟩ := ih hij hat
      exact ⟨item', Option.bind_eq_some_iff.mpr ⟨j, hj, hitem'⟩, hkept⟩

namespace Selection

variable {s t : Selection}

theorem KeptIn.isSome_get? (h : s.KeptIn t) {key : Key} (hget : (s.get? key).isSome = true) :
    (t.get? key).isSome = true := by
  obtain ⟨item, hitem⟩ := Option.isSome_iff_exists.mp hget
  obtain ⟨item', hitem', -⟩ := h.get? hitem
  exact Option.isSome_iff_exists.mpr ⟨item', hitem'⟩

theorem KeptIn.at? (h : s.KeptIn t) {keys : List Key} {item : Item}
    (hat : s.at? keys = some item) : ∃ item', t.at? keys = some item' ∧ item.KeptIn item' :=
  have hnodes : (Item.node s).KeptIn (.node t) := h
  hnodes.at? hat

theorem KeptIn.isSome_at? (h : s.KeptIn t) {keys : List Key} (hat : (s.at? keys).isSome = true) :
    (t.at? keys).isSome = true := by
  obtain ⟨item, hitem⟩ := Option.isSome_iff_exists.mp hat
  obtain ⟨item', hitem', -⟩ := h.at? hitem
  exact Option.isSome_iff_exists.mpr ⟨item', hitem'⟩

/-- Where nothing stands in the later selection, nothing stood before. -/
theorem KeptIn.at?_eq_none (h : s.KeptIn t) {keys : List Key} (hat : t.at? keys = none) :
    s.at? keys = none := by
  rw [← Option.not_isSome_iff_eq_none] at hat ⊢
  exact fun hs => hat (h.isSome_at? hs)

/-- What a node has for an argument, it keeps. -/
theorem KeptIn.argument? (h : s.KeptIn t) {name : String} {value : Literal}
    (hget : s.argument? name = some value) : t.argument? name = some value := by
  obtain ⟨a, w, is⟩ := s
  obtain ⟨b, v, js⟩ := t
  obtain ⟨c, rfl⟩ := h.1
  exact Table.get?_append_left c hget

theorem KeptIn.argumentAt? (h : s.KeptIn t) {keys : List Key} {name : String} {value : Literal}
    (hget : s.argumentAt? keys name = some value) : t.argumentAt? keys name = some value := by
  obtain ⟨item, hat, hvalue⟩ := Option.bind_eq_some_iff.mp hget
  obtain ⟨item', hat', hkept⟩ := h.at? hat
  refine Option.bind_eq_some_iff.mpr ⟨item', hat', ?_⟩
  match item, item', hkept with
  | .node u, .node w, hkept => exact KeptIn.argument? (s := u) (t := w) hkept hvalue

end Selection

/-! ## 5. Everywhere in a selection -/

/-- A property that all nodes in an item have. -/
def Item.Everywhere (p : Selection → Prop) (item : Item) : Prop :=
  ∀ keys s, item.at? keys = some (.node s) → p s

/-- A property that a selection has, and every node in it. -/
def Selection.Everywhere (p : Selection → Prop) (s : Selection) : Prop :=
  ∀ keys t, s.at? keys = some (.node t) → p t

/-- Nothing carries the mark for all scalar fields. -/
def Selection.Unmarked (s : Selection) : Prop :=
  s.Everywhere fun t => t.allScalars = false

theorem Item.everywhere_leaf (p : Selection → Prop) : Item.leaf.Everywhere p := by
  intro keys s hat
  cases (Selection.eq_nil_of_at?_leaf hat).2

/-- Everywhere in a selection is at its top and everywhere in its items. -/
theorem Selection.everywhere_iff {p : Selection → Prop} {a : List (String × Literal)} {w : Bool}
    {is : List (Key × Item)} (hkeys : (Table.keys is).Nodup) :
    (mk a w is).Everywhere p ↔ p ⟨a, w, is⟩ ∧ ∀ e ∈ is, e.2.Everywhere p := by
  constructor
  · intro h
    refine ⟨h [] _ rfl, fun e he keys t hat => h (e.1 :: keys) t ?_⟩
    rw [at?_cons, get?, items_mk, Table.get?_of_mem hkeys he]
    exact hat
  · rintro ⟨htop, hitems⟩ keys t hat
    cases keys with
    | nil =>
      cases hat
      exact htop
    | cons key keys =>
      obtain ⟨item, hitem, hat⟩ := Option.bind_eq_some_iff.mp hat
      exact hitems (key, item) (Table.mem_of_get? hitem) keys t hat

end FieldSelection
