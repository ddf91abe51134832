import FieldSelection.Proofs.Selection.Merging
import FieldSelection.Proofs.Selection.Places

/-!
# Merging makes the least selection that holds two others

A selection is at most another one (`≤`) if that has its mark and all its keys, and under each key a
leaf is replaced by anything, and a node by a node that its selection is at most. Arguments and the
order of keys do not count.

* What merging makes is told place by place (`Item.at?_merge`): there stands what stood there in one
  of the two, or both merged where both had something.
* The order is told place by place as well (`Selection.le_iff`). So what is merged is at least each
  of the two and at most all that both are at most, and its arguments are those of the second where
  that has them, else those of the first (`merge_least`).
-/

namespace FieldSelection

/-! ## 1. The order of selections -/

mutual

/-- Another selection selects all that this one does: it has the mark if this one has it, and every
    key of this one, with all that stands under it. -/
def Selection.AtMost : Selection → Selection → Prop
  | ⟨_, w, is⟩, t => (w = true → t.allScalars = true) ∧ Selection.ItemsAtMost is t

/-- A selection has every key of the items, with all that stands under it. -/
def Selection.ItemsAtMost : List (Key × Item) → Selection → Prop
  | [], _ => True
  | (key, item) :: rest, t =>
    (∃ other, t.get? key = some other ∧ Item.AtMost item other) ∧ Selection.ItemsAtMost rest t

/-- A leaf is at most anything, and a node a node that selects all that it does. -/
def Item.AtMost : Item → Item → Prop
  | .leaf, _ => True
  | .node _, .leaf => False
  | .node s, .node t => Selection.AtMost s t

end

instance : LE Selection := ⟨Selection.AtMost⟩

instance : LE Item := ⟨Item.AtMost⟩

/-- What may stand in the place of an item: anything for a leaf, and for a node a node that has the
    mark if it has. -/
def Item.MatchedBy : Item → Item → Prop
  | .leaf, _ => True
  | .node _, .leaf => False
  | .node s, .node t => s.allScalars = true → t.allScalars = true

/-! ## 2. The order at places -/

theorem Selection.itemsAtMost_iff {is : List (Key × Item)} {t : Selection} :
    Selection.ItemsAtMost is t ↔ ∀ e ∈ is, ∃ other, t.get? e.1 = some other ∧ e.2 ≤ other := by
  induction is with
  | nil => simp [Selection.ItemsAtMost]
  | cons e rest ih =>
    rw [List.forall_mem_cons, ← ih]
    rfl

/-- What a selection has under a key, a greater one has as well. -/
theorem Selection.exists_get?_of_le {s t : Selection} (h : s ≤ t) {key : Key} {item : Item}
    (hget : s.get? key = some item) : ∃ other, t.get? key = some other ∧ item ≤ other := by
  obtain ⟨a, w, is⟩ := s
  exact Selection.itemsAtMost_iff.mp h.2 (key, item) (Table.mem_of_get? hget)

theorem Item.matchedBy_of_le {x y : Item} (h : x ≤ y) : x.MatchedBy y := by
  match x, y, h with
  | .leaf, _, _ => trivial
  | .node ⟨_, _, _⟩, .node _, h => exact h.1

/-- What stands at a place of an item is matched there in a greater one. -/
theorem Item.exists_at?_of_le {x y : Item} (h : x ≤ y) {keys : List Key} {i : Item}
    (hat : Item.at? keys x = some i) : ∃ j, Item.at? keys y = some j ∧ i.MatchedBy j := by
  induction keys generalizing x y with
  | nil =>
    cases hat
    exact ⟨y, rfl, Item.matchedBy_of_le h⟩
  | cons key keys ih =>
    match x, y, h with
    | .node s, .node t, h =>
      obtain ⟨item, hitem, hat⟩ := Option.bind_eq_some_iff.mp hat
      obtain ⟨other, hother, hle⟩ := Selection.exists_get?_of_le (s := s) (t := t) h hitem
      obtain ⟨j, hj, hmatched⟩ := ih hle hat
      exact ⟨j, Option.bind_eq_some_iff.mpr ⟨other, hother, hj⟩, hmatched⟩

mutual

/-- A selection that is matched at every place is at most the other one. -/
theorem Selection.le_of_places : ∀ {s t : Selection}, s.WellFormed →
    (∀ keys i, s.at? keys = some i → ∃ j, t.at? keys = some j ∧ i.MatchedBy j) → s ≤ t
  | ⟨_, _, is⟩, t, ⟨_, hkeys, his⟩, h => by
      obtain ⟨_, hj, htop⟩ := h [] _ rfl
      cases hj
      refine ⟨htop, Selection.itemsAtMost_of_places his fun e he keys i hat => ?_⟩
      refine h (e.1 :: keys) i (Option.bind_eq_some_iff.mpr ⟨e.2, ?_, hat⟩)
      exact Table.get?_of_mem hkeys he

theorem Selection.itemsAtMost_of_places : ∀ {is : List (Key × Item)} {t : Selection},
    Selection.ItemsWellFormed is → (∀ e ∈ is, ∀ keys i, Item.at? keys e.2 = some i →
      ∃ j, t.at? (e.1 :: keys) = some j ∧ i.MatchedBy j) → Selection.ItemsAtMost is t
  | [], _, _, _ => trivial
  | (key, item) :: _, t, ⟨hitem, hrest⟩, h => by
      obtain ⟨hhead, hnext⟩ := List.forall_mem_cons.mp h
      refine ⟨?_, Selection.itemsAtMost_of_places hrest hnext⟩
      obtain ⟨j, hj, -⟩ := hhead [] item rfl
      obtain ⟨other, hother, -⟩ := Option.bind_eq_some_iff.mp hj
      refine ⟨other, hother, Item.le_of_places hitem fun keys i hat => ?_⟩
      have hbelow := hhead keys i hat
      rwa [Selection.at?_cons, hother] at hbelow

theorem Item.le_of_places : ∀ {x y : Item}, x.WellFormed →
    (∀ keys i, Item.at? keys x = some i → ∃ j, Item.at? keys y = some j ∧ i.MatchedBy j) → x ≤ y
  | .leaf, _, _, _ => trivial
  | .node _, .leaf, _, h => by
      obtain ⟨_, hj, hmatched⟩ := h [] _ rfl
      cases hj
      exact hmatched
  | .node s, .node t, hs, h => Selection.le_of_places (s := s) (t := t) hs h

end

/-- **A selection is at most another one exactly if it is matched there at every place.** -/
theorem Selection.le_iff {s t : Selection} (hs : s.WellFormed) :
    s ≤ t ↔ ∀ keys i, s.at? keys = some i → ∃ j, t.at? keys = some j ∧ i.MatchedBy j :=
  ⟨fun h _ _ => Item.exists_at?_of_le (x := .node s) (y := .node t) h, Selection.le_of_places hs⟩

/-! ## 3. Merging at places -/

/-- What stands at a place is well formed. -/
theorem Item.WellFormed.at? {x i : Item} (h : x.WellFormed) {keys : List Key}
    (hat : Item.at? keys x = some i) : i.WellFormed := by
  induction keys generalizing x with
  | nil =>
    cases hat
    exact h
  | cons key keys ih =>
    match x, h with
    | .node ⟨_, _, is⟩, ⟨_, _, his⟩ =>
      obtain ⟨item, hitem, hat⟩ := Option.bind_eq_some_iff.mp hat
      exact ih (Selection.itemsWellFormed_iff.mp his _ (Table.mem_of_get? hitem)) hat

namespace Selection

/-- Under a key stands what one of the two has there, or both merged. -/
theorem get?_merge (s : Selection) {t : Selection} (ht : t.WellFormed) (key : Key) :
    (s.merge t).get? key = Option.merge Item.merge (s.get? key) (t.get? key) := by
  obtain ⟨a, w, is⟩ := s
  obtain ⟨b, v, js⟩ := t
  rw [merge, get?, items_mk, mergeItems_eq]
  exact Table.get?_mergeWith Item.merge key is ht.2.1

/-- An argument has the value of the second, or else that of the first. -/
theorem argument?_merge (s : Selection) {t : Selection} (ht : t.WellFormed) (name : String) :
    (s.merge t).argument? name = (t.argument? name).or (s.argument? name) := by
  obtain ⟨a, w, is⟩ := s
  obtain ⟨b, v, js⟩ := t
  have hput : Table.get? name (Table.putAll a b) =
      Option.merge (fun _ new => new) (Table.get? name a) (Table.get? name b) :=
    Table.get?_mergeWith (fun _ new => new) name a ht.1.1
  rw [merge, argument?, arguments_mk, hput, argument?, argument?, arguments_mk, arguments_mk]
  cases Table.get? name a <;> cases Table.get? name b <;> rfl

end Selection

/-- **At a place stands what stood there in one of the two, or both merged.** -/
theorem Item.at?_merge (keys : List Key) (x : Item) {y : Item} (hy : y.WellFormed) :
    Item.at? keys (x.merge y) = Option.merge Item.merge (Item.at? keys x) (Item.at? keys y) := by
  induction keys generalizing x y with
  | nil => rfl
  | cons key keys ih =>
    match x, y, hy with
    | x, .leaf, _ => rw [Item.merge, Item.at?, Option.merge_none_right]
    | .leaf, .node t, _ => rw [Item.merge, Item.at?, Option.merge_none_left]
    | .node s, .node t, ht =>
      rw [Item.merge, Item.at?, Item.at?, Item.at?, Selection.get?_merge s ht]
      cases hitem : t.get? key with
      | none => simp
      | some item =>
        have hat : Item.at? [key] (.node t) = some item :=
          Option.bind_eq_some_iff.mpr ⟨item, hitem, rfl⟩
        have hwell : item.WellFormed := Item.WellFormed.at? ht hat
        cases s.get? key with
        | none => simp
        | some old => exact ih old hwell

/-- The arguments of an item that is merged. -/
theorem Item.argument?_merge (x : Item) {y : Item} (hy : y.WellFormed) (name : String) :
    (x.merge y).argument? name = (y.argument? name).or (x.argument? name) := by
  match x, y, hy with
  | _, .leaf, _ => rw [Item.merge, Item.argument?, Option.none_or]
  | .leaf, .node _, _ => rw [Item.merge, Item.argument?, Item.argument?, Option.or_none]
  | .node s, .node _, ht =>
    rw [Item.merge]
    exact Selection.argument?_merge s ht name

theorem Item.matchedBy_refl (x : Item) : x.MatchedBy x := by
  cases x with
  | leaf => trivial
  | node s => exact id

/-- What is merged may stand in the place of the first. -/
theorem Item.matchedBy_merge_left (x y : Item) : x.MatchedBy (x.merge y) := by
  match x, y with
  | .leaf, _ => trivial
  | .node _, .leaf => exact id
  | .node ⟨_, w, _⟩, .node ⟨_, v, _⟩ =>
    rw [Item.merge, Selection.merge]
    exact fun h => Bool.or_eq_true_iff.mpr (Or.inl h)

/-- What is merged may stand in the place of the second. -/
theorem Item.matchedBy_merge_right (x y : Item) : y.MatchedBy (x.merge y) := by
  match x, y with
  | _, .leaf => trivial
  | .leaf, .node _ => exact id
  | .node ⟨_, w, _⟩, .node ⟨_, v, _⟩ =>
    rw [Item.merge, Selection.merge]
    exact fun h => Bool.or_eq_true_iff.mpr (Or.inr h)

/-- What may stand in the place of both may stand in the place of what is merged. -/
theorem Item.merge_matchedBy {x y z : Item} (hx : x.MatchedBy z) (hy : y.MatchedBy z) :
    (x.merge y).MatchedBy z := by
  match x, y, z, hx, hy with
  | _, .leaf, _, hx, _ => rwa [Item.merge]
  | .leaf, .node _, _, _, hy => rwa [Item.merge]
  | .node ⟨_, w, _⟩, .node ⟨_, v, _⟩, .node _, hx, hy =>
    rw [Item.merge, Selection.merge]
    exact fun h => (Bool.or_eq_true_iff.mp h).elim hx hy

/-! ## 4. The least selection that holds both -/

namespace Selection

variable {r s t : Selection}

theorem at?_merge (keys : List Key) (r : Selection) (hs : s.WellFormed) :
    (r.merge s).at? keys = Option.merge Item.merge (r.at? keys) (s.at? keys) :=
  Item.at?_merge keys (.node r) (y := .node s) hs

theorem argumentAt?_merge (keys : List Key) (name : String) (r : Selection) (hs : s.WellFormed) :
    (r.merge s).argumentAt? keys name =
      (s.argumentAt? keys name).or (r.argumentAt? keys name) := by
  rw [argumentAt?, argumentAt?, argumentAt?, at?_merge keys r hs]
  cases hy : s.at? keys with
  | none => rw [Option.merge_none_right, Option.bind_none, Option.none_or]
  | some y =>
    cases r.at? keys with
    | none => exact Option.or_none.symm
    | some x => exact Item.argument?_merge x (Item.WellFormed.at? (x := .node s) hs hy) name

theorem le_merge_left (hr : r.WellFormed) (hs : s.WellFormed) : r ≤ r.merge s := by
  refine (le_iff hr).mpr fun keys i hat => ?_
  rw [at?_merge keys r hs, hat]
  cases s.at? keys with
  | none => exact ⟨i, rfl, i.matchedBy_refl⟩
  | some j => exact ⟨i.merge j, rfl, i.matchedBy_merge_left j⟩

theorem le_merge_right (r : Selection) (hs : s.WellFormed) : s ≤ r.merge s := by
  refine (le_iff hs).mpr fun keys i hat => ?_
  rw [at?_merge keys r hs, hat]
  cases r.at? keys with
  | none => exact ⟨i, rfl, i.matchedBy_refl⟩
  | some j => exact ⟨j.merge i, rfl, j.matchedBy_merge_right i⟩

theorem merge_le (hr : r.WellFormed) (hs : s.WellFormed) (hrt : r ≤ t) (hst : s ≤ t) :
    r.merge s ≤ t := by
  refine (le_iff (hr.merge hs)).mpr fun keys i hat => ?_
  rw [at?_merge keys r hs] at hat
  cases hx : r.at? keys with
  | none =>
    rw [hx, Option.merge_none_left] at hat
    exact (le_iff hs).mp hst keys i hat
  | some x =>
    obtain ⟨z, hz, hxz⟩ := (le_iff hr).mp hrt keys x hx
    cases hy : s.at? keys with
    | none =>
      rw [hx, hy] at hat
      cases hat
      exact ⟨z, hz, hxz⟩
    | some y =>
      obtain ⟨z', hz', hyz⟩ := (le_iff hs).mp hst keys y hy
      obtain rfl := Option.some.inj (hz.symm.trans hz')
      rw [hx, hy] at hat
      cases hat
      exact ⟨z, hz, Item.merge_matchedBy hxz hyz⟩

/-- **Merging makes the least selection that holds both**: each of the two is at most what is
    merged, and that is at most every selection that both are at most. Wherever it has a node, that
    has an argument with the value of the second, or else of the first, or has it not. -/
theorem merge_least (hr : r.WellFormed) (hs : s.WellFormed) :
    (r ≤ r.merge s ∧ s ≤ r.merge s) ∧ (∀ t, r ≤ t → s ≤ t → r.merge s ≤ t) ∧
      ∀ keys u, (r.merge s).at? keys = some (.node u) → ∀ name,
        u.argument? name = (s.argumentAt? keys name).or (r.argumentAt? keys name) := by
  refine ⟨⟨le_merge_left hr hs, le_merge_right r hs⟩, fun t => merge_le hr hs,
    fun keys u hat name => ?_⟩
  rw [← argumentAt?_merge keys name r hs, argumentAt?, hat]
  rfl

/-- A listing merged into an offer holds both, and is held by them merged the other way round; its
    price is in the listing's currency, and net as that of the offer. -/
theorem merge_least_offer_listing :
    (offer.WellFormed ∧ listing.WellFormed) ∧
      (offer ≤ offer.merge listing ∧ listing ≤ offer.merge listing) ∧
      offer.merge listing ≤ listing.merge offer ∧
      ∃ u, (offer.merge listing).at? [.field "price"] = some (.node u) ∧
        u.argument? "currency" = some (.enum "EUR") ∧ u.argument? "net" = some (.boolean true) ∧
        u.argument? "first" = none := by
  obtain ⟨hboth, hleast, harguments⟩ := merge_least wellFormed_offer wellFormed_listing
  obtain ⟨⟨hlisting, hoffer⟩, -⟩ := merge_least wellFormed_listing wellFormed_offer
  refine ⟨⟨wellFormed_offer, wellFormed_listing⟩, hboth, hleast _ hoffer hlisting, _, rfl, ?_⟩
  have hprice := harguments [.field "price"] _ rfl
  exact ⟨hprice "currency", hprice "net", hprice "first"⟩

end Selection

end FieldSelection
