import FieldSelection.Proofs.Schema.Lookup
import FieldSelection.Proofs.Selection.Merging
import FieldSelection.Proofs.Selection.Places
import Mathlib.Data.List.Nodup

/-!
# Requests as texts of expanded selections

`Selection.expanded` writes the marks for all scalar fields out in the selection itself: it takes
the descriptions of the types as they stand in the schema, puts the scalars that a mark stands for
under the first keys, as leaves, and clears the mark. That is again a well-formed selection, and
nothing in it is marked (`unmarked_expanded`).

* The text of a request is the text of the expanded selection
  (`requestText_eq_text_expanded`): the writer of requests finds the same types from descriptor to
  descriptor, and its scalars ahead of the keys are the new leaves.
* Where nothing is marked, schema and type do not matter (`requestLines_of_unmarked`).
-/

namespace FieldSelection

/-! ## 1. Expanding -/

/-- No type lists a scalar twice. -/
def Schema.ScalarsOnce (s : Schema) : Prop :=
  ∀ e ∈ s.types, e.2.scalars.Nodup

/-- Whether a mark stands for a scalar of the type, in a selection with the given items: no item
    stands under it, and if the type has a field of that name, this needs no arguments. -/
def TypeDescription.isOpen (t : TypeDescription) (items : List (Key × Item)) (name : String) :
    Bool :=
  !Table.contains (.field name) items &&
    (Table.get? name t.fields).all fun f => f.arguments.all fun a => !Signature.isNonNull a.2

/-- The leaves that the mark of a selection stands for. It stands for nothing where the type is not
    known. -/
def Selection.markLeaves (t? : Option TypeDescription) (s : Selection) : List (Key × Item) :=
  match s.allScalars, t? with
  | true, some t => (t.scalars.filter (t.isOpen s.items)).map fun name => (.field name, .leaf)
  | _, _ => []

/-- The type of the selection under a key, in a type whose description may not be known. -/
def Key.targetIn? (t? : Option TypeDescription) : Key → Option String
  | .field name => t?.bind fun t => Schema.target? t name
  | .onType name => some name

/-- The description of a type that may not be known. -/
def Schema.description? (s : Schema) (type? : Option String) : Option TypeDescription :=
  type?.bind fun type => Table.get? type s.types

mutual

/-- The selection with its marks written out, as a selection of a type that may not be known. -/
def Selection.expanded (schema : Schema) (type? : Option String) : Selection → Selection
  | ⟨arguments, marked, items⟩ =>
    let t? := schema.description? type?
    ⟨arguments, false, Table.ofEntries
      (Selection.markLeaves t? ⟨arguments, marked, items⟩ ++
        Selection.expandedItems schema t? items)⟩

/-- The items with their marks written out. -/
def Selection.expandedItems (schema : Schema) (t? : Option TypeDescription) :
    List (Key × Item) → List (Key × Item)
  | [] => []
  | (key, item) :: rest =>
    (key, Item.expanded schema (key.targetIn? t?) item) :: Selection.expandedItems schema t? rest

/-- The item with its marks written out. -/
def Item.expanded (schema : Schema) (type? : Option String) : Item → Item
  | .leaf => .leaf
  | .node s => .node (Selection.expanded schema type? s)

end

/-! ## 2. Expanded selections are selections -/

namespace Selection

variable {schema : Schema} {type? : Option String} {t? : Option TypeDescription}

theorem keys_expandedItems (items : List (Key × Item)) :
    Table.keys (expandedItems schema t? items) = Table.keys items := by
  induction items with
  | nil => rfl
  | cons e rest ih => rw [expandedItems, Table.keys_cons, Table.keys_cons, ih]

/-- A leaf that a mark stands for is none of the items. -/
theorem key_notMem_of_mem_markLeaves {s : Selection} {e : Key × Item}
    (h : e ∈ s.markLeaves t?) : e.1 ∉ Table.keys s.items ∧ e.2 = .leaf := by
  unfold markLeaves at h
  split at h
  · obtain ⟨name, hname, rfl⟩ := List.mem_map.mp h
    have hopen := (List.mem_filter.mp hname).2
    rw [TypeDescription.isOpen, Bool.and_eq_true, Bool.not_eq_true'] at hopen
    refine ⟨(Table.get?_eq_none_iff _ _).mp ?_, rfl⟩
    simpa [Table.contains] using hopen.1
  · cases h

theorem nodup_keys_markLeaves (h : schema.ScalarsOnce) (s : Selection) :
    (Table.keys (s.markLeaves (schema.description? type?))).Nodup := by
  unfold markLeaves
  split
  · rename_i t hmark ht
    obtain ⟨type, -, ht⟩ := Option.bind_eq_some_iff.mp ht
    have hscalars : t.scalars.Nodup := h _ (Table.mem_of_get? ht)
    rw [Table.keys, List.map_map]
    exact (hscalars.filter _).map fun _ _ hkey => Key.field.inj hkey
  · exact List.nodup_nil

/-- The leaves and the items have no key in common. -/
theorem nodup_keys_expanded (h : schema.ScalarsOnce) (type? : Option String)
    (a : List (String × Literal)) (w : Bool) {is : List (Key × Item)}
    (hkeys : (Table.keys is).Nodup) :
    (Table.keys ((mk a w is).markLeaves (schema.description? type?) ++
      expandedItems schema (schema.description? type?) is)).Nodup := by
  rw [Table.keys_append, keys_expandedItems, List.nodup_append]
  refine ⟨nodup_keys_markLeaves h _, hkeys, ?_⟩
  rintro key hleaf _ hitem rfl
  obtain ⟨e, he, rfl⟩ := List.mem_map.mp hleaf
  exact (key_notMem_of_mem_markLeaves he).1 hitem

/-- Where no type lists a scalar twice, the leaves stand ahead of the items. -/
theorem expanded_eq (h : schema.ScalarsOnce) {a : List (String × Literal)} {w : Bool}
    {is : List (Key × Item)} (hkeys : (Table.keys is).Nodup) :
    (mk a w is).expanded schema type? = ⟨a, false,
      (mk a w is).markLeaves (schema.description? type?) ++
        expandedItems schema (schema.description? type?) is⟩ := by
  rw [expanded]
  exact congrArg _ (Table.ofEntries_eq_self (nodup_keys_expanded h _ a w hkeys))

theorem arguments_expanded (s : Selection) : (s.expanded schema type?).arguments = s.arguments := by
  obtain ⟨_, _, _⟩ := s
  rw [expanded]
  rfl

end Selection

section Expanded

variable {schema : Schema}

mutual

/-- An expanded selection is well formed, and nothing in it is marked. -/
theorem Selection.unmarked_expanded (h : schema.ScalarsOnce) : ∀ (s : Selection)
    (type? : Option String), s.WellFormed →
      (s.expanded schema type?).WellFormed ∧ (s.expanded schema type?).Unmarked
  | ⟨arguments, marked, items⟩, type?, ⟨harguments, hkeys, hitems⟩ => by
      rw [Selection.expanded_eq h hkeys]
      -- The leaves are new keys, so the new table is the leaves and then the items.
      have hnodup := Selection.nodup_keys_expanded h type? arguments marked hkeys
      have hleaves : ∀ e ∈ Selection.markLeaves (schema.description? type?)
          ⟨arguments, marked, items⟩,
          e.2.WellFormed ∧ e.2.Everywhere fun t => t.allScalars = false := by
        intro e he
        rw [(Selection.key_notMem_of_mem_markLeaves he).2]
        exact ⟨trivial, Item.everywhere_leaf _⟩
      have hall := List.forall_mem_append.mpr ⟨hleaves,
        Selection.unmarked_expandedItems h items (schema.description? type?) hitems⟩
      refine ⟨⟨harguments, hnodup, ?_⟩, ?_⟩
      · exact Selection.itemsWellFormed_iff.mpr fun e he => (hall e he).1
      · exact (Selection.everywhere_iff hnodup).mpr ⟨rfl, fun e he => (hall e he).2⟩

/-- Expanded items are well formed, and nothing in them is marked. -/
theorem Selection.unmarked_expandedItems (h : schema.ScalarsOnce) : ∀ (items : List (Key × Item))
    (t? : Option TypeDescription), Selection.ItemsWellFormed items →
      ∀ e ∈ Selection.expandedItems schema t? items,
        e.2.WellFormed ∧ e.2.Everywhere fun t => t.allScalars = false
  | [], _, _ => List.forall_mem_nil _
  | (_, item) :: rest, t?, ⟨hitem, hrest⟩ =>
      List.forall_mem_cons.mpr
        ⟨Item.unmarked_expanded h item _ hitem, Selection.unmarked_expandedItems h rest t? hrest⟩

/-- An expanded item is well formed, and nothing in it is marked. -/
theorem Item.unmarked_expanded (h : schema.ScalarsOnce) : ∀ (item : Item) (type? : Option String),
    item.WellFormed → (item.expanded schema type?).WellFormed ∧
      (item.expanded schema type?).Everywhere fun t => t.allScalars = false
  | .leaf, _, _ => ⟨trivial, Item.everywhere_leaf _⟩
  | .node s, type?, hs => Selection.unmarked_expanded h s type? hs

end

end Expanded

/-! ## 3. Lines -/

theorem Selection.itemsLines_append (level : Nat) (is js : List (Key × Item)) :
    Selection.itemsLines level (is ++ js) =
      Selection.itemsLines level is ++ Selection.itemsLines level js := by
  induction is with
  | nil => rfl
  | cons e rest ih => rw [List.cons_append, itemsLines, itemsLines, ih, List.append_assoc]

theorem Selection.itemsLines_leaves (level : Nat) (names : List String) :
    Selection.itemsLines level (names.map fun name => (.field name, .leaf)) =
      nameLines level names := by
  induction names with
  | nil => rfl
  | cons name rest ih => rw [List.map_cons, itemsLines, ih]; rfl

section Lines

variable {schema : Schema}

/-- The scalars that a mark stands for are the same from the descriptor as from the description. -/
theorem Schema.markedScalars_eq {t : TypeDescription} {type : String} {d : TypeDescriptor}
    (ht : Table.get? type schema.types = some t) (hd : schema.descriptor? type = some d)
    (items : List (Key × Item)) : d.markedScalars items = t.scalars.filter (t.isOpen items) := by
  obtain ⟨t', ht', rfl⟩ := Schema.descriptor?_eq_some_iff.mp hd
  obtain rfl := Option.some.inj (ht.symm.trans ht')
  refine congrArg (t.scalars.filter ·) (funext fun name => ?_)
  rw [Schema.field?_descriptor, TypeDescription.isOpen]
  cases Table.get? name t.fields with
  | none => rfl
  | some f => simp [Schema.describeField, ← List.not_any_eq_all_not]

/-- A type has a descriptor if it has a description. -/
theorem Schema.description?_cases (schema : Schema) (type? : Option String) :
    (schema.description? type? = none ∧ type?.bind schema.descriptor? = none) ∨
      ∃ type t d, Table.get? type schema.types = some t ∧ schema.descriptor? type = some d ∧
        schema.description? type? = some t ∧ type?.bind schema.descriptor? = some d := by
  cases type? with
  | none => exact Or.inl ⟨rfl, rfl⟩
  | some type =>
    cases ht : Table.get? type schema.types with
    | none =>
      refine Or.inl ⟨ht, ?_⟩
      rw [Option.bind_some, descriptor?, ht]
      rfl
    | some t =>
      have hd := descriptor?_eq_some_iff.mpr ⟨t, ht, rfl⟩
      exact Or.inr ⟨type, t, _, ht, hd, ht, hd⟩

/-- The type under a key is the same from the descriptor as from the description. -/
theorem Key.target?_eq (type? : Option String) (key : Key) :
    key.target? (type?.bind schema.descriptor?) = key.targetIn? (schema.description? type?) := by
  cases key with
  | onType name => rfl
  | field name =>
    rcases schema.description?_cases type? with ⟨ht, hd⟩ | ⟨type, t, d, ht, hd, ht', hd'⟩
    · rw [ht, hd]
      rfl
    · rw [ht', hd', ← hd]
      exact Schema.target?_field ht name

/-- The lines of a mark in a request are the lines of its leaves. -/
theorem Selection.itemsLines_markLeaves (type? : Option String) (level : Nat) (s : Selection) :
    Selection.itemsLines level (s.markLeaves (schema.description? type?)) =
      match s.allScalars, type?.bind schema.descriptor? with
      | true, some d => nameLines level (d.markedScalars s.items)
      | _, _ => [] := by
  unfold markLeaves
  rcases schema.description?_cases type? with ⟨ht, hd⟩ | ⟨type, t, d, ht, hd, ht', hd'⟩
  · rw [ht, hd]
    cases s.allScalars <;> rfl
  · rw [ht', hd']
    cases s.allScalars with
    | false => rfl
    | true =>
      simp only [Schema.markedScalars_eq ht hd]
      exact itemsLines_leaves level _

mutual

/-- The lines of a selection in a request are the lines of the expanded selection. -/
theorem Selection.requestLines_eq (h : schema.ScalarsOnce) : ∀ (s : Selection)
    (type? : Option String) (level : Nat), s.WellFormed →
      s.requestLines schema type? level = (s.expanded schema type?).lines level
  | ⟨arguments, marked, items⟩, type?, level, ⟨_, hkeys, hitems⟩ => by
      rw [Selection.expanded_eq h hkeys, Selection.lines, Selection.itemsLines_append,
        Selection.itemsLines_markLeaves,
        ← Selection.requestItemsLines_eq h items type? level hitems]
      unfold Selection.requestLines
      exact (List.append_nil _).symm

/-- The lines of items in a request are the lines of the expanded items. -/
theorem Selection.requestItemsLines_eq (h : schema.ScalarsOnce) : ∀ (items : List (Key × Item))
    (type? : Option String) (level : Nat), Selection.ItemsWellFormed items →
      Selection.requestItemsLines schema (type?.bind schema.descriptor?) level items =
        Selection.itemsLines level
          (Selection.expandedItems schema (schema.description? type?) items)
  | [], _, _, _ => rfl
  | (key, item) :: rest, type?, level, ⟨hitem, hrest⟩ => by
      rw [Selection.requestItemsLines, Selection.expandedItems, Selection.itemsLines,
        Selection.requestItemsLines_eq h rest type? level hrest, Key.target?_eq,
        Item.requestLines_eq h item _ level key hitem]

/-- The lines of an item in a request are the lines of the expanded item. -/
theorem Item.requestLines_eq (h : schema.ScalarsOnce) : ∀ (item : Item) (type? : Option String)
    (level : Nat) (key : Key), item.WellFormed →
      item.requestLines schema type? level key = (item.expanded schema type?).lines level key
  | .leaf, _, _, _, _ => rfl
  | .node s, type?, level, key, hs => by
      rw [Item.requestLines, Item.expanded, Item.lines, Selection.arguments_expanded,
        Selection.requestLines_eq h s type? (level + 1) hs]

end

mutual

/-- Without marks, the lines in a request are those of the selection. -/
theorem Selection.requestLines_of_unmarked (schema : Schema) : ∀ (s : Selection)
    (type? : Option String) (level : Nat), s.WellFormed → s.Unmarked →
      s.requestLines schema type? level = s.lines level
  | ⟨arguments, marked, items⟩, type?, level, ⟨_, hkeys, hitems⟩, hunmarked => by
      obtain ⟨htop, hunder⟩ := (Selection.everywhere_iff hkeys).mp hunmarked
      obtain rfl : marked = false := htop
      have hlines := Selection.requestItemsLines_of_unmarked schema items
        (type?.bind schema.descriptor?) level hitems hunder
      unfold Selection.requestLines Selection.lines
      exact hlines.trans (List.append_nil _).symm

/-- Without marks, the lines of items in a request are those of the items. -/
theorem Selection.requestItemsLines_of_unmarked (schema : Schema) :
    ∀ (items : List (Key × Item)) (d? : Option TypeDescriptor) (level : Nat),
      Selection.ItemsWellFormed items →
        (∀ e ∈ items, e.2.Everywhere fun t => t.allScalars = false) →
          Selection.requestItemsLines schema d? level items = Selection.itemsLines level items
  | [], _, _, _, _ => rfl
  | (key, item) :: rest, d?, level, ⟨hitem, hrest⟩, hunmarked => by
      obtain ⟨htop, hunder⟩ := List.forall_mem_cons.mp hunmarked
      rw [Selection.requestItemsLines, Selection.itemsLines,
        Item.requestLines_of_unmarked schema item _ level key hitem htop,
        Selection.requestItemsLines_of_unmarked schema rest d? level hrest hunder]

/-- Without marks, the lines of an item in a request are those of the item. -/
theorem Item.requestLines_of_unmarked (schema : Schema) : ∀ (item : Item) (type? : Option String)
    (level : Nat) (key : Key), item.WellFormed →
      (item.Everywhere fun t => t.allScalars = false) →
        item.requestLines schema type? level key = item.lines level key
  | .leaf, _, _, _, _, _ => rfl
  | .node s, type?, level, key, hs, hunmarked => by
      rw [Item.requestLines, Item.lines,
        Selection.requestLines_of_unmarked schema s type? (level + 1) hs hunmarked]

end

end Lines

/-! ## 4. Texts -/

theorem Selection.requestText_expanded {s : Selection} (hs : s.WellFormed) {schema : Schema}
    (h : schema.ScalarsOnce) (type : String) :
    s.requestText schema type = (s.expanded schema (some type)).text := by
  rw [requestText, s.requestLines_eq h (some type) 1 hs]
  rfl

/-- **The text of a request is the text of the expanded selection**, where no type lists a scalar
    twice: a well-formed selection in which nothing is marked. Where nothing was marked to begin
    with, it is the text of the selection itself, whatever the schema and the type. -/
theorem Selection.requestText_eq_text_expanded {s : Selection} (hs : s.WellFormed) :
    (∀ schema : Schema, schema.ScalarsOnce → ∀ type,
      s.requestText schema type = (s.expanded schema (some type)).text ∧
        (s.expanded schema (some type)).WellFormed ∧
          (s.expanded schema (some type)).Unmarked) ∧
      (s.Unmarked → ∀ schema type, s.requestText schema type = s.text) := by
  constructor
  · intro schema hschema type
    exact ⟨requestText_expanded hs hschema type, s.unmarked_expanded hschema (some type) hs⟩
  · intro hunmarked schema type
    rw [requestText, s.requestLines_of_unmarked schema (some type) 1 hs hunmarked]
    rfl

/-- A catalogue that can be ranked, with an entry of a type that is not described. -/
def Schema.catalogue : Schema :=
  ⟨[("Catalogue", ⟨["id", "name", "rank"], [("name", ⟨"String!", []⟩),
      ("rank", ⟨"Int", [("by", "Order!")]⟩), ("entry", ⟨"Entry", []⟩)]⟩),
    ("Book", ⟨["title", "pages"], []⟩)], defaultConnectionSuffix⟩

/-- A catalogue with all scalars, and its entry with all scalars if it is a book. -/
def Selection.catalogued : Selection :=
  ⟨[], true, [(.field "name", .leaf),
    (.field "entry", .node ⟨[], true, [(.onType "Book", .node
      ⟨[], true, [(.field "pages", .leaf)]⟩)]⟩)]⟩

/-- The catalogue with its marks written out. -/
def Selection.writtenOut : Selection :=
  ⟨[], false, [(.field "id", .leaf), (.field "name", .leaf),
    (.field "entry", .node ⟨[], false, [(.onType "Book", .node
      ⟨[], false, [(.field "title", .leaf), (.field "pages", .leaf)]⟩)]⟩)]⟩

/-- The name is there already, the rank needs an order, and of the entry no scalar is known. -/
theorem Selection.requestText_catalogued :
    catalogued.requestText .catalogue "Catalogue" = writtenOut.text ∧
      ∀ schema type, writtenOut.requestText schema type = writtenOut.text := by
  have hs : catalogued.WellFormed := by
    simp [catalogued, WellFormed, ItemsWellFormed, Item.WellFormed, Literal.EntriesWellFormed]
  have hschema : Schema.catalogue.ScalarsOnce := by
    simp [Schema.ScalarsOnce, Schema.catalogue]
  have hexpanded : catalogued.expanded .catalogue (some "Catalogue") = writtenOut := rfl
  obtain ⟨htext, hwell, hunmarked⟩ :=
    (requestText_eq_text_expanded hs).1 .catalogue hschema "Catalogue"
  rw [hexpanded] at htext hwell hunmarked
  exact ⟨htext, (requestText_eq_text_expanded hwell).2 hunmarked⟩

end FieldSelection
