import FieldSelection.Proofs.Resolution.Additions
import FieldSelection.Proofs.Selection.Parsed

/-!
# Selections that can be printed

A `Printable` selection has a text that the grammar has words for: nothing carries the mark for all
scalar fields, neither its top nor a type condition has arguments, and names and words are spelled
as such.

* What is `Legible` below its top stays so when it is merged (`Legible.merge`), when a path is
  added, even if the path fails half way (`Legible.addPath`), and when `id` is added; and only
  merging could bring arguments to the top.
* So whatever is built from texts by these operations (`Built`) is printable
  (`printable_of_built`).
-/

namespace FieldSelection

/-! ## 1. Selections that fit -/

section Fitting

variable {p : Numeral → Prop}

mutual

/-- A selection fits if it is well formed, spelled, plain and not too deep. -/
theorem Selection.Sound.fits : ∀ {s : Selection} {room : Nat}, s.Sound p room → s.Fits p room
  | ⟨arguments, _, items⟩, room, ⟨⟨⟨hnodup, ha⟩, hkeys, hw⟩, ⟨ha', hs⟩, ⟨rfl, hp⟩, hd, hn⟩ => by
      obtain ⟨hd, hd'⟩ := Nat.max_le.mp hd
      obtain ⟨hn, hn'⟩ := List.forall_mem_append.mp hn
      obtain ⟨room, rfl⟩ := Nat.exists_eq_add_of_le' (Nat.lt_of_lt_of_le (Nat.succ_pos _) hd')
      exact ⟨⟨hnodup, ha, ha', hd, hn⟩, rfl, hkeys,
        Selection.itemsFit_of_sound items hw hs hp (Nat.le_of_succ_le_succ hd') hn'⟩

/-- Items fit if they are well formed, spelled, plain and not too deep. -/
theorem Selection.itemsFit_of_sound : ∀ (items : List (Key × Item)) {room : Nat},
    Selection.ItemsWellFormed items → Selection.ItemsSpelled items →
      Selection.ItemsPlain items → Selection.itemsDepth items ≤ room →
        (∀ n ∈ Selection.itemsNumbers items, p n) → Selection.ItemsFit p room items
  | [], _, _, _, _, _, _ => trivial
  | (key, item) :: rest, _, hw, hs, hp, hd, hn => by
      obtain ⟨hd, hd'⟩ := Nat.max_le.mp hd
      obtain ⟨hn, hn'⟩ := List.forall_mem_append.mp hn
      exact ⟨⟨hs.1, Item.fits_of_sound key item hw.1 hs.2.1 hp.1 hd hn⟩,
        Selection.itemsFit_of_sound rest hw.2 hs.2.2 hp.2 hd' hn'⟩

/-- An item fits if it is well formed, spelled, plain and not too deep. -/
theorem Item.fits_of_sound : ∀ (key : Key) (item : Item) {room : Nat}, item.WellFormed →
    item.Spelled → item.Plain key → item.depth ≤ room → (∀ n ∈ item.numbers, p n) →
      item.Fits p room key
  | .field _, .leaf, _, _, _, _, _, _ => trivial
  | .field _, .node s, _, hw, hs, hp, hd, hn => Selection.Sound.fits (s := s) ⟨hw, hs, hp, hd, hn⟩
  | .onType _, .node s, _, hw, hs, ⟨hnone, hp⟩, hd, hn =>
      ⟨hnone, Selection.Sound.fits (s := s) ⟨hw, hs, hp, hd, hn⟩⟩

end

end Fitting

/-! ## 2. Legible selections -/

/-- No key and no name twice, names and words spelled as such, no mark and no arguments of type
    conditions. -/
structure Selection.Legible (s : Selection) : Prop where
  wellFormed : s.WellFormed
  spelled : s.Spelled
  plain : s.Plain

/-- An item that is legible under its key. -/
structure Item.Legible (key : Key) (item : Item) : Prop where
  wellFormed : item.WellFormed
  spelled : item.Spelled
  plain : item.Plain key

namespace Selection

variable {s t : Selection}

theorem Fits.legible {p : Numeral → Prop} {room : Nat} (h : s.Fits p room) : s.Legible :=
  ⟨h.sound.wellFormed, h.sound.spelled, h.sound.plain⟩

theorem Legible.fits (h : s.Legible) {room : Nat}
    (hroom : max (Literal.entriesDepth s.arguments) s.depth ≤ room) :
    s.Fits (fun _ => True) room :=
  Sound.fits ⟨h.wellFormed, h.spelled, h.plain, hroom, fun _ _ => trivial⟩

/-- **Merging keeps selections legible.** -/
theorem Legible.merge (hs : s.Legible) (ht : t.Legible) : (s.merge t).Legible :=
  (Fits.merge (hs.fits (Nat.le_max_left _ _)) (ht.fits (Nat.le_max_right _ _))).legible

theorem legible_empty : empty.Legible :=
  ⟨wellFormed_empty, ⟨trivial, trivial⟩, rfl, trivial⟩

theorem itemsLegible_iff {items : List (Key × Item)} :
    (ItemsWellFormed items ∧ ItemsSpelled items ∧ ItemsPlain items) ↔
      ∀ e ∈ items, isIdentifier e.1.name.toList = true ∧ e.2.Legible e.1 := by
  induction items with
  | nil => simp [ItemsWellFormed, ItemsSpelled, ItemsPlain]
  | cons e rest ih =>
    rw [List.forall_mem_cons, ← ih]
    constructor
    · rintro ⟨⟨hw, hw'⟩, ⟨hkey, hs, hs'⟩, hp, hp'⟩
      exact ⟨⟨hkey, hw, hs, hp⟩, hw', hs', hp'⟩
    · rintro ⟨⟨hkey, hw, hs, hp⟩, hw', hs', hp'⟩
      exact ⟨⟨hw, hw'⟩, ⟨hkey, hs, hs'⟩, hp, hp'⟩

/-- Changing an item or adding one keeps a legible selection legible. -/
theorem Legible.alter {key : Key} {fresh : Item} {onto : Item → Item} (h : s.Legible)
    (hkey : isIdentifier key.name.toList = true) (hfresh : fresh.Legible key)
    (honto : ∀ old : Item, old.Legible key → (onto old).Legible key) :
    (s.withItems (Table.alter key fresh onto s.items)).Legible := by
  obtain ⟨arguments, w, items⟩ := s
  obtain ⟨⟨harguments, hkeys, hw⟩, ⟨hnames, hs⟩, hmark, hp⟩ := h
  have hitems := Table.forall_mem_alter ⟨hkey, hfresh⟩
    (fun old hold => ⟨hkey, honto old hold.2⟩) (itemsLegible_iff.mp ⟨hw, hs, hp⟩)
  obtain ⟨hw, hs, hp⟩ := itemsLegible_iff.mpr hitems
  exact ⟨⟨harguments, Table.nodup_keys_alter key fresh onto items hkeys, hw⟩, ⟨hnames, hs⟩, hmark,
    hp⟩

theorem Legible.put {key : Key} {item : Item} (h : s.Legible)
    (hkey : isIdentifier key.name.toList = true) (hitem : item.Legible key) :
    (s.put key item).Legible :=
  h.alter hkey hitem fun _ _ => hitem

theorem Legible.putNew {key : Key} {item : Item} (h : s.Legible)
    (hkey : isIdentifier key.name.toList = true) (hitem : item.Legible key) :
    (s.putNew key item).Legible :=
  h.alter hkey hitem fun _ hold => hold

theorem Legible.child (h : s.Legible) {name : String} {child : Selection}
    (hget : s.get? (.field name) = some (.node child)) : child.Legible := by
  obtain ⟨arguments, w, items⟩ := s
  obtain ⟨⟨-, -, hw⟩, ⟨-, hs⟩, -, hp⟩ := h
  obtain ⟨-, hchild⟩ := itemsLegible_iff.mp ⟨hw, hs, hp⟩ _ (Table.mem_of_get? hget)
  exact ⟨hchild.wellFormed, hchild.spelled, hchild.plain⟩

theorem legible_leaf (name : String) : Item.leaf.Legible (.field name) :=
  ⟨trivial, trivial, trivial⟩

theorem Legible.node (h : s.Legible) (name : String) : (Item.node s).Legible (.field name) :=
  ⟨h.wellFormed, h.spelled, h.plain⟩

/-- A page size keeps a selection legible. -/
theorem Legible.setNewArgument (h : s.Legible) {name : String} (n : Nat)
    (hname : isIdentifier name.toList = true) :
    (s.setNewArgument name (.ofNat n)).Legible := by
  obtain ⟨arguments, w, items⟩ := s
  obtain ⟨⟨⟨hnodup, ha⟩, hitems⟩, ⟨hnames, hs⟩, hp⟩ := h
  have hfit : Literal.EntriesFit (fun _ => True) (Literal.entriesDepth arguments) arguments :=
    ⟨ha, hnames, Nat.le_refl _, fun _ _ => trivial⟩
  have hnumber : (Literal.ofNat n).Fits (fun _ => True) (Literal.entriesDepth arguments) :=
    ⟨trivial, trivial, Nat.zero_le _, fun _ _ => trivial⟩
  obtain ⟨ha, hnames, -, -⟩ := Literal.entriesFit_iff.mpr
    (Table.forall_mem_alter ⟨hname, hnumber⟩ (fun _ hold => hold) (Literal.entriesFit_iff.mp hfit))
  exact ⟨⟨⟨Table.nodup_keys_alter name _ _ arguments hnodup, ha⟩, hitems⟩, ⟨hnames, hs⟩, hp⟩

/-! ## 3. Paths -/

theorem legible_pageInfo : pageInfo.Legible :=
  (legible_empty.put (by decide) (legible_leaf _)).put (by decide) (legible_leaf _)

/-- A connection that becomes paged stays legible. -/
theorem Legible.entered (h : s.Legible) (pageSize : Nat) (next : String) :
    (s.entered pageSize next).Legible := by
  rw [Selection.entered]
  split
  · exact (h.setNewArgument pageSize (by decide)).putNew (by decide) (legible_pageInfo.node _)
  · exact h

/-- What a path enters is legible. -/
theorem Legible.of_enters (h : s.Legible) {name : String} {child : Selection}
    (henter : s.Enters (.field name) child) : child.Legible := by
  rcases henter with hnode | ⟨-, rfl⟩
  · exact h.child hnode
  · exact legible_empty

variable {pageSize : Nat} {names : List String} {failed : Option String}

/-- **A path keeps a selection legible**, as far as it goes. -/
theorem Legible.adding (hs : s.Legible) (h : Adding pageSize names s t failed)
    (hnames : ∀ name ∈ names, isIdentifier name.toList = true) : t.Legible := by
  refine h.keeps ?_ ?_ ?_ hs
  · exact fun s name hname hs => hs.putNew (hnames name hname) (legible_leaf name)
  · -- Only what a path enters becomes paged, and it enters fields: no type condition and no top.
    exact fun s name child next hs henter => (hs.of_enters henter).entered pageSize next
  · exact fun s name hname t hs ht => hs.put (hnames name hname) (ht.node name)

/-- A path adds no argument to the selection that it starts from. -/
theorem Adding.arguments_eq (h : Adding pageSize names s t failed) :
    t.arguments = s.arguments := by
  cases h <;> rfl

/-- A path keeps a selection legible, and its arguments as they are, even if it fails. -/
theorem Legible.addPath (h : s.Legible) (pageSize : Nat) (path : String) :
    (s.addPath pageSize path).1.Legible ∧ (s.addPath pageSize path).1.arguments = s.arguments := by
  cases hfind : (segments path).find? (fun name => !isIdentifier name.toList) with
  | some segment =>
    rw [addPath_of_invalid hfind]
    exact ⟨h, rfl⟩
  | none =>
    have hnames := find?_invalid_eq_none_iff.mp hfind
    obtain ⟨t, failed, hadding⟩ := exists_adding pageSize path s
    rw [addPath_of_adding hnames hadding]
    exact ⟨h.adding hadding hnames, hadding.arguments_eq⟩

/-! ## 4. What is built -/

/-- A selection with a text that the grammar has words for: no mark, no arguments at its top or of a
    type condition, and names and words spelled as such. -/
structure Printable (s : Selection) : Prop where
  plain : s.Plain
  arguments : s.arguments = []
  spelled : s.Spelled

/-- The selections that are built from that of nothing by reading texts, merging, adding paths and
    adding `id`. -/
inductive Built : Selection → Prop where
  | empty : Built .empty
  /-- What is read from a text takes the place of what was built. -/
  | read {s t : Selection} {limit : Nat} {source : String} (hs : Built s)
      (ht : parseWithin limit source = .ok t) : Built t
  | merge {s t : Selection} (hs : Built s) (ht : Built t) : Built (s.merge t)
  /-- A path that fails leaves what it has done. -/
  | addPath {s : Selection} (hs : Built s) (pageSize : Nat) (path : String) :
      Built (s.addPath pageSize path).1
  | addId {s : Selection} (hs : Built s) : Built (Resolver.addId s)

theorem arguments_merge_eq_nil (hs : s.arguments = []) (ht : t.arguments = []) :
    (s.merge t).arguments = [] := by
  obtain ⟨a, w, is⟩ := s
  obtain ⟨b, v, js⟩ := t
  obtain rfl : a = [] := hs
  obtain rfl : b = [] := ht
  rw [Selection.merge]
  rfl

/-- What is built is legible, and its top has no arguments. -/
theorem Built.legible (h : s.Built) : s.Legible ∧ s.arguments = [] := by
  induction h with
  | empty => exact ⟨legible_empty, rfl⟩
  | read _ ht _ =>
    obtain ⟨ks, -, -, harguments, hfits⟩ := fits_of_parseWithin ht
    exact ⟨hfits.legible, harguments⟩
  | merge _ _ ihs iht => exact ⟨ihs.1.merge iht.1, arguments_merge_eq_nil ihs.2 iht.2⟩
  | addPath _ pageSize path ih =>
    obtain ⟨hlegible, harguments⟩ := ih.1.addPath pageSize path
    exact ⟨hlegible, harguments.trans ih.2⟩
  | addId _ ih =>
    rw [Resolver.addId_eq]
    exact ⟨ih.1.putNew (by decide) (legible_leaf _), ih.2⟩

/-- **What is built is printable**, and has no key and no name twice. -/
theorem printable_of_built (h : s.Built) : s.WellFormed ∧ s.Printable :=
  ⟨h.legible.1.wellFormed, h.legible.1.plain, h.legible.2, h.legible.1.spelled⟩

/-- `outlet { products { nodes { id } } ... on Shop { name } }` -/
def outlet : Selection :=
  ⟨[], false, [(.field "outlet", .node ⟨[], false, [
    (.field "products", .node ⟨[], false, [(.field "nodes", .node (empty.withLeaf "id"))]⟩),
    (.onType "Shop", .node (empty.withLeaf "name"))]⟩)]⟩

/-- The derivation of `outlet { products { nodes { id } } ... on Shop { name } }`. -/
def outletDocument : Grammar.Document :=
  .bare [.nested none "outlet" none
    [.nested none "products" none [.nested none "nodes" none [.leaf none "id"]],
      .fragment "Shop" [.leaf none "name"]]]

/-- The outlet with a page of ten products, and an `id` at the top. -/
def outletPage : Selection :=
  ⟨[], false, [(.field "outlet", .node ⟨[], false, [
    (.field "products", .node ⟨[("first", .ofNat 10)], false,
      [(.field "nodes", .node (empty.withLeaf "id")), (.field "pageInfo", .node pageInfo)]⟩),
    (.onType "Shop", .node (empty.withLeaf "name"))]⟩), (.field "id", .leaf)]⟩

/-- A path that fails below the ids of the products, which it has paged by then. -/
theorem printable_outletPage :
    (outlet.addPath 10 "outlet.products.nodes.id.key").2 =
        some (.throughLeaf "outlet.products.nodes.id.key" "id") ∧ outletPage.Printable := by
  have hread : parseWithin 3 "outlet { products { nodes { id } } ... on Shop { name } }" =
      .ok outlet :=
    parseWithin_of_kinds? (d := outletDocument) (by decide +kernel) (List.cons_ne_nil _ _)
      (Nat.le_refl 3)
  have hbuilt : outlet.Built := .read .empty hread
  have hpage : outletPage.Built :=
    ((hbuilt.merge hbuilt).addPath 10 "outlet.products.nodes.id.key").addId
  exact ⟨rfl, (printable_of_built hpage).2⟩

end Selection

end FieldSelection
