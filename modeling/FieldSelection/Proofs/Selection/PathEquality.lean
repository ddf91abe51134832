import FieldSelection.Proofs.Selection.Equality
import FieldSelection.Proofs.Selection.Paths

/-!
# Paths in equal selections

Adding a path keeps a selection well formed (`WellFormed.addPath`), whether it fails or not. And it
goes the same course in equal selections (`Adding.alike`): what it leaves is equal, and so is how it
fails (`addPath_equiv`). Both follow the course of the path, from what one change does.
-/

namespace FieldSelection

namespace Selection

variable {s t s' t' : Selection}

/-! ## 1. Well-formed selections -/

theorem wellFormed_leaf : Item.leaf.WellFormed := trivial

/-- Changing an item or adding one keeps a selection well formed. -/
theorem WellFormed.alter {fresh : Item} {onto : Item → Item} (h : s.WellFormed) (key : Key)
    (hfresh : fresh.WellFormed) (honto : ∀ old : Item, old.WellFormed → (onto old).WellFormed) :
    (s.withItems (Table.alter key fresh onto s.items)).WellFormed := by
  obtain ⟨a, w, is⟩ := s
  obtain ⟨harguments, hkeys, his⟩ := h
  exact ⟨harguments, Table.nodup_keys_alter key fresh onto is hkeys, his.alter hfresh honto⟩

theorem WellFormed.put (h : s.WellFormed) (key : Key) {item : Item} (hitem : item.WellFormed) :
    (s.put key item).WellFormed :=
  h.alter key hitem fun _ _ => hitem

theorem WellFormed.putNew (h : s.WellFormed) (key : Key) {item : Item} (hitem : item.WellFormed) :
    (s.putNew key item).WellFormed :=
  h.alter key hitem fun _ hold => hold

theorem WellFormed.setNewArgument (h : s.WellFormed) (name : String) {value : Literal}
    (hvalue : value.WellFormed) : (s.setNewArgument name value).WellFormed := by
  obtain ⟨a, w, is⟩ := s
  obtain ⟨⟨hnodup, ha⟩, hitems⟩ := h
  rw [Literal.entriesWellFormed_iff] at ha
  refine ⟨⟨Table.nodup_keys_alter name _ _ a hnodup, Literal.entriesWellFormed_iff.mpr ?_⟩, hitems⟩
  exact Table.forall_mem_alter hvalue (fun _ hold => hold) ha

theorem WellFormed.get? (h : s.WellFormed) {key : Key} {item : Item}
    (hget : s.get? key = some item) : item.WellFormed := by
  obtain ⟨a, w, is⟩ := s
  exact itemsWellFormed_iff.mp h.2.2 _ (Table.mem_of_get? hget)

theorem wellFormed_pageInfo : pageInfo.WellFormed :=
  (wellFormed_empty.put _ wellFormed_leaf).put _ wellFormed_leaf

theorem WellFormed.paged (h : s.WellFormed) (pageSize : Nat) : (s.paged pageSize).WellFormed := by
  have hsize : (Literal.ofNat pageSize).WellFormed := trivial
  have hpage : (Item.node pageInfo).WellFormed := wellFormed_pageInfo
  exact (h.setNewArgument "first" hsize).putNew (.field "pageInfo") hpage

theorem WellFormed.entered (h : s.WellFormed) (pageSize : Nat) (next : String) :
    (s.entered pageSize next).WellFormed := by
  rw [Selection.entered]
  split
  · exact h.paged pageSize
  · exact h

theorem WellFormed.of_enters (h : s.WellFormed) {key : Key} {child : Selection}
    (henter : s.Enters key child) : child.WellFormed := by
  rcases henter with hnode | ⟨-, rfl⟩
  · exact h.get? hnode
  · exact wellFormed_empty

variable {pageSize : Nat} {names : List String} {failed : Option String}

/-- **A path keeps a selection well formed**, as far as it goes. -/
theorem WellFormed.adding (hs : s.WellFormed) (h : Adding pageSize names s t failed) :
    t.WellFormed := by
  refine h.keeps ?_ ?_ ?_ hs
  · exact fun s name _ hs => hs.putNew _ wellFormed_leaf
  · exact fun s name child next hs henter => (hs.of_enters henter).entered pageSize next
  · intro s name _ t hs ht
    have hnode : (Item.node t).WellFormed := ht
    exact hs.put (.field name) hnode

/-! ## 2. Equal selections -/

/-- The selections look alike at every place. -/
def Alike (s t : Selection) : Prop := (Item.node s).Alike (.node t)

theorem alike_iff : s.Alike t ↔ s.allScalars = t.allScalars ∧
    Table.Agree (· ≈ ·) s.arguments t.arguments ∧ Table.Agree Item.Alike s.items t.items := by
  rw [Alike, Item.alike_node_iff, Item.LooksLike, and_assoc]

theorem equiv_iff_alike (hs : s.WellFormed) (ht : t.WellFormed) : s ≈ t ↔ s.Alike t :=
  equiv_iff hs ht

theorem alike_empty : empty.Alike empty :=
  (equiv_iff_alike wellFormed_empty wellFormed_empty).mp (equiv_refl wellFormed_empty)

theorem Alike.alter {x y : Item} {onto onto' : Item → Item} (h : s.Alike t) (key : Key)
    (hxy : x.Alike y) (honto : ∀ x y : Item, x.Alike y → (onto x).Alike (onto' y)) :
    (s.withItems (Table.alter key x onto s.items)).Alike
      (t.withItems (Table.alter key y onto' t.items)) := by
  rw [alike_iff] at h ⊢
  exact ⟨h.1, h.2.1, h.2.2.alter key hxy honto⟩

theorem Alike.put (h : s.Alike t) (key : Key) {x y : Item} (hxy : x.Alike y) :
    (s.put key x).Alike (t.put key y) :=
  h.alter key hxy fun _ _ _ => hxy

theorem Alike.putNew (h : s.Alike t) (key : Key) {x y : Item} (hxy : x.Alike y) :
    (s.putNew key x).Alike (t.putNew key y) :=
  h.alter key hxy fun _ _ hold => hold

theorem Alike.setNewArgument (h : s.Alike t) (name : String) {l m : Literal} (hlm : l ≈ m) :
    (s.setNewArgument name l).Alike (t.setNewArgument name m) := by
  rw [alike_iff] at h ⊢
  exact ⟨h.1, h.2.1.alter name hlm fun _ _ hold => hold, h.2.2⟩

theorem Alike.get? (h : s.Alike t) (key : Key) :
    Option.Rel Item.Alike (s.get? key) (t.get? key) :=
  (alike_iff.mp h).2.2 key

theorem alike_leaf : Item.leaf.Alike .leaf :=
  (Item.equiv_iff wellFormed_leaf wellFormed_leaf).mp rfl

theorem eq_leaf_of_alike {y : Item} (h : Item.leaf.Alike y) : y = .leaf := by
  cases y with
  | leaf => rfl
  | node t => exact (Option.rel_some_some.mp (h [])).elim

theorem exists_of_alike_node {y : Item} (h : (Item.node s).Alike y) :
    ∃ t, y = .node t ∧ s.Alike t := by
  cases y with
  | leaf => exact (Option.rel_some_some.mp (h [])).elim
  | node t => exact ⟨t, rfl, h⟩

theorem alike_pageInfo : pageInfo.Alike pageInfo :=
  (alike_empty.put _ alike_leaf).put _ alike_leaf

theorem Alike.entered (h : s.Alike t) (pageSize : Nat) (next : String) :
    (s.entered pageSize next).Alike (t.entered pageSize next) := by
  rw [Selection.entered, Selection.entered]
  split
  · have hsize : Literal.ofNat pageSize ≈ Literal.ofNat pageSize := Literal.equiv_refl trivial
    exact (h.setNewArgument "first" hsize).putNew _ alike_pageInfo
  · exact h

/-- A path enters what is alike. -/
theorem Enters.alike {key : Key} {child : Selection} (henter : s.Enters key child)
    (h : s.Alike s') : ∃ child', s'.Enters key child' ∧ child.Alike child' := by
  have hkey := h.get? key
  rcases henter with hnode | ⟨hnone, rfl⟩
  · rw [hnode] at hkey
    obtain ⟨y, hy, hlike⟩ := Table.exists_of_rel_some hkey
    obtain ⟨child', rfl, hchild⟩ := exists_of_alike_node hlike
    exact ⟨child', Or.inl hy, hchild⟩
  · rw [hnone] at hkey
    exact ⟨empty, Or.inr ⟨Table.eq_none_of_rel hkey, rfl⟩, alike_empty⟩

/-- **A path goes the same course where selections are alike.** -/
theorem Adding.alike (h : Adding pageSize names s t failed) (hs : s.Alike s') :
    ∃ t', Adding pageSize names s' t' failed ∧ t.Alike t' := by
  induction h generalizing s' with
  | last s name => exact ⟨_, .last s' name, hs.putNew _ alike_leaf⟩
  | @stuck s name next rest hleaf =>
    have hkey := hs.get? (.field name)
    rw [hleaf] at hkey
    obtain ⟨y, hy, hlike⟩ := Table.exists_of_rel_some hkey
    obtain rfl := eq_leaf_of_alike hlike
    exact ⟨s', .stuck next rest hy, hs⟩
  | @into s child t name next rest failed henter h ih =>
    obtain ⟨child', henter', hchild⟩ := henter.alike hs
    obtain ⟨t', h', ht⟩ := ih (hchild.entered pageSize next)
    exact ⟨_, .into henter' h', hs.put _ ht⟩

/-! ## 3. Paths as a whole -/

variable {path : String}

/-- What a path leaves is well formed, even if the path fails. -/
theorem WellFormed.addPath (h : s.WellFormed) (pageSize : Nat) (path : String) :
    (s.addPath pageSize path).1.WellFormed := by
  cases hfind : (segments path).find? (fun name => !isIdentifier name.toList) with
  | some segment =>
    rw [addPath_of_invalid hfind]
    exact h
  | none =>
    obtain ⟨t, failed, hadding⟩ := exists_adding pageSize path s
    rw [addPath_of_adding (find?_invalid_eq_none_iff.mp hfind) hadding]
    exact h.adding hadding

/-- **Adding a path to equal selections leaves equal ones**, and fails in the same way. -/
theorem addPath_equiv (hs : s.WellFormed) (hs' : s'.WellFormed) (h : s ≈ s') (pageSize : Nat)
    (path : String) : (s.addPath pageSize path).1 ≈ (s'.addPath pageSize path).1 ∧
      (s.addPath pageSize path).2 = (s'.addPath pageSize path).2 := by
  cases hfind : (segments path).find? (fun name => !isIdentifier name.toList) with
  | some segment =>
    rw [addPath_of_invalid hfind, addPath_of_invalid hfind]
    exact ⟨h, rfl⟩
  | none =>
    obtain ⟨t, failed, hadding⟩ := exists_adding pageSize path s
    obtain ⟨t', hadding', ht⟩ := hadding.alike ((equiv_iff_alike hs hs').mp h)
    have hnames := find?_invalid_eq_none_iff.mp hfind
    rw [addPath_of_adding hnames hadding, addPath_of_adding hnames hadding']
    exact ⟨(equiv_iff_alike (hs.adding hadding) (hs'.adding hadding')).mpr ht, rfl⟩

end Selection

end FieldSelection
