import FieldSelection.Proofs.Outcome
import FieldSelection.Proofs.Schema.Lookup
import FieldSelection.Synthesis

/-!
# What full selections are made of

`Schema.Full` says, without the order of fields, ancestors and depth, what may stand in the full
selection of a type: the mark if the type lists scalars, and nodes under fields of the type, each of
them full for the target type of its field, or a paged connection around what is full for the type
of its entries. The synthesis makes nothing else (`full_of_fullSelection`), except for the empty
selection where it stops.
-/

namespace FieldSelection

namespace Schema

mutual

/-- A selection that covers a type: the mark goes with scalars, and items stand under fields. -/
inductive Full (s : Schema) (pageSize : Nat) : String → Selection → Prop where
  | intro {type : String} {d : TypeDescriptor} {items : List (Key × Item)}
      (hd : s.descriptor? type = some d) (h : ∀ e ∈ items, FullItem s pageSize d e) :
      Full s pageSize type ⟨[], !d.scalars.isEmpty, items⟩

/-- An entry under a field of a type: a node that covers the type of the field, or a paged
    connection around a node that covers the type of its entries. -/
inductive FullItem (s : Schema) (pageSize : Nat) : TypeDescriptor → Key × Item → Prop where
  | object {d : TypeDescriptor} {f : FieldDescriptor} {child : Selection}
      (hf : d.field? f.name = some f) (hplain : f.isConnection = false)
      (h : Full s pageSize f.type child) (hne : child.isEmpty = false) :
      FullItem s pageSize d (.field f.name, .node child)
  | connection {d : TypeDescriptor} {f : FieldDescriptor} {node : ConnectionNode}
      {entries : Selection} (hf : d.field? f.name = some f) (hconnection : f.isConnection = true)
      (hnode : f.node? = some node) (h : Full s pageSize node.type entries)
      (hne : entries.isEmpty = false) :
      FullItem s pageSize d (.field f.name, .node (node.route.wrap pageSize entries))

end

end Schema

theorem Selection.nonEmpty?_eq_some_iff {s t : Selection} :
    s.nonEmpty? = some t ↔ s = t ∧ t.isEmpty = false := by
  unfold nonEmpty?
  cases h : s.isEmpty with
  | true =>
    simp only [if_true, reduceCtorEq, false_iff, not_and]
    rintro rfl
    simp [h]
  | false =>
    simp only [Bool.false_eq_true, if_false, Option.some.injEq]
    exact ⟨fun e => ⟨e, e ▸ h⟩, fun e => e.1⟩

namespace Schema

section Fields

variable {s : Schema} {pageSize : Nat} {expand : List String} {d : TypeDescriptor}
  {follow : String → Except SelectionError Selection}

/-- What a field brings is an entry for it, if what is followed is full. -/
theorem fullItem_of_fullSelection?
    (hfollow : ∀ type t, follow type = .ok t → t.isEmpty = false → s.Full pageSize type t)
    {f : FieldDescriptor} (hf : d.field? f.name = some f) {child : Selection}
    (h : f.fullSelection? pageSize expand follow = .ok (some child)) :
    s.FullItem pageSize d (.field f.name, .node child) := by
  unfold FieldDescriptor.fullSelection? at h
  split at h
  · cases h
  · split at h
    · rename_i hconnection
      split at h
      · split at h
        · cases h
        · rename_i node hnode
          obtain ⟨entries, hentries, h⟩ := bind_eq_ok_iff.mp h
          obtain ⟨u, hu, rfl⟩ := Option.map_eq_some_iff.mp (Except.ok.inj h)
          obtain ⟨rfl, hne⟩ := Selection.nonEmpty?_eq_some_iff.mp hu
          exact .connection hf hconnection hnode (hfollow _ _ hentries hne) hne
      · cases h
    · rename_i hplain
      obtain ⟨t, ht, h⟩ := bind_eq_ok_iff.mp h
      obtain ⟨rfl, hne⟩ := Selection.nonEmpty?_eq_some_iff.mp (Except.ok.inj h)
      exact .object hf (Bool.eq_false_iff.mpr hplain) (hfollow _ _ ht hne) hne

/-- Adding what a field brings keeps a selection full. -/
theorem full_withNode {type : String} (hd : s.descriptor? type = some d) {t child : Selection}
    {name : String} (ht : s.Full pageSize type t)
    (hitem : s.FullItem pageSize d (.field name, .node child)) :
    s.Full pageSize type (t.withNode name child) := by
  obtain ⟨hd', hitems⟩ := ht
  obtain rfl := Option.some.inj (hd'.symm.trans hd)
  refine .intro hd fun e he => ?_
  rcases Table.mem_put he with rfl | he
  · exact hitem
  · exact hitems e he

/-- Adding what fields bring keeps a selection full. -/
theorem full_addFull {type : String} (hd : s.descriptor? type = some d)
    (hfollow : ∀ type t, follow type = .ok t → t.isEmpty = false → s.Full pageSize type t)
    {fields : List (String × FieldDescriptor)}
    (hfields : ∀ e ∈ fields, d.field? e.2.name = some e.2) {t u : Selection}
    (ht : s.Full pageSize type t)
    (h : Selection.addFull pageSize expand follow fields t = .ok u) : s.Full pageSize type u := by
  induction fields generalizing t with
  | nil =>
    cases h
    exact ht
  | cons e rest ih =>
    rw [List.forall_mem_cons] at hfields
    obtain ⟨next?, hnext, h⟩ := bind_eq_ok_iff.mp h
    cases next? with
    | none => exact ih hfields.2 ht h
    | some child =>
      have hitem := fullItem_of_fullSelection? hfollow hfields.1 hnext
      exact ih hfields.2 (full_withNode hd ht hitem) h

end Fields

variable {s : Schema} {pageSize : Nat}

/-- A full selection that is not empty is full, however much room there is. -/
theorem full_of_fullSelectionWithin (hs : s.WellFormed) {room : Nat}
    {ancestors expand : List String} {type : String} {t : Selection}
    (h : s.fullSelectionWithin pageSize room ancestors expand type = .ok t)
    (hne : t.isEmpty = false) : s.Full pageSize type t := by
  -- on the room: what is followed from a type has one level less
  induction room generalizing ancestors expand type t with
  | zero =>
    unfold fullSelectionWithin at h
    split at h
    · cases h
    · split at h <;> cases h <;> cases hne
  | succ room ih =>
    unfold fullSelectionWithin at h
    split at h
    · cases h
    · rename_i d hd
      split at h
      · cases h
        cases hne
      · have hstart : s.Full pageSize type (Selection.empty.setAllScalars !d.scalars.isEmpty) :=
          .intro hd (List.forall_mem_nil _)
        exact full_addFull hd (fun _ _ => ih) (fun e he => field?_of_mem hs hd he) hstart h

/-- **The full selection of a type is full for it**, unless it is empty. -/
theorem full_of_fullSelection (hs : s.WellFormed) {maxDepth : Nat} {expand : List String}
    {type : String} {t : Selection} (h : s.fullSelection pageSize maxDepth expand type = .ok t)
    (hne : t.isEmpty = false) : s.Full pageSize type t :=
  full_of_fullSelectionWithin hs h hne

end Schema

end FieldSelection
