import FieldSelection.Proofs.Table
import FieldSelection.Selection.Request

/-!
# Looking types up

* A schema that was read has no field of a type twice (`wellFormed_of_ofDatum?`), so the fields of a
  descriptor are the ones found by their names (`field?_of_mem`).
* The entries of a connection are found twice, once along `nodes` or `edges` and `node` in the
  descriptions, and once from descriptor to descriptor: the types are the same
  (`leads_of_connectionNode?`).
-/

namespace FieldSelection

/-! ## 1. Schemas that were read -/

/-- No type has a field twice, as in every schema that was read (`wellFormed_of_ofDatum?`). -/
def Schema.WellFormed (s : Schema) : Prop :=
  ∀ e ∈ s.types, (Table.keys e.2.fields).Nodup

theorem exists_of_mem_mapM {α β : Type} {f : α → Option β} {xs : List α} {ys : List β} {y : β}
    (h : xs.mapM f = some ys) (hy : y ∈ ys) : ∃ x, f x = some y := by
  induction xs generalizing ys with
  | nil =>
    cases h
    cases hy
  | cons x xs ih =>
    rw [List.mapM_cons] at h
    obtain ⟨y', hx, h⟩ := Option.bind_eq_some_iff.mp h
    obtain ⟨ys', hxs, h⟩ := Option.bind_eq_some_iff.mp h
    cases h
    rcases List.mem_cons.mp hy with rfl | hy
    · exact ⟨x, hx⟩
    · exact ih hxs hy

namespace Datum

variable {α : Type} {value : Datum → Option α} {d : Datum} {t : List (String × α)}

/-- A table that was read has no key twice. -/
theorem nodup_keys_tableOf? (h : tableOf? value d = some t) : (Table.keys t).Nodup := by
  unfold tableOf? at h
  split at h
  · obtain ⟨es, -, h⟩ := Option.bind_eq_some_iff.mp h
    cases h
    exact Table.nodup_keys_ofEntries es
  · cases h

/-- The values of a table were read themselves. -/
theorem exists_of_mem_tableOf? (h : tableOf? value d = some t) {e : String × α} (he : e ∈ t) :
    ∃ d', value d' = some e.2 := by
  unfold tableOf? at h
  split at h
  · obtain ⟨es, hes, h⟩ := Option.bind_eq_some_iff.mp h
    cases h
    rcases Table.mem_putAll he with he | he
    · cases he
    · obtain ⟨x, hx⟩ := exists_of_mem_mapM hes he
      obtain ⟨v, hv, rfl⟩ := Option.map_eq_some_iff.mp hx
      exact ⟨x.2, hv⟩
  · cases h

end Datum

theorem TypeDescription.nodup_keys_of_ofDatum? {d : Datum} {type : TypeDescription}
    (h : TypeDescription.ofDatum? d = some type) : (Table.keys type.fields).Nodup := by
  obtain ⟨field, -, h⟩ := Option.bind_eq_some_iff.mp h
  obtain ⟨scalars, -, h⟩ := Option.bind_eq_some_iff.mp h
  obtain ⟨fields, hfields, h⟩ := Option.bind_eq_some_iff.mp h
  cases h
  unfold Datum.orElse at hfields
  split at hfields
  · exact Datum.nodup_keys_tableOf? hfields
  · cases hfields
    exact List.nodup_nil

/-- A schema that was read is well formed. -/
theorem Schema.wellFormed_of_ofDatum? {d : Datum} {types : SchemaDescription} (suffix : String)
    (h : SchemaDescription.ofDatum? d = some types) : WellFormed ⟨types, suffix⟩ := by
  intro e he
  obtain ⟨d', hd'⟩ := Datum.exists_of_mem_tableOf? h he
  exact TypeDescription.nodup_keys_of_ofDatum? hd'

/-! ## 2. Fields of a descriptor -/

namespace Schema

variable {s : Schema} {type name : String} {d : TypeDescriptor} {f : FieldDescriptor}

theorem descriptor?_eq_some_iff : s.descriptor? type = some d ↔
    ∃ t, Table.get? type s.types = some t ∧
      ⟨type, t.scalars, t.fields.map fun e => (e.1, s.describeField t e.1 e.2)⟩ = d := by
  unfold descriptor?
  cases Table.get? type s.types <;> simp

/-- A field of a descriptor describes the field of that name. -/
theorem field?_descriptor (t : TypeDescription) (type name : String) :
    TypeDescriptor.field?
      ⟨type, t.scalars, t.fields.map fun e => (e.1, s.describeField t e.1 e.2)⟩ name =
        (Table.get? name t.fields).map (s.describeField t name) :=
  Table.get?_map (s.describeField t) name t.fields

/-- The fields of a descriptor are found by their names. -/
theorem field?_of_mem (hs : s.WellFormed) (hd : s.descriptor? type = some d)
    {e : String × FieldDescriptor} (he : e ∈ d.fields) : d.field? e.2.name = some e.2 := by
  obtain ⟨t, ht, rfl⟩ := descriptor?_eq_some_iff.mp hd
  obtain ⟨⟨name, field⟩, hfield, rfl⟩ := List.mem_map.mp he
  have hnodup : (Table.keys t.fields).Nodup := hs _ (Table.mem_of_get? ht)
  rw [field?_descriptor]
  show Option.map _ (Table.get? name t.fields) = _
  rw [Table.get?_of_mem hnodup hfield]
  rfl

/-- The entries of a field are those of the connection that is its type. -/
theorem connectionNode?_of_field? (hd : s.descriptor? type = some d) (hf : d.field? name = some f)
    {node : ConnectionNode} (hnode : f.node? = some node) :
    s.connectionNode? f.type = some node := by
  obtain ⟨t, -, rfl⟩ := descriptor?_eq_some_iff.mp hd
  rw [field?_descriptor] at hf
  obtain ⟨field, -, rfl⟩ := Option.map_eq_some_iff.mp hf
  simp only [describeField] at hnode ⊢
  split at hnode
  · exact hnode
  · cases hnode

/-! ## 3. Entries of connections -/

/-- The target of a field is read from the descriptor as from the description. -/
theorem target?_field {t : TypeDescription} (ht : Table.get? type s.types = some t)
    (name : String) : (Key.field name).target? (s.descriptor? type) = target? t name := by
  rw [descriptor?_eq_some_iff.mpr ⟨t, ht, rfl⟩, Key.target?, Option.bind_some, field?_descriptor,
    Option.map_map]
  rfl

/-- The fields of a route lead from the type of a connection to the type of its entries. -/
def Leads (s : Schema) (connection type : String) : ConnectionRoute → Prop
  | .nodes => (Key.field "nodes").target? (s.descriptor? connection) = some type
  | .edges => ∃ edge, (Key.field "edges").target? (s.descriptor? connection) = some edge ∧
      (Key.field "node").target? (s.descriptor? edge) = some type

/-- The entries of a connection are where its route leads. -/
theorem leads_of_connectionNode? {connection : String} {node : ConnectionNode}
    (h : s.connectionNode? connection = some node) :
    s.Leads connection node.type node.route := by
  obtain ⟨t, ht, h⟩ := Option.bind_eq_some_iff.mp h
  have htarget := target?_field ht
  split at h
  · rename_i type htype
    cases h
    exact (htarget "nodes").trans htype
  · obtain ⟨edge, hedge, h⟩ := Option.bind_eq_some_iff.mp h
    obtain ⟨e, he, h⟩ := Option.bind_eq_some_iff.mp h
    obtain ⟨type, htype, h⟩ := Option.bind_eq_some_iff.mp h
    cases h
    exact ⟨edge, (htarget "edges").trans hedge, (target?_field he "node").trans htype⟩

end Schema

end FieldSelection
