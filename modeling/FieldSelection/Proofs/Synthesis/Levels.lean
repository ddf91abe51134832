import FieldSelection.Proofs.Synthesis.Full
import Mathlib.Data.List.Nodup

/-!
# One level of a full selection

A field sets a `Goal`, if it sets one: a type to be selected in full, and for a connection the route
to its entries. `Level` says once what the synthesis makes of a type that it enters, from what it
makes of the goals of its fields: the mark, and a node for each field whose goal selects something,
in the order of the fields.

The synthesis makes a level, or stops with the empty selection where there is no room or the type
was entered before (`level_of_ok`). It fails on a type that is not known, or on the goal of a field
(`failure_of_error`). All else about full selections follows by induction on the room.
-/

namespace FieldSelection

/-! ## 1. Goals of fields -/

/-- What a field has a full selection follow: a type, and for a connection how its entries are
    reached. -/
structure Goal where
  type : String
  route? : Option ConnectionRoute

/-- The selection of a field, from the one of its goal. -/
def Goal.selection (pageSize : Nat) (goal : Goal) (s : Selection) : Selection :=
  match goal.route? with
  | none => s
  | some route => route.wrap pageSize s

/-- The goal that a field sets, where `expand` names the connections to follow. -/
def FieldDescriptor.goal? (expand : List String) (f : FieldDescriptor) : Option Goal :=
  if f.isScalar || f.needsArguments then none
  else if f.isConnection then
    if expand.contains f.name then f.node?.map fun node => ⟨node.type, some node.route⟩ else none
  else some ⟨f.type, none⟩

namespace FieldDescriptor

variable {pageSize : Nat} {expand : List String} {follow : String → Except SelectionError Selection}
  {f : FieldDescriptor} {goal : Goal}

/-- A field brings what its goal comes to, unless that is empty. -/
theorem fullSelection?_eq_goal (pageSize : Nat) (expand : List String)
    (follow : String → Except SelectionError Selection) (f : FieldDescriptor) :
    f.fullSelection? pageSize expand follow =
      match f.goal? expand with
      | none => .ok none
      | some goal => (follow goal.type).map fun s => s.nonEmpty?.map (goal.selection pageSize) := by
  rw [fullSelection?, goal?]
  split
  · rfl
  split
  · split
    · cases f.node? with
      | none => rfl
      | some node => cases follow node.type <;> rfl
    · rfl
  · cases hf : follow f.type with
    | error e => simp only [hf]; rfl
    | ok s =>
      have hsame : s.nonEmpty?.map (Goal.selection pageSize ⟨f.type, none⟩) = s.nonEmpty? :=
        Option.map_id'
      simp only [hf, Except.map, hsame]
      rfl

theorem fullSelection?_eq_some_iff {child : Selection} :
    f.fullSelection? pageSize expand follow = .ok (some child) ↔
      ∃ goal u, f.goal? expand = some goal ∧ follow goal.type = .ok u ∧ u.isEmpty = false ∧
        goal.selection pageSize u = child := by
  rw [fullSelection?_eq_goal]
  cases f.goal? expand with
  | none => exact ⟨nofun, nofun⟩
  | some goal =>
    constructor
    · intro h
      obtain ⟨u, hu, h⟩ := map_eq_ok_iff.mp h
      obtain ⟨u', hu', rfl⟩ := Option.map_eq_some_iff.mp h
      obtain ⟨rfl, hne⟩ := Selection.nonEmpty?_eq_some_iff.mp hu'
      exact ⟨goal, u, rfl, hu, hne, rfl⟩
    · rintro ⟨_, u, ⟨⟩, hu, hne, rfl⟩
      have hsome : u.nonEmpty? = some u := Selection.nonEmpty?_eq_some_iff.mpr ⟨rfl, hne⟩
      exact map_eq_ok_iff.mpr ⟨u, hu, by rw [hsome]; rfl⟩

theorem exists_follow_of_fullSelection? {child? : Option Selection}
    (h : f.fullSelection? pageSize expand follow = .ok child?)
    (hgoal : f.goal? expand = some goal) : ∃ u, follow goal.type = .ok u := by
  rw [fullSelection?_eq_goal, hgoal] at h
  obtain ⟨u, hu, -⟩ := map_eq_ok_iff.mp h
  exact ⟨u, hu⟩

theorem follow_of_fullSelection?_error {e : SelectionError}
    (h : f.fullSelection? pageSize expand follow = .error e) :
    ∃ goal, f.goal? expand = some goal ∧ follow goal.type = .error e := by
  rw [fullSelection?_eq_goal] at h
  split at h
  · cases h
  · rename_i goal hgoal
    exact ⟨goal, hgoal, map_eq_error_iff.mp h⟩

/-- The entry of a field in a full selection, if it brings one. -/
def fullItem? (pageSize : Nat) (expand : List String)
    (follow : String → Except SelectionError Selection) (f : FieldDescriptor) :
    Option (Key × Item) :=
  match f.fullSelection? pageSize expand follow with
  | .ok (some child) => some (.field f.name, .node child)
  | _ => none

theorem fullItem?_eq_some_iff {e : Key × Item} :
    f.fullItem? pageSize expand follow = some e ↔
      ∃ child, f.fullSelection? pageSize expand follow = .ok (some child) ∧
        (.field f.name, .node child) = e := by
  rw [fullItem?]
  split
  · rename_i child h
    simp [h]
  · rename_i hnot
    constructor
    · exact nofun
    · rintro ⟨child, h, -⟩
      exact absurd h (hnot child)

end FieldDescriptor

/-! ## 2. The fields of a type -/

namespace Selection

variable {pageSize : Nat} {expand : List String} {follow : String → Except SelectionError Selection}
  {fields : List (String × FieldDescriptor)} {t u : Selection}

/-- The entries come in the order of the fields. -/
theorem keys_entries_sublist (pageSize : Nat) (expand : List String)
    (follow : String → Except SelectionError Selection) (fields : List (String × FieldDescriptor)) :
    (Table.keys (fields.filterMap fun e => e.2.fullItem? pageSize expand follow)).Sublist
      (fields.map fun e => .field e.2.name) := by
  induction fields with
  | nil => exact .slnil
  | cons e rest ih =>
    rw [List.filterMap_cons, List.map_cons]
    cases hitem : e.2.fullItem? pageSize expand follow with
    | none => exact ih.cons _
    | some entry =>
      obtain ⟨child, -, rfl⟩ := FieldDescriptor.fullItem?_eq_some_iff.mp hitem
      exact ih.cons_cons _

/-- **Fields of different names bring their entries one after another.** -/
theorem addFull_eq_ok (hnodup : (fields.map fun e => Key.field e.2.name).Nodup)
    (hnew : ∀ e ∈ fields, Key.field e.2.name ∉ Table.keys t.items)
    (h : addFull pageSize expand follow fields t = .ok u) :
    u = ⟨t.arguments, t.allScalars,
        t.items ++ fields.filterMap fun e => e.2.fullItem? pageSize expand follow⟩ ∧
      ∀ e ∈ fields, ∃ child?, e.2.fullSelection? pageSize expand follow = .ok child? := by
  induction fields generalizing t with
  | nil =>
    cases h
    refine ⟨?_, List.forall_mem_nil _⟩
    rw [List.filterMap_nil, List.append_nil]
    cases u
    rfl
  | cons e rest ih =>
    obtain ⟨hfresh, hnodup⟩ := List.nodup_cons.mp hnodup
    obtain ⟨hkey, hnew⟩ := List.forall_mem_cons.mp hnew
    obtain ⟨child?, hchild, h⟩ := bind_eq_ok_iff.mp h
    rw [List.forall_mem_cons, List.filterMap_cons, FieldDescriptor.fullItem?, hchild]
    cases child? with
    | none =>
      obtain ⟨hu, hrest⟩ := ih hnodup hnew h
      exact ⟨hu, ⟨none, rfl⟩, hrest⟩
    | some child =>
      -- the key is new, so its entry goes to the end
      have hput : (t.withNode e.2.name child).items =
          t.items ++ [(.field e.2.name, .node child)] := Table.alter_of_notMem _ _ hkey
      have hnew' : ∀ e' ∈ rest,
          Key.field e'.2.name ∉ Table.keys (t.withNode e.2.name child).items := by
        intro e' he'
        rw [hput, Table.keys_append, List.mem_append, not_or]
        refine ⟨hnew e' he', fun hmem => hfresh ?_⟩
        have hsame : Key.field e'.2.name = .field e.2.name := List.mem_singleton.mp hmem
        exact List.mem_map.mpr ⟨e', he', hsame⟩
      obtain ⟨rfl, hrest⟩ := ih hnodup hnew' h
      refine ⟨?_, ⟨some child, rfl⟩, hrest⟩
      rw [hput, List.append_assoc]
      rfl

/-- Fields fail where one of them does. -/
theorem fullSelection?_of_addFull_error {e : SelectionError}
    (h : addFull pageSize expand follow fields t = .error e) :
    ∃ f ∈ fields, f.2.fullSelection? pageSize expand follow = .error e := by
  induction fields generalizing t with
  | nil => cases h
  | cons f rest ih =>
    rw [addFull] at h
    cases hf : f.2.fullSelection? pageSize expand follow with
    | error e' =>
      rw [hf] at h
      cases h
      exact ⟨f, List.mem_cons_self, hf⟩
    | ok child? =>
      rw [hf] at h
      cases child? with
      | none =>
        obtain ⟨f', hf', he⟩ := ih h
        exact ⟨f', List.mem_cons_of_mem f hf', he⟩
      | some child =>
        obtain ⟨f', hf', he⟩ := ih h
        exact ⟨f', List.mem_cons_of_mem f hf', he⟩

theorem isEmpty_eq_false_of_mem {e : Key × Item} (h : e ∈ t.items) : t.isEmpty = false := by
  rw [isEmpty, List.isEmpty_eq_false_iff.mpr (List.ne_nil_of_mem h), Bool.false_and]

end Selection

/-! ## 3. Levels -/

namespace Schema

/-- A field of a type sets a goal. -/
def Sets (s : Schema) (expand : List String) (type field : String) (goal : Goal) : Prop :=
  ∃ d f, s.descriptor? type = some d ∧ d.field? field = some f ∧ f.goal? expand = some goal

/-- What the synthesis makes of a type that it enters, with room for some more levels. -/
structure Level (s : Schema) (pageSize room : Nat) (ancestors expand : List String) (type : String)
    (d : TypeDescriptor) (t : Selection) : Prop where
  arguments : t.arguments = []
  /-- The mark goes with scalars. -/
  mark : t.allScalars = true ↔ d.scalars ≠ []
  /-- The keys come in the order of the fields. -/
  keys : (Table.keys t.items).Sublist ((Table.keys d.fields).map .field)
  /-- Every goal was followed. -/
  followed : ∀ {field goal}, s.Sets expand type field goal →
    ∃ u, s.fullSelectionWithin pageSize room (type :: ancestors) [] goal.type = .ok u
  /-- The items are those fields whose goals select something. -/
  get?_eq_some_iff : ∀ {key item}, t.get? key = some item ↔
    ∃ field goal u, s.Sets expand type field goal ∧
      s.fullSelectionWithin pageSize room (type :: ancestors) [] goal.type = .ok u ∧
      u.isEmpty = false ∧ key = .field field ∧ item = .node (goal.selection pageSize u)

section Fields

variable {s : Schema} {type : String} {d : TypeDescriptor}

/-- The fields of a type stand under their names. -/
theorem name_of_mem_fields (hd : s.descriptor? type = some d) {e : String × FieldDescriptor}
    (he : e ∈ d.fields) : e.2.name = e.1 := by
  obtain ⟨t, -, rfl⟩ := descriptor?_eq_some_iff.mp hd
  obtain ⟨-, -, rfl⟩ := List.mem_map.mp he
  rfl

theorem map_field_name (hd : s.descriptor? type = some d) :
    (d.fields.map fun e => Key.field e.2.name) = (Table.keys d.fields).map .field := by
  rw [Table.keys, List.map_map]
  exact List.map_congr_left fun e he => congrArg Key.field (name_of_mem_fields hd he)

/-- The keys of the fields of a type are different. -/
theorem nodup_field_keys (hs : s.WellFormed) (hd : s.descriptor? type = some d) :
    ((Table.keys d.fields).map Key.field).Nodup := by
  have hnodup : (Table.keys d.fields).Nodup := by
    obtain ⟨t, ht, rfl⟩ := descriptor?_eq_some_iff.mp hd
    have hnodup : (Table.keys t.fields).Nodup := hs _ (Table.mem_of_get? ht)
    rw [Table.keys, List.map_map]
    exact hnodup
  exact hnodup.map fun _ _ h => Key.field.inj h

end Fields

section Entered

variable {s : Schema} {pageSize room : Nat} {ancestors expand : List String} {type : String}
  {d : TypeDescriptor} {t : Selection}

/-- What the fields bring is a level. -/
theorem level_of_addFull (hs : s.WellFormed) (hd : s.descriptor? type = some d)
    (h : Selection.addFull pageSize expand
      (fun target => s.fullSelectionWithin pageSize room (type :: ancestors) [] target) d.fields
        (Selection.empty.setAllScalars !d.scalars.isEmpty) = .ok t) :
    s.Level pageSize room ancestors expand type d t := by
  have hnames := map_field_name hd
  have hdistinct := nodup_field_keys hs hd
  obtain ⟨rfl, hall⟩ := Selection.addFull_eq_ok (hnames ▸ hdistinct) (fun _ _ => List.not_mem_nil) h
  have hkeys := hnames ▸ Selection.keys_entries_sublist pageSize expand
    (fun target => s.fullSelectionWithin pageSize room (type :: ancestors) [] target) d.fields
  refine ⟨rfl, ?_, hkeys, ?_, ?_⟩
  · simp [Selection.empty, Selection.setAllScalars]
  · rintro field goal ⟨d', f, hd', hf, hgoal⟩
    obtain rfl := Option.some.inj (hd'.symm.trans hd)
    obtain ⟨child?, hchild⟩ := hall _ (Table.mem_of_get? hf)
    exact FieldDescriptor.exists_follow_of_fullSelection? hchild hgoal
  · intro key item
    rw [Selection.get?, Selection.items_mk]
    constructor
    · intro hget
      obtain ⟨e, he, hitem⟩ := List.mem_filterMap.mp (Table.mem_of_get? hget)
      obtain ⟨child, hchild, heq⟩ := FieldDescriptor.fullItem?_eq_some_iff.mp hitem
      obtain ⟨goal, u, hgoal, hu, hne, rfl⟩ := FieldDescriptor.fullSelection?_eq_some_iff.mp hchild
      cases heq
      exact ⟨_, goal, u, ⟨d, e.2, hd, field?_of_mem hs hd he, hgoal⟩, hu, hne, rfl, rfl⟩
    · rintro ⟨field, goal, u, ⟨d', f, hd', hf, hgoal⟩, hu, hne, rfl, rfl⟩
      obtain rfl := Option.some.inj (hd'.symm.trans hd)
      have hmem := Table.mem_of_get? hf
      refine Table.get?_of_mem (hkeys.nodup hdistinct) (List.mem_filterMap.mpr ⟨_, hmem, ?_⟩)
      refine FieldDescriptor.fullItem?_eq_some_iff.mpr ⟨goal.selection pageSize u, ?_, ?_⟩
      · exact FieldDescriptor.fullSelection?_eq_some_iff.mpr ⟨goal, u, hgoal, hu, hne, rfl⟩
      · rw [name_of_mem_fields hd hmem]

/-- The items of a level are found under their keys. -/
theorem Level.get?_of_mem (h : s.Level pageSize room ancestors expand type d t)
    (hs : s.WellFormed) (hd : s.descriptor? type = some d) {key : Key} {item : Item}
    (hitem : (key, item) ∈ t.items) : t.get? key = some item :=
  Table.get?_of_mem (h.keys.nodup (nodup_field_keys hs hd)) hitem

/-- **A type is entered, or there is no room or it was entered before.** -/
theorem level_of_ok (hs : s.WellFormed)
    (h : s.fullSelectionWithin pageSize room ancestors expand type = .ok t) :
    ∃ d, s.descriptor? type = some d ∧
      ((t = .empty ∧ (room = 0 ∨ type ∈ ancestors)) ∨
        (type ∉ ancestors ∧ ∃ room', room = room' + 1 ∧
          s.Level pageSize room' ancestors expand type d t)) := by
  unfold fullSelectionWithin at h
  split at h
  · cases h
  rename_i d hd
  refine ⟨d, hd, ?_⟩
  split at h
  · rename_i hold
    cases h
    exact Or.inl ⟨rfl, Or.inr (List.contains_iff_mem.mp hold)⟩
  rename_i hnew
  cases room with
  | zero =>
    cases h
    exact Or.inl ⟨rfl, Or.inl rfl⟩
  | succ room =>
    refine Or.inr ⟨fun hmem => hnew (List.contains_iff_mem.mpr hmem), room, rfl, ?_⟩
    exact level_of_addFull hs hd h

/-- With room, a type that is new is entered. -/
theorem level_of_new (hs : s.WellFormed)
    (h : s.fullSelectionWithin pageSize (room + 1) ancestors expand type = .ok t)
    (hnew : type ∉ ancestors) :
    ∃ d, s.descriptor? type = some d ∧ s.Level pageSize room ancestors expand type d t := by
  obtain ⟨d, hd, ⟨-, hstop⟩ | ⟨-, room', hroom, hlevel⟩⟩ := level_of_ok hs h
  · exact absurd hstop (not_or.mpr ⟨Nat.succ_ne_zero room, hnew⟩)
  · cases hroom
    exact ⟨d, hd, hlevel⟩

/-- What is not empty was made by entering a type. -/
theorem exists_level (hs : s.WellFormed)
    (h : s.fullSelectionWithin pageSize room ancestors expand type = .ok t)
    (hne : t.isEmpty = false) : ∃ d room', s.descriptor? type = some d ∧ type ∉ ancestors ∧
      room = room' + 1 ∧ s.Level pageSize room' ancestors expand type d t := by
  obtain ⟨d, hd, ⟨rfl, -⟩ | ⟨hnew, room', hroom, hlevel⟩⟩ := level_of_ok hs h
  · cases hne
  · exact ⟨d, room', hd, hnew, hroom, hlevel⟩

theorem known_of_ok (hs : s.WellFormed)
    (h : s.fullSelectionWithin pageSize room ancestors expand type = .ok t) :
    s.descriptor? type ≠ none := by
  obtain ⟨d, hd, -⟩ := level_of_ok hs h
  rw [hd]
  exact nofun

/-- **A type fails that is not known**, or that is entered and has a field whose goal fails. -/
theorem failure_of_error (hs : s.WellFormed) {e : SelectionError}
    (h : s.fullSelectionWithin pageSize room ancestors expand type = .error e) :
    (s.descriptor? type = none ∧ e = .unknownType type) ∨
      (type ∉ ancestors ∧ ∃ room' field goal, room = room' + 1 ∧ s.Sets expand type field goal ∧
        s.fullSelectionWithin pageSize room' (type :: ancestors) [] goal.type = .error e) := by
  unfold fullSelectionWithin at h
  split at h
  · rename_i hnone
    cases h
    exact Or.inl ⟨hnone, rfl⟩
  rename_i d hd
  split at h
  · cases h
  rename_i hnew
  cases room with
  | zero => cases h
  | succ room =>
    obtain ⟨f, hf, he⟩ := Selection.fullSelection?_of_addFull_error h
    obtain ⟨goal, hgoal, he⟩ := FieldDescriptor.follow_of_fullSelection?_error he
    refine Or.inr ⟨fun hmem => hnew (List.contains_iff_mem.mpr hmem), room, f.2.name, goal, rfl, ?_⟩
    exact ⟨⟨d, f.2, hd, field?_of_mem hs hd hf, hgoal⟩, he⟩

end Entered

end Schema

end FieldSelection
