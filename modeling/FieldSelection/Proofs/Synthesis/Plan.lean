import FieldSelection.Proofs.Outcome
import FieldSelection.Proofs.Table
import FieldSelection.Synthesis

/-!
# What each node of a full selection is made for

A full selection does not say for which type each of its nodes was made. A `Plan` does: it is a full
selection with an `Origin` at every node. `Schema.fullPlan` makes it in the steps of the synthesis,
and every call for a type leaves its mark:

* without the origins the plan is the full selection, for every schema and also where both fail
  (`fullSelection_eq`);
* `origin?` looks the origin of a node up, along the keys that lead to it.
-/

namespace FieldSelection

/-! ## 1. Plans -/

/-- What a node of a full selection is made for. -/
inductive Origin where
  /-- To select a type in full. -/
  | type (name : String)
  /-- To wrap the entries of a connection, with their page. -/
  | connection
  /-- To wrap the entry of each edge. -/
  | edges
  deriving DecidableEq, Repr

/-- A full selection that says what its nodes are made for: an origin, the mark for all scalar
    fields, and the nodes under the keys. -/
inductive Plan where
  | mk (origin : Origin) (marked : Bool) (children : List (Key × Plan))

namespace Plan

/-- What the node at the top is made for. -/
def origin : Plan → Origin
  | ⟨origin, _, _⟩ => origin

/-- The nodes under the keys. -/
def children : Plan → List (Key × Plan)
  | ⟨_, _, children⟩ => children

/-- What the node along keys is made for. -/
def origin? : List Key → Plan → Option Origin
  | [], plan => some plan.origin
  | key :: keys, plan => (Table.get? key plan.children).bind (origin? keys)

mutual

/-- The selection without its origins. Connections become paged. -/
def selection (pageSize : Nat) : Plan → Selection
  | ⟨origin, marked, children⟩ =>
    let s : Selection := ⟨[], marked, items pageSize children⟩
    match origin with
    | .connection => s.paged pageSize
    | _ => s

/-- The items of the selection under their keys. -/
def items (pageSize : Nat) : List (Key × Plan) → List (Key × Item)
  | [] => []
  | (key, plan) :: rest => (key, .node (selection pageSize plan)) :: items pageSize rest

end

/-- Whether nothing is selected: no page of a connection, no key and no mark. -/
def isEmpty : Plan → Bool
  | ⟨origin, marked, children⟩ => origin != .connection && children.isEmpty && !marked

/-- The plan, unless it selects nothing. -/
def nonEmpty? (plan : Plan) : Option Plan :=
  if plan.isEmpty then none else some plan

end Plan

/-- A connection with the plan of its entries. -/
def ConnectionRoute.plan (entries : Plan) : ConnectionRoute → Plan
  | .nodes => ⟨.connection, false, [(.field "nodes", entries)]⟩
  | .edges => ⟨.connection, false, [(.field "edges", ⟨.edges, false, [(.field "node", entries)]⟩)]⟩

/-! ## 2. Planning -/

/-- What a field brings to a plan: `follow` plans the full selection of a type, `expand` names the
    connections to follow. -/
def FieldDescriptor.fullPlan? (expand : List String)
    (follow : String → Except SelectionError Plan) (f : FieldDescriptor) :
    Except SelectionError (Option Plan) :=
  if f.isScalar || f.needsArguments then .ok none
  else if f.isConnection then
    if expand.contains f.name then
      match f.node? with
      | none => .ok none
      | some node => do
        let entries ← follow node.type
        return entries.nonEmpty?.map fun entries => node.route.plan entries
    else .ok none
  else do
    let plan ← follow f.type
    return plan.nonEmpty?

/-- What the fields of a type bring, put under their keys. -/
def Plan.addFull (expand : List String) (follow : String → Except SelectionError Plan) :
    List (String × FieldDescriptor) → List (Key × Plan) →
      Except SelectionError (List (Key × Plan))
  | [], children => .ok children
  | (_, f) :: rest, children => do
    let children ← match ← f.fullPlan? expand follow with
      | some child => .ok (Table.put (.field f.name) child children)
      | none => .ok children
    addFull expand follow rest children

namespace Schema

/-- The plan of the full selection of a type; `room` is how many levels may still be entered,
    `ancestors` the types entered on the way. -/
def fullPlanWithin (s : Schema) :
    (room : Nat) → (ancestors expand : List String) → (type : String) → Except SelectionError Plan
  | room, ancestors, expand, type =>
    match s.descriptor? type with
    | none => .error (.unknownType type)
    | some d =>
      if ancestors.contains type then .ok ⟨.type type, false, []⟩
      else
        match room with
        | 0 => .ok ⟨.type type, false, []⟩
        | room + 1 =>
          (Plan.addFull expand
            (fun target => fullPlanWithin s room (type :: ancestors) [] target) d.fields []).map
              fun children => ⟨.type type, !d.scalars.isEmpty, children⟩

/-- The plan of the full selection of a type. -/
def fullPlan (s : Schema) (maxDepth : Nat) (expand : List String) (type : String) :
    Except SelectionError Plan :=
  s.fullPlanWithin (maxDepth + 1) [] expand type

end Schema

/-! ## 3. Plans without their origins -/

namespace Plan

variable {pageSize : Nat}

theorem items_eq_map (children : List (Key × Plan)) :
    items pageSize children = children.map fun e => (e.1, .node (selection pageSize e.2)) := by
  induction children with
  | nil => rfl
  | cons e rest ih => rw [items, ih, List.map_cons]

theorem items_put (key : Key) (child : Plan) (children : List (Key × Plan)) :
    items pageSize (Table.put key child children) =
      Table.put key (.node (child.selection pageSize)) (items pageSize children) := by
  induction children with
  | nil => rfl
  | cons e rest ih =>
    rw [Table.put] at ih ⊢
    rw [Table.alter, items, Table.put, Table.alter]
    split
    · rfl
    · rw [items, ih, Table.put]

theorem isEmpty_selection (plan : Plan) :
    (plan.selection pageSize).isEmpty = plan.isEmpty := by
  obtain ⟨origin, marked, children⟩ := plan
  cases origin with
  | connection =>
    have hne := Table.alter_ne_nil (.field "pageInfo") (.node .pageInfo) (fun old => old)
      (items pageSize children)
    simp [selection, isEmpty, Selection.isEmpty, Selection.paged, Selection.putNew, Table.putNew,
      Selection.setNewArgument, hne]
  | type | edges => cases children <;> rfl

theorem nonEmpty?_selection (plan : Plan) :
    (plan.selection pageSize).nonEmpty? = plan.nonEmpty?.map (selection pageSize) := by
  rw [Selection.nonEmpty?, nonEmpty?, isEmpty_selection]
  split <;> rfl

theorem nonEmpty?_eq_some_iff {plan p : Plan} :
    plan.nonEmpty? = some p ↔ plan = p ∧ p.isEmpty = false := by
  unfold nonEmpty?
  cases h : plan.isEmpty with
  | true =>
    simp only [if_true, reduceCtorEq, false_iff, not_and]
    rintro rfl
    simp [h]
  | false =>
    simp only [Bool.false_eq_true, if_false, Option.some.injEq]
    exact ⟨fun e => ⟨e, e ▸ h⟩, fun e => e.1⟩

theorem selection_plan (entries : Plan) (route : ConnectionRoute) :
    (route.plan entries).selection pageSize = route.wrap pageSize (entries.selection pageSize) := by
  cases route <;> rfl

end Plan

section Erasure

variable {pageSize : Nat} {expand : List String} {select : String → Except SelectionError Selection}
  {plan : String → Except SelectionError Plan}

theorem fullSelection?_eq (h : ∀ type, select type = (plan type).map (Plan.selection pageSize))
    (f : FieldDescriptor) : f.fullSelection? pageSize expand select =
      (f.fullPlan? expand plan).map (Option.map (Plan.selection pageSize)) := by
  unfold FieldDescriptor.fullSelection? FieldDescriptor.fullPlan?
  split
  · rfl
  split
  · split
    · cases f.node? with
      | none => rfl
      | some node =>
        simp only [h]
        cases plan node.type with
        | error e => rfl
        | ok entries =>
          simp only [Except.map, ok_bind, pure, Except.pure, Plan.nonEmpty?_selection]
          cases entries.nonEmpty? with
          | none => rfl
          | some entries => simp [Plan.selection_plan]
    · rfl
  · rw [h]
    cases plan f.type with
    | error e => rfl
    | ok p => simp only [Except.map, ok_bind, pure, Except.pure, Plan.nonEmpty?_selection]

theorem addFull_eq (h : ∀ type, select type = (plan type).map (Plan.selection pageSize))
    (marked : Bool) (fields : List (String × FieldDescriptor)) (children : List (Key × Plan)) :
    Selection.addFull pageSize expand select fields ⟨[], marked, Plan.items pageSize children⟩ =
      (Plan.addFull expand plan fields children).map
        fun children => ⟨[], marked, Plan.items pageSize children⟩ := by
  induction fields generalizing children with
  | nil => rfl
  | cons e rest ih =>
    obtain ⟨name, f⟩ := e
    rw [Selection.addFull, Plan.addFull, fullSelection?_eq h]
    cases f.fullPlan? expand plan with
    | error e => rfl
    | ok child? =>
      cases child? with
      | none => exact ih children
      | some child =>
        have hput := ih (Table.put (.field f.name) child children)
        rw [Plan.items_put] at hput
        exact hput

end Erasure

namespace Schema

theorem fullSelectionWithin_eq (s : Schema) (pageSize room : Nat) (ancestors expand : List String)
    (type : String) : s.fullSelectionWithin pageSize room ancestors expand type =
      (s.fullPlanWithin room ancestors expand type).map (Plan.selection pageSize) := by
  -- on the room: what is followed from a type has one level less
  induction room generalizing ancestors expand type with
  | zero =>
    unfold fullSelectionWithin fullPlanWithin
    cases s.descriptor? type with
    | none => rfl
    | some d =>
      simp only
      split <;> rfl
  | succ room ih =>
    unfold fullSelectionWithin fullPlanWithin
    cases s.descriptor? type with
    | none => rfl
    | some d =>
      simp only
      split
      · rfl
      · refine (addFull_eq (fun target => ih (type :: ancestors) [] target)
          (!d.scalars.isEmpty) d.fields []).trans ?_
        cases Plan.addFull expand _ d.fields [] <;> rfl

/-- **A plan without its origins is the full selection**, where there is one, and fails where that
    fails. -/
theorem fullSelection_eq (s : Schema) (pageSize maxDepth : Nat) (expand : List String)
    (type : String) : s.fullSelection pageSize maxDepth expand type =
      (s.fullPlan maxDepth expand type).map (Plan.selection pageSize) :=
  fullSelectionWithin_eq s pageSize (maxDepth + 1) [] expand type

end Schema

end FieldSelection
