import FieldSelection.Proofs.Selection.Paths
import FieldSelection.Proofs.Synthesis.Levels

/-!
# Trails through a schema

A full selection follows a field from wherever its type is entered if that is no scalar, no
connection and needs no arguments (`PlainStep`), and a connection that `expand` names from the root
only (`ConnectionStep`). A `Trail` is a chain of plain steps through known types; it is simple if it
comes through no type twice and is not too long.

The synthesis sees a trail from its front: `OpenTrail` is a trail that its room and the ancestors
allow, and unfolds as the synthesis does (`openTrail_cons_iff`).
-/

namespace FieldSelection

/-! ## 1. Steps -/

/-- A field that is followed from wherever its type is entered. -/
structure FieldDescriptor.Plain (f : FieldDescriptor) : Prop where
  notScalar : f.isScalar = false
  notConnection : f.isConnection = false
  noArguments : f.needsArguments = false

/-- A connection that is followed from the root, with its entries. -/
structure FieldDescriptor.Expanded (expand : List String) (f : FieldDescriptor)
    (node : ConnectionNode) : Prop where
  named : f.name ∈ expand
  notScalar : f.isScalar = false
  connection : f.isConnection = true
  noArguments : f.needsArguments = false
  entries : f.node? = some node

/-- The goal of a plain field is its type, that of a connection the type of its entries; no other
    field sets one. -/
theorem FieldDescriptor.goal?_eq_some_iff {expand : List String} {f : FieldDescriptor}
    {goal : Goal} : f.goal? expand = some goal ↔
      (f.Plain ∧ ⟨f.type, none⟩ = goal) ∨
        ∃ node, f.Expanded expand node ∧ ⟨node.type, some node.route⟩ = goal := by
  constructor
  · intro h
    unfold goal? at h
    split at h
    · cases h
    rename_i hskip
    rw [Bool.or_eq_true, not_or, Bool.not_eq_true, Bool.not_eq_true] at hskip
    split at h
    · rename_i hconnection
      split at h
      · rename_i hnamed
        obtain ⟨node, hnode, hgoal⟩ := Option.map_eq_some_iff.mp h
        have hexpanded : f.Expanded expand node :=
          ⟨List.contains_iff_mem.mp hnamed, hskip.1, hconnection, hskip.2, hnode⟩
        exact Or.inr ⟨node, hexpanded, hgoal⟩
      · cases h
    · rename_i hconnection
      have hplain : f.Plain := ⟨hskip.1, Bool.eq_false_iff.mpr hconnection, hskip.2⟩
      exact Or.inl ⟨hplain, Option.some.inj h⟩
  · rintro (⟨⟨hscalar, hconnection, harguments⟩, rfl⟩ |
      ⟨node, ⟨hnamed, hscalar, hconnection, harguments, hnode⟩, rfl⟩)
    · simp [goal?, hscalar, hconnection, harguments]
    · simp [goal?, hscalar, hconnection, harguments, hnamed, hnode]

namespace Schema

/-- From a type along a plain field to its target. -/
def PlainStep (s : Schema) (type field next : String) : Prop :=
  ∃ d f, s.descriptor? type = some d ∧ d.field? field = some f ∧ f.Plain ∧ f.type = next

/-- From a type along a connection that is followed to its entries. -/
def ConnectionStep (s : Schema) (expand : List String) (type field : String)
    (node : ConnectionNode) : Prop :=
  ∃ d f, s.descriptor? type = some d ∧ d.field? field = some f ∧ f.Expanded expand node

section Steps

variable {s : Schema} {expand : List String} {type field next : String} {goal : Goal}

theorem PlainStep.known (h : s.PlainStep type field next) : ∃ d, s.descriptor? type = some d := by
  obtain ⟨d, -, hd, -⟩ := h
  exact ⟨d, hd⟩

theorem PlainStep.sets (h : s.PlainStep type field next) (expand : List String) :
    s.Sets expand type field ⟨next, none⟩ := by
  obtain ⟨d, f, hd, hf, hplain, rfl⟩ := h
  exact ⟨d, f, hd, hf, FieldDescriptor.goal?_eq_some_iff.mpr (Or.inl ⟨hplain, rfl⟩)⟩

theorem ConnectionStep.sets {node : ConnectionNode} (h : s.ConnectionStep expand type field node) :
    s.Sets expand type field ⟨node.type, some node.route⟩ := by
  obtain ⟨d, f, hd, hf, hexpanded⟩ := h
  exact ⟨d, f, hd, hf, FieldDescriptor.goal?_eq_some_iff.mpr (Or.inr ⟨node, hexpanded, rfl⟩)⟩

/-- Goals are set by steps. -/
theorem Sets.step (h : s.Sets expand type field goal) :
    (∃ next, goal = ⟨next, none⟩ ∧ s.PlainStep type field next) ∨
      ∃ node : ConnectionNode, goal = ⟨node.type, some node.route⟩ ∧
        s.ConnectionStep expand type field node := by
  obtain ⟨d, f, hd, hf, hgoal⟩ := h
  rcases FieldDescriptor.goal?_eq_some_iff.mp hgoal with ⟨hplain, rfl⟩ | ⟨node, hexpanded, rfl⟩
  · exact Or.inl ⟨f.type, rfl, d, f, hd, hf, hplain, rfl⟩
  · exact Or.inr ⟨node, rfl, d, f, hd, hf, hexpanded⟩

theorem not_connectionStep_nil {node : ConnectionNode} :
    ¬ s.ConnectionStep [] type field node := by
  rintro ⟨d, f, -, -, hexpanded⟩
  cases hexpanded.named

end Steps

/-! ## 2. Trails -/

/-- Plain steps from a type along fields, through known types: the types that are come through, and
    the last of them. -/
inductive Trail (s : Schema) : String → List String → List String → String → Prop where
  | here {type : String} {d : TypeDescriptor} (h : s.descriptor? type = some d) :
      Trail s type [] [type] type
  | step {type field next last : String} {fields types : List String}
      (h : s.PlainStep type field next) (rest : Trail s next fields types last) :
      Trail s type (field :: fields) (type :: types) last

/-- A trail comes through the type that it starts from. -/
theorem Trail.mem {s : Schema} {type last : String} {fields types : List String}
    (h : s.Trail type fields types last) : type ∈ types := by
  cases h with
  | here => exact List.mem_cons_self
  | step => exact List.mem_cons_self

/-- The type is known and lists scalars. -/
def ListsScalars (s : Schema) (type : String) : Prop :=
  ∃ d, s.descriptor? type = some d ∧ d.scalars ≠ []

/-- A trail of at most `maxDepth` steps that comes through no type twice. -/
def SimpleTrail (s : Schema) (maxDepth : Nat) (type : String) (fields : List String)
    (last : String) : Prop :=
  ∃ types, s.Trail type fields types last ∧ types.Nodup ∧ fields.length ≤ maxDepth

/-- A simple trail that the synthesis can follow: there is room for its types, and none of them is
    an ancestor. -/
def OpenTrail (s : Schema) (room : Nat) (ancestors : List String) (type : String)
    (fields : List String) (last : String) : Prop :=
  ∃ types, s.Trail type fields types last ∧ types.Nodup ∧ (∀ name ∈ types, name ∉ ancestors) ∧
    fields.length < room

section Trails

variable {s : Schema} {room maxDepth : Nat} {ancestors : List String} {type field last : String}
  {fields more : List String}

theorem simpleTrail_iff_openTrail :
    s.SimpleTrail maxDepth type fields last ↔ s.OpenTrail (maxDepth + 1) [] type fields last := by
  simp only [SimpleTrail, OpenTrail, List.not_mem_nil, not_false_eq_true, implies_true, true_and,
    Nat.lt_succ_iff]

theorem Trail.of_append {types : List String} (h : s.Trail type (fields ++ more) types last) :
    ∃ front mid, s.Trail type fields front mid ∧ front <+: types := by
  induction fields generalizing type types with
  | nil =>
    cases h with
    | here hd => exact ⟨_, _, .here hd, List.prefix_rfl⟩
    | step hstep rest =>
      obtain ⟨d, hd⟩ := hstep.known
      exact ⟨_, _, .here hd, List.prefix_append [type] _⟩
  | cons field fields ih =>
    cases h with
    | step hstep rest =>
      obtain ⟨front, mid, hmid, hfront⟩ := ih rest
      exact ⟨type :: front, mid, .step hstep hmid, List.cons_prefix_cons.mpr ⟨rfl, hfront⟩⟩

theorem openTrail_nil (hknown : ∃ d, s.descriptor? type = some d) (hnew : type ∉ ancestors) :
    s.OpenTrail (room + 1) ancestors type [] type := by
  obtain ⟨d, hd⟩ := hknown
  refine ⟨[type], .here hd, List.nodup_singleton type, fun name hname => ?_, Nat.succ_pos room⟩
  rw [List.mem_singleton.mp hname]
  exact hnew

/-- An open trail goes on from its first step, with less room and one more ancestor. -/
theorem openTrail_cons_iff : s.OpenTrail room ancestors type (field :: fields) last ↔
    type ∉ ancestors ∧ ∃ room' next, room = room' + 1 ∧ s.PlainStep type field next ∧
      s.OpenTrail room' (type :: ancestors) next fields last := by
  constructor
  · rintro ⟨types, htrail, hnodup, hnew, hlength⟩
    cases htrail with
    | step hstep rest =>
      obtain ⟨htype, hnodup⟩ := List.nodup_cons.mp hnodup
      obtain ⟨hnew, hrest⟩ := List.forall_mem_cons.mp hnew
      obtain ⟨room, rfl⟩ := Nat.exists_eq_succ_of_ne_zero (Nat.ne_zero_of_lt hlength)
      -- that no type comes twice makes the first one an ancestor that the rest avoids
      refine ⟨hnew, room, _, rfl, hstep, _, rest, hnodup, fun name hname hmem => ?_,
        Nat.lt_of_succ_lt_succ hlength⟩
      rcases List.mem_cons.mp hmem with rfl | hmem
      · exact htype hname
      · exact hrest name hname hmem
  · rintro ⟨hnew, room, next, rfl, hstep, types, rest, hnodup, hrest, hlength⟩
    refine ⟨type :: types, .step hstep rest, List.nodup_cons.mpr ⟨fun hmem => ?_, hnodup⟩,
      List.forall_mem_cons.mpr ⟨hnew, fun name hname hmem => ?_⟩, Nat.succ_lt_succ hlength⟩
    · exact hrest type hmem List.mem_cons_self
    · exact hrest name hname (List.mem_cons_of_mem _ hmem)

/-- Keys are the fields of an open trail that goes on to scalars. -/
def ToScalars (s : Schema) (room : Nat) (ancestors : List String) (type : String)
    (keys : List Key) : Prop :=
  ∃ fields more last, keys = fieldKeys fields ∧
    s.OpenTrail room ancestors type (fields ++ more) last ∧ s.ListsScalars last

theorem toScalars_cons_iff {key : Key} {keys : List Key} :
    s.ToScalars room ancestors type (key :: keys) ↔
      type ∉ ancestors ∧ ∃ room' field next, room = room' + 1 ∧ key = .field field ∧
        s.PlainStep type field next ∧ s.ToScalars room' (type :: ancestors) next keys := by
  constructor
  · rintro ⟨fields, more, last, hkeys, htrail, hlast⟩
    cases fields with
    | nil => cases hkeys
    | cons field fields =>
      cases hkeys
      obtain ⟨hnew, room, next, rfl, hstep, hrest⟩ := openTrail_cons_iff.mp htrail
      exact ⟨hnew, room, field, next, rfl, rfl, hstep, fields, more, last, rfl, hrest, hlast⟩
  · rintro ⟨hnew, room, field, next, rfl, rfl, hstep, fields, more, last, rfl, hrest, hlast⟩
    refine ⟨field :: fields, more, last, rfl, ?_, hlast⟩
    exact openTrail_cons_iff.mpr ⟨hnew, room, next, rfl, hstep, hrest⟩

/-- A trail to scalars ends where it is, or makes a step. -/
theorem toScalars_nil_iff : s.ToScalars room ancestors type [] ↔
    (room ≠ 0 ∧ type ∉ ancestors ∧ s.ListsScalars type) ∨
      ∃ key, s.ToScalars room ancestors type [key] := by
  constructor
  · rintro ⟨fields, more, last, hkeys, htrail, hlast⟩
    obtain rfl := List.map_eq_nil_iff.mp hkeys.symm
    cases more with
    | nil =>
      obtain ⟨types, htrail, -, hnew, hlength⟩ := htrail
      cases htrail
      exact Or.inl ⟨Nat.ne_zero_of_lt hlength, hnew type List.mem_cons_self, hlast⟩
    | cons field more => exact Or.inr ⟨.field field, [field], more, last, rfl, htrail, hlast⟩
  · rintro (⟨hroom, hnew, hlast⟩ | ⟨key, fields, more, last, -, htrail, hlast⟩)
    · obtain ⟨room, rfl⟩ := Nat.exists_eq_succ_of_ne_zero hroom
      obtain ⟨d, hd, hne⟩ := hlast
      exact ⟨[], [], type, rfl, openTrail_nil ⟨d, hd⟩ hnew, d, hd, hne⟩
    · exact ⟨[], fields ++ more, last, rfl, htrail, hlast⟩

end Trails

end Schema

end FieldSelection
