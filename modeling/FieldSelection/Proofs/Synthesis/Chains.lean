import FieldSelection.Proofs.Synthesis.Trails

/-!
# What a full selection holds, as trails

Below its connections a full selection is told by the trails through the schema, without the
recursion that makes it (`chains_of_fullSelection`):

* keys lead to something exactly if they are the fields of a simple trail that can be continued to
  one that ends at a type that lists scalars. So a field is left out for what is anywhere below it:
  `isEmpty_eq_false_iff` says when the selection of a type comes out empty;
* there stands a node for the type that the trail has come to (`node_of_at?`);
* a full selection fails exactly if a simple trail has a step to a type that is not known
  (`Meets`), from the type itself or from the entries of a connection that is followed.
-/

namespace FieldSelection

/-- What selects something has the mark or a key. -/
theorem Selection.isEmpty_eq_false_iff {t : Selection} :
    t.isEmpty = false ↔ t.allScalars = true ∨ ∃ key, (t.at? [key]).isSome = true := by
  obtain ⟨arguments, allScalars, items⟩ := t
  cases items with
  | nil => simp [isEmpty, at?, Item.at?, get?]
  | cons e rest =>
    have hat : (at? ⟨arguments, allScalars, e :: rest⟩ [e.1]).isSome = true := by
      simp [at?, Item.at?, get?, Table.get?]
    exact ⟨fun _ => Or.inr ⟨e.1, hat⟩, fun _ => rfl⟩

namespace Schema

/-! ## 1. What stands along keys -/

/-- The key is no connection that is followed from the type. -/
def PlainKey (s : Schema) (expand : List String) (type : String) (key : Key) : Prop :=
  ∀ field node, key = .field field → ¬ s.ConnectionStep expand type field node

theorem plainKey_nil (s : Schema) (type : String) (key : Key) : s.PlainKey [] type key :=
  fun _ _ _ => not_connectionStep_nil

section Selected

variable {s : Schema} {pageSize room : Nat} {ancestors expand : List String} {type : String}
  {d : TypeDescriptor} {t : Selection} {key : Key} {keys : List Key}

/-- A plain key of a level holds what the target of a plain step comes to. -/
theorem Level.get?_plain_iff (h : s.Level pageSize room ancestors expand type d t)
    (hkey : s.PlainKey expand type key) {item : Item} :
    t.get? key = some item ↔ ∃ field next u, key = .field field ∧ s.PlainStep type field next ∧
      s.fullSelectionWithin pageSize room (type :: ancestors) [] next = .ok u ∧
      u.isEmpty = false ∧ item = .node u := by
  constructor
  · intro hget
    obtain ⟨field, goal, u, hsets, hu, hne, rfl, rfl⟩ := h.get?_eq_some_iff.mp hget
    rcases hsets.step with ⟨next, rfl, hstep⟩ | ⟨node, rfl, hstep⟩
    · exact ⟨field, next, u, rfl, hstep, hu, hne, rfl⟩
    · exact absurd hstep (hkey field node rfl)
  · rintro ⟨field, next, u, rfl, hstep, hu, hne, rfl⟩
    exact h.get?_eq_some_iff.mpr ⟨field, _, u, hstep.sets expand, hu, hne, rfl, rfl⟩

/-- The mark is there if scalars are. -/
theorem allScalars_iff (hs : s.WellFormed)
    (h : s.fullSelectionWithin pageSize room ancestors expand type = .ok t) :
    t.allScalars = true ↔ room ≠ 0 ∧ type ∉ ancestors ∧ s.ListsScalars type := by
  obtain ⟨d, hd, ⟨rfl, hstop⟩ | ⟨hnew, room, rfl, hlevel⟩⟩ := level_of_ok hs h
  · exact ⟨nofun, fun ⟨hroom, hnew, _⟩ => absurd hstop (not_or.mpr ⟨hroom, hnew⟩)⟩
  · rw [hlevel.mark]
    refine ⟨fun hne => ⟨Nat.succ_ne_zero room, hnew, d, hd, hne⟩, fun ⟨_, _, d', hd', hne⟩ => ?_⟩
    obtain rfl := Option.some.inj (hd'.symm.trans hd)
    exact hne

/-- What stands along keys from a plain one is found one level below, after a plain step. -/
theorem exists_child_of_at? (hs : s.WellFormed)
    (h : s.fullSelectionWithin pageSize room ancestors expand type = .ok t)
    (hkey : s.PlainKey expand type key) {item : Item} (hat : t.at? (key :: keys) = some item) :
    type ∉ ancestors ∧ ∃ room' field next u, room = room' + 1 ∧ key = .field field ∧
      s.PlainStep type field next ∧
      s.fullSelectionWithin pageSize room' (type :: ancestors) [] next = .ok u ∧
      u.isEmpty = false ∧ u.at? keys = some item := by
  obtain ⟨child, hget, -⟩ := Option.bind_eq_some_iff.mp hat
  have hne := Selection.isEmpty_eq_false_of_mem (Table.mem_of_get? hget)
  obtain ⟨d, room', -, hnew, hroom, hlevel⟩ := exists_level hs h hne
  obtain ⟨field, next, u, hname, hstep, hu, hfull, rfl⟩ := (hlevel.get?_plain_iff hkey).mp hget
  rw [Selection.at?_cons_of_node hget] at hat
  exact ⟨hnew, room', field, next, u, hroom, hname, hstep, hu, hfull, hat⟩

/-- A plain key and more keys lead to something exactly along a trail to scalars, if that is so of
    the rest of the keys one level below. -/
theorem isSome_at?_cons_iff (hs : s.WellFormed)
    (h : s.fullSelectionWithin pageSize room ancestors expand type = .ok t)
    (hkey : s.PlainKey expand type key)
    (hbelow : ∀ {room' next u}, room = room' + 1 →
      s.fullSelectionWithin pageSize room' (type :: ancestors) [] next = .ok u →
      (u.isEmpty = false ∧ (u.at? keys).isSome = true ↔
        s.ToScalars room' (type :: ancestors) next keys)) :
    (t.at? (key :: keys)).isSome = true ↔ s.ToScalars room ancestors type (key :: keys) := by
  rw [toScalars_cons_iff]
  constructor
  · intro hat
    obtain ⟨item, hat⟩ := Option.isSome_iff_exists.mp hat
    obtain ⟨hnew, room', field, next, u, hroom, hname, hstep, hu, hne, hitem⟩ :=
      exists_child_of_at? hs h hkey hat
    have hsome : (u.at? keys).isSome = true := Option.isSome_iff_exists.mpr ⟨item, hitem⟩
    exact ⟨hnew, room', field, next, hroom, hname, hstep, (hbelow hroom hu).mp ⟨hne, hsome⟩⟩
  · rintro ⟨hnew, room', field, next, rfl, rfl, hstep, htrail⟩
    obtain ⟨d, -, hlevel⟩ := level_of_new hs h hnew
    obtain ⟨u, hu⟩ := hlevel.followed (hstep.sets expand)
    obtain ⟨hne, hat⟩ := (hbelow rfl hu).mpr htrail
    have hget := (hlevel.get?_plain_iff hkey).mpr ⟨field, next, u, rfl, hstep, hu, hne, rfl⟩
    rw [Selection.at?_cons_of_node hget]
    exact hat

/-- **A full selection is not empty exactly if a trail leads to scalars.** -/
theorem isEmpty_eq_false_iff (hs : s.WellFormed)
    (h : s.fullSelectionWithin pageSize room ancestors [] type = .ok t) :
    t.isEmpty = false ↔ s.ToScalars room ancestors type [] := by
  -- on the room: the targets of the fields have one level less
  induction room using Nat.strongRecOn generalizing ancestors type t with
  | ind room ih =>
    rw [Selection.isEmpty_eq_false_iff, toScalars_nil_iff, allScalars_iff hs h]
    refine or_congr_right (exists_congr fun key => ?_)
    refine isSome_at?_cons_iff hs h (plainKey_nil s type key) fun hroom hu => ?_
    simpa using ih _ (hroom ▸ Nat.lt_succ_self _) hu

/-- Keys lead to something exactly if they go along a trail to scalars. -/
theorem isSome_at?_iff (hs : s.WellFormed)
    (h : s.fullSelectionWithin pageSize room ancestors [] type = .ok t) :
    t.isEmpty = false ∧ (t.at? keys).isSome = true ↔ s.ToScalars room ancestors type keys := by
  induction keys generalizing room ancestors type t with
  | nil => simpa using isEmpty_eq_false_iff hs h
  | cons key keys ih =>
    have hat := isSome_at?_cons_iff hs h (plainKey_nil s type key) fun _ hu => ih hu
    rw [hat, isEmpty_eq_false_iff hs h, and_iff_right_iff_imp]
    rintro ⟨fields, more, last, -, htrail, hlast⟩
    exact ⟨[], fields ++ more, last, rfl, htrail, hlast⟩

/-- Along keys from a plain one stands the full selection of the last type of a trail. -/
theorem node_of_at? (hs : s.WellFormed)
    (h : s.fullSelectionWithin pageSize room ancestors expand type = .ok t)
    (hkey : s.PlainKey expand type key) {item : Item} (hat : t.at? (key :: keys) = some item) :
    ∃ fields last d room' ancestors' u, key :: keys = fieldKeys fields ∧
      s.OpenTrail room ancestors type fields last ∧ s.descriptor? last = some d ∧
      s.Level pageSize room' ancestors' [] last d u ∧ item = .node u := by
  induction keys generalizing room ancestors expand type t key with
  | nil =>
    obtain ⟨hnew, room, field, next, u, rfl, rfl, hstep, hu, hne, hitem⟩ :=
      exists_child_of_at? hs h hkey hat
    obtain ⟨d, room', hd, hnext, rfl, hlevel⟩ := exists_level hs hu hne
    have hhere : s.OpenTrail (room' + 1) (type :: ancestors) next [] next :=
      openTrail_nil ⟨d, hd⟩ hnext
    have htrail := openTrail_cons_iff.mpr ⟨hnew, _, next, rfl, hstep, hhere⟩
    exact ⟨[field], next, d, _, _, u, rfl, htrail, hd, hlevel, (Option.some.inj hitem).symm⟩
  | cons key' keys ih =>
    obtain ⟨hnew, room, field, next, u, rfl, rfl, hstep, hu, -, hat⟩ :=
      exists_child_of_at? hs h hkey hat
    obtain ⟨fields, last, d, room', ancestors', v, hkeys, htrail, hd, hlevel, hitem⟩ :=
      ih hu (plainKey_nil s next key') hat
    have htrail := openTrail_cons_iff.mpr ⟨hnew, room, next, rfl, hstep, htrail⟩
    rw [hkeys]
    exact ⟨field :: fields, last, d, _, _, v, rfl, htrail, hd, hlevel, hitem⟩

end Selected

/-! ## 2. Failures -/

/-- A type that is not known is the type itself, or one plain step away from an open trail. -/
def Misses (s : Schema) (room : Nat) (ancestors : List String) (type unknown : String) : Prop :=
  s.descriptor? unknown = none ∧ (unknown = type ∨ ∃ fields last field,
    s.OpenTrail room ancestors type fields last ∧ s.PlainStep last field unknown)

section Failures

variable {s : Schema} {pageSize room : Nat} {ancestors expand : List String}
  {type next field unknown : String} {t : Selection}

/-- What is missed one plain step further is missed from here. -/
theorem PlainStep.misses (h : s.PlainStep type field next) (hnew : type ∉ ancestors)
    (hmisses : s.Misses room (type :: ancestors) next unknown) :
    s.Misses (room + 1) ancestors type unknown := by
  obtain ⟨hunknown, rfl | ⟨fields, last, field', htrail, hstep⟩⟩ := hmisses
  · exact ⟨hunknown, Or.inr ⟨[], type, field, openTrail_nil h.known hnew, h⟩⟩
  · refine ⟨hunknown, Or.inr ⟨field :: fields, last, field', ?_, hstep⟩⟩
    exact openTrail_cons_iff.mpr ⟨hnew, room, next, rfl, h, htrail⟩

/-- A full selection fails on a type that is missed, without connections. -/
theorem misses_of_error (hs : s.WellFormed) {e : SelectionError}
    (h : s.fullSelectionWithin pageSize room ancestors [] type = .error e) :
    ∃ unknown, e = .unknownType unknown ∧ s.Misses room ancestors type unknown := by
  induction room using Nat.strongRecOn generalizing ancestors type with
  | ind room ih =>
    rcases failure_of_error hs h with ⟨hunknown, rfl⟩ |
      ⟨hnew, room', field, goal, rfl, hsets, he⟩
    · exact ⟨type, rfl, hunknown, Or.inl rfl⟩
    · rcases hsets.step with ⟨next, rfl, hstep⟩ | ⟨node, rfl, hstep⟩
      · obtain ⟨unknown, rfl, hmisses⟩ := ih room' (Nat.lt_succ_self room') he
        exact ⟨unknown, rfl, hstep.misses hnew hmisses⟩
      · exact absurd hstep not_connectionStep_nil

/-- A full selection that succeeds misses no type. -/
theorem not_misses_of_ok (hs : s.WellFormed)
    (h : s.fullSelectionWithin pageSize room ancestors expand type = .ok t) :
    ¬ s.Misses room ancestors type unknown := by
  rintro ⟨hunknown, rfl | ⟨fields, last, field, htrail, hstep⟩⟩
  · exact known_of_ok hs h hunknown
  · -- along the trail every type is entered, so the last one has its step followed
    induction fields generalizing room ancestors expand type t with
    | nil =>
      obtain ⟨types, htrail, -, hnew, hlength⟩ := htrail
      obtain ⟨room, rfl⟩ := Nat.exists_eq_succ_of_ne_zero (Nat.ne_zero_of_lt hlength)
      cases htrail
      obtain ⟨d, -, hlevel⟩ := level_of_new hs h (hnew _ List.mem_cons_self)
      obtain ⟨u, hu⟩ := hlevel.followed (hstep.sets expand)
      exact known_of_ok hs hu hunknown
    | cons first fields ih =>
      obtain ⟨hnew, room, next, rfl, hfirst, hrest⟩ := openTrail_cons_iff.mp htrail
      obtain ⟨d, -, hlevel⟩ := level_of_new hs h hnew
      obtain ⟨u, hu⟩ := hlevel.followed (hfirst.sets expand)
      exact ih hu hrest

end Failures

/-- A type that is not known is met by a full selection: it is the type itself, or one step away
    from where simple trails come to, from the type or from the entries of a connection that is
    followed. -/
inductive Meets (s : Schema) (maxDepth : Nat) (expand : List String) (type : String) :
    String → Prop where
  | itself (h : s.descriptor? type = none) : Meets s maxDepth expand type type
  | plain {fields : List String} {last field unknown : String}
      (htrail : s.SimpleTrail maxDepth type fields last)
      (hstep : s.PlainStep last field unknown) (h : s.descriptor? unknown = none) :
      Meets s maxDepth expand type unknown
  | entries {connection : String} {node : ConnectionNode}
      (hconnection : s.ConnectionStep expand type connection node)
      (h : s.descriptor? node.type = none) : Meets s maxDepth expand type node.type
  | below {connection : String} {node : ConnectionNode} {fields types : List String}
      {last field unknown : String}
      (hconnection : s.ConnectionStep expand type connection node)
      (htrail : s.Trail node.type fields types last) (hnodup : (type :: types).Nodup)
      (hlength : fields.length + 1 ≤ maxDepth) (hstep : s.PlainStep last field unknown)
      (h : s.descriptor? unknown = none) : Meets s maxDepth expand type unknown

section Failures

variable {s : Schema} {maxDepth : Nat} {expand fields : List String} {type last unknown : String}

/-- A trail from the entries of a connection, that does not come back to the type. -/
theorem openTrail_singleton_iff {origin : String} :
    s.OpenTrail maxDepth [origin] type fields last ↔ ∃ types, s.Trail type fields types last ∧
      (origin :: types).Nodup ∧ fields.length + 1 ≤ maxDepth := by
  refine exists_congr fun types => and_congr_right fun _ => ?_
  rw [List.nodup_cons, and_comm (a := origin ∉ types), and_assoc]
  refine and_congr_right fun _ => and_congr_left fun _ => ?_
  simp only [List.mem_singleton]
  exact ⟨fun h hmem => h origin hmem rfl, fun h name hname heq => h (heq ▸ hname)⟩

/-- What is met is missed from the type or from the entries of a connection. -/
theorem meets_iff : s.Meets maxDepth expand type unknown ↔
    s.Misses (maxDepth + 1) [] type unknown ∨
      ∃ connection node, s.ConnectionStep expand type connection node ∧
        s.Misses maxDepth [type] node.type unknown := by
  constructor
  · intro h
    cases h with
    | itself h => exact Or.inl ⟨h, Or.inl rfl⟩
    | plain htrail hstep h =>
      exact Or.inl ⟨h, Or.inr ⟨_, _, _, simpleTrail_iff_openTrail.mp htrail, hstep⟩⟩
    | entries hconnection h => exact Or.inr ⟨_, _, hconnection, h, Or.inl rfl⟩
    | below hconnection htrail hnodup hlength hstep h =>
      have hopen := openTrail_singleton_iff.mpr ⟨_, htrail, hnodup, hlength⟩
      exact Or.inr ⟨_, _, hconnection, h, Or.inr ⟨_, _, _, hopen, hstep⟩⟩
  · rintro (⟨h, rfl | ⟨fields, last, field, htrail, hstep⟩⟩ |
      ⟨connection, node, hconnection, h, rfl | ⟨fields, last, field, hopen, hstep⟩⟩)
    · exact .itself h
    · exact .plain (simpleTrail_iff_openTrail.mpr htrail) hstep h
    · exact .entries hconnection h
    · obtain ⟨types, htrail, hnodup, hlength⟩ := openTrail_singleton_iff.mp hopen
      exact .below hconnection htrail hnodup hlength hstep h

variable {pageSize : Nat}

/-- A full selection fails on a type that it meets. -/
theorem meets_of_error (hs : s.WellFormed) {e : SelectionError}
    (h : s.fullSelection pageSize maxDepth expand type = .error e) :
    ∃ unknown, e = .unknownType unknown ∧ s.Meets maxDepth expand type unknown := by
  simp only [meets_iff]
  rcases failure_of_error hs h with ⟨hunknown, rfl⟩ | ⟨hnew, room, field, goal, hroom, hsets, he⟩
  · exact ⟨type, rfl, Or.inl ⟨hunknown, Or.inl rfl⟩⟩
  cases hroom
  obtain ⟨unknown, rfl, hmisses⟩ := misses_of_error hs he
  refine ⟨unknown, rfl, ?_⟩
  rcases hsets.step with ⟨next, rfl, hstep⟩ | ⟨node, rfl, hstep⟩
  · exact Or.inl (hstep.misses hnew hmisses)
  · exact Or.inr ⟨field, node, hstep, hmisses⟩

/-- A full selection that succeeds meets no type that is not known. -/
theorem not_meets_of_ok (hs : s.WellFormed) {t : Selection}
    (h : s.fullSelection pageSize maxDepth expand type = .ok t) :
    ¬ s.Meets maxDepth expand type unknown := by
  rw [meets_iff]
  rintro (hmisses | ⟨connection, node, hstep, hmisses⟩)
  · exact not_misses_of_ok hs h hmisses
  · obtain ⟨d, -, hlevel⟩ := level_of_new hs h List.not_mem_nil
    obtain ⟨u, hu⟩ := hlevel.followed hstep.sets
    exact not_misses_of_ok hs hu hmisses

end Failures

/-! ## 3. What a full selection holds, and how it fails -/

/-- The key is a connection field of the type. -/
def ConnectionKey (s : Schema) (type : String) (key : Key) : Prop :=
  ∃ d name f, key = .field name ∧ s.descriptor? type = some d ∧ d.field? name = some f ∧
    f.isConnection = true

theorem plainKey_of_not_connectionKey {s : Schema} {type : String} {key : Key}
    (h : ¬ s.ConnectionKey type key) (expand : List String) : s.PlainKey expand type key := by
  rintro field node rfl ⟨d, f, hd, hf, hexpanded⟩
  exact h ⟨d, field, f, rfl, hd, hf, hexpanded.connection⟩

/-- A trail that goes on is a trail up to there. -/
theorem SimpleTrail.of_append {s : Schema} {maxDepth : Nat} {type last : String}
    {fields more : List String} (h : s.SimpleTrail maxDepth type (fields ++ more) last) :
    ∃ mid, s.SimpleTrail maxDepth type fields mid := by
  obtain ⟨types, htrail, hnodup, hlength⟩ := h
  obtain ⟨front, mid, hmid, hfront⟩ := htrail.of_append
  rw [List.length_append] at hlength
  exact ⟨mid, front, hmid, hfront.sublist.nodup hnodup, Nat.le_of_add_right_le hlength⟩

/-- **What a full selection holds, and how it fails, in trails.**

    * Keys that do not start with a connection lead to something exactly if they are the fields of a
      simple trail that can be continued to one that ends at a type that lists scalars.
    * There stands a node for the last type of the trail: marked if that lists scalars, without
      arguments, its keys in the order of the fields.
    * A failure is about a type that is met and not known, and if there is one, there is a
      failure. -/
theorem chains_of_fullSelection {s : Schema} (hs : s.WellFormed) (pageSize maxDepth : Nat)
    (expand : List String) (type : String) :
    (∀ t, s.fullSelection pageSize maxDepth expand type = .ok t → ∀ key keys,
      ¬ s.ConnectionKey type key →
        ((t.at? (key :: keys)).isSome = true ↔ ∃ fields mid more last,
          key :: keys = fieldKeys fields ∧ s.SimpleTrail maxDepth type fields mid ∧
          s.SimpleTrail maxDepth type (fields ++ more) last ∧ s.ListsScalars last) ∧
        ∀ item, t.at? (key :: keys) = some item → ∃ fields last d u,
          key :: keys = fieldKeys fields ∧ s.SimpleTrail maxDepth type fields last ∧
          s.descriptor? last = some d ∧ item = .node u ∧
          (u.allScalars = true ↔ d.scalars ≠ []) ∧ u.arguments = [] ∧
          (Table.keys u.items).Sublist ((Table.keys d.fields).map .field)) ∧
    ((∃ e, s.fullSelection pageSize maxDepth expand type = .error e) ↔
      ∃ unknown, s.Meets maxDepth expand type unknown) ∧
    ∀ e, s.fullSelection pageSize maxDepth expand type = .error e →
      ∃ unknown, e = .unknownType unknown ∧ s.Meets maxDepth expand type unknown := by
  refine ⟨fun t h key keys hkey => ?_, ?_, fun e => meets_of_error hs⟩
  · have hplain := plainKey_of_not_connectionKey hkey expand
    refine ⟨?_, fun item hat => ?_⟩
    · rw [isSome_at?_cons_iff hs h hplain fun _ hu => isSome_at?_iff hs hu]
      constructor
      · rintro ⟨fields, more, last, hkeys, htrail, hlast⟩
        have htrail := simpleTrail_iff_openTrail.mpr htrail
        obtain ⟨mid, hmid⟩ := htrail.of_append
        exact ⟨fields, mid, more, last, hkeys, hmid, htrail, hlast⟩
      · rintro ⟨fields, mid, more, last, hkeys, -, htrail, hlast⟩
        exact ⟨fields, more, last, hkeys, simpleTrail_iff_openTrail.mp htrail, hlast⟩
    · obtain ⟨fields, last, d, _, _, u, hkeys, htrail, hd, hlevel, rfl⟩ :=
        node_of_at? hs h hplain hat
      exact ⟨fields, last, d, u, hkeys, simpleTrail_iff_openTrail.mpr htrail, hd, rfl, hlevel.mark,
        hlevel.arguments, hlevel.keys⟩
  · constructor
    · rintro ⟨e, h⟩
      obtain ⟨unknown, -, hmeets⟩ := meets_of_error hs h
      exact ⟨unknown, hmeets⟩
    · rintro ⟨unknown, hmeets⟩
      cases h : s.fullSelection pageSize maxDepth expand type with
      | error e => exact ⟨e, rfl⟩
      | ok t => exact absurd hmeets (not_meets_of_ok hs h)

/-- Persons who know each other and live somewhere. -/
def people : Schema :=
  ⟨[("Person", ⟨[], [("friend", ⟨"Person", []⟩), ("home", ⟨"Address!", []⟩)]⟩),
    ("Address", ⟨["city"], [("city", ⟨"String", []⟩), ("tenants", ⟨"[Person!]", []⟩)]⟩)],
    defaultConnectionSuffix⟩

theorem wellFormed_people : people.WellFormed := by
  simp [WellFormed, people]

/-- From a person a simple trail leads to a city through the home, and none through friends, who
    come back to persons. -/
theorem chains_of_people :
    people.fullSelection 25 3 [] "Person" = .ok ⟨[], false, [(.field "home", .node .scalars)]⟩ ∧
      (∃ more last, people.SimpleTrail 3 "Person" ("home" :: more) last ∧
        people.ListsScalars last) ∧
      ¬ ∃ more last, people.SimpleTrail 3 "Person" ("friend" :: more) last ∧
        people.ListsScalars last := by
  have hfull : people.fullSelection 25 3 [] "Person" =
      .ok ⟨[], false, [(.field "home", .node .scalars)]⟩ := rfl
  obtain ⟨hchains, -⟩ := chains_of_fullSelection wellFormed_people 25 3 [] "Person"
  have hplain : ∀ key, ¬ people.ConnectionKey "Person" key := by
    rintro key ⟨d, name, f, -, hd, hf, hconnection⟩
    cases hd
    rcases List.mem_cons.mp (Table.mem_of_get? hf) with heq | heq
    · cases heq
      exact absurd hconnection (by decide)
    · cases List.mem_singleton.mp heq
      exact absurd hconnection (by decide)
  refine ⟨hfull, ?_, ?_⟩
  · obtain ⟨fields, mid, more, last, hkeys, -, htrail, hlast⟩ :=
      (hchains _ hfull (.field "home") [] (hplain _)).1.mp rfl
    obtain rfl : fields = ["home"] := (List.map_inj_right fun _ _ => Key.field.inj).mp hkeys.symm
    exact ⟨more, last, htrail, hlast⟩
  · rintro ⟨more, last, htrail, hlast⟩
    obtain ⟨mid, hmid⟩ : ∃ mid, people.SimpleTrail 3 "Person" ["friend"] mid := htrail.of_append
    have hsome := (hchains _ hfull (.field "friend") [] (hplain _)).1.mpr
      ⟨["friend"], mid, more, last, rfl, hmid, htrail, hlast⟩
    cases hsome

end Schema

end FieldSelection
