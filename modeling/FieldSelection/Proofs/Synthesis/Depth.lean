import FieldSelection.Proofs.Synthesis.Connections

/-!
# The depth of a full selection

A full selection stops at a depth, and at a type that it has entered before. The second alone ends
it: each level takes one of the types of the schema that are not entered yet (`unentered`), so
`selectFrom` counts these, and needs no bound on the depth. It is what is selected
(`fullSelectionWithin_eq_limited`), and with room for the types not yet entered the limit is never
met (`fullSelectionWithin_eq_unlimited`).

A smaller depth deletes keys (`PrunedFrom`). A node that it empties goes, and so does what this
leaves empty; what is not empty loses keys and nothing else (`prunedFrom_of_new`). It never makes a
full selection fail (`exists_ok_of_le`).
-/

namespace FieldSelection

/-! ## 1. Selections with keys deleted -/

mutual

/-- A selection is another one with some of its keys deleted, here or below: the arguments and the
    mark of what is left are the same, and its keys come in the same order. -/
inductive Selection.PrunedFrom : Selection → Selection → Prop where
  | mk {arguments : List (String × Literal)} {allScalars : Bool} {is js : List (Key × Item)}
      (h : Selection.ItemsPrunedFrom is js) :
      Selection.PrunedFrom ⟨arguments, allScalars, is⟩ ⟨arguments, allScalars, js⟩

/-- Items are others of which some are deleted, and some have keys deleted below. -/
inductive Selection.ItemsPrunedFrom : List (Key × Item) → List (Key × Item) → Prop where
  | nil : Selection.ItemsPrunedFrom [] []
  | drop {is js : List (Key × Item)} (e : Key × Item) (h : Selection.ItemsPrunedFrom is js) :
      Selection.ItemsPrunedFrom is (e :: js)
  | keep {is js : List (Key × Item)} (key : Key) {x y : Item} (hitem : Item.PrunedFrom x y)
      (h : Selection.ItemsPrunedFrom is js) :
      Selection.ItemsPrunedFrom ((key, x) :: is) ((key, y) :: js)

/-- A leaf stays a leaf, and a node a node. -/
inductive Item.PrunedFrom : Item → Item → Prop where
  | leaf : Item.PrunedFrom .leaf .leaf
  | node {s t : Selection} (h : Selection.PrunedFrom s t) : Item.PrunedFrom (.node s) (.node t)

end

mutual

theorem Selection.prunedFrom_refl : ∀ s : Selection, s.PrunedFrom s
  | ⟨_, _, items⟩ => .mk (Selection.itemsPrunedFrom_refl items)

theorem Selection.itemsPrunedFrom_refl :
    ∀ items : List (Key × Item), Selection.ItemsPrunedFrom items items
  | [] => .nil
  | (key, item) :: rest =>
    .keep key (Item.prunedFrom_refl item) (Selection.itemsPrunedFrom_refl rest)

theorem Item.prunedFrom_refl : ∀ item : Item, item.PrunedFrom item
  | .leaf => .leaf
  | .node s => .node (Selection.prunedFrom_refl s)

end

/-- What selects something did so before. -/
theorem Selection.PrunedFrom.isEmpty_eq_false {s t : Selection} (h : s.PrunedFrom t)
    (hne : s.isEmpty = false) : t.isEmpty = false := by
  cases h with
  | mk h =>
    cases h with
    | nil => exact hne
    | drop => rfl
    | keep => rfl

/-- Two lists in the order of a third one are in each other's order. -/
theorem sublist_of_subset {α : Type} {order l m : List α} (hnodup : order.Nodup)
    (hl : l.Sublist order) (hm : m.Sublist order) (h : l ⊆ m) : l.Sublist m := by
  induction order generalizing l m with
  | nil =>
    rw [List.sublist_nil.mp hl]
    exact List.nil_sublist m
  | cons a order ih =>
    obtain ⟨hnew, hnodup⟩ := List.nodup_cons.mp hnodup
    have hne : ∀ {k : List α}, k.Sublist order → ∀ x ∈ k, x ≠ a :=
      fun hk x hx heq => hnew (heq ▸ hk.subset hx)
    cases hl with
    | cons _ hl =>
      cases hm with
      | cons _ hm => exact ih hnodup hl hm h
      | cons_cons _ hm =>
        have hrest := fun x hx => (List.mem_cons.mp (h hx)).resolve_left (hne hl x hx)
        exact (ih hnodup hl hm hrest).cons a
    | cons_cons _ hl =>
      cases hm with
      | cons _ hm => exact absurd rfl (hne hm a (h List.mem_cons_self))
      | cons_cons _ hm =>
        have hrest := fun x hx =>
          (List.mem_cons.mp (h (List.mem_cons_of_mem a hx))).resolve_left (hne hl x hx)
        exact (ih hnodup hl hm hrest).cons_cons a

/-- Items whose keys are some of others, in their order, and under each key have keys deleted. -/
theorem Selection.itemsPrunedFrom_of_keys {is js : List (Key × Item)}
    (hkeys : (Table.keys is).Sublist (Table.keys js))
    (h : ∀ e ∈ is, ∀ y, (e.1, y) ∈ js → e.2.PrunedFrom y) : ItemsPrunedFrom is js := by
  induction js generalizing is with
  | nil =>
    obtain rfl := List.map_eq_nil_iff.mp (List.sublist_nil.mp hkeys)
    exact .nil
  | cons e js ih =>
    rcases List.sublist_cons_iff.mp hkeys with hkeys | ⟨_, hhead, hkeys⟩
    · exact .drop e (ih hkeys fun e' he y hy => h e' he y (List.mem_cons_of_mem e hy))
    · obtain ⟨⟨key, x⟩, is, rfl, rfl, rfl⟩ := List.map_eq_cons_iff.mp hhead
      have hrest : ItemsPrunedFrom is js := ih hkeys fun e' he y hy =>
        h e' (List.mem_cons_of_mem _ he) y (List.mem_cons_of_mem e hy)
      exact .keep e.1 (h _ List.mem_cons_self e.2 List.mem_cons_self) hrest

/-- A goal that comes to less makes less of its field. -/
theorem Goal.prunedFrom_selection (pageSize : Nat) (goal : Goal) {s t : Selection}
    (h : s.PrunedFrom t) : (goal.selection pageSize s).PrunedFrom (goal.selection pageSize t) := by
  rw [Goal.selection, Goal.selection]
  cases goal.route? with
  | none => exact h
  | some route =>
    have hentry : ∀ rest, Selection.ItemsPrunedFrom (route.entry s :: rest)
        (route.entry t :: rest) := by
      intro rest
      cases route with
      | nodes => exact .keep _ (.node h) (Selection.itemsPrunedFrom_refl rest)
      | edges =>
        exact .keep _ (.node (.mk (.keep _ (.node h) .nil))) (Selection.itemsPrunedFrom_refl rest)
    show (route.wrap pageSize s).PrunedFrom (route.wrap pageSize t)
    rw [ConnectionRoute.wrap_eq, ConnectionRoute.wrap_eq]
    exact .mk (hentry _)

/-! ## 2. A smaller depth -/

namespace Schema

section Rooms

variable {s : Schema} {pageSize room room' : Nat} {ancestors expand : List String} {type : String}
  {d : TypeDescriptor} {t t' : Selection}

section Levels

variable (hs : s.WellFormed) (hd : s.descriptor? type = some d)
  (h : s.Level pageSize room ancestors expand type d t)
  (h' : s.Level pageSize room' ancestors expand type d t')
  (hgoals : ∀ {target u u'},
    s.fullSelectionWithin pageSize room (type :: ancestors) [] target = .ok u →
    s.fullSelectionWithin pageSize room' (type :: ancestors) [] target = .ok u' →
    u.isEmpty = false → u.PrunedFrom u')

include h h' hgoals in
/-- What a level has under a key, one with more room below has as well, before keys are deleted. -/
theorem Level.exists_of_get? {key : Key} {item : Item} (hget : t.get? key = some item) :
    ∃ y, t'.get? key = some y ∧ item.PrunedFrom y := by
  obtain ⟨field, goal, u, hsets, hu, hne, hkey, rfl⟩ := h.get?_eq_some_iff.mp hget
  obtain ⟨u', hu'⟩ := h'.followed hsets
  have hpruned := hgoals hu hu' hne
  have hne' := hpruned.isEmpty_eq_false hne
  have hget' := h'.get?_eq_some_iff.mpr ⟨field, goal, u', hsets, hu', hne', hkey, rfl⟩
  exact ⟨_, hget', .node (goal.prunedFrom_selection pageSize hpruned)⟩

include hs hd h h' hgoals in
/-- A level has keys deleted if what its goals come to has. -/
theorem Level.prunedFrom : t.PrunedFrom t' := by
  have hkeys : (Table.keys t.items).Sublist (Table.keys t'.items) := by
    refine sublist_of_subset (nodup_field_keys hs hd) h.keys h'.keys fun key hkey => ?_
    obtain ⟨e, he, rfl⟩ := List.mem_map.mp hkey
    obtain ⟨y, hy, -⟩ := h.exists_of_get? h' hgoals (h.get?_of_mem hs hd he)
    exact List.mem_map.mpr ⟨(e.1, y), Table.mem_of_get? hy, rfl⟩
  have hitems : Selection.ItemsPrunedFrom t.items t'.items := by
    refine Selection.itemsPrunedFrom_of_keys hkeys fun e he y hy => ?_
    obtain ⟨y', hy', hpruned⟩ := h.exists_of_get? h' hgoals (h.get?_of_mem hs hd he)
    obtain rfl := Option.some.inj (hy'.symm.trans (h'.get?_of_mem hs hd hy))
    exact hpruned
  have hmark : t.allScalars = t'.allScalars := Bool.eq_iff_iff.mpr (h.mark.trans h'.mark.symm)
  have harguments : t.arguments = t'.arguments := h.arguments.trans h'.arguments.symm
  obtain ⟨arguments, allScalars, is⟩ := t
  obtain ⟨arguments', allScalars', js⟩ := t'
  obtain rfl : arguments = arguments' := harguments
  obtain rfl : allScalars = allScalars' := hmark
  exact .mk hitems

end Levels

/-- **Less room deletes keys** of a type that is entered. -/
theorem prunedFrom_of_new (hs : s.WellFormed) (hnew : type ∉ ancestors) (hle : room ≤ room')
    (h : s.fullSelectionWithin pageSize (room + 1) ancestors expand type = .ok t)
    (h' : s.fullSelectionWithin pageSize (room' + 1) ancestors expand type = .ok t') :
    t.PrunedFrom t' := by
  -- on the room: a goal that comes to something enters its type, with one level less
  induction room using Nat.strongRecOn generalizing room' ancestors expand type t t' with
  | ind room ih =>
    obtain ⟨d, hd, hlevel⟩ := level_of_new hs h hnew
    obtain ⟨d', hd', hlevel'⟩ := level_of_new hs h' hnew
    obtain rfl := Option.some.inj (hd'.symm.trans hd)
    refine hlevel.prunedFrom hs hd hlevel' fun hu hu' hne => ?_
    obtain ⟨-, room, -, hnew, rfl, -⟩ := exists_level hs hu hne
    obtain ⟨room', rfl⟩ := Nat.exists_eq_succ_of_ne_zero (Nat.ne_zero_of_lt hle)
    exact ih room (Nat.lt_succ_self room) hnew (Nat.le_of_succ_le_succ hle) hu hu'

/-- What fails with less room fails with more. -/
theorem exists_ok_of_le (hs : s.WellFormed) (hle : room ≤ room')
    (h' : s.fullSelectionWithin pageSize room' ancestors expand type = .ok t') :
    ∃ t, s.fullSelectionWithin pageSize room ancestors expand type = .ok t := by
  induction room using Nat.strongRecOn generalizing room' ancestors expand type t' with
  | ind room ih =>
    cases hres : s.fullSelectionWithin pageSize room ancestors expand type with
    | ok t => exact ⟨t, rfl⟩
    | error e =>
      rcases failure_of_error hs hres with ⟨hunknown, -⟩ |
        ⟨hnew, room, field, goal, rfl, hsets, he⟩
      · exact absurd hunknown (known_of_ok hs h')
      · obtain ⟨room', rfl⟩ := Nat.exists_eq_succ_of_ne_zero (Nat.ne_zero_of_lt hle)
        obtain ⟨d, -, hlevel⟩ := level_of_new hs h' hnew
        obtain ⟨u', hu'⟩ := hlevel.followed hsets
        obtain ⟨u, hu⟩ := ih room (Nat.lt_succ_self room) (Nat.le_of_succ_le_succ hle) hu'
        cases hu.symm.trans he

end Rooms

/-! ## 3. Where the selection ends by itself -/

/-- The types of the schema that are no ancestors. -/
def unentered (s : Schema) (ancestors : List String) : List String :=
  (Table.keys s.types).filter fun name => !ancestors.contains name

section Ends

variable {s : Schema} {ancestors expand : List String} {type : String} {d : TypeDescriptor}

theorem mem_unentered (hd : s.descriptor? type = some d) (hnew : ancestors.contains type = false) :
    type ∈ s.unentered ancestors := by
  obtain ⟨t, ht, -⟩ := descriptor?_eq_some_iff.mp hd
  have hkey : type ∈ Table.keys s.types := List.mem_map.mpr ⟨_, Table.mem_of_get? ht, rfl⟩
  exact List.mem_filter.mpr ⟨hkey, by rw [hnew]; rfl⟩

/-- A type that is entered is one less. -/
theorem length_unentered_lt (hd : s.descriptor? type = some d)
    (hnew : ancestors.contains type = false) :
    (s.unentered (type :: ancestors)).length < (s.unentered ancestors).length := by
  have heq : s.unentered (type :: ancestors) = (s.unentered ancestors).filter (· != type) := by
    rw [unentered, unentered, List.filter_filter]
    refine List.filter_congr fun name _ => ?_
    rw [List.contains_cons, Bool.not_or]
    rfl
  rw [heq, List.length_filter_lt_length_iff_exists]
  exact ⟨type, mem_unentered hd hnew, by simp⟩

/-- The full selection of a type, with the depth that it is at, and a limit on the depth if there is
    one. It ends without a limit, as every level enters one more type. -/
def selectFrom (s : Schema) (pageSize : Nat) (limit? : Option Nat) (depth : Nat)
    (ancestors expand : List String) (type : String) : Except SelectionError Selection :=
  match hd : s.descriptor? type with
  | none => .error (.unknownType type)
  | some d =>
    if hold : ancestors.contains type = true then .ok .empty
    else if limit?.any (· < depth) then .ok .empty
    else
      Selection.addFull pageSize expand
        (fun target => s.selectFrom pageSize limit? (depth + 1) (type :: ancestors) [] target)
        d.fields (Selection.empty.setAllScalars !d.scalars.isEmpty)
termination_by (s.unentered ancestors).length
decreasing_by exact length_unentered_lt hd (Bool.eq_false_iff.mpr hold)

end Ends

section Limits

variable {s : Schema} {pageSize room depth limit : Nat} {limit? : Option Nat}
  {ancestors expand : List String} {type : String}

/-- Where a type is entered, both must stop, or go on to the same. -/
theorem fullSelectionWithin_eq_selectFrom
    (h : ∀ d, s.descriptor? type = some d → ancestors.contains type = false →
      (room = 0 ∧ limit?.any (· < depth) = true) ∨
        ∃ room', room = room' + 1 ∧ limit?.any (· < depth) = false ∧ ∀ target,
          s.fullSelectionWithin pageSize room' (type :: ancestors) [] target =
            s.selectFrom pageSize limit? (depth + 1) (type :: ancestors) [] target) :
    s.fullSelectionWithin pageSize room ancestors expand type =
      s.selectFrom pageSize limit? depth ancestors expand type := by
  rw [selectFrom]
  split
  · rename_i hd
    rw [fullSelectionWithin, hd]
  · rename_i d hd
    rw [fullSelectionWithin, hd]
    cases hold : ancestors.contains type with
    | true => rfl
    | false =>
      rcases h d hd hold with ⟨rfl, hlimit⟩ | ⟨room, rfl, hlimit, hfollow⟩
      · rw [hlimit]
        rfl
      · rw [hlimit, ← funext hfollow]
        rfl

/-- Room is what the limit leaves at a depth. -/
theorem fullSelectionWithin_eq_limited (h : room + depth = limit + 1) :
    s.fullSelectionWithin pageSize room ancestors expand type =
      s.selectFrom pageSize (some limit) depth ancestors expand type := by
  induction room generalizing depth ancestors expand type with
  | zero =>
    have hlimit : (some limit).any (· < depth) = true := decide_eq_true (by omega)
    exact fullSelectionWithin_eq_selectFrom fun _ _ _ => Or.inl ⟨rfl, hlimit⟩
  | succ room ih =>
    have hlimit : (some limit).any (· < depth) = false := decide_eq_false (by omega)
    exact fullSelectionWithin_eq_selectFrom fun _ _ _ =>
      Or.inr ⟨room, rfl, hlimit, fun _ => ih (by omega)⟩

/-- With room for all types that are not entered yet, no limit is met. -/
theorem fullSelectionWithin_eq_unlimited (h : (s.unentered ancestors).length ≤ room) :
    s.fullSelectionWithin pageSize room ancestors expand type =
      s.selectFrom pageSize none depth ancestors expand type := by
  induction room generalizing depth ancestors expand type with
  | zero =>
    refine fullSelectionWithin_eq_selectFrom fun d hd hnew => ?_
    have hless := length_unentered_lt hd hnew
    omega
  | succ room ih =>
    refine fullSelectionWithin_eq_selectFrom fun d hd hnew => ?_
    have hless := length_unentered_lt hd hnew
    exact Or.inr ⟨room, rfl, rfl, fun _ => ih (by omega)⟩

/-- **Depth.**

    * The selection with a greatest depth is the one that is found by counting the depth and ends
      where no type is left to enter.
    * What succeeds with a depth succeeds with each smaller one, and then some keys are deleted;
      nothing else changes.
    * From the number of types on, the depth does not matter: the outcome is that without a limit,
      be it a selection or an error. -/
theorem fullSelection_depth (hs : s.WellFormed) (pageSize : Nat) (expand : List String)
    (type : String) :
    (∀ depth, s.fullSelection pageSize depth expand type =
      s.selectFrom pageSize (some depth) 0 [] expand type) ∧
    (∀ depth depth' t', depth ≤ depth' → s.fullSelection pageSize depth' expand type = .ok t' →
      ∃ t, s.fullSelection pageSize depth expand type = .ok t ∧ t.PrunedFrom t') ∧
    (∀ depth, s.types.length ≤ depth → s.fullSelection pageSize depth expand type =
      s.selectFrom pageSize none 0 [] expand type) ∧
    ∀ depth depth', s.types.length ≤ depth → s.types.length ≤ depth' →
      s.fullSelection pageSize depth expand type = s.fullSelection pageSize depth' expand type := by
  have hunlimited : ∀ depth, s.types.length ≤ depth → s.fullSelection pageSize depth expand type =
      s.selectFrom pageSize none 0 [] expand type := by
    intro depth hdepth
    have hleft : (s.unentered []).length ≤ (Table.keys s.types).length :=
      List.length_filter_le _ _
    have hkeys : (Table.keys s.types).length = s.types.length := List.length_map _
    exact fullSelectionWithin_eq_unlimited (by omega)
  refine ⟨fun depth => fullSelectionWithin_eq_limited rfl, fun depth depth' t' hle h' => ?_,
    hunlimited, fun depth depth' hdepth hdepth' => ?_⟩
  · obtain ⟨t, h⟩ := exists_ok_of_le hs (Nat.succ_le_succ hle) h'
    exact ⟨t, h, prunedFrom_of_new hs List.not_mem_nil hle h h'⟩
  · exact (hunlimited depth hdepth).trans (hunlimited depth' hdepth').symm

/-- Three types that lead to each other in a circle. -/
def circle : Schema where
  types := [
    ("Shop", ⟨["name"], [("bestseller", ⟨"Product", []⟩)]⟩),
    ("Product", ⟨[], [("vendor", ⟨"Vendor", []⟩)]⟩),
    ("Vendor", ⟨["name"], [("shop", ⟨"Shop", []⟩)]⟩)]
  connectionSuffix := defaultConnectionSuffix

theorem wellFormed_circle : circle.WellFormed := by
  simp [WellFormed, circle]

/-- Around the circle a depth of three is as good as any greater one, and a depth of one leaves no
    more than the mark: the product has nothing of its own. -/
theorem fullSelection_depth_circle :
    (∀ depth, 3 ≤ depth → circle.fullSelection 25 depth [] "Shop" =
      .ok ⟨[], true, [(.field "bestseller",
        .node ⟨[], false, [(.field "vendor", .node ⟨[], true, []⟩)]⟩)]⟩) ∧
      circle.fullSelection 25 1 [] "Shop" = .ok ⟨[], true, []⟩ ∧
      Selection.PrunedFrom ⟨[], true, []⟩ ⟨[], true, [(.field "bestseller",
        .node ⟨[], false, [(.field "vendor", .node ⟨[], true, []⟩)]⟩)]⟩ := by
  obtain ⟨-, hsmaller, -, hgreater⟩ := fullSelection_depth wellFormed_circle 25 [] "Shop"
  refine ⟨fun depth hdepth => (hgreater depth 3 hdepth (Nat.le_refl 3)).trans rfl, rfl, ?_⟩
  obtain ⟨t, ht, hpruned⟩ := hsmaller 1 3 _ (by decide) rfl
  cases ht
  exact hpruned

end Limits

end Schema

end FieldSelection
