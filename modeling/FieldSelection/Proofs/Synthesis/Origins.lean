import FieldSelection.Proofs.Schema.Lookup
import FieldSelection.Proofs.Selection.Descent
import FieldSelection.Proofs.Synthesis.Plan

/-!
# Full selections are written as the types they were made for

The type of a node is found twice: the synthesis takes it from the descriptor of a field, through
the entries of connections, and a request finds it again from type to type on its way down. Both
come to the same types (`reached_of_fullSelection`):

* a plan agrees with a type if its nodes are made for the types that their keys lead to
  (`Plan.Agrees`), and every plan of a full selection agrees with its type (`agrees_of_fullPlan`);
* so what a request reaches is a node of the plan, seen as the type it was made for, or the
  `pageInfo` of a connection (`Plan.Agrees.reached`).
-/

namespace FieldSelection

/-! ## 1. Plans that agree with a type -/

/-- A node that was made for something, seen as of a type: if it was made for a type then for this
    one, its keys are fields of it, but for the `pageInfo` of a connection, and it has the mark
    exactly if it was made for the type and that lists scalars. -/
structure Origin.Fits (origin : Origin) (type : String) (d : TypeDescriptor) (u : Selection) :
    Prop where
  same : ∀ name, origin = .type name → name = type
  fields : ∀ e ∈ u.items, (∃ name f, e.1 = .field name ∧ d.field? name = some f) ∨
    (origin = .connection ∧ e = (.field "pageInfo", .node .pageInfo))
  mark : u.allScalars = true ↔ origin = .type type ∧ d.scalars ≠ []

namespace Plan

/-- Every node of the plan is made for the type that its keys lead to, seen from a type. -/
inductive Agrees (s : Schema) : String → Plan → Prop where
  | intro {type : String} {d : TypeDescriptor} {origin : Origin} {marked : Bool}
      {children : List (Key × Plan)} (hd : s.descriptor? type = some d)
      (hsame : ∀ name, origin = .type name → name = type)
      (hmark : marked = true ↔ origin = .type type ∧ d.scalars ≠ [])
      (hnodup : (Table.keys children).Nodup)
      (hpage : origin = .connection → Table.get? (.field "pageInfo") children = none)
      (hfields : ∀ e ∈ children, ∃ name f, e.1 = .field name ∧ d.field? name = some f)
      (h : ∀ e ∈ children, ∀ target, e.1.target? (some d) = some target → Agrees s target e.2) :
      Agrees s type ⟨origin, marked, children⟩

/-- The keys of a node in a selection: those of the plan, and the `pageInfo` of a connection. -/
theorem mem_items_selection {pageSize : Nat} {plan : Plan} {e : Key × Item}
    (h : e ∈ (plan.selection pageSize).items) :
    (∃ p, (e.1, p) ∈ plan.children ∧ e.2 = .node (p.selection pageSize)) ∨
      (plan.origin = .connection ∧ e = (.field "pageInfo", .node .pageInfo)) := by
  obtain ⟨origin, marked, children⟩ := plan
  have hchild : e ∈ items pageSize children →
      ∃ p, (e.1, p) ∈ children ∧ e.2 = .node (p.selection pageSize) := by
    intro he
    rw [items_eq_map] at he
    obtain ⟨⟨key, p⟩, hp, rfl⟩ := List.mem_map.mp he
    exact ⟨p, hp, rfl⟩
  cases origin with
  | type | edges => exact Or.inl (hchild h)
  | connection =>
    rcases Table.mem_putNew_iff.mp h with he | ⟨-, he⟩
    · exact Or.inl (hchild he)
    · exact Or.inr ⟨rfl, he⟩

/-- The nodes of the plan are nodes of the selection. -/
theorem mem_items_of_children {pageSize : Nat} {plan p : Plan} {key : Key}
    (h : (key, p) ∈ plan.children) :
    (key, .node (p.selection pageSize)) ∈ (plan.selection pageSize).items := by
  obtain ⟨origin, marked, children⟩ := plan
  have hitem : (key, .node (p.selection pageSize)) ∈ items pageSize children := by
    rw [items_eq_map]
    exact List.mem_map.mpr ⟨(key, p), h, rfl⟩
  cases origin with
  | type | edges => exact hitem
  | connection => exact Table.mem_putNew_iff.mpr (Or.inl hitem)

theorem allScalars_selection (pageSize : Nat) (origin : Origin) (marked : Bool)
    (children : List (Key × Plan)) :
    (selection pageSize ⟨origin, marked, children⟩).allScalars = marked := by
  cases origin <;> rfl

variable {s : Schema} {pageSize : Nat} {type : String} {plan : Plan}

/-- The top of a plan fits the type that the plan agrees with. -/
theorem Agrees.fits (pageSize : Nat) (h : plan.Agrees s type) :
    ∃ d, s.descriptor? type = some d ∧ plan.origin.Fits type d (plan.selection pageSize) := by
  obtain ⟨hd, hsame, hmark, -, -, hfields, -⟩ := h
  refine ⟨_, hd, hsame, fun e he => ?_, ?_⟩
  · exact (mem_items_selection he).imp (fun ⟨p, hp, _⟩ => hfields _ hp) id
  · rw [allScalars_selection]
    exact hmark

/-! ## 2. What a request reaches -/

/-- From `pageInfo` the way leads nowhere. -/
theorem eq_nil_of_reached_pageInfo {type? end? : Option String} {keys : List Key} {u : Selection}
    (h : Selection.pageInfo.Reached s type? keys end? u) : keys = [] ∧ u = .pageInfo := by
  cases h with
  | here => exact ⟨rfl, rfl⟩
  | under hitem _ =>
    have hitems : Selection.pageInfo.items =
      [(.field "hasNextPage", .leaf), (.field "endCursor", .leaf)] := rfl
    rw [hitems] at hitem
    simp at hitem

/-- The key of a node of the plan leads to a type that the node agrees with. -/
theorem Agrees.child (h : plan.Agrees s type) {key : Key} {p : Plan}
    (hp : (key, p) ∈ plan.children) :
    ∃ target, key.target? (s.descriptor? type) = some target ∧ p.Agrees s target ∧
      Table.get? key plan.children = some p := by
  obtain ⟨hd, -, -, hnodup, -, hfields, hagrees⟩ := h
  obtain ⟨name, f, hkey, hf⟩ := hfields _ hp
  cases hkey
  have htarget : (Key.field name).target? (s.descriptor? type) = some f.type := by
    rw [hd, Key.target?, Option.bind_some, hf]
    rfl
  exact ⟨f.type, htarget, hagrees _ hp _ (hd ▸ htarget), Table.get?_of_mem hnodup hp⟩

/-- **What is reached is made for the type it is seen as**, or is the `pageInfo` of a connection,
    which the plan leaves out. -/
theorem Agrees.reached (h : plan.Agrees s type) {keys : List Key} {end? : Option String}
    {u : Selection} (hu : (plan.selection pageSize).Reached s (some type) keys end? u) :
    (plan.origin? keys = none ∧ ∃ connection, keys = connection ++ [.field "pageInfo"] ∧
        plan.origin? connection = some .connection ∧ u = .pageInfo) ∨
      ∃ origin B d, plan.origin? keys = some origin ∧ end? = some B ∧
        s.descriptor? B = some d ∧ origin.Fits B d u := by
  induction keys generalizing plan type with
  | nil =>
    cases hu
    obtain ⟨d, hd, hfits⟩ := h.fits pageSize
    exact Or.inr ⟨_, type, d, rfl, rfl, hd, hfits⟩
  | cons key keys ih =>
    cases hu with
    | under hitem hu =>
      rcases mem_items_selection hitem with ⟨p, hp, hchild⟩ | ⟨horigin, heq⟩
      · cases hchild
        obtain ⟨target, htarget, hagrees, hget⟩ := h.child hp
        rw [Option.bind_some, htarget] at hu
        have hstep : ∀ ks, plan.origin? (key :: ks) = p.origin? ks := fun ks =>
          congrArg (Option.bind · (origin? ks)) hget
        rw [hstep]
        rcases ih hagrees hu with ⟨hnone, connection, rfl, ho, hpage⟩ | hfits
        · exact Or.inl ⟨hnone, key :: connection, rfl, (hstep connection).trans ho, hpage⟩
        · exact Or.inr hfits
      · cases heq
        obtain ⟨rfl, rfl⟩ := eq_nil_of_reached_pageInfo hu
        obtain ⟨-, -, -, -, hpage, -, -⟩ := h
        refine Or.inl ⟨?_, [], rfl, congrArg some horigin, rfl⟩
        exact congrArg (Option.bind · (origin? [])) (hpage horigin)

/-- Every node of a plan is reached, as the type it was made for. -/
theorem Agrees.exists_reached (h : plan.Agrees s type) {keys : List Key} {origin : Origin}
    (horigin : plan.origin? keys = some origin) :
    ∃ B u, (plan.selection pageSize).Reached s (some type) keys (some B) u ∧
      ∀ name, origin = .type name → name = B := by
  induction keys generalizing plan type with
  | nil =>
    cases horigin
    obtain ⟨d, hd, hfits⟩ := h.fits pageSize
    exact ⟨type, _, .here, hfits.same⟩
  | cons key keys ih =>
    obtain ⟨p, hp, horigin⟩ := Option.bind_eq_some_iff.mp horigin
    have hmem := Table.mem_of_get? hp
    obtain ⟨target, htarget, hagrees, -⟩ := h.child hmem
    obtain ⟨B, u, hu, hsame⟩ := ih hagrees horigin
    rw [← htarget] at hu
    exact ⟨B, u, .under (mem_items_of_children hmem) hu, hsame⟩

end Plan

/-! ## 3. Plans of full selections -/

namespace Schema

variable {s : Schema}

theorem target?_eq_some_iff {d? : Option TypeDescriptor} {name type : String} :
    (Key.field name).target? d? = some type ↔
      ∃ d f, d? = some d ∧ d.field? name = some f ∧ f.type = type := by
  cases d? with
  | none => simp [Key.target?]
  | some d => simp [Key.target?]

/-- A node that wraps another one agrees with a type if the key of the other leads to its type. -/
theorem agrees_wrapper {origin : Origin} (horigin : ∀ name, origin ≠ .type name)
    {outer inner name : String} (hpage : name ≠ "pageInfo")
    (hname : (Key.field name).target? (s.descriptor? outer) = some inner) {child : Plan}
    (h : child.Agrees s inner) : Plan.Agrees s outer ⟨origin, false, [(.field name, child)]⟩ := by
  obtain ⟨d, f, hd, hf, hinner⟩ := target?_eq_some_iff.mp hname
  refine .intro hd (fun name ho => absurd ho (horigin name)) ?_ (List.pairwise_singleton _ _) ?_ ?_
    ?_
  · simp [horigin]
  · simp [Table.get?, hpage]
  · intro e he
    cases List.mem_singleton.mp he
    exact ⟨name, f, rfl, hf⟩
  · intro e he target htarget
    cases List.mem_singleton.mp he
    rw [hd, htarget] at hname
    cases hname
    exact h

/-- A connection agrees with its type if its entries agree with theirs. -/
theorem agrees_plan {connection type : String} {route : ConnectionRoute}
    (hleads : s.Leads connection type route) {entries : Plan} (h : entries.Agrees s type) :
    (route.plan entries).Agrees s connection := by
  cases route with
  | nodes => exact agrees_wrapper (by simp) (by decide) hleads h
  | edges =>
    obtain ⟨edge, hedge, hnode⟩ := hleads
    have hentry : Plan.Agrees s edge ⟨.edges, false, [(.field "node", entries)]⟩ :=
      agrees_wrapper (by simp) (by decide) hnode h
    exact agrees_wrapper (by simp) (by decide) hedge hentry

section Fields

variable {expand : List String} {type : String} {d : TypeDescriptor}
  {follow : String → Except SelectionError Plan}

/-- What a field brings agrees with the target of the field, if what is followed does. -/
theorem agrees_of_fullPlan?
    (hfollow : ∀ type p, follow type = .ok p → p.isEmpty = false → p.Agrees s type)
    (hd : s.descriptor? type = some d) {f : FieldDescriptor} (hf : d.field? f.name = some f)
    {child : Plan} (h : f.fullPlan? expand follow = .ok (some child)) : child.Agrees s f.type := by
  unfold FieldDescriptor.fullPlan? at h
  split at h
  · cases h
  split at h
  · split at h
    · split at h
      · cases h
      · rename_i node hnode
        obtain ⟨p, hp, h⟩ := bind_eq_ok_iff.mp h
        obtain ⟨entries, hentries, rfl⟩ := Option.map_eq_some_iff.mp (Except.ok.inj h)
        obtain ⟨rfl, hne⟩ := Plan.nonEmpty?_eq_some_iff.mp hentries
        exact agrees_plan (leads_of_connectionNode? (connectionNode?_of_field? hd hf hnode))
          (hfollow _ _ hp hne)
    · cases h
  · obtain ⟨p, hp, h⟩ := bind_eq_ok_iff.mp h
    obtain ⟨rfl, hne⟩ := Plan.nonEmpty?_eq_some_iff.mp (Except.ok.inj h)
    exact hfollow _ _ hp hne

/-- What fields bring agrees with their targets. -/
theorem agrees_of_addFull
    (hfollow : ∀ type p, follow type = .ok p → p.isEmpty = false → p.Agrees s type)
    (hd : s.descriptor? type = some d) {marked : Bool}
    {fields : List (String × FieldDescriptor)}
    (hfields : ∀ e ∈ fields, d.field? e.2.name = some e.2) {children new : List (Key × Plan)}
    (hchildren : Plan.Agrees s type ⟨.type type, marked, children⟩)
    (h : Plan.addFull expand follow fields children = .ok new) :
    Plan.Agrees s type ⟨.type type, marked, new⟩ := by
  induction fields generalizing children with
  | nil =>
    cases h
    exact hchildren
  | cons e rest ih =>
    rw [List.forall_mem_cons] at hfields
    obtain ⟨next?, hnext, h⟩ := bind_eq_ok_iff.mp h
    cases next? with
    | none => exact ih hfields.2 hchildren h
    | some child =>
      have hchild := agrees_of_fullPlan? hfollow hd hfields.1 hnext
      refine ih hfields.2 ?_ h
      obtain ⟨hd', hsame, hmark, hnodup, -, hkeys, hagrees⟩ := hchildren
      obtain rfl := Option.some.inj (hd'.symm.trans hd)
      refine .intro hd hsame hmark (Table.nodup_keys_alter _ _ _ _ hnodup) nofun ?_ ?_
      · intro e' he
        rcases Table.mem_put he with rfl | he
        · exact ⟨_, _, rfl, hfields.1⟩
        · exact hkeys e' he
      · intro e' he target htarget
        rcases Table.mem_put he with rfl | he
        · rw [Key.target?, Option.bind_some, hfields.1] at htarget
          cases htarget
          exact hchild
        · exact hagrees e' he target htarget

end Fields

/-- The plan of a type agrees with the type where that is entered. -/
theorem agrees_of_fields (hs : s.WellFormed) {expand : List String} {type : String}
    {d : TypeDescriptor} {follow : String → Except SelectionError Plan}
    (hfollow : ∀ type p, follow type = .ok p → p.isEmpty = false → p.Agrees s type)
    (hd : s.descriptor? type = some d) {children : List (Key × Plan)}
    (h : Plan.addFull expand follow d.fields [] = .ok children) :
    Plan.Agrees s type ⟨.type type, !d.scalars.isEmpty, children⟩ := by
  have hstart : Plan.Agrees s type ⟨.type type, !d.scalars.isEmpty, []⟩ := by
    refine .intro hd (fun name ho => (Origin.type.inj ho).symm) ?_ List.nodup_nil nofun
      (List.forall_mem_nil _) (List.forall_mem_nil _)
    simp
  exact agrees_of_addFull hfollow hd (fun e he => field?_of_mem hs hd he) hstart h

/-- A plan that is not empty agrees with its type, however much room there is. -/
theorem agrees_of_fullPlanWithin (hs : s.WellFormed) {room : Nat} {ancestors expand : List String}
    {type : String} {plan : Plan} (h : s.fullPlanWithin room ancestors expand type = .ok plan)
    (hne : plan.isEmpty = false) : plan.Agrees s type := by
  -- on the room: what is followed from a type has one level less
  induction room generalizing ancestors expand type plan with
  | zero =>
    unfold fullPlanWithin at h
    split at h
    · cases h
    · split at h <;> cases h <;> cases hne
  | succ room ih =>
    unfold fullPlanWithin at h
    split at h
    · cases h
    · rename_i d hd
      split at h
      · cases h
        cases hne
      · obtain ⟨children, hchildren, rfl⟩ := map_eq_ok_iff.mp h
        exact agrees_of_fields hs (fun _ _ => ih) hd hchildren

/-- The plan of a full selection agrees with its type, also if it is empty. -/
theorem agrees_of_fullPlan (hs : s.WellFormed) {maxDepth : Nat} {expand : List String}
    {type : String} {plan : Plan} (h : s.fullPlan maxDepth expand type = .ok plan) :
    plan.Agrees s type := by
  unfold fullPlan fullPlanWithin at h
  split at h
  · cases h
  · rename_i d hd
    obtain ⟨children, hchildren, rfl⟩ := map_eq_ok_iff.mp h
    exact agrees_of_fields hs (fun _ _ => agrees_of_fullPlanWithin hs) hd hchildren

/-- **The nodes of a full selection are written as the types they were made for.** The nodes of the
    plan are reached, those made for a type as exactly that type; and what is reached is the
    `pageInfo` of a connection, or a node of the plan that fits its origin. -/
theorem reached_of_fullSelection (hs : s.WellFormed) {pageSize maxDepth : Nat}
    {expand : List String} {type : String} {t : Selection}
    (h : s.fullSelection pageSize maxDepth expand type = .ok t) :
    ∃ plan, s.fullPlan maxDepth expand type = .ok plan ∧ plan.selection pageSize = t ∧
      (∀ keys B, plan.origin? keys = some (.type B) →
        ∃ u, t.Reached s (some type) keys (some B) u) ∧
      ∀ keys end? u, t.Reached s (some type) keys end? u →
        (plan.origin? keys = none ∧ ∃ connection, keys = connection ++ [.field "pageInfo"] ∧
          plan.origin? connection = some .connection ∧ u = .pageInfo) ∨
        ∃ origin B d, plan.origin? keys = some origin ∧ end? = some B ∧
          s.descriptor? B = some d ∧ origin.Fits B d u := by
  rw [fullSelection_eq] at h
  obtain ⟨plan, hplan, rfl⟩ := map_eq_ok_iff.mp h
  have hagrees := agrees_of_fullPlan hs hplan
  refine ⟨plan, hplan, rfl, fun keys B horigin => ?_, fun keys end? u => hagrees.reached⟩
  obtain ⟨C, u, hu, hsame⟩ := hagrees.exists_reached horigin
  obtain rfl := hsame B rfl
  exact ⟨u, hu⟩

/-- A product whose media are a connection with edges, which list a cursor of their own. -/
def product : Schema :=
  ⟨[("Product", ⟨["id"], [("media", ⟨"MediaConnection!", []⟩)]⟩),
    ("MediaConnection", ⟨[], [("edges", ⟨"[MediaEdge!]!", []⟩)]⟩),
    ("MediaEdge", ⟨["cursor"], [("cursor", ⟨"String!", []⟩), ("node", ⟨"Media!", []⟩)]⟩),
    ("Media", ⟨["alt"], [("alt", ⟨"String", []⟩)]⟩)], defaultConnectionSuffix⟩

/-- The full selection of a product with its media. -/
def productSelection : Selection :=
  ⟨[], true, [(.field "media", .node (ConnectionRoute.edges.wrap 25 .scalars))]⟩

theorem wellFormed_product : product.WellFormed := by
  simp [WellFormed, product]

/-- In the full selection of a product what is in the edges is seen as the media that it was made
    for, and the edges, which list a scalar, have no mark. -/
theorem reached_productSelection :
    product.fullSelection 25 2 ["media"] "Product" = .ok productSelection ∧
      (∃ u, productSelection.Reached product (some "Product")
        [.field "media", .field "edges", .field "node"] (some "Media") u) ∧
      ∀ end? u, productSelection.Reached product (some "Product")
        [.field "media", .field "edges"] end? u → u.allScalars = false := by
  have hfull : product.fullSelection 25 2 ["media"] "Product" = .ok productSelection := rfl
  obtain ⟨plan, hplan, -, hmade, hreached⟩ := reached_of_fullSelection wellFormed_product hfull
  cases hplan
  refine ⟨hfull, hmade _ "Media" rfl, fun end? u hu => ?_⟩
  rcases hreached _ end? u hu with ⟨hnone, -⟩ | ⟨origin, B, d, horigin, -, -, hfits⟩
  · cases hnone
  · cases horigin
    rw [Bool.eq_false_iff]
    intro hmark
    cases (hfits.mark.mp hmark).1

end Schema

end FieldSelection
