import FieldSelection.Proofs.Selection.PathEquality

/-!
# Paths that fail

A path is refused (`Selection.Refuses`) for its first segment that is no name, and else for a leaf
that stands at one of its segments ahead of the last one. It fails exactly if it is refused, and the
failure says why (`addPath_fails_iff`).

* A path with a segment that is no name changes nothing.
* A path that comes to a leaf has created none of its fields. It leaves the selection with the nodes
  paged that it went through on its way to `nodes` or `edges` (`Selection.pagedAlong`). That it
  creates a field and fails after that is impossible: below a new field it meets what it has made
  itself, and none of its segments is the `pageInfo` of a connection that it pages.
-/

namespace FieldSelection

/-! ## 1. Changing nodes in their places -/

mutual

/-- The selection with every node changed by `f`, which is told the place of the node. What is in a
    node is changed ahead of it. -/
def Selection.mapNodes (f : List Key → Selection → Selection) : Selection → Selection
  | ⟨a, w, is⟩ => f [] ⟨a, w, Selection.mapItems f is⟩

/-- The items with every node in them changed. -/
def Selection.mapItems (f : List Key → Selection → Selection) :
    List (Key × Item) → List (Key × Item)
  | [] => []
  | (key, item) :: rest =>
    (key, Item.mapNodes (fun place => f (key :: place)) item) :: Selection.mapItems f rest

/-- The item with every node in it changed. -/
def Item.mapNodes (f : List Key → Selection → Selection) : Item → Item
  | .leaf => .leaf
  | .node s => .node (Selection.mapNodes f s)

end

section MapNodes

variable {f g : List Key → Selection → Selection} {s : Selection} {k : Key} {item : Item}

theorem Selection.mapItems_eq_map (is : List (Key × Item)) : Selection.mapItems f is =
    is.map fun e => (e.1, e.2.mapNodes fun place => f (e.1 :: place)) := by
  induction is with
  | nil => rfl
  | cons e rest ih => rw [Selection.mapItems, ih, List.map_cons]

/-- What changes no node changes nothing. -/
theorem Item.mapNodes_eq_self (h : ∀ place u, f place u = u) (x : Item) : x.mapNodes f = x := by
  induction x using Item.induct generalizing f with
  | leaf => rfl
  | node s ih =>
    obtain ⟨a, w, is⟩ := s
    have hsame : ∀ e ∈ is, (e.1, e.2.mapNodes fun place => f (e.1 :: place)) = id e :=
      fun e he => Prod.ext rfl (ih e he fun place => h (e.1 :: place))
    rw [Item.mapNodes, Selection.mapNodes, Selection.mapItems_eq_map, List.map_congr_left hsame,
      List.map_id, h]

namespace Selection

/-- The selection with the nodes below its top changed. -/
def mapBelow (f : List Key → Selection → Selection) (s : Selection) : Selection :=
  s.withItems (mapItems f s.items)

theorem mapNodes_eq (s : Selection) : s.mapNodes f = f [] (s.mapBelow f) := by
  cases s
  rfl

theorem mapBelow_congr (h : ∀ key place u, f (key :: place) u = g (key :: place) u)
    (s : Selection) : s.mapBelow f = s.mapBelow g := by
  have hfg : ∀ key : Key, (fun place => f (key :: place)) = fun place => g (key :: place) :=
    fun key => funext fun place => funext (h key place)
  rw [mapBelow, mapBelow, mapItems_eq_map, mapItems_eq_map]
  simp only [hfg]

/-- What changes nodes under one key only puts the changed item there. -/
theorem mapBelow_of_get? (hs : s.WellFormed)
    (hoff : ∀ key, key ≠ k → ∀ place u, f (key :: place) u = u) (hget : s.get? k = some item) :
    s.mapBelow f = s.put k (item.mapNodes fun place => f (k :: place)) := by
  obtain ⟨a, w, is⟩ := s
  rw [mapBelow, put, mapItems_eq_map, items_mk, Table.put_eq_map hs.2.1 hget]
  refine congrArg _ (List.map_congr_left fun e he => Prod.ext rfl ?_)
  by_cases hkey : e.1 = k
  · subst hkey
    cases (Table.get?_of_mem hs.2.1 he).symm.trans hget
    exact (if_pos rfl).symm
  · exact (Item.mapNodes_eq_self (hoff e.1 hkey) e.2).trans (if_neg hkey).symm

/-- What leaves `pageInfo` alone may be done ahead of paging or after it. -/
theorem mapBelow_paged (hoff : ∀ place u, f (.field "pageInfo" :: place) u = u) (pageSize : Nat)
    (s : Selection) : (s.paged pageSize).mapBelow f = (s.mapBelow f).paged pageSize := by
  obtain ⟨a, w, is⟩ := s
  have hpage : (Item.node pageInfo).mapNodes (fun place => f (.field "pageInfo" :: place)) =
      .node pageInfo := Item.mapNodes_eq_self hoff _
  have hitems := Table.map_putNew (fun key (x : Item) => x.mapNodes fun place => f (key :: place))
    (.field "pageInfo") (.node pageInfo) is
  rw [hpage, ← mapItems_eq_map, ← mapItems_eq_map] at hitems
  exact congrArg (mk (Table.putNew "first" (.ofNat pageSize) a) w) hitems

end Selection

end MapNodes

/-! ## 2. Paging along a path -/

namespace Pages

variable {name next : String} {names rest : List String} {key : Key} {place : List Key}

theorem head_eq (h : Pages (name :: names) (key :: place)) : key = .field name := by
  obtain ⟨-, _, -, hpre⟩ := h
  exact (List.cons_prefix_cons.mp hpre).1

theorem cons_iff : Pages (name :: next :: rest) (.field name :: place) ↔
    (place = [] ∧ isConnectionField next = true) ∨ Pages (next :: rest) place := by
  constructor
  · intro h
    obtain ⟨place', heq, hplace⟩ := h.cons_cases
    cases heq
    exact hplace
  · intro h
    rcases h with ⟨rfl, hnext⟩ | hrest
    · exact Pages.head hnext name rest
    · exact hrest.cons name

/-- A path pages the first node that it enters on the way to a connection. -/
theorem singleton_iff : Pages (name :: next :: rest) [.field name] ↔
    isConnectionField next = true := by
  rw [cons_iff]
  exact ⟨fun h => h.elim And.right fun h => absurd rfl h.1, fun h => Or.inl ⟨rfl, h⟩⟩

theorem iff_prefix : Pages names place ↔ place ≠ [] ∧
    (place ++ [.field "nodes"] <+: fieldKeys names ∨
      place ++ [.field "edges"] <+: fieldKeys names) := by
  simp [Pages, isConnectionField, or_and_right, exists_or]

instance : Decidable (Pages names place) :=
  decidable_of_iff' _ iff_prefix

end Pages

namespace Selection

variable {s t child : Selection} {pageSize : Nat} {name next : String} {names rest : List String}
  {failed : Option String} {keys : List Key}

/-- The selection with the nodes paged that a path pages. -/
def pagedAlong (pageSize : Nat) (names : List String) (s : Selection) : Selection :=
  s.mapNodes fun place u => if Pages names place then u.paged pageSize else u

/-- The root is on no path. -/
theorem pagedAlong_eq_mapBelow (pageSize : Nat) (names : List String) (s : Selection) :
    s.pagedAlong pageSize names =
      s.mapBelow fun place u => if Pages names place then u.paged pageSize else u := by
  rw [pagedAlong, mapNodes_eq]
  exact if_neg fun h => h.1 rfl

/-- A path pages what stands under its first segment. -/
theorem pagedAlong_of_get? (hs : s.WellFormed) {item : Item}
    (hget : s.get? (.field name) = some item) : s.pagedAlong pageSize (name :: rest) =
      s.put (.field name) (item.mapNodes fun place u =>
        if Pages (name :: rest) (.field name :: place) then u.paged pageSize else u) := by
  rw [pagedAlong_eq_mapBelow]
  exact mapBelow_of_get? hs (fun key hkey place u => if_neg fun h => hkey h.head_eq) hget

theorem pagedAlong_of_leaf (hs : s.WellFormed) (hleaf : s.get? (.field name) = some .leaf) :
    s.pagedAlong pageSize (name :: rest) = s := by
  rw [pagedAlong_of_get? hs hleaf]
  obtain ⟨a, w, is⟩ := s
  exact congrArg (mk a w) (Table.put_of_get? hleaf)

/-- Paging along a path that enters a node is entering it, and paging along the rest of the path. -/
theorem pagedAlong_of_node (hs : s.WellFormed) (hnode : s.get? (.field name) = some (.node child)) :
    s.pagedAlong pageSize (name :: next :: rest) = s.put (.field name)
      (.node ((child.entered pageSize next).pagedAlong pageSize (next :: rest))) := by
  have hbelow : child.mapBelow (fun place u =>
        if Pages (name :: next :: rest) (.field name :: place) then u.paged pageSize else u) =
      child.mapBelow fun place u => if Pages (next :: rest) place then u.paged pageSize else u := by
    refine mapBelow_congr (fun key place u => ?_) child
    simp only [Pages.cons_iff, List.cons_ne_nil, false_and, false_or]
  rw [pagedAlong_of_get? hs hnode, Item.mapNodes, mapNodes_eq, hbelow, pagedAlong_eq_mapBelow,
    entered]
  by_cases hnext : isConnectionField next = true
  · rw [if_pos (Pages.singleton_iff.mpr hnext), if_pos hnext, mapBelow_paged]
    intro place u
    refine if_neg fun h => ?_
    cases h.head_eq
    exact absurd hnext (by decide)
  · rw [if_neg (mt Pages.singleton_iff.mp hnext), if_neg hnext]

/-! ## 3. Paths that come to a leaf -/

/-- A node that is entered has the arguments that it had, and those of a new node besides. -/
theorem argument?_entered (pageSize : Nat) (next : String) (s : Selection) (name : String) :
    (s.entered pageSize next).argument? name =
      (s.argument? name).or ((empty.entered pageSize next).argument? name) := by
  rw [entered, entered]
  split
  · exact Table.get?_putNew name "first" (.ofNat pageSize) s.arguments
  · exact (Option.or_none).symm

/-- A node that is entered has the items that it had, and those of a new node besides. -/
theorem get?_entered (pageSize : Nat) (next : String) (s : Selection) (key : Key) :
    (s.entered pageSize next).get? key =
      (s.get? key).or ((empty.entered pageSize next).get? key) := by
  rw [entered, entered]
  split
  · exact Table.get?_putNew key (.field "pageInfo") (.node pageInfo) s.items
  · exact (Option.or_none).symm

theorem get?_empty_entered {key : Key} (hkey : key ≠ .field "pageInfo") (pageSize : Nat)
    (next : String) : (empty.entered pageSize next).get? key = none := by
  rw [entered]
  split
  · exact if_neg hkey.symm
  · rfl

/-- Entering a node changes nothing on the rest of the path. -/
theorem get?_entered_next (pageSize : Nat) (next : String) (s : Selection) :
    (s.entered pageSize next).get? (.field next) = s.get? (.field next) := by
  by_cases hkey : Key.field next = .field "pageInfo"
  · cases hkey
    rfl
  · rw [get?_entered, get?_empty_entered hkey, Option.or_none]

theorem at?_entered (pageSize : Nat) (next : String) (s : Selection) (keys : List Key) :
    (s.entered pageSize next).at? (.field next :: keys) = s.at? (.field next :: keys) := by
  rw [at?_cons, at?_cons, get?_entered_next]

/-- On a path there is a leaf at a segment ahead of the last one. -/
def LeafOn (s : Selection) (names : List String) (segment : String) : Prop :=
  ∃ before after, names = before ++ segment :: after ∧ after ≠ [] ∧
    s.at? (fieldKeys (before ++ [segment])) = some .leaf

/-- There is none at the only segment. -/
theorem not_leafOn_singleton {segment : String} : ¬ s.LeafOn [name] segment := by
  intro h
  obtain ⟨before, after, hsplit, hafter, -⟩ := h
  cases before with
  | nil => exact hafter (List.cons.inj hsplit).2.symm
  | cons _ before =>
    have hnil := (List.cons.inj hsplit).2
    exact List.append_ne_nil_of_right_ne_nil before (List.cons_ne_nil _ _) hnil.symm

/-- A leaf on the path is at its first segment, or further on in what the path enters. -/
theorem leafOn_cons_iff {segment : String} : s.LeafOn (name :: next :: rest) segment ↔
    (segment = name ∧ s.get? (.field name) = some .leaf) ∨
      ∃ child, s.get? (.field name) = some (.node child) ∧ child.LeafOn (next :: rest) segment := by
  constructor
  · intro h
    obtain ⟨before, after, hsplit, hafter, hleaf⟩ := h
    cases before with
    | nil =>
      obtain ⟨rfl, rfl⟩ := List.cons.inj hsplit
      obtain ⟨item, hitem, hat⟩ := Option.bind_eq_some_iff.mp hleaf
      cases hat
      exact Or.inl ⟨rfl, hitem⟩
    | cons _ before =>
      obtain ⟨rfl, hrest⟩ := List.cons.inj hsplit
      obtain ⟨item, hitem, hat⟩ := Option.bind_eq_some_iff.mp hleaf
      cases item with
      | leaf =>
        have hnil : fieldKeys (before ++ [segment]) = [] := (eq_nil_of_at?_leaf hat).1
        rw [fieldKeys, List.map_eq_nil_iff] at hnil
        exact absurd hnil (List.append_ne_nil_of_right_ne_nil before (List.cons_ne_nil _ _))
      | node child => exact Or.inr ⟨child, hitem, before, after, hrest, hafter, hat⟩
  · intro h
    rcases h with ⟨rfl, hleaf⟩ | ⟨child, hnode, before, after, hsplit, hafter, hleaf⟩
    · exact ⟨[], next :: rest, rfl, List.cons_ne_nil _ _,
        Option.bind_eq_some_iff.mpr ⟨_, hleaf, rfl⟩⟩
    · refine ⟨name :: before, after, congrArg (name :: ·) hsplit, hafter, ?_⟩
      exact (at?_cons_of_node hnode _).trans hleaf

/-- Entering a node puts no leaf on the rest of the path. -/
theorem leafOn_entered {segment : String} :
    (s.entered pageSize next).LeafOn (next :: rest) segment ↔ s.LeafOn (next :: rest) segment := by
  have hat : ∀ before after : List String, next :: rest = before ++ segment :: after →
      (s.entered pageSize next).at? (fieldKeys (before ++ [segment])) =
        s.at? (fieldKeys (before ++ [segment])) := by
    intro before after hsplit
    cases before with
    | nil =>
      obtain ⟨rfl, -⟩ := List.cons.inj hsplit
      exact at?_entered pageSize _ s []
    | cons _ before =>
      obtain ⟨rfl, -⟩ := List.cons.inj hsplit
      exact at?_entered pageSize _ s _
  refine exists_congr fun before => exists_congr fun after => and_congr_right fun hsplit => ?_
  rw [hat before after hsplit]

theorem not_leafOn_empty {segment : String} : ¬ empty.LeafOn (name :: rest) segment := by
  rintro ⟨before, after, -, -, hleaf⟩
  rw [fieldKeys, List.map_append, List.map_singleton, at?_empty_concat] at hleaf
  cases hleaf

/-- **A path comes to a leaf exactly if there is one on it.** -/
theorem Adding.failed_iff (h : Adding pageSize names s t failed) {segment : String} :
    failed = some segment ↔ s.LeafOn names segment := by
  induction h with
  | last s name => exact ⟨nofun, fun hleaf => (not_leafOn_singleton hleaf).elim⟩
  | @stuck s name next rest hleaf =>
    simp only [leafOn_cons_iff, hleaf, Option.some.injEq, reduceCtorEq, false_and, exists_false,
      or_false, and_true]
    exact eq_comm
  | @into s child t name next rest failed henter h ih =>
    rw [ih, leafOn_entered]
    rcases henter with hnode | ⟨hnone, rfl⟩
    · simp [leafOn_cons_iff, hnode]
    · simp [leafOn_cons_iff, hnone, not_leafOn_empty]

/-- Below a new field there is nothing that a path could come to. -/
theorem Adding.failed_eq_none
    (h : Adding pageSize (next :: rest) (empty.entered pageSize next) t failed) :
    failed = none := by
  cases failed with
  | none => rfl
  | some segment => exact (not_leafOn_empty (leafOn_entered.mp (h.failed_iff.mp rfl))).elim

/-- **A path that comes to a leaf only pages the nodes on its way.** -/
theorem Adding.eq_pagedAlong (h : Adding pageSize names s t failed) (hs : s.WellFormed)
    (hfailed : failed ≠ none) : t = s.pagedAlong pageSize names := by
  induction h with
  | last s name => exact absurd rfl hfailed
  | stuck next rest hleaf => exact (pagedAlong_of_leaf hs hleaf).symm
  | @into s child t name next rest failed henter h ih =>
    rcases henter with hnode | ⟨-, rfl⟩
    · have hchild : child.WellFormed := hs.get? hnode
      rw [pagedAlong_of_node hs hnode, ih (hchild.entered pageSize next) hfailed]
    · -- a path that creates a field goes on to its end
      exact absurd h.failed_eq_none hfailed

/-- **A path that comes to a leaf creates none of its fields.** -/
theorem Adding.at?_eq_none (h : Adding pageSize names s t failed) (hfailed : failed ≠ none)
    (hon : keys <+: fieldKeys names) (hnone : s.at? keys = none) : t.at? keys = none := by
  induction h generalizing keys with
  | last s name => exact absurd rfl hfailed
  | stuck => exact hnone
  | @into s child t name next rest failed henter h ih =>
    rcases henter with hnode | ⟨-, rfl⟩
    · match keys with
      | [] => cases hnone
      | key :: keys =>
        obtain ⟨rfl, hrest⟩ := List.cons_prefix_cons.mp hon
        rw [at?_put_self]
        rw [at?_cons_of_node hnode] at hnone
        refine ih hfailed hrest ?_
        -- the `pageInfo` that entering may add is not on the rest of the path
        match keys with
        | [] => cases hnone
        | key :: keys =>
          obtain ⟨rfl, -⟩ := List.cons_prefix_cons.mp hrest
          rw [at?_entered, hnone]
    · exact absurd h.failed_eq_none hfailed

/-! ## 4. Failures -/

/-- Why a path cannot be added to a selection: its first segment that is no name, or else a leaf at
    a segment ahead of the last one. -/
inductive Refuses (s : Selection) (path : String) : PathFailure → Prop where
  | invalid {before after : List String} {segment : String}
      (hsplit : segments path = before ++ segment :: after)
      (hbefore : ∀ name ∈ before, isIdentifier name.toList = true)
      (hsegment : isIdentifier segment.toList = false) :
      Refuses s path (.invalidSegment path segment)
  | leaf {segment : String} (hnames : ∀ name ∈ segments path, isIdentifier name.toList = true)
      (hleaf : s.LeafOn (segments path) segment) : Refuses s path (.throughLeaf path segment)

variable {path segment : String}

theorem refuses_invalid_iff : s.Refuses path (.invalidSegment path segment) ↔
    (segments path).find? (fun name => !isIdentifier name.toList) = some segment := by
  rw [List.find?_eq_some_iff_append]
  constructor
  · intro h
    cases h with
    | @invalid before after _ hsplit hbefore hsegment =>
      exact ⟨by simp [hsegment], before, after, hsplit, by simpa using hbefore⟩
  · rintro ⟨hsegment, before, after, hsplit, hbefore⟩
    exact .invalid hsplit (by simpa using hbefore) (by simpa using hsegment)

theorem refuses_leaf_iff : s.Refuses path (.throughLeaf path segment) ↔
    (∀ name ∈ segments path, isIdentifier name.toList = true) ∧
      s.LeafOn (segments path) segment := by
  constructor
  · intro h
    cases h with
    | leaf hnames hleaf => exact ⟨hnames, hleaf⟩
  · intro h
    exact .leaf h.1 h.2

/-- A failure tells the path that fails. -/
theorem Refuses.path_eq {failure : PathFailure} (h : s.Refuses path failure) :
    (∃ segment, failure = .invalidSegment path segment) ∨
      ∃ segment, failure = .throughLeaf path segment := by
  cases h with
  | invalid => exact Or.inl ⟨_, rfl⟩
  | leaf => exact Or.inr ⟨_, rfl⟩

/-- A path fails with what it is refused for. -/
theorem addPath_eq_some_iff (pageSize : Nat) (s : Selection) {failure : PathFailure} :
    (s.addPath pageSize path).2 = some failure ↔ s.Refuses path failure := by
  cases hfind : (segments path).find? (fun name => !isIdentifier name.toList) with
  | some name =>
    rw [addPath_of_invalid hfind]
    constructor
    · intro h
      cases h
      exact refuses_invalid_iff.mpr hfind
    · intro h
      rcases h.path_eq with ⟨segment, rfl⟩ | ⟨segment, rfl⟩
      · rw [refuses_invalid_iff, hfind] at h
        cases h
        rfl
      · rw [refuses_leaf_iff, ← find?_invalid_eq_none_iff, hfind] at h
        cases h.1
  | none =>
    have hnames := find?_invalid_eq_none_iff.mp hfind
    obtain ⟨t, failed, hadding⟩ := exists_adding pageSize path s
    rw [addPath_of_adding hnames hadding]
    constructor
    · intro h
      obtain ⟨segment, hsegment, rfl⟩ := Option.map_eq_some_iff.mp h
      exact refuses_leaf_iff.mpr ⟨hnames, hadding.failed_iff.mp hsegment⟩
    · intro h
      rcases h.path_eq with ⟨segment, rfl⟩ | ⟨segment, rfl⟩
      · rw [refuses_invalid_iff, hfind] at h
        cases h
      · have hleaf := hadding.failed_iff.mpr (refuses_leaf_iff.mp h).2
        exact Option.map_eq_some_iff.mpr ⟨segment, hleaf, rfl⟩

/-- **A path fails exactly if it is refused**, with what it is refused for, and else it succeeds. If
    it has a segment that is no name, it changes nothing. If it comes to a leaf, it pages the nodes
    on its way, and creates and removes nothing. -/
theorem addPath_fails_iff {outcome : Option PathFailure} (hs : s.WellFormed)
    (h : s.addPath pageSize path = (t, outcome)) :
    (∀ failure, outcome = some failure ↔ s.Refuses path failure) ∧
      (outcome = none ↔ ∀ failure, ¬ s.Refuses path failure) ∧
      (∀ segment, outcome = some (.invalidSegment path segment) → t = s) ∧
      ∀ segment, outcome = some (.throughLeaf path segment) →
        t = s.pagedAlong pageSize (segments path) ∧ s.KeptIn t ∧
          ∀ keys, keys <+: fieldKeys (segments path) → s.at? keys = none → t.at? keys = none := by
  have hfails : ∀ failure, outcome = some failure ↔ s.Refuses path failure := by
    intro failure
    rw [← addPath_eq_some_iff pageSize s, h]
  refine ⟨hfails, ?_, ?_, ?_⟩
  · simp only [← hfails, Option.eq_none_iff_forall_ne_some, ne_eq]
  · intro segment hinvalid
    rw [addPath_of_invalid (refuses_invalid_iff.mp ((hfails _).mp hinvalid))] at h
    exact (Prod.ext_iff.mp h).1.symm
  · intro segment hleaf
    obtain ⟨hnames, hon⟩ := refuses_leaf_iff.mp ((hfails _).mp hleaf)
    obtain ⟨u, failed, hadding⟩ := exists_adding pageSize path s
    rw [addPath_of_adding hnames hadding] at h
    cases h
    have hfailed : failed ≠ none := by
      rw [hadding.failed_iff.mpr hon]
      exact Option.some_ne_none _
    exact ⟨hadding.eq_pagedAlong hs hfailed, hadding.keptIn,
      fun keys hkeys hnone => hadding.at?_eq_none hfailed hkeys hnone⟩

/-- The variants of a product, by their ids. -/
def variantIds : Selection :=
  ⟨[], false, [(.field "variants", .node ⟨[], false,
    [(.field "nodes", .node ⟨[], false, [(.field "id", .leaf)]⟩)]⟩)]⟩

/-- A path through the id of a variant fails, and leaves the variants paged. -/
theorem addPath_fails_variantIds : variantIds.WellFormed ∧
    ∃ t, variantIds.addPath 25 "variants.nodes.id.key" =
        (t, some (.throughLeaf "variants.nodes.id.key" "id")) ∧
      t = ⟨[], false, [(.field "variants", .node ⟨[("first", .ofNat 25)], false,
        [(.field "nodes", .node ⟨[], false, [(.field "id", .leaf)]⟩),
          (.field "pageInfo", .node pageInfo)]⟩)]⟩ ∧
      variantIds.Refuses "variants.nodes.id.key" (.throughLeaf "variants.nodes.id.key" "id") ∧
      variantIds.pagedAlong 25 ["variants", "nodes", "id", "key"] = t := by
  have hvariants : variantIds.WellFormed := by
    simp [variantIds, WellFormed, ItemsWellFormed, Item.WellFormed, Literal.EntriesWellFormed]
  have h : variantIds.addPath 25 "variants.nodes.id.key" =
    (_, some (.throughLeaf "variants.nodes.id.key" "id")) := rfl
  obtain ⟨hfails, -, -, hleaf⟩ := addPath_fails_iff hvariants h
  exact ⟨hvariants, _, h, rfl, (hfails _).mp rfl, (hleaf "id" rfl).1.symm⟩

end Selection

end FieldSelection
