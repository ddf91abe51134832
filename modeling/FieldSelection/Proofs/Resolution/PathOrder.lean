import FieldSelection.Proofs.Resolution.Pagination
import FieldSelection.Proofs.Selection.PathMerging

/-!
# The order of paths

Where no path goes to a `pageInfo`, the selection that paths leave is told place by place without
their order: what stood there is kept; what is new is a leaf at the end of a path, or a node without
the mark on the way of one (`Adding.new_on_path`, `new_of_addPaths`), or the `pageInfo` of a
connection that a path pages; and a new argument is the size of its page. So two runs over the same
paths leave equal selections (`addPaths_equiv`), if they succeed.

That they succeed may depend on the order, but only for a path that ends on the way of another one
(`Ahead`): the leaf that it puts there is then in the way. A path is never in the way of one that it
does not end on (`addPath_failure_eq`), so two such paths may be added in either order
(`addPaths_swap`).
-/

namespace FieldSelection

open Selection

/-- The path is made of names, and none of them is `pageInfo`. -/
def PlainPath (path : String) : Prop :=
  ∀ name ∈ segments path, isIdentifier name.toList = true ∧ name ≠ "pageInfo"

/-- The path `p` ends on the way of the path `q`. -/
def Ahead (p q : String) : Prop :=
  segments p <+: segments q ∧ segments p ≠ segments q

instance (path : String) : Decidable (PlainPath path) :=
  inferInstanceAs (Decidable (∀ name ∈ segments path, _))

instance (p q : String) : Decidable (Ahead p q) :=
  inferInstanceAs (Decidable (_ ∧ _))

theorem PlainPath.names {path : String} (h : PlainPath path) :
    ∀ name ∈ segments path, isIdentifier name.toList = true :=
  fun name hname => (h name hname).1

/-- A plain path does not go to a `pageInfo`. -/
theorem PlainPath.pageInfo_notMem {path : String} (h : PlainPath path) {keys : List Key}
    (hpre : keys <+: fieldKeys (segments path)) : Key.field "pageInfo" ∉ keys := by
  intro hmem
  obtain ⟨name, hname, hkey⟩ := List.mem_map.mp (hpre.mem hmem)
  cases hkey
  exact (h _ hname).2 rfl

theorem fieldKeys_inj {names names' : List String} (h : fieldKeys names = fieldKeys names') :
    names = names' :=
  List.map_injective_iff.mpr (fun _ _ hkey => Key.field.inj hkey) h

namespace Selection

variable {pageSize : Nat} {names : List String} {s t : Selection} {failed : Option String}
  {keys : List Key} {item : Item}

/-! ## 1. What is new on a path -/

/-- The mark of a selection is kept. -/
theorem KeptIn.allScalars_eq (h : s.KeptIn t) : s.allScalars = t.allScalars := by
  obtain ⟨a, w, is⟩ := s
  obtain ⟨b, v, js⟩ := t
  exact h.2.1

/-- A leaf, or a node without the mark. -/
def Bare : Item → Prop
  | .leaf => True
  | .node u => u.allScalars = false

/-- What is kept is a leaf if it was one, and a node without the mark if it was one. -/
theorem bare_of_keptIn {x y : Item} (h : x.KeptIn y) (hx : Bare x) :
    Bare y ∧ (y = .leaf ↔ x = .leaf) := by
  match x, y, h with
  | .leaf, .leaf, _ => exact ⟨trivial, Iff.rfl⟩
  | .node u, .node v, h =>
    have hmark : u.allScalars = v.allScalars := KeptIn.allScalars_eq h
    exact ⟨hmark.symm.trans hx, nofun, nofun⟩

/-- **What is new on a path** is a leaf at its end, and a node without the mark ahead of that. -/
theorem Adding.new_on_path (h : Adding pageSize names s t failed)
    (hat : t.at? keys = some item) (hnew : s.at? keys = none) (hon : keys <+: fieldKeys names) :
    Bare item ∧ (item = .leaf ↔ keys = fieldKeys names) := by
  induction h generalizing keys with
  | last s name =>
    match keys with
    | [] => cases hnew
    | key :: keys =>
      obtain ⟨rfl, hnil⟩ := List.cons_prefix_cons.mp hon
      obtain rfl := List.prefix_nil.mp hnil
      obtain ⟨rest, hrest, -, hleaf⟩ := at?_putNew_of_none hnew hat
      cases hrest
      cases hleaf
      exact ⟨trivial, fun _ => rfl, fun _ => rfl⟩
  | stuck => exact absurd (hnew.symm.trans hat) (by simp)
  | @into s child t name next rest failed henter h ih =>
    match keys with
    | [] => cases hnew
    | [key] =>
      -- the node that the path enters is a new one
      obtain ⟨rfl, -⟩ := List.cons_prefix_cons.mp hon
      rw [at?_put_self] at hat
      cases hat
      rw [at?_singleton] at hnew
      rcases henter with hnode | ⟨-, rfl⟩
      · rw [hnew] at hnode
        cases hnode
      · have hmark := h.keptIn.allScalars_eq
        rw [allScalars_entered] at hmark
        exact ⟨hmark.symm, nofun, nofun⟩
    | key :: key' :: keys =>
      obtain ⟨rfl, hrest⟩ := List.cons_prefix_cons.mp hon
      obtain ⟨rfl, -⟩ := List.cons_prefix_cons.mp hrest
      rw [at?_put_self] at hat
      rw [henter.at?_cons (List.cons_ne_nil _ _), ← at?_entered pageSize] at hnew
      obtain ⟨hbare, hend⟩ := ih hat hnew hrest
      exact ⟨hbare, hend.trans (List.cons_inj_right _).symm⟩

/-- Where a path is served, a node stands at every place on it ahead of its end. -/
theorem Serves.exists_node (h : Serves names s) (hon : keys <+: fieldKeys names)
    (hne : keys ≠ fieldKeys names) : ∃ u, s.at? keys = some (.node u) := by
  obtain ⟨rest, hrest⟩ := hon
  match rest with
  | [] => exact absurd ((List.append_nil keys).symm.trans hrest) hne
  | key :: rest =>
    have hnext : keys ++ [key] <+: fieldKeys names :=
      ⟨rest, (List.append_cons keys key rest).symm.trans hrest⟩
    exact exists_node_of_at?_concat (h.isSome_at?_along hnext)

/-- A path that ends on the way of one that is served is served. -/
theorem Serves.shorten {names' : List String} (h : Serves names s) (hpre : names' <+: names) :
    Serves names' s := by
  induction names' generalizing names s with
  | nil => trivial
  | cons name rest ih =>
    obtain ⟨names, rfl, hrest⟩ := List.cons_prefix_iff.mp hpre
    match rest, names, h, hrest with
    | [], [], h, _ => exact h
    | [], next :: names, ⟨child, hget, _⟩, _ => exact Option.isSome_iff_exists.mpr ⟨_, hget⟩
    | next :: rest, next' :: names, ⟨child, hget, hpaged, hserves⟩, hrest =>
      obtain ⟨rfl, -⟩ := List.cons_prefix_cons.mp hrest
      exact ⟨child, hget, hpaged, ih hserves hrest⟩

/-! ## 2. Paths that are in the way -/

variable {p q : String} {u : Selection}

/-- What a path adds is a leaf on the way of another one only if it ends there. -/
theorem leafOn_of_adding (h : Adding pageSize (segments p) s u none) (hq : PlainPath q)
    (hahead : ¬ Ahead p q) {segment : String} :
    u.LeafOn (segments q) segment ↔ s.LeafOn (segments q) segment := by
  constructor
  · rintro ⟨before, after, hsplit, hafter, hleaf⟩
    refine ⟨before, after, hsplit, hafter, ?_⟩
    cases hold : s.at? (fieldKeys (before ++ [segment])) with
    | some old =>
      obtain ⟨item, hitem, hkept⟩ := h.keptIn.at? hold
      rw [hleaf] at hitem
      cases hitem
      match old, hkept with
      | .leaf, _ => rfl
    | none =>
      exfalso
      have hway : segments q = before ++ [segment] ++ after :=
        hsplit.trans (List.append_cons before segment after)
      have hon : before ++ [segment] <+: segments q := ⟨after, hway.symm⟩
      rcases h.new_item hleaf hold with hpath | ⟨place, rest, hkeys, -⟩
      · have hend := fieldKeys_inj (((h.new_on_path hleaf hold hpath).2).mp rfl)
        rw [hend] at hway hon
        refine hahead ⟨hon, fun hsame => hafter ?_⟩
        exact List.self_eq_append_right.mp (hsame.trans hway)
      · have hkeysOn : fieldKeys (before ++ [segment]) <+: fieldKeys (segments q) := hon.map _
        refine hq.pageInfo_notMem hkeysOn ?_
        rw [hkeys]
        exact List.mem_append_right place List.mem_cons_self
  · rintro ⟨before, after, hsplit, hafter, hleaf⟩
    obtain ⟨item, hitem, hkept⟩ := h.keptIn.at? hleaf
    refine ⟨before, after, hsplit, hafter, hitem.trans ?_⟩
    match item, hkept with
    | .leaf, _ => rfl

/-- **A path fails as it does without another one**, unless that one ends on its way. -/
theorem addPath_failure_eq (h : s.addPath pageSize p = (u, none)) (hq : PlainPath q)
    (hahead : ¬ Ahead p q) : (u.addPath pageSize q).2 = (s.addPath pageSize q).2 := by
  obtain ⟨-, hadding⟩ := addPath_eq_none_iff.mp h
  obtain ⟨v, failed, hv⟩ := exists_adding pageSize q s
  obtain ⟨w, failed', hw⟩ := exists_adding pageSize q u
  have hfailed : failed' = failed := by
    refine Option.ext fun segment => ?_
    rw [hv.failed_iff, hw.failed_iff, leafOn_of_adding hadding hq hahead]
  rw [addPath_of_adding hq.names hv, addPath_of_adding hq.names hw, hfailed]

end Selection

namespace Resolver

variable {pageSize : Nat} {paths paths' : List String} {p q : String} {s t t' : Selection}
  {keys : List Key} {item : Item}

/-! ## 3. Runs over the same paths -/

/-- **What is new on the paths of a run** is a node without the mark on the way of one of them, or
    else a leaf. -/
theorem new_of_addPaths (hplain : ∀ path ∈ paths, PlainPath path)
    (h : addPaths pageSize paths s = .ok t) (hat : t.at? keys = some item)
    (hnew : s.at? keys = none) (hpage : Key.field "pageInfo" ∉ keys) :
    Bare item ∧ (item = .leaf ↔ ∀ path ∈ paths, keys <+: fieldKeys (segments path) →
      keys = fieldKeys (segments path)) := by
  have hserves := (adds_of_addPaths h).serves
  suffices hstep : Bare item ∧ ∀ u, item = .node u → ∃ path ∈ paths,
      keys <+: fieldKeys (segments path) ∧ keys ≠ fieldKeys (segments path) by
    refine ⟨hstep.1, ?_, ?_⟩
    · rintro rfl path hpath hon
      by_contra hne
      obtain ⟨u, hu⟩ := (hserves path hpath).exists_node hon hne
      cases hat.symm.trans hu
    · intro hends
      cases item with
      | leaf => rfl
      | node u =>
        obtain ⟨path, hpath, hon, hne⟩ := hstep.2 u rfl
        exact absurd (hends path hpath hon) hne
  clear hserves
  induction paths generalizing s with
  | nil =>
    cases h
    exact absurd (hnew.symm.trans hat) (by simp)
  | cons path paths ih =>
    obtain ⟨u, hpath, hrest⟩ := addPaths_cons_eq_ok_iff.mp h
    obtain ⟨-, hadding⟩ := addPath_eq_none_iff.mp hpath
    cases hu : u.at? keys with
    | none =>
      obtain ⟨hbare, hnode⟩ := ih (fun q hq => hplain q (List.mem_cons_of_mem _ hq)) hrest hu
      refine ⟨hbare, fun v hv => ?_⟩
      obtain ⟨q, hq, hon⟩ := hnode v hv
      exact ⟨q, List.mem_cons_of_mem _ hq, hon⟩
    | some new =>
      have hon : keys <+: fieldKeys (segments path) := by
        rcases hadding.new_item hu hnew with hon | ⟨place, rest, hkeys, -⟩
        · exact hon
        · refine absurd ?_ hpage
          rw [hkeys]
          exact List.mem_append_right place List.mem_cons_self
      obtain ⟨hbare, hend⟩ := hadding.new_on_path hu hnew hon
      obtain ⟨item', hitem', hkept⟩ := (adds_of_addPaths hrest).kept.at? hu
      cases hat.symm.trans hitem'
      obtain ⟨hbare', hleaf⟩ := bare_of_keptIn hkept hbare
      refine ⟨hbare', fun v hv => ⟨path, List.mem_cons_self, hon, fun hsame => ?_⟩⟩
      cases hv.symm.trans (hleaf.mpr (hend.mpr hsame))

/-- Runs over the same paths give the nodes of a selection the same arguments. -/
theorem argumentAt?_of_addPaths (hsub : ∀ path ∈ paths, path ∈ paths')
    (h : addPaths pageSize paths s = .ok t) (h' : addPaths pageSize paths' s = .ok t')
    {name : String} {value : Literal} (hvalue : t.argumentAt? keys name = some value) :
    t'.argumentAt? keys name = some value := by
  have hadds := adds_of_addPaths h
  have hadds' := adds_of_addPaths h'
  cases hold : s.argumentAt? keys name with
  | some old =>
    cases hvalue.symm.trans (hadds.kept.argumentAt? hold)
    exact hadds'.kept.argumentAt? hold
  | none =>
    obtain ⟨⟨path, hpath, hpages⟩, rfl, rfl⟩ := hadds.arguments keys name value hvalue hold
    obtain ⟨u, hu, hpaged⟩ := (hadds'.serves path (hsub path hpath)).paged hpages
    obtain ⟨value', hvalue'⟩ := Option.isSome_iff_exists.mp hpaged.1
    have hat : t'.argumentAt? keys "first" = some value' :=
      Option.bind_eq_some_iff.mpr ⟨_, hu, hvalue'⟩
    obtain ⟨-, -, rfl⟩ := hadds'.arguments keys "first" value' hat hold
    exact hat

/-- Where a run leaves a new `pageInfo` that no path goes to, another one over the same paths does,
    too. -/
theorem at?_pageInfo_of_addPaths (hsame : ∀ path, path ∈ paths ↔ path ∈ paths')
    (hplain : ∀ path ∈ paths, PlainPath path) (h' : addPaths pageSize paths' s = .ok t')
    {place : List Key} (hpages : ∃ path ∈ paths, Pages (segments path) place)
    (hnew : s.at? (place ++ [.field "pageInfo"]) = none) (rest : List Key) :
    t'.at? (place ++ .field "pageInfo" :: rest) = pageInfo.at? rest := by
  have hadds := adds_of_addPaths h'
  obtain ⟨path, hpath, hpages⟩ := hpages
  obtain ⟨u, hu, hpaged⟩ := (hadds.serves path ((hsame path).mp hpath)).paged hpages
  obtain ⟨page, hpage⟩ := Option.isSome_iff_exists.mp hpaged.2
  rw [← at?_concat hu] at hpage
  have hoff : ∀ q ∈ paths', ¬ place ++ [.field "pageInfo"] <+: fieldKeys (segments q) := by
    intro q hq hon
    have hmem := (hplain q ((hsame q).mpr hq)).pageInfo_notMem hon
    exact hmem (List.mem_append_right place List.mem_cons_self)
  obtain rfl := hadds.new_pageInfo hpage hnew hoff
  rw [List.append_cons, Selection.at?, at?_append, ← Selection.at?, hpage]
  rfl

/-- A run over the same paths leaves an item at every place where another one does: a leaf where
    that leaves a leaf, and a node with the same mark where that leaves a node. -/
theorem exists_of_addPaths (hsame : ∀ path, path ∈ paths ↔ path ∈ paths')
    (hplain : ∀ path ∈ paths, PlainPath path) (h : addPaths pageSize paths s = .ok t)
    (h' : addPaths pageSize paths' s = .ok t') (hat : t.at? keys = some item) :
    ∃ item', t'.at? keys = some item' ∧ (item' = .leaf ↔ item = .leaf) ∧
      ∀ u v, item = .node u → item' = .node v → u.allScalars = v.allScalars := by
  have hadds := adds_of_addPaths h
  have hadds' := adds_of_addPaths h'
  cases hold : s.at? keys with
  | some old =>
    obtain ⟨x, hx, hkept⟩ := hadds.kept.at? hold
    obtain ⟨y, hy, hkept'⟩ := hadds'.kept.at? hold
    cases hat.symm.trans hx
    refine ⟨y, hy, ?_⟩
    match old, item, y, hkept, hkept' with
    | .leaf, .leaf, .leaf, _, _ => exact ⟨Iff.rfl, nofun⟩
    | .node r, .node u, .node v, hu, hv =>
      refine ⟨⟨nofun, nofun⟩, ?_⟩
      rintro _ _ ⟨⟩ ⟨⟩
      exact (KeptIn.allScalars_eq hu).symm.trans (KeptIn.allScalars_eq hv)
  | none =>
    by_cases hon : ∃ path ∈ paths, keys <+: fieldKeys (segments path)
    · obtain ⟨path, hpath, hpre⟩ := hon
      have hpage := (hplain path hpath).pageInfo_notMem hpre
      obtain ⟨item', hitem'⟩ := Option.isSome_iff_exists.mp
        ((hadds'.serves path ((hsame path).mp hpath)).isSome_at?_along hpre)
      have hplain' : ∀ path ∈ paths', PlainPath path := fun q hq => hplain q ((hsame q).mpr hq)
      obtain ⟨hbare, hends⟩ := new_of_addPaths hplain h hat hold hpage
      obtain ⟨hbare', hends'⟩ := new_of_addPaths hplain' h' hitem' hold hpage
      refine ⟨item', hitem', ?_, ?_⟩
      · rw [hends, hends']
        exact forall_congr' fun q => imp_congr_left (hsame q).symm
      · rintro u v rfl rfl
        exact Eq.trans hbare (Eq.symm hbare')
    · -- new in the `pageInfo` of a connection, which the other run pages, too
      have hoff : ∀ path ∈ paths, ¬ keys <+: fieldKeys (segments path) :=
        fun path hpath hpre => hon ⟨path, hpath, hpre⟩
      rcases hadds.items keys item hat hold with
        ⟨path, hpath, hpre⟩ | ⟨place, rest, rfl, hitem, hfirst, hlacks⟩
      · exact absurd hpre (hoff path hpath)
      · have hpage := at?_pageInfo_of_addPaths hsame hplain h' hfirst.exists_pages hlacks rest
        refine ⟨item, hpage.trans hitem, Iff.rfl, ?_⟩
        rintro u v rfl ⟨⟩
        rfl

theorem wellFormed_of_addPaths (hs : s.WellFormed) (h : addPaths pageSize paths s = .ok t) :
    t.WellFormed := by
  induction paths generalizing s with
  | nil =>
    cases h
    exact hs
  | cons path paths ih =>
    obtain ⟨u, hpath, hrest⟩ := addPaths_cons_eq_ok_iff.mp h
    have hu := hs.addPath pageSize path
    rw [hpath] at hu
    exact ih hu hrest

/-- What runs over the same paths leave at a place looks alike. -/
theorem exists_looksLike_of_addPaths (hs : s.WellFormed)
    (hsame : ∀ path, path ∈ paths ↔ path ∈ paths') (hplain : ∀ path ∈ paths, PlainPath path)
    (h : addPaths pageSize paths s = .ok t) (h' : addPaths pageSize paths' s = .ok t')
    (hat : t.at? keys = some item) : ∃ item', t'.at? keys = some item' ∧ item.LooksLike item' := by
  obtain ⟨item', hitem', hleaf, hmark⟩ := exists_of_addPaths hsame hplain h h' hat
  refine ⟨item', hitem', ?_⟩
  match item, item', hleaf with
  | .leaf, .leaf, _ => trivial
  | .leaf, .node _, hleaf => cases hleaf.mpr rfl
  | .node _, .leaf, hleaf => cases hleaf.mp rfl
  | .node u, .node v, _ =>
    have harguments : ∀ name, t.argumentAt? keys name = t'.argumentAt? keys name :=
      fun name => Option.ext fun value =>
        ⟨argumentAt?_of_addPaths (fun path => (hsame path).mp) h h',
          argumentAt?_of_addPaths (fun path => (hsame path).mpr) h' h⟩
    refine ⟨hmark u v rfl rfl, fun name => ?_⟩
    have hvalue : u.argument? name = v.argument? name := by
      have hplace := harguments name
      rwa [argumentAt?, argumentAt?, hat, hitem'] at hplace
    have hu : (Item.node u).WellFormed := (wellFormed_of_addPaths hs h).at? hat
    have hself := (Item.LooksLike.refl hu).2 name
    rw [argument?, argument?] at hvalue
    rwa [hvalue] at hself ⊢

/-- **The order of paths makes no difference to what they leave**, but to its order: two runs over
    the same paths that succeed leave equal selections. -/
theorem addPaths_equiv (hs : s.WellFormed) (hsame : ∀ path, path ∈ paths ↔ path ∈ paths')
    (hplain : ∀ path ∈ paths, PlainPath path) (h : addPaths pageSize paths s = .ok t)
    (h' : addPaths pageSize paths' s = .ok t') : t ≈ t' := by
  have hplain' : ∀ path ∈ paths', PlainPath path := fun q hq => hplain q ((hsame q).mpr hq)
  rw [equiv_iff (wellFormed_of_addPaths hs h) (wellFormed_of_addPaths hs h')]
  intro keys
  cases hat : t.at? keys with
  | some item =>
    obtain ⟨item', hitem', hlike⟩ := exists_looksLike_of_addPaths hs hsame hplain h h' hat
    rw [hitem']
    exact .some hlike
  | none =>
    cases hat' : t'.at? keys with
    | none => exact .none
    | some item' =>
      obtain ⟨item, hitem, -⟩ :=
        exists_looksLike_of_addPaths hs (fun path => (hsame path).symm) hplain' h' h hat'
      cases hat.symm.trans hitem

/-! ## 4. Two paths -/

/-- Two paths are added if each of them can be added alone, where the first one does not end on the
    way of the second one. -/
theorem addPaths_two_iff (hq : PlainPath q) (hahead : ¬ Ahead p q) :
    (∃ t, addPaths pageSize [p, q] s = .ok t) ↔
      (s.addPath pageSize p).2 = none ∧ (s.addPath pageSize q).2 = none := by
  constructor
  · rintro ⟨t, h⟩
    obtain ⟨u, hp, h⟩ := addPaths_cons_eq_ok_iff.mp h
    obtain ⟨v, hv, -⟩ := addPaths_cons_eq_ok_iff.mp h
    exact ⟨congrArg Prod.snd hp,
      (addPath_failure_eq hp hq hahead).symm.trans (congrArg Prod.snd hv)⟩
  · rintro ⟨hp, hq'⟩
    have hp' : s.addPath pageSize p = ((s.addPath pageSize p).1, none) := Prod.ext rfl hp
    have hlast := (addPath_failure_eq hp' hq hahead).trans hq'
    exact ⟨_, addPaths_cons_eq_ok_iff.mpr ⟨_, hp',
      addPaths_cons_eq_ok_iff.mpr ⟨_, Prod.ext rfl hlast, rfl⟩⟩⟩

/-- A path that ends on the way of another one adds nothing after it. -/
theorem addPaths_ahead (hp : PlainPath p) (hahead : Ahead p q) :
    addPaths pageSize [q, p] s = addPaths pageSize [q] s := by
  have hrun : addPaths pageSize [q, p] s = addPaths pageSize [q] s >>= addPaths pageSize [p] :=
    (addPaths_append : addPaths pageSize ([q] ++ [p]) s = _)
  rw [hrun]
  cases hq : addPaths pageSize [q] s with
  | error e => rfl
  | ok t =>
    have hserves := ((adds_of_addPaths hq).serves q List.mem_cons_self).shorten hahead.1
    have hpath : t.addPath pageSize p = (t, none) :=
      addPath_eq_none_iff.mpr ⟨hp.names, hserves.adding (segments_ne_nil p) pageSize⟩
    exact addPaths_cons_eq_ok_iff.mpr ⟨t, hpath, rfl⟩

/-- **Two paths may be added in either order**, if neither of them ends on the way of the other one:
    they can be added in both orders or in none, and what they leave is equal. A path that ends on
    the way of another one adds nothing after it. -/
theorem addPaths_swap (hs : s.WellFormed) (hp : PlainPath p) (hq : PlainPath q) (pageSize : Nat) :
    (¬ Ahead p q → ¬ Ahead q p →
      ((∃ t, addPaths pageSize [p, q] s = .ok t) ↔ ∃ t, addPaths pageSize [q, p] s = .ok t) ∧
        ∀ t t', addPaths pageSize [p, q] s = .ok t → addPaths pageSize [q, p] s = .ok t' →
          t ≈ t') ∧
      (Ahead p q → addPaths pageSize [q, p] s = addPaths pageSize [q] s) := by
  refine ⟨fun hpq hqp => ⟨?_, fun t t' h h' => ?_⟩, addPaths_ahead hp⟩
  · rw [addPaths_two_iff hq hpq, addPaths_two_iff hp hqp, and_comm]
  · have hsame : ∀ path, path ∈ [p, q] ↔ path ∈ [q, p] := by simp [or_comm]
    have hplain : ∀ path ∈ [p, q], PlainPath path := by simp [hp, hq]
    exact addPaths_equiv hs hsame hplain h h'

/-- A product with its title, and its variants by their numbers and by their ids, in this order or
    in the other one. -/
def titledVariants (lists : List (Key × Item)) : Selection :=
  ⟨[], false, [(.field "title", .leaf),
    (.field "variants", .node ⟨[("first", .ofNat 25)], false,
      (.field "pageInfo", .node pageInfo) :: lists⟩)]⟩

/-- The ids of the entries of a connection, by its edges. -/
def edgeIds : Key × Item :=
  (.field "edges", .node ⟨[], false, [(.field "node", .node ⟨[], false, [(.field "id", .leaf)]⟩)]⟩)

/-- The numbers and the ids of the variants may be added in either order, and the variants
    themselves add nothing after them. -/
theorem addPaths_titledVariants :
    (⟨[], false, [(.field "title", .leaf)]⟩ : Selection).WellFormed ∧
      (addPaths 25 ["variants.nodes.sku", "variants.edges.node.id"]
          ⟨[], false, [(.field "title", .leaf)]⟩ = .ok (titledVariants [skus, edgeIds]) ∧
        addPaths 25 ["variants.edges.node.id", "variants.nodes.sku"]
          ⟨[], false, [(.field "title", .leaf)]⟩ = .ok (titledVariants [edgeIds, skus])) ∧
      titledVariants [skus, edgeIds] ≈ titledVariants [edgeIds, skus] ∧
      addPaths 25 ["variants.nodes.sku", "variants.nodes"] ⟨[], false, [(.field "title", .leaf)]⟩ =
        addPaths 25 ["variants.nodes.sku"] ⟨[], false, [(.field "title", .leaf)]⟩ := by
  have hs : (⟨[], false, [(.field "title", .leaf)]⟩ : Selection).WellFormed := by
    simp [WellFormed, ItemsWellFormed, Item.WellFormed, Literal.EntriesWellFormed]
  have hskus : PlainPath "variants.nodes.sku" := by decide
  have hids : PlainPath "variants.edges.node.id" := by decide
  have hnodes : PlainPath "variants.nodes" := by decide
  obtain ⟨-, hequal⟩ := (addPaths_swap hs hskus hids 25).1 (by decide) (by decide)
  exact ⟨hs, ⟨rfl, rfl⟩, hequal _ _ rfl rfl, (addPaths_swap hs hnodes hskus 25).2 (by decide)⟩

end Resolver

end FieldSelection
