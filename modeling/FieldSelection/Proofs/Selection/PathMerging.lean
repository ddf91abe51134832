import FieldSelection.Proofs.Selection.PathFailures

/-!
# Paths and merging

Adding a path to a selection is merging the selection into what the path comes to on its own
(`addPath_equiv_merge`): what stands in the selection wins. One thing is left out of the latter, the
`pageInfo` of the connections that have one in the selection, since a path leaves that as it is
while merging would add to it (`Selection.trimmed`).

What the path comes to on its own, trimmed, is written down at once (`brings`), by the segments and
by what stands in the selection at each of them. That the selection is merged into it follows along
the course of the path: entering a node merges the node into what pages it
(`merge_entered_equiv`), and the rest of the path is put beside that.
-/

namespace FieldSelection

namespace Selection

variable {s t : Selection} {pageSize : Nat} {name next : String}
  {names rest : List String} {failed : Option String} {key : Key} {x y z : Item}

/-! ## 1. Taking out a key -/

/-- The selection without what stands under a key. -/
def without (s : Selection) (key : Key) : Selection :=
  s.withItems (s.items.filter fun e => e.1 ≠ key)

theorem WellFormed.without (h : s.WellFormed) (key : Key) : (s.without key).WellFormed := by
  obtain ⟨a, w, is⟩ := s
  obtain ⟨harguments, hkeys, his⟩ := h
  refine ⟨harguments, hkeys.sublist (List.filter_sublist.map Prod.fst), ?_⟩
  exact itemsWellFormed_iff.mpr fun e he =>
    itemsWellFormed_iff.mp his e (List.mem_of_mem_filter he)

theorem without_put {key' : Key} (hne : key ≠ key') (s : Selection) (x : Item) :
    (s.put key x).without key' = (s.without key').put key x :=
  congrArg s.withItems (Table.filter_alter hne x _ s.items)

/-- The selection `q` with no `pageInfo` in the nodes that a path pages, where there is one in the
    selection `s` at the same place. -/
def trimmed (q : Selection) (names : List String) (s : Selection) : Selection :=
  q.mapNodes fun place u =>
    if Pages names place ∧ (s.at? (place ++ [.field "pageInfo"])).isSome = true then
      u.without (.field "pageInfo")
    else u

/-! ## 2. What a path brings -/

theorem at?_singleton (s : Selection) (key : Key) : s.at? [key] = s.get? key := by
  rw [at?_cons]
  cases s.get? key <;> rfl

/-- What a path brings to a node that it leaves for the field `next`. -/
def opened (pageSize : Nat) (next : String) (page? : Option Item) : Selection :=
  if page?.isSome = true then (empty.entered pageSize next).without (.field "pageInfo")
  else empty.entered pageSize next

/-- What a path brings to what stands under a segment, with its segments after that. -/
def brought (pageSize : Nat) : List String → Option Item → Item
  | [], _ => .leaf
  | next :: rest, old? =>
    .node ((opened pageSize next (old?.bind (Item.at? [.field "pageInfo"]))).put (.field next)
      (brought pageSize rest (old?.bind (Item.at? [.field next]))))

/-- What a path brings to a selection: a field for each segment, and what pages the connections
    that it goes through, but for the `pageInfo` that is there. -/
def brings (pageSize : Nat) : List String → Selection → Selection
  | [], _ => empty
  | name :: rest, s => empty.put (.field name) (brought pageSize rest (s.get? (.field name)))

theorem wellFormed_opened (pageSize : Nat) (next : String) (page? : Option Item) :
    (opened pageSize next page?).WellFormed := by
  have hentered := wellFormed_empty.entered pageSize next
  rw [opened]
  split
  · exact hentered.without _
  · exact hentered

theorem wellFormed_brought (pageSize : Nat) (rest : List String) (old? : Option Item) :
    (brought pageSize rest old?).WellFormed := by
  induction rest generalizing old? with
  | nil => trivial
  | cons next rest ih => exact (wellFormed_opened pageSize next _).put _ (ih _)

/-- **Where a path finds nothing, it puts what it brings.** -/
theorem adding_of_get?_eq_none (pageSize : Nat) (rest : List String)
    (hnone : s.get? (.field name) = none) : Adding pageSize (name :: rest) s
      (s.put (.field name) (brought pageSize rest none)) none := by
  induction rest generalizing name s with
  | nil =>
    have hput : s.putNew (.field name) .leaf = s.put (.field name) .leaf :=
      congrArg s.withItems (Table.putNew_eq_put hnone .leaf)
    exact hput ▸ .last s name
  | cons next rest ih =>
    refine .into (Or.inr ⟨hnone, rfl⟩) (ih ?_)
    rw [get?_entered_next]
    rfl

theorem put_put (s : Selection) (key : Key) (x y : Item) :
    (s.put key x).put key y = s.put key y :=
  congrArg s.withItems (Table.alter_alter key x y _ _ s.items)

/-- Takes out the `pageInfo` of a node that a path pages, if there is one below `root?` at the same
    place. -/
def trim (names : List String) (root? : Option Item) (place : List Key) (u : Selection) :
    Selection :=
  if Pages names place ∧
      (root?.bind (Item.at? (place ++ [.field "pageInfo"]))).isSome = true then
    u.without (.field "pageInfo")
  else u

variable {root? : Option Item}

theorem trim_of_ne {place : List Key} (hkey : key ≠ .field name) (u : Selection) :
    trim (name :: rest) root? (key :: place) u = u :=
  if_neg fun h => hkey h.1.head_eq

theorem bind_at?_cons (root? : Option Item) (key : Key) (keys : List Key) :
    root?.bind (Item.at? (key :: keys)) = (root?.bind (Item.at? [key])).bind (Item.at? keys) := by
  rw [Option.bind_assoc]
  exact congrArg root?.bind (funext fun x => at?_append x [key] keys)

/-- Below its first segment, a path is trimmed as the rest of it is. -/
theorem trim_cons (place : List Key) (u : Selection) :
    trim (name :: next :: rest) root? (.field name :: .field next :: place) u =
      trim (next :: rest) (root?.bind (Item.at? [.field name])) (.field next :: place) u := by
  rw [trim, trim, List.cons_append, bind_at?_cons]
  simp only [Pages.cons_iff, List.cons_ne_nil, false_and, false_or]

/-- What a path brings to a new node is trimmed to what it brings to a node that is there. -/
theorem trim_opened (x : Item) : trim (name :: next :: rest) root? [.field name]
    ((empty.entered pageSize next).put (.field next) x) =
      (opened pageSize next ((root?.bind (Item.at? [.field name])).bind
        (Item.at? [.field "pageInfo"]))).put (.field next) x := by
  rw [← bind_at?_cons, trim, opened, List.cons_append, List.nil_append]
  simp only [Pages.singleton_iff]
  by_cases hnext : isConnectionField next = true
  · have hkey : Key.field next ≠ .field "pageInfo" := by
      intro h
      cases h
      exact absurd hnext (by decide)
    simp only [hnext, true_and]
    split
    · exact without_put hkey _ x
    · rfl
  · rw [if_neg fun h => hnext h.1, entered, if_neg hnext]
    split <;> rfl

/-- What a path brings where it finds nothing is trimmed to what it brings. -/
theorem mapNodes_brought (pageSize : Nat) (name : String) (rest : List String)
    (root? : Option Item) :
    (brought pageSize rest none).mapNodes (fun place =>
        trim (name :: rest) root? (.field name :: place)) =
      brought pageSize rest (root?.bind (Item.at? [.field name])) := by
  induction rest generalizing name root? with
  | nil => rfl
  | cons next rest ih =>
    have hstart : brought pageSize (next :: rest) none =
      .node ((empty.entered pageSize next).put (.field next) (brought pageSize rest none)) := rfl
    have hwell := (wellFormed_empty.entered pageSize next).put (.field next)
      (wellFormed_brought pageSize rest none)
    have hoff : ∀ key, key ≠ Key.field next → ∀ place u,
        trim (name :: next :: rest) root? (.field name :: key :: place) u = u := by
      intro key hkey place u
      refine if_neg fun h => ?_
      rcases Pages.cons_iff.mp h.1 with ⟨hnil, -⟩ | hrest
      · cases hnil
      · exact hkey hrest.head_eq
    have hrest : (brought pageSize rest none).mapNodes (fun place =>
        trim (name :: next :: rest) root? (.field name :: .field next :: place)) =
          brought pageSize rest ((root?.bind (Item.at? [.field name])).bind
            (Item.at? [.field next])) := by
      rw [← ih]
      exact congrArg (Item.mapNodes · _) (funext fun place => funext (trim_cons place))
    rw [hstart, Item.mapNodes, mapNodes_eq, mapBelow_of_get? hwell hoff (get?_put_self _ _ _),
      put_put, hrest, trim_opened, brought]

theorem trimmed_eq_brings (pageSize : Nat) (name : String) (rest : List String) (s : Selection) :
    (empty.put (.field name) (brought pageSize rest none)).trimmed (name :: rest) s =
      brings pageSize (name :: rest) s := by
  have hwell := wellFormed_empty.put (.field name) (wellFormed_brought pageSize rest none)
  have htrim : (empty.put (.field name) (brought pageSize rest none)).trimmed (name :: rest) s =
    (empty.put (.field name) (brought pageSize rest none)).mapNodes
      (trim (name :: rest) (some (.node s))) := rfl
  have hroot : ∀ u, trim (name :: rest) (some (.node s)) [] u = u :=
    fun u => if_neg fun h => h.1.1 rfl
  have hold : (some (Item.node s)).bind (Item.at? [.field name]) = s.get? (.field name) :=
    at?_singleton s _
  rw [htrim, mapNodes_eq, hroot, mapBelow_of_get? hwell (fun _ hkey _ => trim_of_ne hkey)
    (get?_put_self _ _ _), put_put, mapNodes_brought, hold, brings]

/-! ## 3. Merging into what a path brings -/

/-- Selections with the same mark and the same arguments are equal if their items are. -/
theorem equiv_of_get? (hs : s.WellFormed) (ht : t.WellFormed)
    (hmark : s.allScalars = t.allScalars)
    (harguments : ∀ name, s.argument? name = t.argument? name)
    (hitems : ∀ key, Option.Rel (fun x y => x ≈ y) (s.get? key) (t.get? key)) : s ≈ t := by
  refine (Item.node_equiv_iff hs ht).mpr ⟨⟨hmark, fun name => ?_⟩, hitems⟩
  show Option.Rel _ (s.argument? name) (t.argument? name)
  rw [← harguments]
  refine Table.rel_refl fun l hl => Literal.equiv_refl ?_
  cases s
  exact Literal.entriesWellFormed_iff.mp hs.1.2 _ (Table.mem_of_get? hl)

/-- Putting an item under a key is merging into what stands there alone, if the item is equal to
    what that comes to. -/
theorem put_equiv_merge (hs : s.WellFormed) (hx : x.WellFormed) (hy : y.WellFormed)
    (hz : Option.merge Item.merge (some x) (s.get? key) = some z) (h : y ≈ z) :
    s.put key y ≈ (empty.put key x).merge s := by
  have hempty := wellFormed_empty.put key hx
  refine equiv_of_get? (hs.put key hy) (hempty.merge hs) ?_ ?_ ?_
  · rw [allScalars_merge]
    exact (Bool.false_or _).symm
  · intro name
    rw [argument?_merge _ hs]
    exact (Option.or_none).symm
  · intro key'
    rw [get?_merge _ hs]
    by_cases hkey : key' = key
    · subst hkey
      rw [get?_put_self, get?_put_self, hz]
      exact .some h
    · rw [get?_put_of_ne _ hkey, get?_put_of_ne _ hkey]
      have hnone : empty.get? key' = none := rfl
      rw [hnone, Option.merge_none_left]
      exact Table.rel_refl fun _ hitem => Item.equiv_refl (hs.get? hitem)

theorem allScalars_entered (pageSize : Nat) (next : String) (s : Selection) :
    (s.entered pageSize next).allScalars = s.allScalars := by
  rw [entered]
  split <;> rfl

theorem allScalars_opened (pageSize : Nat) (next : String) (page? : Option Item) :
    (opened pageSize next page?).allScalars = false := by
  have hempty := allScalars_entered pageSize next empty
  rw [opened]
  split
  · exact hempty
  · exact hempty

theorem argument?_opened (pageSize : Nat) (next : String) (page? : Option Item) (name : String) :
    (opened pageSize next page?).argument? name =
      (empty.entered pageSize next).argument? name := by
  rw [opened]
  split <;> rfl

/-- What pages a node has no `pageInfo` if the node has one. -/
theorem get?_opened (pageSize : Nat) (next : String) (page? : Option Item) (key : Key) :
    (opened pageSize next page?).get? key =
      if key = .field "pageInfo" ∧ page?.isSome = true then none
      else (empty.entered pageSize next).get? key := by
  rw [opened]
  by_cases hpage : page?.isSome = true
  · rw [if_pos hpage]
    simp only [hpage, and_true]
    exact Table.get?_filter key _ _
  · rw [if_neg hpage, if_neg fun h => hpage h.2]

/-- **Entering a node is merging it into what pages it.** -/
theorem merge_entered_equiv (hs : s.WellFormed) (hx : x.WellFormed) :
    (empty.put (.field next) x).merge (s.entered pageSize next) ≈
      ((opened pageSize next (s.get? (.field "pageInfo"))).put (.field next) x).merge s := by
  have hentered := hs.entered pageSize next
  have hleft := (wellFormed_empty.put (.field next) hx).merge hentered
  have hright := ((wellFormed_opened pageSize next (s.get? (.field "pageInfo"))).put
    (.field next) hx).merge hs
  refine equiv_of_get? hleft hright ?_ ?_ ?_
  · rw [allScalars_merge, allScalars_merge, allScalars_entered]
    exact congrArg (· || _) (allScalars_opened pageSize next _).symm
  · intro name
    rw [argument?_merge _ hentered, argument?_merge _ hs, argument?_entered]
    exact Option.or_none.trans (congrArg _ (argument?_opened pageSize next _ name).symm)
  · intro key
    have hitem : ((empty.put (.field next) x).merge (s.entered pageSize next)).get? key =
        (((opened pageSize next (s.get? (.field "pageInfo"))).put (.field next) x).merge s).get?
          key := by
      rw [get?_merge _ hentered, get?_merge _ hs]
      by_cases hnext : key = .field next
      · subst hnext
        rw [get?_put_self, get?_put_self, get?_entered_next]
      · have hnone : empty.get? key = none := rfl
        rw [get?_put_of_ne _ hnext, get?_put_of_ne _ hnext, hnone, Option.merge_none_left,
          get?_entered, get?_opened]
        by_cases hkey : key = .field "pageInfo"
        · -- the node's own `pageInfo` on both sides, or that of a new node
          subst hkey
          cases s.get? (.field "pageInfo") with
          | none => simp
          | some old => simp
        · rw [get?_empty_entered hkey, if_neg fun h => hkey h.1, Option.or_none,
            Option.merge_none_left]
    rw [← hitem]
    exact Table.rel_refl fun _ h => Item.equiv_refl (hleft.get? h)

/-- An item that is new or left alone. -/
theorem putNew_eq_put (s : Selection) (key : Key) (x : Item) :
    s.putNew key x = s.put key ((s.get? key).getD x) := by
  obtain ⟨a, w, is⟩ := s
  refine congrArg (mk a w) ?_
  show Table.putNew key x is = Table.put key ((Table.get? key is).getD x) is
  cases hget : Table.get? key is with
  | none => exact Table.putNew_eq_put hget x
  | some old => exact (Table.putNew_of_get? x hget).trans (Table.put_of_get? hget).symm

/-- **Adding a path is merging the selection into what the path brings.** -/
theorem Adding.equiv_merge (h : Adding pageSize names s t failed) (hok : failed = none)
    (hs : s.WellFormed) : t ≈ (brings pageSize names s).merge s := by
  induction h with
  | last s name =>
    have hmerge : Option.merge Item.merge (some .leaf) (s.get? (.field name)) =
        some ((s.get? (.field name)).getD .leaf) := by
      match s.get? (.field name) with
      | none => rfl
      | some .leaf => rfl
      | some (.node child) => rfl
    have hitem : ((s.get? (.field name)).getD .leaf).WellFormed := by
      cases hget : s.get? (.field name) with
      | none => exact wellFormed_leaf
      | some old => exact hs.get? hget
    rw [putNew_eq_put]
    exact put_equiv_merge hs wellFormed_leaf hitem hmerge (Item.equiv_refl hitem)
  | stuck => cases hok
  | @into s child t name next rest failed henter h ih =>
    have hchild := hs.of_enters henter
    have hentered := hchild.entered pageSize next
    have hold : ∀ key, (s.get? (.field name)).bind (Item.at? [key]) = child.get? key :=
      fun key => (henter.at?_cons (List.cons_ne_nil _ _)).trans (at?_singleton child key)
    have hx := wellFormed_brought pageSize rest (child.get? (.field next))
    have hnode := (wellFormed_opened pageSize next (child.get? (.field "pageInfo"))).put
      (.field next) hx
    have hfirst := (wellFormed_empty.put (.field next) hx).merge hentered
    have ht := hentered.adding h
    have hstep := ih hok hentered
    rw [brings, get?_entered_next] at hstep
    rw [brings, brought, hold, hold]
    -- what the rest of the path brings stands beside what pages the node that is entered
    have hequal := equiv_trans ht hfirst (hnode.merge hchild) hstep (merge_entered_equiv hchild hx)
    refine put_equiv_merge (y := .node t) (z := .node _) hs hnode ht ?_ hequal
    rcases henter with hget | ⟨hnone, rfl⟩
    · rw [hget]
      rfl
    · rw [hnone, merge_empty]
      rfl

/-! ## 4. Paths as a whole -/

variable {path : String}

/-- **Adding a path is merging the selection into what the path comes to on its own**, but for the
    `pageInfo` of the connections that have one; and adding it again, with any page size, does
    nothing. -/
theorem addPath_equiv_merge (hs : s.WellFormed) (h : s.addPath pageSize path = (t, none)) :
    (∃ q, empty.addPath pageSize path = (q, none) ∧ t ≈ (q.trimmed (segments path) s).merge s) ∧
      ∀ pageSize', t.addPath pageSize' path = (t, none) := by
  obtain ⟨hnames, hadding⟩ := addPath_eq_none_iff.mp h
  refine ⟨?_, fun pageSize' => ?_⟩
  · obtain ⟨name, rest, hpath⟩ := List.exists_cons_of_ne_nil (segments_ne_nil path)
    refine ⟨empty.put (.field name) (brought pageSize rest none), ?_, ?_⟩
    · refine addPath_eq_none_iff.mpr ⟨hnames, ?_⟩
      rw [hpath]
      exact adding_of_get?_eq_none pageSize rest rfl
    · rw [hpath] at hadding ⊢
      rw [trimmed_eq_brings]
      exact hadding.equiv_merge rfl hs
  · have hagain := (hadding.serves rfl).adding (segments_ne_nil path) pageSize'
    exact addPath_eq_none_iff.mpr ⟨hnames, hagain⟩

/-- A page of variants. -/
def variantsPage (size : Nat) (items : List (Key × Item)) : Selection :=
  ⟨[], false, [(.field "variants", .node ⟨[("first", .ofNat size)], false, items⟩)]⟩

/-- Where a page starts. -/
def pageStart : Key × Item :=
  (.field "pageInfo", .node ⟨[], false, [(.field "startCursor", .leaf)]⟩)

/-- The numbers of the entries of a page. -/
def skus : Key × Item :=
  (.field "nodes", .node ⟨[], false, [(.field "sku", .leaf)]⟩)

/-- The numbers of the variants are added to a page; its size and `pageInfo` stay. If the path
    brought its own `pageInfo`, it would be merged into that. -/
theorem addPath_equiv_merge_variantsPage :
    (variantsPage 10 [pageStart]).WellFormed ∧
      (variantsPage 10 [pageStart]).addPath 25 "variants.nodes.sku" =
        (variantsPage 10 [pageStart, skus], none) ∧
      (∃ q, empty.addPath 25 "variants.nodes.sku" = (q, none) ∧
        q = variantsPage 25 [(.field "pageInfo", .node pageInfo), skus] ∧
        variantsPage 10 [pageStart, skus] ≈
          (q.trimmed (segments "variants.nodes.sku") (variantsPage 10 [pageStart])).merge
            (variantsPage 10 [pageStart]) ∧
        ¬ variantsPage 10 [pageStart, skus] ≈ q.merge (variantsPage 10 [pageStart])) ∧
      (variantsPage 10 [pageStart, skus]).addPath 50 "variants.nodes.sku" =
        (variantsPage 10 [pageStart, skus], none) := by
  have hpage : (variantsPage 10 [pageStart]).WellFormed := by
    simp [variantsPage, pageStart, WellFormed, ItemsWellFormed, Item.WellFormed,
      Literal.EntriesWellFormed, Literal.WellFormed, Literal.ofNat]
  have h : (variantsPage 10 [pageStart]).addPath 25 "variants.nodes.sku" =
    (variantsPage 10 [pageStart, skus], none) := rfl
  obtain ⟨⟨q, hq, hmerge⟩, hagain⟩ := addPath_equiv_merge hpage h
  have halone : empty.addPath 25 "variants.nodes.sku" =
    (variantsPage 25 [(.field "pageInfo", .node pageInfo), skus], none) := rfl
  obtain rfl := (Prod.ext_iff.mp (halone.symm.trans hq)).1
  exact ⟨hpage, h, ⟨_, halone, rfl, hmerge, by decide⟩, hagain 50⟩

end Selection

end FieldSelection
