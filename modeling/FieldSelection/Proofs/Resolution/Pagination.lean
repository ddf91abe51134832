import FieldSelection.Proofs.Resolution.Additions

/-!
# Paged connections

A raw request starts from nothing, so all that its answer holds was added by a path. A selection
with `nodes` or `edges` in it is then one that a path pages, and has a page size and `pageInfo`
(`Adds.pages_of_entries`).

What is in `pageInfo` depends on the order of the paths: the first path that pages the selection
brings `hasNextPage` and `endCursor`, unless a path to `pageInfo` came first. Then `pageInfo` holds
what was asked for and no more (`hasPageInfo_iff_of_addPaths`).
-/

namespace FieldSelection

open Selection

/-- The fields that say how to go on with the next page. -/
def pageFields : List String := ["hasNextPage", "endCursor"]

/-- The selection has `pageInfo` with what it takes to go on with the next page. -/
def Selection.HasPageInfo (s : Selection) : Prop :=
  ∃ page, s.get? (.field "pageInfo") = some (.node page) ∧
    ∀ name ∈ pageFields, page.hasField name = true

/-- All fields for the next page are asked for, under a place. -/
def RequestsPageInfo (paths : List String) (place : List Key) : Prop :=
  ∀ name ∈ pageFields, ∃ path ∈ paths,
    place ++ [.field "pageInfo", .field name] <+: fieldKeys (segments path)

/-! ## 1. Places of a new `pageInfo` -/

/-- The place of a new `pageInfo`, or of a field in it. -/
theorem place_of_pageInfo {keys place rest : List Key} {item : Item}
    (hkeys : keys = place ++ .field "pageInfo" :: rest) (hitem : pageInfo.at? rest = some item) :
    (keys = place ++ [.field "pageInfo"] ∧ item = .node pageInfo) ∨
      ∃ name ∈ pageFields, keys = place ++ [.field "pageInfo"] ++ [.field name] := by
  rcases pageInfo_at? hitem with ⟨rfl, rfl⟩ | ⟨-, rfl | rfl⟩
  · exact Or.inl ⟨hkeys, rfl⟩
  · exact Or.inr ⟨"hasNextPage", by decide, hkeys.trans (List.append_cons _ _ _)⟩
  · exact Or.inr ⟨"endCursor", by decide, hkeys.trans (List.append_cons _ _ _)⟩

/-- No field for the next page is `pageInfo` itself, or holds the entries of a connection. -/
theorem isConnectionField_of_mem_pageFields {name : String} (h : name ∈ pageFields) :
    name ≠ "pageInfo" ∧ isConnectionField name = false := by
  revert name
  decide

/-- A path that pages a place does not go to its `pageInfo`. -/
theorem Pages.not_pageInfo {names : List String} {place : List Key} (h : Pages names place) :
    ¬ place ++ [.field "pageInfo"] <+: fieldKeys names := by
  intro hpage
  obtain ⟨-, name, hname, hpre⟩ := h
  have hsame : place ++ [Key.field name] = place ++ [.field "pageInfo"] := by
    refine (List.prefix_of_prefix_length_le hpre hpage ?_).eq_of_length ?_
    · simp
    · simp
  cases List.append_cancel_left hsame
  exact absurd hname (by decide)

namespace Adds

variable {pageSize : Nat} {paths : List String} {s t : Selection} {place : List Key}

/-- What is new, other than at a place of a path, is a new `pageInfo` or a field in it. -/
theorem new_last (h : Adds pageSize paths s t) {keys : List Key} {last : Key} {item : Item}
    (hat : t.at? (keys ++ [last]) = some item) (hnew : s.at? (keys ++ [last]) = none)
    (hoff : ∀ path ∈ paths, ¬ keys ++ [last] <+: fieldKeys (segments path)) :
    (last = .field "pageInfo" ∧ item = .node pageInfo ∧ PagedFirst paths keys) ∨
      ∃ place, keys = place ++ [.field "pageInfo"] ∧ PagedFirst paths place ∧
        ∃ name ∈ pageFields, last = .field name := by
  rcases h.items _ _ hat hnew with ⟨path, hpath, hpre⟩ | ⟨place, rest, hkeys, hitem, hfirst, -⟩
  · exact absurd hpre (hoff path hpath)
  · rcases place_of_pageInfo hkeys hitem with ⟨hsame, hnode⟩ | ⟨name, hname, hsame⟩
    · obtain ⟨rfl, hlast⟩ := List.append_inj' hsame rfl
      exact Or.inl ⟨List.head_eq_of_cons_eq hlast, hnode, hfirst⟩
    · obtain ⟨rfl, hlast⟩ := List.append_inj' hsame rfl
      exact Or.inr ⟨place, rfl, hfirst, name, hname, List.head_eq_of_cons_eq hlast⟩

/-- A new `pageInfo` that no path goes to has the two fields for the next page. -/
theorem new_pageInfo (h : Adds pageSize paths s t) {item : Item}
    (hat : t.at? (place ++ [.field "pageInfo"]) = some item)
    (hnew : s.at? (place ++ [.field "pageInfo"]) = none)
    (hoff : ∀ path ∈ paths, ¬ place ++ [.field "pageInfo"] <+: fieldKeys (segments path)) :
    item = .node pageInfo := by
  rcases h.new_last hat hnew hoff with ⟨-, hnode, -⟩ | ⟨-, -, -, name, hname, hlast⟩
  · exact hnode
  · cases hlast
    exact absurd rfl (isConnectionField_of_mem_pageFields hname).1

/-- **From nothing, what holds the entries of a connection is paged.** -/
theorem pages_of_entries (h : Adds pageSize paths .empty t) {u : Selection} (hplace : place ≠ [])
    (hu : t.at? place = some (.node u)) {name : String} (hname : isConnectionField name = true)
    (hentries : u.hasField name = true) : ∃ path ∈ paths, Pages (segments path) place := by
  obtain ⟨item, hitem⟩ := Option.isSome_iff_exists.mp hentries
  rw [← at?_concat hu] at hitem
  by_cases hon : ∃ path ∈ paths, place ++ [.field name] <+: fieldKeys (segments path)
  · obtain ⟨path, hpath, hpre⟩ := hon
    exact ⟨path, hpath, hplace, name, hname, hpre⟩
  · exfalso
    have hoff : ∀ path ∈ paths, ¬ place ++ [.field name] <+: fieldKeys (segments path) := by
      intro path hpath hpre
      exact hon ⟨path, hpath, hpre⟩
    rcases h.new_last hitem (at?_empty_concat place _) hoff with
      ⟨hlast, -⟩ | ⟨-, -, -, name', hname', hlast⟩
    · cases hlast
      exact absurd hname (by decide)
    · cases hlast
      rw [(isConnectionField_of_mem_pageFields hname').2] at hname
      cases hname

end Adds

/-! ## 2. What is in `pageInfo` -/

section PageInfo

variable {pageSize : Nat} {paths : List String} {s t u : Selection} {place : List Key}

theorem Selection.hasPageInfo_iff (hu : t.at? place = some (.node u)) : u.HasPageInfo ↔
    ∀ name ∈ pageFields, (t.at? (place ++ [.field "pageInfo"] ++ [.field name])).isSome = true := by
  constructor
  · rintro ⟨page, hpage, hfields⟩ name hname
    rw [← at?_concat hu] at hpage
    rw [at?_concat hpage]
    exact hfields name hname
  · intro h
    obtain ⟨page, hpage⟩ := exists_node_of_at?_concat (h "hasNextPage" (by decide))
    refine ⟨page, (at?_concat hu _).symm.trans hpage, fun name hname => ?_⟩
    rw [hasField, ← at?_concat hpage]
    exact h name hname

/-- A new `pageInfo` that is kept has the fields for the next page. -/
theorem Selection.KeptIn.hasPageInfo (h : s.KeptIn t)
    (hs : s.at? (place ++ [.field "pageInfo"]) = some (.node pageInfo))
    (hu : t.at? place = some (.node u)) : u.HasPageInfo := by
  refine (hasPageInfo_iff hu).mpr fun name hname => h.isSome_at? ?_
  rw [at?_concat hs]
  revert name
  decide

/-- A path that pages a place ahead of the paths to its `pageInfo` brings the fields for the next
    page, or finds them there. -/
theorem hasPageInfo_of_pagedFirst (h : Resolver.addPaths pageSize paths .empty = .ok t)
    (hfirst : PagedFirst paths place) (hu : t.at? place = some (.node u)) : u.HasPageInfo := by
  obtain ⟨before, path, after, rfl, hpages, hbefore⟩ := hfirst
  rw [Resolver.addPaths_append] at h
  obtain ⟨s₁, hs₁, h⟩ := bind_eq_ok_iff.mp h
  obtain ⟨s₂, hs₂, ht⟩ := Resolver.addPaths_cons_eq_ok_iff.mp h
  have hbase := Resolver.adds_of_addPaths hs₁
  have hstep := Resolver.adds_of_addPath hs₂ (.nil pageSize s₂)
  have hkept := (Resolver.adds_of_addPaths ht).kept
  cases hold : s₁.at? (place ++ [.field "pageInfo"]) with
  | some old =>
    -- an earlier path paged the place
    cases hbase.new_pageInfo hold (at?_empty_concat place _) hbefore
    exact (hstep.kept.trans hkept).hasPageInfo hold hu
  | none =>
    obtain ⟨w, hw, hpaged⟩ := (hstep.serves path List.mem_cons_self).paged hpages
    obtain ⟨item, hitem⟩ := Option.isSome_iff_exists.mp hpaged.2
    rw [← at?_concat hw] at hitem
    cases hstep.new_pageInfo hitem hold fun q hq => by
      cases List.mem_singleton.mp hq
      exact hpages.not_pageInfo
    exact hkept.hasPageInfo hitem hu

/-- **Only such a path brings the fields for the next page**, unless they are asked for. -/
theorem hasPageInfo_iff_of_addPaths (h : Resolver.addPaths pageSize paths .empty = .ok t)
    (hu : t.at? place = some (.node u)) :
    u.HasPageInfo ↔ PagedFirst paths place ∨ RequestsPageInfo paths place := by
  have hadds := Resolver.adds_of_addPaths h
  constructor
  · intro hinfo
    rw [hasPageInfo_iff hu] at hinfo
    by_cases hreq : RequestsPageInfo paths place
    · exact Or.inr hreq
    · obtain ⟨name, hname, hoff⟩ : ∃ name ∈ pageFields, ∀ path ∈ paths,
          ¬ place ++ [.field "pageInfo"] ++ [.field name] <+: fieldKeys (segments path) := by
        simpa [RequestsPageInfo] using hreq
      obtain ⟨item, hitem⟩ := Option.isSome_iff_exists.mp (hinfo name hname)
      rcases hadds.new_last hitem (at?_empty_concat _ _) hoff with
        ⟨hlast, -⟩ | ⟨place', hsame, hfirst, -⟩
      · cases hlast
        exact absurd rfl (isConnectionField_of_mem_pageFields hname).1
      · obtain ⟨rfl, -⟩ := List.append_inj' hsame rfl
        exact Or.inl hfirst
  · rintro (hfirst | hreq)
    · exact hasPageInfo_of_pagedFirst h hfirst hu
    · refine (hasPageInfo_iff hu).mpr fun name hname => ?_
      obtain ⟨path, hpath, hpre⟩ := hreq name hname
      rw [List.append_assoc]
      exact (hadds.serves path hpath).isSome_at?_along hpre

end PageInfo

/-! ## 3. Raw requests -/

theorem PagedFirst.append_iff {paths paths' : List String} {place : List Key}
    (hother : ∀ path ∈ paths', ¬ Pages (segments path) place) :
    PagedFirst (paths ++ paths') place ↔ PagedFirst paths place := by
  constructor
  · rintro ⟨before, path, after, heq, hpages, hbefore⟩
    rcases List.append_eq_append_iff.mp heq with ⟨mid, rfl, hafter⟩ | ⟨mid, rfl, hafter⟩
    · exact absurd hpages (hother path (hafter ▸ List.mem_append_right mid List.mem_cons_self))
    · match mid with
      | [] =>
        have hmem : path ∈ paths' := by
          rw [List.nil_append] at hafter
          exact hafter ▸ List.mem_cons_self
        exact absurd hpages (hother path hmem)
      | path' :: mid =>
        obtain ⟨rfl, -⟩ := List.cons.inj hafter
        exact ⟨before, path, mid, rfl, hpages, hbefore⟩
  · rintro ⟨before, path, after, rfl, hpages, hbefore⟩
    exact ⟨before, path, after ++ paths', by simp, hpages, hbefore⟩

namespace Request

variable {request : Request} {place : List Key}

/-- A required `id` pages nothing. -/
theorem pagedFirst_paths_iff :
    PagedFirst request.paths place ↔ PagedFirst request.fieldPaths place := by
  refine PagedFirst.append_iff fun path hpath hpages => ?_
  split at hpath
  · cases List.mem_singleton.mp hpath
    exact hpages.not_singleton
  · cases hpath

theorem requestsPageInfo_paths_iff :
    RequestsPageInfo request.paths place ↔ RequestsPageInfo request.fieldPaths place := by
  have hid : ∀ name, ¬ place ++ [.field "pageInfo", .field name] <+: fieldKeys (segments "id") := by
    intro name hpre
    have hlength : (place ++ [Key.field "pageInfo", .field name]).length ≤ 1 := hpre.length_le
    rw [List.length_append, List.length_cons, List.length_singleton] at hlength
    omega
  constructor
  · intro h name hname
    obtain ⟨path, hpath, hpre⟩ := h name hname
    rcases mem_paths_iff.mp hpath with hfield | ⟨-, rfl⟩
    · exact ⟨path, hfield, hpre⟩
    · exact absurd hpre (hid name)
  · intro h name hname
    obtain ⟨path, hpath, hpre⟩ := h name hname
    exact ⟨path, mem_paths_iff.mpr (Or.inl hpath), hpre⟩

end Request

namespace Resolver

/-- **The pages of a raw request.** What holds the entries of a connection, other than the root, has
    a page size and `pageInfo`. The fields for the next page are in `pageInfo` if a path pages the
    connection ahead of all paths to its `pageInfo`, or if both are asked for; else they are not. -/
theorem paged_of_raw {r : Resolver} {read : ReadFile} {request : Request} {t : Selection}
    (hmode : request.mode = .raw) (hover : request.override = none)
    (h : r.resolve read request = .ok t) {place : List Key} {u : Selection} (hplace : place ≠ [])
    (hu : t.at? place = some (.node u))
    (hentries : u.hasField "nodes" = true ∨ u.hasField "edges" = true) :
    u.argument? "first" = some (.ofNat r.config.defaultPageSize) ∧
      u.hasField "pageInfo" = true ∧
      (u.HasPageInfo ↔ PagedFirst request.fieldPaths place ∨
        RequestsPageInfo request.fieldPaths place) := by
  obtain ⟨-, s, hs, hpaths, -⟩ := resolve_eq_ok_iff.mp h
  rw [start, hover] at hs
  simp only [base, hmode] at hs
  cases hs
  have hadds := adds_of_addPaths hpaths
  have hpages : ∃ path ∈ request.paths, Pages (segments path) place := by
    rcases hentries with hnodes | hedges
    · exact hadds.pages_of_entries hplace hu (by decide) hnodes
    · exact hadds.pages_of_entries hplace hu (by decide) hedges
  obtain ⟨path, hpath, hpages⟩ := hpages
  obtain ⟨w, hw, hpaged⟩ := (hadds.serves path hpath).paged hpages
  rw [hu] at hw
  cases hw
  refine ⟨?_, hpaged.2, ?_⟩
  · obtain ⟨value, hvalue⟩ := Option.isSome_iff_exists.mp hpaged.1
    have hat : t.argumentAt? place "first" = some value :=
      Option.bind_eq_some_iff.mpr ⟨_, hu, hvalue⟩
    have hnew : Selection.empty.argumentAt? place "first" = none := by
      cases place <;> rfl
    rw [hvalue, (hadds.arguments place "first" value hat hnew).2.2]
  · rw [hasPageInfo_iff_of_addPaths hpaths hu, Request.pagedFirst_paths_iff,
      Request.requestsPageInfo_paths_iff]

/-- The variants' nodes, then where their page starts. -/
def variantsPaths : List String := ["variants.nodes.id", "variants.pageInfo.startCursor"]

/-- A raw request for the given paths. -/
def rawRequest (paths : List String) : Request := { mode := .raw, fieldPaths := paths }

/-- The variants, with the given fields in `pageInfo`. -/
def variantsSelection (page : Selection) : Selection :=
  ⟨[], false, [(.field "variants", .node ⟨[("first", .ofNat 25)], false,
    [(.field "pageInfo", .node page),
      (.field "nodes", .node ⟨[], false, [(.field "id", .leaf)]⟩)]⟩)]⟩

/-- The nodes bring the fields for the next page, where their path comes first. -/
theorem paged_variantsSelection : ∃ t u,
    (ofTypes [] {}).resolve noFiles (rawRequest variantsPaths) = .ok t ∧
      t = variantsSelection (pageInfo.withLeaf "startCursor") ∧
      t.at? [.field "variants"] = some (.node u) ∧ u.HasPageInfo := by
  have h : (ofTypes [] {}).resolve noFiles (rawRequest variantsPaths) =
    .ok (variantsSelection (pageInfo.withLeaf "startCursor")) := rfl
  have hplace : [Key.field "variants"] ≠ [] := List.cons_ne_nil _ _
  have hfirst : PagedFirst variantsPaths [.field "variants"] :=
    ⟨[], "variants.nodes.id", _, rfl, Pages.head (by decide) "variants" ["id"], nofun⟩
  have hpaged := paged_of_raw rfl rfl h hplace rfl (Or.inl rfl)
  exact ⟨_, _, h, rfl, rfl, hpaged.2.2.mpr (Or.inl hfirst)⟩

/-- Where the path to `pageInfo` comes first, the nodes do not bring them. -/
theorem exists_raw_without_pageInfo : ¬ ∀ (r : Resolver) (read : ReadFile) (request : Request)
    (t : Selection), request.mode = .raw → request.override = none →
    r.resolve read request = .ok t → ∀ place u, place ≠ [] → t.at? place = some (.node u) →
    (u.hasField "nodes" = true ∨ u.hasField "edges" = true) →
      (u.argument? "first").isSome = true ∧ u.HasPageInfo := by
  intro hall
  have h : (ofTypes [] {}).resolve noFiles (rawRequest variantsPaths.reverse) =
    .ok (variantsSelection (empty.withLeaf "startCursor")) := rfl
  have hplace : [Key.field "variants"] ≠ [] := List.cons_ne_nil _ _
  obtain ⟨-, page, hpage, hfields⟩ := hall _ _ _ _ rfl rfl h _ _ hplace rfl (Or.inl rfl)
  cases hpage
  exact absurd (hfields "endCursor" (by decide)) (by decide)

end Resolver

end FieldSelection
