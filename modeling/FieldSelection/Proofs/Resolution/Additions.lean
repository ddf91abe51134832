import FieldSelection.Proofs.Outcome
import FieldSelection.Proofs.Selection.Paths
import FieldSelection.Resolution

/-!
# What a resolution adds

`Adds` says what a list of paths does to a selection, and `adds_of_addPaths` that a run over the
paths does that and nothing else: the step is what one path does (`Adding`), and the run follows by
induction on the paths. A required `id` is one more path.

A resolution (`addsTo_of_resolve`) starts from the caller's text, or else from the base of its mode
(`Resolver.start`). What it answers holds the start as it was, with what the request asks for and no
more; resolved again with the same paths, it is answered as it is.
-/

namespace FieldSelection

open Selection

/-! ## 1. Paths, one after another -/

/-- A path pages a place ahead of every path to the `pageInfo` of that place. -/
def PagedFirst (paths : List String) (place : List Key) : Prop :=
  ∃ before path after, paths = before ++ path :: after ∧ Pages (segments path) place ∧
    ∀ q ∈ before, ¬ place ++ [.field "pageInfo"] <+: fieldKeys (segments q)

theorem PagedFirst.exists_pages {paths : List String} {place : List Key}
    (h : PagedFirst paths place) : ∃ path ∈ paths, Pages (segments path) place := by
  obtain ⟨before, path, after, rfl, hpages, -⟩ := h
  exact ⟨path, List.mem_append_right before List.mem_cons_self, hpages⟩

theorem PagedFirst.cons {paths : List String} {place : List Key} (h : PagedFirst paths place)
    {path : String} (hpath : ¬ place ++ [.field "pageInfo"] <+: fieldKeys (segments path)) :
    PagedFirst (path :: paths) place := by
  obtain ⟨before, path', after, rfl, hpages, hbefore⟩ := h
  refine ⟨path :: before, path', after, rfl, hpages, fun q hq => ?_⟩
  rcases List.mem_cons.mp hq with rfl | hq
  · exact hpath
  · exact hbefore q hq

/-- What paths add to a selection. -/
structure Adds (pageSize : Nat) (paths : List String) (s t : Selection) : Prop where
  /-- The paths are made of names. -/
  names : ∀ path ∈ paths, ∀ name ∈ segments path, isIdentifier name.toList = true
  /-- The selection is kept. -/
  kept : s.KeptIn t
  /-- All paths are served. -/
  serves : ∀ path ∈ paths, Serves (segments path) t
  /-- What stands off the paths does not change. -/
  unchanged : ∀ keys item, s.at? keys = some item →
    (∀ path ∈ paths, ¬ keys <+: fieldKeys (segments path)) → t.at? keys = some item
  /-- A new item is on a path, or in the new `pageInfo` of a selection that a path pages. -/
  items : ∀ keys item, t.at? keys = some item → s.at? keys = none →
    (∃ path ∈ paths, keys <+: fieldKeys (segments path)) ∨
      ∃ place rest, keys = place ++ .field "pageInfo" :: rest ∧ pageInfo.at? rest = some item ∧
        PagedFirst paths place ∧ s.at? (place ++ [.field "pageInfo"]) = none
  /-- A new argument is the page size of a selection that a path pages. -/
  arguments : ∀ keys name value, t.argumentAt? keys name = some value →
    s.argumentAt? keys name = none →
      (∃ path ∈ paths, Pages (segments path) keys) ∧ name = "first" ∧ value = .ofNat pageSize

namespace Adds

variable {pageSize : Nat} {path : String} {paths : List String} {s t u : Selection}

theorem nil (pageSize : Nat) (s : Selection) : Adds pageSize [] s s where
  names := nofun
  kept := keptIn_refl s
  serves := nofun
  unchanged := fun _ _ h _ => h
  items := fun _ _ h hnew => absurd (hnew.symm.trans h) (by simp)
  arguments := fun _ _ _ h hnew => absurd (hnew.symm.trans h) (by simp)

/-- **One path, then the others.** -/
theorem cons (h : Adds pageSize paths u t)
    (hnames : ∀ name ∈ segments path, isIdentifier name.toList = true)
    (hstep : Adding pageSize (segments path) s u none) :
    Adds pageSize (path :: paths) s t where
  names := List.forall_mem_cons.mpr ⟨hnames, h.names⟩
  kept := hstep.keptIn.trans h.kept
  serves := List.forall_mem_cons.mpr ⟨(hstep.serves rfl).of_keptIn h.kept, h.serves⟩
  unchanged := by
    intro keys item hat hoff
    obtain ⟨hpath, hpaths⟩ := List.forall_mem_cons.mp hoff
    exact h.unchanged keys item (hstep.at?_eq hat hpath) hpaths
  items := by
    intro keys item hat hnew
    by_cases hon : ∃ q ∈ path :: paths, keys <+: fieldKeys (segments q)
    · exact Or.inl hon
    have hoff : ∀ q ∈ path :: paths, ¬ keys <+: fieldKeys (segments q) :=
      fun q hq hpre => hon ⟨q, hq, hpre⟩
    obtain ⟨hpath, hpaths⟩ := List.forall_mem_cons.mp hoff
    refine Or.inr ?_
    cases hu : u.at? keys with
    | some item' =>
      -- new with this path; the others leave it alone
      rw [h.unchanged keys item' hu hpaths] at hat
      cases hat
      obtain ⟨place, rest, hkeys, hpage, hpages, hlacks⟩ :=
        (hstep.new_item hu hnew).resolve_left hpath
      exact ⟨place, rest, hkeys, hpage, ⟨[], path, paths, rfl, hpages, nofun⟩, hlacks⟩
    | none =>
      -- new with a later path; this path does not go to that `pageInfo`, or it would be there
      have hnot : ¬ ∃ q ∈ paths, keys <+: fieldKeys (segments q) :=
        fun ⟨q, hq, hpre⟩ => hpaths q hq hpre
      obtain ⟨place, rest, hkeys, hpage, hfirst, hlacks⟩ :=
        (h.items keys item hat hu).resolve_left hnot
      refine ⟨place, rest, hkeys, hpage, hfirst.cons fun hpre => ?_,
        hstep.keptIn.at?_eq_none hlacks⟩
      have hsome := (hstep.serves rfl).isSome_at?_along hpre
      rw [hlacks] at hsome
      cases hsome
  arguments := by
    intro keys name value hat hnew
    cases hu : u.argumentAt? keys name with
    | some value' =>
      rw [h.kept.argumentAt? hu] at hat
      cases hat
      obtain ⟨hpages, hname, hvalue⟩ := hstep.new_argument hu hnew
      exact ⟨⟨path, List.mem_cons_self, hpages⟩, hname, hvalue⟩
    | none =>
      obtain ⟨⟨q, hq, hpages⟩, hname, hvalue⟩ := h.arguments keys name value hat hu
      exact ⟨⟨q, List.mem_cons_of_mem _ hq, hpages⟩, hname, hvalue⟩

end Adds

/-! ## 2. Running over paths -/

namespace Resolver

variable {pageSize : Nat} {path : String} {paths : List String} {s t : Selection}

theorem adds_of_addPath {u : Selection} (h : s.addPath pageSize path = (u, none))
    (hrest : Adds pageSize paths u t) : Adds pageSize (path :: paths) s t := by
  obtain ⟨hnames, hstep⟩ := addPath_eq_none_iff.mp h
  exact hrest.cons hnames hstep

theorem addPaths_cons_eq_ok_iff : addPaths pageSize (path :: paths) s = .ok t ↔
    ∃ u, s.addPath pageSize path = (u, none) ∧ addPaths pageSize paths u = .ok t := by
  rw [addPaths]
  split
  · rename_i u hu
    simp [hu]
  · rename_i u failure hu
    simp [hu]

theorem addPaths_append {paths' : List String} : addPaths pageSize (paths ++ paths') s =
    addPaths pageSize paths s >>= addPaths pageSize paths' := by
  induction paths generalizing s with
  | nil => rfl
  | cons path paths ih =>
    rw [List.cons_append, addPaths, addPaths]
    split
    · exact ih
    · rfl

/-- **A run over paths adds what they ask for.** -/
theorem adds_of_addPaths (h : addPaths pageSize paths s = .ok t) : Adds pageSize paths s t := by
  induction paths generalizing s with
  | nil =>
    cases h
    exact .nil pageSize _
  | cons path paths ih =>
    obtain ⟨u, hpath, hrest⟩ := addPaths_cons_eq_ok_iff.mp h
    exact adds_of_addPath hpath (ih hrest)

end Resolver

/-- **Paths that were added are added to no effect.** -/
theorem Adds.addPaths_eq {pageSize : Nat} {paths : List String} {s t : Selection}
    (h : Adds pageSize paths s t) : Resolver.addPaths pageSize paths t = .ok t := by
  obtain ⟨hnames, -, hserves, -, -, -⟩ := h
  induction paths with
  | nil => rfl
  | cons path paths ih =>
    obtain ⟨hname, hnames⟩ := List.forall_mem_cons.mp hnames
    obtain ⟨hserve, hserves⟩ := List.forall_mem_cons.mp hserves
    refine Resolver.addPaths_cons_eq_ok_iff.mpr ⟨t, ?_, ih hnames hserves⟩
    exact addPath_eq_none_iff.mpr ⟨hname, hserve.adding (segments_ne_nil path) pageSize⟩

/-! ## 3. Resolutions -/

/-- The paths that a request adds; a required `id` is the last of them. -/
def Request.paths (request : Request) : List String :=
  request.fieldPaths ++ if request.requireId then ["id"] else []

/-- The same request on top of a selection that is there. -/
def Request.again (request : Request) (s : Selection) : Request :=
  { request with mode := .default, defaultSelection := some s, override := none }

namespace Resolver

variable {pageSize : Nat} {read : ReadFile} {request : Request} {s t : Selection}

/-- The selection that a resolution starts from: the caller's text, or else the base. -/
def start (r : Resolver) (read : ReadFile) (request : Request) : Except SelectionError Selection :=
  match request.override with
  | some source => source.selection read
  | none => r.base request

theorem addId_eq (s : Selection) : addId s = s.putNew (.field "id") .leaf := by
  obtain ⟨a, w, is⟩ := s
  rw [addId, hasField]
  split
  · rename_i hid
    obtain ⟨item, hitem⟩ := Option.isSome_iff_exists.mp hid
    have hput : Table.putNew (.field "id") .leaf is = is := Table.putNew_of_get? _ hitem
    exact congrArg (Selection.mk a w) hput.symm
  · rename_i hid
    have hput : Table.putNew (.field "id") .leaf is = Table.put (.field "id") .leaf is :=
      Table.putNew_eq_put (Option.not_isSome_iff_eq_none.mp hid) _
    exact congrArg (Selection.mk a w) hput.symm

/-- A required `id` is a path of its own. -/
theorem addPaths_id (pageSize : Nat) (s : Selection) :
    addPaths pageSize ["id"] s = .ok (addId s) := by
  have hid : segments "id" = ["id"] := by decide
  have hpath : s.addPath pageSize "id" = (addId s, none) := by
    refine addPath_eq_none_iff.mpr ⟨by rw [hid]; decide, ?_⟩
    rw [hid, addId_eq]
    exact .last s "id"
  exact addPaths_cons_eq_ok_iff.mpr ⟨addId s, hpath, rfl⟩

theorem addPaths_paths : addPaths pageSize request.paths s =
    (addPaths pageSize request.fieldPaths s).map fun u =>
      if request.requireId then addId u else u := by
  rw [Request.paths, addPaths_append]
  cases addPaths pageSize request.fieldPaths s with
  | error e => rfl
  | ok u =>
    rw [ok_bind]
    cases request.requireId with
    | true => exact addPaths_id pageSize u
    | false => rfl

theorem resolve_eq (r : Resolver) (read : ReadFile) (request : Request) :
    r.resolve read request = (do
      let _ ← r.base request
      let s ← r.start read request
      let t ← addPaths r.config.defaultPageSize request.paths s
      if t.isEmpty then throw (emptyError request.mode) else return t) := by
  rw [resolve, start]
  simp only [addPaths_paths, map_bind]
  cases r.base request with
  | error e => rfl
  | ok base =>
    cases request.override with
    | none => rfl
    | some source => rfl

/-- A resolution has a base, adds the paths to what it starts from, and then selects something. -/
theorem resolve_eq_ok_iff {r : Resolver} : r.resolve read request = .ok t ↔
    (∃ base, r.base request = .ok base) ∧ ∃ s, r.start read request = .ok s ∧
      addPaths r.config.defaultPageSize request.paths s = .ok t ∧ t.isEmpty = false := by
  have hlast : ∀ u : Selection,
      (if u.isEmpty then throw (emptyError request.mode) else return u :
        Except SelectionError Selection) = .ok t ↔ u = t ∧ t.isEmpty = false := by
    intro u
    cases hempty : u.isEmpty with
    | true =>
      refine ⟨nofun, ?_⟩
      rintro ⟨rfl, ht⟩
      rw [hempty] at ht
      cases ht
    | false =>
      constructor
      · intro h
        cases h
        exact ⟨rfl, hempty⟩
      · rintro ⟨rfl, -⟩
        rfl
  rw [resolve_eq]
  simp only [bind_eq_ok_iff, hlast]
  constructor
  · rintro ⟨base, hbase, s, hs, u, hu, rfl, ht⟩
    exact ⟨⟨base, hbase⟩, s, hs, hu, ht⟩
  · rintro ⟨⟨base, hbase⟩, s, hs, ht, hempty⟩
    exact ⟨base, hbase, s, hs, t, ht, rfl, hempty⟩

end Resolver

/-! ## 4. What a request adds -/

/-- What a request adds to the selection that it starts from. -/
structure Request.AddsTo (request : Request) (pageSize : Nat) (s t : Selection) : Prop where
  /-- What was selected still is, in its place and as it was. -/
  kept : s.KeptIn t
  /-- What the request asks for is selected. -/
  requested : ∀ path ∈ request.fieldPaths, (t.at? (fieldKeys (segments path))).isSome = true
  id : request.requireId = true → t.hasField "id" = true
  /-- A new key is on a path, or the required `id`, or part of the `pageInfo` of a selection that a
      path pages. -/
  items : ∀ keys item, t.at? keys = some item → s.at? keys = none →
    (∃ path ∈ request.fieldPaths, keys <+: fieldKeys (segments path)) ∨
      (request.requireId = true ∧ keys = [.field "id"]) ∨
      ∃ path ∈ request.fieldPaths, ∃ place rest, Pages (segments path) place ∧
        keys = place ++ .field "pageInfo" :: rest ∧ pageInfo.at? rest = some item
  /-- A new argument is the page size of a selection that a path pages. -/
  arguments : ∀ keys name value, t.argumentAt? keys name = some value →
    s.argumentAt? keys name = none →
      name = "first" ∧ value = .ofNat pageSize ∧
        ∃ path ∈ request.fieldPaths, Pages (segments path) keys
  /-- What a path pages has a page size and `pageInfo`. -/
  paged : ∀ path ∈ request.fieldPaths, ∀ place, Pages (segments path) place →
    ∃ u, t.at? place = some (.node u) ∧ u.Paged

namespace Request

variable {request : Request} {pageSize : Nat} {s t : Selection}

theorem mem_paths_iff {path : String} : path ∈ request.paths ↔
    path ∈ request.fieldPaths ∨ (request.requireId = true ∧ path = "id") := by
  rw [paths, List.mem_append]
  cases request.requireId <;> simp

/-- The path to `id` pages nothing. -/
theorem mem_fieldPaths_of_pages {path : String} {place : List Key} (hpath : path ∈ request.paths)
    (hpages : Pages (segments path) place) : path ∈ request.fieldPaths := by
  rcases mem_paths_iff.mp hpath with hfield | ⟨-, rfl⟩
  · exact hfield
  · exact hpages.not_singleton.elim

theorem addsTo_of_adds (h : Adds pageSize request.paths s t) : request.AddsTo pageSize s t where
  kept := h.kept
  requested path hpath := (h.serves path (mem_paths_iff.mpr (Or.inl hpath))).isSome_at?
  id hid := h.serves "id" (mem_paths_iff.mpr (Or.inr ⟨hid, rfl⟩))
  items := by
    intro keys item hat hnew
    rcases h.items keys item hat hnew with
      ⟨path, hpath, hpre⟩ | ⟨place, rest, hkeys, hpage, hfirst, -⟩
    · rcases mem_paths_iff.mp hpath with hfield | ⟨hid, rfl⟩
      · exact Or.inl ⟨path, hfield, hpre⟩
      · match keys, hpre with
        | [], _ => cases hnew
        | key :: keys, hpre =>
          obtain ⟨rfl, hnil⟩ := List.cons_prefix_cons.mp hpre
          obtain rfl := List.prefix_nil.mp hnil
          exact Or.inr (Or.inl ⟨hid, rfl⟩)
    · obtain ⟨path, hpath, hpages⟩ := hfirst.exists_pages
      exact Or.inr (Or.inr ⟨path, mem_fieldPaths_of_pages hpath hpages, place, rest, hpages, hkeys,
        hpage⟩)
  arguments := by
    intro keys name value hat hnew
    obtain ⟨⟨path, hpath, hpages⟩, hname, hvalue⟩ := h.arguments keys name value hat hnew
    exact ⟨hname, hvalue, path, mem_fieldPaths_of_pages hpath hpages, hpages⟩
  paged path hpath _ hpages := (h.serves path (mem_paths_iff.mpr (Or.inl hpath))).paged hpages

end Request

namespace Resolver

/-- **A resolution adds what was asked for.** What it answers adds to the selection that it starts
    from what the request asks for, and no more; and resolved again with the same paths, it is
    answered as it is. -/
theorem addsTo_of_resolve {r : Resolver} {read : ReadFile} {request : Request} {t : Selection}
    (h : r.resolve read request = .ok t) :
    (∃ s, r.start read request = .ok s ∧ request.AddsTo r.config.defaultPageSize s t) ∧
      ∀ read', r.resolve read' (request.again t) = .ok t := by
  obtain ⟨-, s, hs, hpaths, hempty⟩ := resolve_eq_ok_iff.mp h
  have hadds := adds_of_addPaths hpaths
  refine ⟨⟨s, hs, Request.addsTo_of_adds hadds⟩, fun read' => ?_⟩
  exact resolve_eq_ok_iff.mpr ⟨⟨t, rfl⟩, t, rfl, hadds.addPaths_eq, hempty⟩

/-- A command that selects the title of a product, and is asked for the stock of its variants. -/
def stockRequest : Request where
  defaultSelection := some ⟨[], false, [(.field "title", .leaf)]⟩
  fieldPaths := ["variants.nodes.stock"]
  requireId := true

/-- The title with the stock of the variants. -/
def stockSelection : Selection :=
  ⟨[], false, [(.field "title", .leaf),
    (.field "variants", .node ⟨[("first", .ofNat 25)], false,
      [(.field "pageInfo", .node pageInfo),
        (.field "nodes", .node ⟨[], false, [(.field "stock", .leaf)]⟩)]⟩),
    (.field "id", .leaf)]⟩

/-- A disk with nothing on it. -/
def noFiles : ReadFile := fun _ => .error .notFound

/-- The title stays, and the stock brings the pages of the variants with it. -/
theorem addsTo_stockSelection :
    (ofTypes [] {}).resolve noFiles stockRequest = .ok stockSelection ∧
      (∃ s, (ofTypes [] {}).start noFiles stockRequest = .ok s ∧
        stockRequest.AddsTo 25 s stockSelection) ∧
      ∀ read', (ofTypes [] {}).resolve read' (stockRequest.again stockSelection) =
        .ok stockSelection := by
  have h : (ofTypes [] {}).resolve noFiles stockRequest = .ok stockSelection := rfl
  exact ⟨h, addsTo_of_resolve h⟩

end Resolver

end FieldSelection
