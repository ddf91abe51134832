import FieldSelection.Proofs.Resolution.Additions
import FieldSelection.Proofs.Selection.Parsed

/-!
# Resolutions with the caller's text

The caller's text takes the place of the base. The base has to be there all the same, and this is
all that counts of it: a resolution with a text is reading the text and adding the paths
(`resolve_of_override`). What is read from a text selects something, and adding paths keeps that
(`Adds.isEmpty_eq_false`), so the end of a resolution, where it may turn out to select nothing, is
never reached with a text.

Two requests with the same text and the same paths are so resolved alike, whatever their modes,
their types and the schemas (`resolve_eq_of_override`).
-/

namespace FieldSelection

open Selection

/-! ## 1. Selecting something -/

/-- A selection that is kept in another one selects something there. -/
theorem Selection.KeptIn.isEmpty_eq_false {s t : Selection} (h : s.KeptIn t)
    (hs : s.isEmpty = false) : t.isEmpty = false := by
  obtain ⟨a, w, is⟩ := s
  obtain ⟨b, v, js⟩ := t
  obtain ⟨-, rfl, hitems⟩ := h
  match is, js, hitems with
  | [], [], _ => exact hs
  | [], _ :: _, _ => rfl
  | _ :: _, _ :: _, _ => rfl

theorem Adds.isEmpty_eq_false {pageSize : Nat} {paths : List String} {s t : Selection}
    (h : Adds pageSize paths s t) (hs : s.isEmpty = false) : t.isEmpty = false :=
  h.kept.isEmpty_eq_false hs

namespace Source

variable {read read' : ReadFile} {source : Source} {s : Selection} {e : SelectionError}

/-- What is read from a source has items, and fits. -/
theorem fits_of_selection (h : source.selection read = .ok s) :
    s.items ≠ [] ∧ ∃ (p : Numeral → Prop) (room : Nat), s.Fits p room := by
  obtain ⟨text, -, h⟩ := bind_eq_ok_iff.mp h
  obtain ⟨ks, -, hitems, -, hfits⟩ := fits_of_parseWithin (mapError_eq_ok_iff.mp h)
  exact ⟨hitems, _, _, hfits⟩

/-- What is read from a source selects something. -/
theorem isEmpty_of_selection (h : source.selection read = .ok s) : s.isEmpty = false := by
  obtain ⟨hitems, -⟩ := fits_of_selection h
  obtain ⟨_, _, items⟩ := s
  match items, hitems with
  | _ :: _, _ => rfl

/-- A source depends on its own file only. -/
theorem selection_congr (h : ∀ path, source = .file path → read path = read' path) :
    source.selection read = source.selection read' := by
  cases source with
  | inline text => rfl
  | file path => rw [selection, selection, text, text, h path rfl]

end Source

namespace Resolver

/-! ## 2. What ends a resolution -/

/-- The errors of a request that asks for no selection at all. -/
def emptyRequestErrors : List SelectionError :=
  [.emptyRawSelection, .emptySelection, .missingDefaultSelection]

variable {r r' : Resolver} {read read' : ReadFile} {request request' : Request} {source : Source}
  {e : SelectionError}

theorem not_emptyRequestError_of_selection (h : source.selection read = .error e) :
    e ∉ emptyRequestErrors := by
  have hcases : (∃ path error, e = .unreadable path error) ∨ ∃ error, e = .grammar error := by
    cases htext : source.text read with
    | error e' =>
      rw [Source.selection, htext] at h
      cases h
      cases source with
      | inline text => cases htext
      | file path =>
        rw [Source.text] at htext
        split at htext
        · cases htext
        · cases htext
          exact Or.inl ⟨path, _, rfl⟩
    | ok text =>
      rw [Source.selection, htext] at h
      obtain ⟨error, -, rfl⟩ := mapError_eq_error_iff.mp h
      exact Or.inr ⟨error, rfl⟩
  rcases hcases with ⟨path, error, rfl⟩ | ⟨error, rfl⟩ <;> simp [emptyRequestErrors]

theorem not_emptyRequestError_of_addPaths {pageSize : Nat} {paths : List String} {s : Selection}
    (h : addPaths pageSize paths s = .error e) : e ∉ emptyRequestErrors := by
  induction paths generalizing s with
  | nil => cases h
  | cons path paths ih =>
    rw [addPaths] at h
    split at h
    · exact ih h
    · cases h
      simp [emptyRequestErrors]

/-! ## 3. Texts in place of bases -/

/-- Where there is a text, only a full selection can be missing as the base. -/
theorem exists_base_of_override (hover : request.override = some source)
    (hall : request.mode = .all → ∃ s, r.fullSelection request = .ok s) :
    ∃ s, r.base request = .ok s := by
  rw [base]
  cases hmode : request.mode with
  | raw => exact ⟨_, rfl⟩
  | all => exact hall hmode
  | default =>
    rw [hover]
    cases request.defaultSelection with
    | none => exact ⟨_, rfl⟩
    | some s => exact ⟨s, rfl⟩

/-- **A resolution with a text is reading the text and adding the paths**, if there is a base. -/
theorem resolve_of_override (hover : request.override = some source)
    (hbase : ∃ s, r.base request = .ok s) :
    r.resolve read request =
      source.selection read >>= addPaths r.config.defaultPageSize request.paths := by
  obtain ⟨s, hs⟩ := hbase
  have hstart : r.start read request = source.selection read := by rw [start, hover]
  rw [resolve_eq, hs, ok_bind, hstart]
  cases hread : source.selection read with
  | error e => rfl
  | ok s =>
    rw [ok_bind, ok_bind]
    cases hpaths : addPaths r.config.defaultPageSize request.paths s with
    | error e => rfl
    | ok t =>
      -- the text selects something, and still does with the paths
      have hempty := (adds_of_addPaths hpaths).isEmpty_eq_false (Source.isEmpty_of_selection hread)
      rw [ok_bind, hempty]
      rfl

/-- With a text, no resolution ends because nothing was asked for. -/
theorem not_emptyRequestError_of_override (hover : request.override = some source)
    (hbase : ∃ s, r.base request = .ok s) (h : r.resolve read request = .error e) :
    e ∉ emptyRequestErrors := by
  rw [resolve_of_override hover hbase] at h
  cases hread : source.selection read with
  | error e' =>
    rw [hread] at h
    cases h
    exact not_emptyRequestError_of_selection hread
  | ok s =>
    rw [hread] at h
    exact not_emptyRequestError_of_addPaths h

/-- **The caller's text makes the base irrelevant.** Two requests with the same text, paths and
    `id`, under the same page size and with the same file, are resolved alike: to the same selection
    or to the same error. Nothing else of the requests, the schemas and the configurations counts,
    as long as what is to be selected in full can be. And none of them ends because it asks for
    nothing. -/
theorem resolve_eq_of_override (hover : request.override = some source)
    (hover' : request'.override = some source)
    (hfile : ∀ path, source = .file path → read path = read' path)
    (hpaths : request.fieldPaths = request'.fieldPaths)
    (hid : request.requireId = request'.requireId)
    (hsize : r.config.defaultPageSize = r'.config.defaultPageSize)
    (hall : request.mode = .all → ∃ s, r.fullSelection request = .ok s)
    (hall' : request'.mode = .all → ∃ s, r'.fullSelection request' = .ok s) :
    r.resolve read request = r'.resolve read' request' ∧
      ∀ e ∈ emptyRequestErrors,
        r.resolve read request ≠ .error e ∧ r'.resolve read' request' ≠ .error e := by
  have hbase := exists_base_of_override hover hall
  have hbase' := exists_base_of_override hover' hall'
  have hsame : request.paths = request'.paths := by
    rw [Request.paths, Request.paths, hpaths, hid]
  constructor
  · rw [resolve_of_override hover hbase, resolve_of_override hover' hbase',
      Source.selection_congr hfile, hsame, hsize]
  · intro e he
    exact ⟨fun h => not_emptyRequestError_of_override hover hbase h he,
      fun h => not_emptyRequestError_of_override hover' hbase' h he⟩

/-- A product with a title. -/
def titledProduct : SchemaDescription :=
  [("Product", ⟨["id", "title"], []⟩)]

/-- The vendor of a product, in place of all that it offers. -/
def vendorRequest : Request where
  mode := .all
  rootType := some "Product"
  override := some (.inline "vendor")
  fieldPaths := ["variants.nodes.sku"]

/-- A product in full and nothing at all make no difference to its vendor. -/
theorem resolve_vendorRequest : ∃ s,
    (ofTypes titledProduct {}).fullSelection vendorRequest = .ok s ∧
      (ofTypes titledProduct {}).resolve noFiles vendorRequest =
        (ofTypes [] {}).resolve noFiles { vendorRequest with mode := .raw } ∧
      (ofTypes [] {}).resolve noFiles { vendorRequest with mode := .raw } ≠
        .error .emptyRawSelection := by
  have hfull : (ofTypes titledProduct {}).fullSelection vendorRequest = .ok .scalars := rfl
  have hraw : SelectionError.emptyRawSelection ∈ emptyRequestErrors := List.mem_cons_self
  obtain ⟨hsame, herrors⟩ :
      (ofTypes titledProduct {}).resolve noFiles vendorRequest =
          (ofTypes [] {}).resolve noFiles { vendorRequest with mode := .raw } ∧
        ∀ e ∈ emptyRequestErrors,
          (ofTypes titledProduct {}).resolve noFiles vendorRequest ≠ .error e ∧
            (ofTypes [] {}).resolve noFiles { vendorRequest with mode := .raw } ≠ .error e :=
    resolve_eq_of_override rfl rfl (fun _ _ => rfl) rfl rfl rfl (fun _ => ⟨_, hfull⟩) nofun
  exact ⟨_, hfull, hsame, (herrors _ hraw).2⟩

end Resolver

end FieldSelection
