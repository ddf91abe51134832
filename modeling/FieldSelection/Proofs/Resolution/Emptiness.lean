import FieldSelection.Proofs.Resolution.Override
import FieldSelection.Proofs.Synthesis.Levels

/-!
# Resolutions of nothing

A resolution ends because nothing is selected exactly if its base selects nothing and the request
adds nothing to it (`resolve_empty_iff`).

* Whatever a request adds leaves something selected: a text does, and so does a path or the required
  `id` (`isEmpty_iff_of_addPaths`).
* No other error on the way is taken for that end: a base, a text and the paths fail in ways of
  their own (`not_emptyError_of_base`, `resolve_eq_emptyError_iff`).
-/

namespace FieldSelection

open Selection

/-! ## 1. Selecting nothing -/

/-- The selection has neither a key nor the mark for all scalar fields. -/
def Selection.SelectsNothing (s : Selection) : Prop :=
  s.items = [] ∧ s.allScalars = false

theorem Selection.isEmpty_iff {s : Selection} : s.isEmpty = true ↔ s.SelectsNothing := by
  rw [isEmpty, Bool.and_eq_true, List.isEmpty_iff, Bool.not_eq_true', SelectsNothing]

/-- Where something stands along keys, something is selected. -/
theorem Selection.isEmpty_of_at? {s : Selection} {key : Key} {keys : List Key}
    (h : (s.at? (key :: keys)).isSome = true) : s.isEmpty = false := by
  obtain ⟨item, hitem⟩ := Option.isSome_iff_exists.mp h
  obtain ⟨first, hfirst, -⟩ := Option.bind_eq_some_iff.mp hitem
  exact isEmpty_eq_false_of_mem (Table.mem_of_get? hfirst)

/-- The request adds nothing to the base: no text, no path and no `id`. -/
structure Request.AddsNothing (request : Request) : Prop where
  noOverride : request.override = none
  noPaths : request.fieldPaths = []
  noId : request.requireId = false

theorem Request.addsNothing_iff {request : Request} :
    request.AddsNothing ↔ request.override = none ∧ request.paths = [] := by
  rw [Request.paths, List.append_eq_nil_iff]
  constructor
  · intro h
    refine ⟨h.noOverride, h.noPaths, ?_⟩
    rw [h.noId]
    rfl
  · rintro ⟨hover, hpaths, hid⟩
    refine ⟨hover, hpaths, ?_⟩
    cases hrequired : request.requireId with
    | false => rfl
    | true =>
      rw [hrequired] at hid
      cases hid

/-! ## 2. Errors on the way -/

/-- A full selection fails for a type that is not known. -/
theorem Schema.unknownType_of_error {s : Schema} {pageSize room : Nat}
    {ancestors expand : List String} {type : String} {e : SelectionError}
    (h : s.fullSelectionWithin pageSize room ancestors expand type = .error e) :
    ∃ unknown, e = .unknownType unknown := by
  induction room generalizing ancestors expand type with
  | zero =>
    unfold fullSelectionWithin at h
    split at h
    · cases h
      exact ⟨type, rfl⟩
    · split at h <;> cases h
  | succ room ih =>
    unfold fullSelectionWithin at h
    split at h
    · cases h
      exact ⟨type, rfl⟩
    · split at h
      · cases h
      · obtain ⟨f, -, he⟩ := fullSelection?_of_addFull_error h
        obtain ⟨goal, -, he⟩ := FieldDescriptor.follow_of_fullSelection?_error he
        exact ih he

namespace Resolver

variable {r : Resolver} {read : ReadFile} {request : Request} {s t : Selection} {e : SelectionError}
  {pageSize : Nat} {paths : List String}

/-- The errors of a resolution that comes to its end with nothing selected. -/
def emptyErrors : List SelectionError := [.emptyRawSelection, .emptySelection]

theorem mem_emptyRequestErrors (h : e ∈ emptyErrors) : e ∈ emptyRequestErrors := by
  rcases List.mem_cons.mp h with rfl | h
  · decide
  · cases List.mem_singleton.mp h
    decide

theorem rootType_error (h : r.rootType request = .error e) :
    e = .missingRootType ∨ ∃ resource, e = .unknownResource resource := by
  rw [rootType] at h
  split at h
  · cases h
  · cases h
    exact Or.inl rfl
  · rename_i resource _ _
    split at h
    · cases h
    · cases h
      exact Or.inr ⟨resource, rfl⟩

theorem checkIncludes_error {d : TypeDescriptor} {fields : List String}
    (h : checkIncludes d fields = .error e) : ∃ field, e = .unknownField d.name field ∨
      e = .notAConnection d.name field ∨ e = .connectionNeedsArguments d.name field := by
  induction fields with
  | nil => cases h
  | cons field rest ih =>
    rw [checkIncludes] at h
    cases hfield : checkInclude d field with
    | ok _ =>
      rw [hfield] at h
      exact ih h
    | error e' =>
      rw [hfield] at h
      cases h
      refine ⟨field, ?_⟩
      rw [checkInclude] at hfield
      split at hfield
      · cases hfield
        exact Or.inl rfl
      · split at hfield
        · cases hfield
          exact Or.inr (Or.inl rfl)
        · split at hfield
          · cases hfield
            exact Or.inr (Or.inr rfl)
          · cases hfield

/-- A request for everything comes to the full selection of its type, if it has one and all that it
    includes are connections of that. -/
theorem fullSelection_eq_ok_iff : r.fullSelection request = .ok s ↔
    ∃ type d, r.rootType request = .ok type ∧ r.schema.descriptor? type = some d ∧
      checkIncludes d request.included = .ok () ∧
        r.schema.fullSelection r.config.defaultPageSize r.config.maxDepth request.included type =
          .ok s := by
  rw [fullSelection, bind_eq_ok_iff]
  constructor
  · rintro ⟨type, htype, h⟩
    split at h
    · cases h
    · rename_i d hd
      obtain ⟨⟨⟩, hincludes, h⟩ := bind_eq_ok_iff.mp h
      exact ⟨type, d, htype, hd, hincludes, h⟩
  · rintro ⟨type, d, htype, hd, hincludes, h⟩
    refine ⟨type, htype, ?_⟩
    rw [hd]
    exact bind_eq_ok_iff.mpr ⟨(), hincludes, h⟩

theorem not_emptyError_of_fullSelection (h : r.fullSelection request = .error e) :
    e ∉ emptyErrors := by
  rw [fullSelection] at h
  cases htype : r.rootType request with
  | error e' =>
    rw [htype] at h
    cases h
    rcases rootType_error htype with rfl | ⟨resource, rfl⟩ <;> simp [emptyErrors]
  | ok type =>
    rw [htype, ok_bind] at h
    split at h
    · cases h
      simp [emptyErrors]
    · rename_i d hd
      cases hincludes : checkIncludes d request.included with
      | error e' =>
        rw [hincludes] at h
        cases h
        obtain ⟨field, rfl | rfl | rfl⟩ := checkIncludes_error hincludes <;> simp [emptyErrors]
      | ok _ =>
        rw [hincludes] at h
        obtain ⟨unknown, rfl⟩ := Schema.unknownType_of_error h
        simp [emptyErrors]

/-- A base that is missing is not taken for one that selects nothing. -/
theorem not_emptyError_of_base (h : r.base request = .error e) : e ∉ emptyErrors := by
  rw [base] at h
  split at h
  · cases h
  · exact not_emptyError_of_fullSelection h
  · split at h
    · cases h
    · cases h
    · cases h
      simp [emptyErrors]

theorem not_emptyError_of_start (h : r.start read request = .error e) : e ∉ emptyErrors := by
  rw [start] at h
  split at h
  · exact fun he => not_emptyRequestError_of_selection h (mem_emptyRequestErrors he)
  · exact not_emptyError_of_base h

/-! ## 3. The end of a resolution -/

/-- Paths leave nothing selected only where there are none, and nothing was selected before. -/
theorem isEmpty_iff_of_addPaths (h : addPaths pageSize paths s = .ok t) :
    t.isEmpty = true ↔ paths = [] ∧ s.isEmpty = true := by
  have hadds := adds_of_addPaths h
  cases paths with
  | nil =>
    cases h
    exact ⟨fun hempty => ⟨rfl, hempty⟩, And.right⟩
  | cons path paths =>
    obtain ⟨name, rest, hpath⟩ := List.exists_cons_of_ne_nil (segments_ne_nil path)
    have hserved := (hadds.serves path List.mem_cons_self).isSome_at?
    rw [hpath] at hserved
    have hsome := isEmpty_of_at? hserved
    exact ⟨fun hempty => absurd (hempty.symm.trans hsome) nofun, fun hnil => nomatch hnil.1⟩

/-- **A resolution comes to its end with nothing selected** exactly if its base selects nothing and
    the request adds nothing. -/
theorem resolve_eq_emptyError_iff (he : e ∈ emptyErrors) : r.resolve read request = .error e ↔
    e = emptyError request.mode ∧ request.AddsNothing ∧
      ∃ s, r.base request = .ok s ∧ s.isEmpty = true := by
  rw [resolve_eq, Request.addsNothing_iff]
  constructor
  · intro h
    cases hbase : r.base request with
    | error e' =>
      rw [hbase] at h
      cases h
      exact absurd he (not_emptyError_of_base hbase)
    | ok base =>
      rw [hbase, ok_bind] at h
      cases hstart : r.start read request with
      | error e' =>
        rw [hstart] at h
        cases h
        exact absurd he (not_emptyError_of_start hstart)
      | ok s =>
        rw [hstart, ok_bind] at h
        cases hpaths : addPaths r.config.defaultPageSize request.paths s with
        | error e' =>
          rw [hpaths] at h
          cases h
          exact absurd (mem_emptyRequestErrors he) (not_emptyRequestError_of_addPaths hpaths)
        | ok t =>
          rw [hpaths, ok_bind] at h
          split at h
          · rename_i hempty
            cases h
            obtain ⟨hnil, hs⟩ := (isEmpty_iff_of_addPaths hpaths).mp hempty
            rw [start] at hstart
            split at hstart
            · cases hs.symm.trans (Source.isEmpty_of_selection hstart)
            · rename_i hover
              cases hbase.symm.trans hstart
              exact ⟨rfl, ⟨hover, hnil⟩, base, rfl, hs⟩
          · cases h
  · rintro ⟨rfl, ⟨hover, hnil⟩, s, hs, hempty⟩
    have hstart : r.start read request = .ok s := by rw [start, hover, hs]
    rw [hs, ok_bind, hstart, ok_bind, hnil, addPaths, ok_bind, hempty]
    rfl

/-- **When a resolution is reported empty.** No resolution answers a selection of nothing. It ends
    because nothing is selected exactly if the request has no text, no path and no `id` to add, and
    its base selects nothing: in raw mode always, in default mode the command's own selection, and
    for everything the full selection of a type. -/
theorem resolve_empty_iff (r : Resolver) (read : ReadFile) (request : Request) :
    (∀ t, r.resolve read request = .ok t → ¬ t.SelectsNothing) ∧
      (r.resolve read request = .error .emptyRawSelection ↔
        request.mode = .raw ∧ request.AddsNothing) ∧
      (r.resolve read request = .error .emptySelection ↔ request.AddsNothing ∧
        ((request.mode = .default ∧
            ∃ s, request.defaultSelection = some s ∧ s.SelectsNothing) ∨
          (request.mode = .all ∧ ∃ type d s, r.rootType request = .ok type ∧
            r.schema.descriptor? type = some d ∧ checkIncludes d request.included = .ok () ∧
            r.schema.fullSelection r.config.defaultPageSize r.config.maxDepth request.included
              type = .ok s ∧ s.SelectsNothing))) := by
  refine ⟨fun t h hnothing => ?_, ?_, ?_⟩
  · obtain ⟨-, s, -, -, hempty⟩ := resolve_eq_ok_iff.mp h
    cases (Selection.isEmpty_iff.mpr hnothing).symm.trans hempty
  · rw [resolve_eq_emptyError_iff (by decide)]
    cases hmode : request.mode with
    | raw =>
      have hbase : r.base request = .ok .empty := by rw [base, hmode]
      exact ⟨fun h => ⟨rfl, h.2.1⟩, fun h => ⟨rfl, h.2, .empty, hbase, rfl⟩⟩
    | all => simp only [emptyError, reduceCtorEq, false_and]
    | default => simp only [emptyError, reduceCtorEq, false_and]
  · rw [resolve_eq_emptyError_iff (by decide)]
    cases hmode : request.mode with
    | raw => simp only [emptyError, reduceCtorEq, false_and, and_false, or_self]
    | all =>
      have hbase : r.base request = r.fullSelection request := by rw [base, hmode]
      simp only [hbase, fullSelection_eq_ok_iff, Selection.isEmpty_iff, emptyError, true_and,
        reduceCtorEq, false_and, false_or]
      refine and_congr_right fun _ => ?_
      constructor
      · rintro ⟨s, ⟨type, d, htype, hd, hincludes, hs⟩, hempty⟩
        exact ⟨type, d, s, htype, hd, hincludes, hs, hempty⟩
      · rintro ⟨type, d, s, htype, hd, hincludes, hs, hempty⟩
        exact ⟨s, ⟨type, d, htype, hd, hincludes, hs⟩, hempty⟩
    | default =>
      simp only [Selection.isEmpty_iff, emptyError, true_and, reduceCtorEq, false_and, or_false]
      refine and_congr_right fun hnothing => exists_congr fun s => and_congr_left fun _ => ?_
      rw [base, hmode, hnothing.noOverride]
      cases request.defaultSelection with
      | none => simp
      | some own => simp

end Resolver

end FieldSelection
