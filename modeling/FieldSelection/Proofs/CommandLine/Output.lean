import FieldSelection.CommandLine.Run
import FieldSelection.Proofs.Resolution.Equality
import FieldSelection.Proofs.Resolution.PathOrder
import FieldSelection.Proofs.Selection.Expansion
import FieldSelection.Proofs.Selection.JsonKeys
import FieldSelection.Proofs.Selection.Printable

/-!
# What a run prints

A run finds the type to print for on its own, and the resolution finds the type of a full selection
again. `Resolves` holds what a run has read and resolved when it comes to printing
(`resolve_eq_ok_iff`), and from there:

* the schema was read with the suffix of the configuration, so that both agree
  (`make_of_ofFile`);
* where a full selection was made, its type is the one to print for
  (`Resolves.printType_of_all`);
* in all other modes the selection was built from texts and paths, so that nothing is marked in it
  (`Resolves.legible`). Its text is the same for every type, and none of its lines is the mark
  (`Selection.ne_mark_of_mem_lines`);
* whatever is resolved is well formed (`Resolves.wellFormed`), so that the text for a known type is
  that of the selection with its marks written out (`Selection.requestText_expanded`).

`printed_of_resolve` puts this together.
-/

namespace FieldSelection

/-! ## 1. Texts without a mark -/

namespace Selection

theorem heading_ne_mark {key : Key} (h : isIdentifier key.name.toList = true) :
    key.heading ≠ ['*'] := by
  cases key with
  | field name =>
    intro hstar
    have hname : name.toList = ['*'] := hstar
    rw [Key.name, hname] at h
    cases h
  | onType name =>
    intro hstar
    have hdot : '.' = '*' := (List.cons.inj hstar).1
    cases hdot

mutual

/-- No line of a plain selection is the mark. -/
theorem ne_mark_of_mem_lines : ∀ (s : Selection) (level : Nat), s.Spelled → s.Plain →
    ∀ l ∈ s.lines level, l.content ≠ ['*']
  | ⟨_, _, items⟩, level, ⟨_, hs⟩, ⟨rfl, hp⟩ => by
      rw [lines, if_neg Bool.false_ne_true, List.append_nil]
      exact ne_mark_of_mem_itemsLines items level hs hp

/-- No line of plain items is the mark. -/
theorem ne_mark_of_mem_itemsLines : ∀ (items : List (Key × Item)) (level : Nat),
    ItemsSpelled items → ItemsPlain items → ∀ l ∈ itemsLines level items, l.content ≠ ['*']
  | [], _, _, _ => List.forall_mem_nil _
  | (key, item) :: rest, level, ⟨hkey, hs, hs'⟩, ⟨hp, hp'⟩ =>
      List.forall_mem_append.mpr ⟨ne_mark_of_mem_itemLines key item level hkey hs hp,
        ne_mark_of_mem_itemsLines rest level hs' hp'⟩

/-- No line of a plain item is the mark. -/
theorem ne_mark_of_mem_itemLines : ∀ (key : Key) (item : Item) (level : Nat),
    isIdentifier key.name.toList = true → item.Spelled → item.Plain key →
      ∀ l ∈ item.lines level key, l.content ≠ ['*']
  | _, .leaf, _, hkey, _, _ => List.forall_mem_singleton.mpr (heading_ne_mark hkey)
  | key, .node s, level, _, hs, hp => by
      have hplain : s.Plain := by
        cases key with
        | field => exact hp
        | onType => exact hp.2
      -- the opening line ends with a brace behind a blank
      have hopening : (openingLine level key s.arguments).content ≠ ['*'] := fun h => by
        have hlength := congrArg List.length h
        simp [openingLine] at hlength
        omega
      refine List.forall_mem_append.mpr ⟨List.forall_mem_cons.mpr ⟨hopening,
        ne_mark_of_mem_lines s (level + 1) hs hplain⟩, List.forall_mem_singleton.mpr ?_⟩
      simp [closingLine]

end

variable {s t : Selection}

/-- The text of a legible selection is the same for every type of every schema. -/
theorem Legible.requestText_eq (h : s.Legible) (schema : Schema) (type : String) :
    s.requestText schema type = s.text := by
  rw [requestText, requestLines_of_unmarked schema s (some type) 1 h.wellFormed
    (s.unmarked_of_plain h.wellFormed h.plain)]
  rfl

end Selection

/-! ## 2. Resolutions without a mark -/

namespace Resolver

variable {r : Resolver} {read : ReadFile} {request : Request} {s t : Selection}

/-- Paths that are added keep a selection legible. -/
theorem legible_of_addPaths {pageSize : Nat} {paths : List String} (hs : s.Legible)
    (h : addPaths pageSize paths s = .ok t) : t.Legible := by
  induction paths generalizing s with
  | nil =>
    cases h
    exact hs
  | cons path paths ih =>
    obtain ⟨u, hpath, hrest⟩ := addPaths_cons_eq_ok_iff.mp h
    have hu := (hs.addPath pageSize path).1
    rw [hpath] at hu
    exact ih hu hrest

/-- A resolution starts from what a source says, from nothing, from the command's own selection, or
    from a full selection. -/
theorem start_cases (h : r.start read request = .ok s) :
    (∃ source : Source, source.selection read = .ok s) ∨ s = .empty ∨
      request.defaultSelection = some s ∨
        (request.mode = .all ∧ r.fullSelection request = .ok s) := by
  rw [start] at h
  split at h
  · rename_i source _
    exact Or.inl ⟨source, h⟩
  · rw [base] at h
    split at h
    · cases h
      exact Or.inr (Or.inl rfl)
    · rename_i hall
      exact Or.inr (Or.inr (Or.inr ⟨hall, h⟩))
    · split at h
      · rename_i own _ hsome
        cases h
        exact Or.inr (Or.inr (Or.inl hsome))
      · cases h
        exact Or.inr (Or.inl rfl)
      · cases h

/-- What a resolution starts from is legible, unless it is a full selection. -/
theorem legible_of_start (hmode : request.mode ≠ .all)
    (hown : ∀ own, request.defaultSelection = some own → own.Legible)
    (h : r.start read request = .ok s) : s.Legible := by
  rcases start_cases h with ⟨source, hsource⟩ | rfl | hsome | ⟨hall, -⟩
  · obtain ⟨-, p, room, hfits⟩ := Source.fits_of_selection hsource
    exact hfits.legible
  · exact Selection.legible_empty
  · exact hown s hsome
  · exact absurd hall hmode

/-- **What is resolved is legible**, unless it starts from a full selection. -/
theorem legible_of_resolve (hmode : request.mode ≠ .all)
    (hown : ∀ own, request.defaultSelection = some own → own.Legible)
    (h : r.resolve read request = .ok s) : s.Legible := by
  obtain ⟨-, t, ht, hpaths, -⟩ := resolve_eq_ok_iff.mp h
  exact legible_of_addPaths (legible_of_start hmode hown ht) hpaths

/-- What is resolved is well formed, whatever it starts from. -/
theorem wellFormed_of_resolve
    (hown : ∀ own, request.defaultSelection = some own → own.WellFormed)
    (h : r.resolve read request = .ok s) : s.WellFormed := by
  obtain ⟨-, t, ht, hpaths, -⟩ := resolve_eq_ok_iff.mp h
  refine wellFormed_of_addPaths ?_ hpaths
  rcases start_cases ht with ⟨source, hsource⟩ | rfl | hsome | ⟨-, hfull⟩
  · exact wellFormed_of_selection hsource
  · exact Selection.wellFormed_empty
  · exact hown t hsome
  · exact wellFormed_of_fullSelection hfull

/-- Only a full selection depends on the type, the resource and what is included. -/
theorem resolve_eq_of_mode (hmode : request.mode ≠ .all) (type resource : Option String)
    (included : List String) :
    r.resolve read { request with rootType := type, resource, included } =
      r.resolve read request := by
  have hbase : r.base { request with rootType := type, resource, included } = r.base request := by
    rw [base, base]
    cases hm : request.mode with
    | raw | default => rfl
    | all => exact absurd hm hmode
  rw [resolve, resolve, hbase]

end Resolver

/-! ## 3. Runs -/

namespace CommandLine

/-- What a run reads, and the selection that it resolves. -/
structure Resolves (read : ReadFile) (a : ResolveArguments) (config : Configuration)
    (schema : Schema) (own : Option Selection) (s : Selection) : Prop where
  configured : configuration read a.config = .ok config
  described : Schema.ofFile read a.schema config.connectionSuffix = .ok schema
  given : defaultSelection a.default = .ok own
  resolved : Resolver.resolve ⟨schema, config⟩ read (request a own) = .ok s

variable {read : ReadFile} {a : ResolveArguments} {config : Configuration} {schema : Schema}
  {own : Option Selection} {s : Selection} {output : String}

/-- A schema has the suffix that it was read with. -/
theorem connectionSuffix_of_ofFile {path suffix : String}
    (h : Schema.ofFile read path suffix = .ok schema) : schema.connectionSuffix = suffix := by
  rw [Schema.ofFile] at h
  split at h
  · cases h
  · dsimp only at h
    split at h
    all_goals
      obtain ⟨types, -, h⟩ := bind_eq_ok_iff.mp h
      cases h
      rfl

/-- The schema and the configuration of a run agree. -/
theorem make_of_ofFile {path : String}
    (h : Schema.ofFile read path config.connectionSuffix = .ok schema) :
    Resolver.make schema config = .ok ⟨schema, config⟩ :=
  if_pos (connectionSuffix_of_ofFile h)

/-- **A run prints what it resolves.** -/
theorem resolve_eq_ok_iff : resolve read a = .ok output ↔ ∃ config schema own s,
    Resolves read a config schema own s ∧
      print schema a.format (printType? config a) s = output := by
  constructor
  · intro h
    obtain ⟨config, hconfig, h⟩ := bind_eq_ok_iff.mp h
    obtain ⟨schema, hschema, h⟩ := bind_eq_ok_iff.mp h
    have hschema := mapError_eq_ok_iff.mp hschema
    obtain ⟨own, hown, h⟩ := bind_eq_ok_iff.mp h
    rw [make_of_ofFile hschema] at h
    obtain ⟨resolver, hresolver, h⟩ := bind_eq_ok_iff.mp h
    cases hresolver
    obtain ⟨s, hs, h⟩ := bind_eq_ok_iff.mp h
    exact ⟨config, schema, own, s, ⟨hconfig, hschema, hown, mapError_eq_ok_iff.mp hs⟩,
      Except.ok.inj h⟩
  · rintro ⟨config, schema, own, s, ⟨hconfig, hschema, hown, hs⟩, rfl⟩
    refine bind_eq_ok_iff.mpr ⟨config, hconfig, bind_eq_ok_iff.mpr
      ⟨schema, mapError_eq_ok_iff.mpr hschema, bind_eq_ok_iff.mpr ⟨own, hown, ?_⟩⟩⟩
    exact bind_eq_ok_iff.mpr ⟨_, mapError_eq_ok_iff.mpr (make_of_ofFile hschema),
      bind_eq_ok_iff.mpr ⟨s, mapError_eq_ok_iff.mpr hs, rfl⟩⟩

/-- The command's own selection is legible. -/
theorem legible_of_defaultSelection {text? : Option String} {s : Selection}
    (h : defaultSelection text? = .ok (some s)) : s.Legible := by
  unfold defaultSelection at h
  split at h
  · cases h
  · split at h
    · rename_i hread
      cases h
      obtain ⟨ks, -, -, -, hfits⟩ := Selection.fits_of_parseWithin hread
      exact hfits.legible
    · cases h

/-- The type of a full selection is the type to print for. -/
theorem printType?_of_rootType {type : String}
    (h : Resolver.rootType ⟨schema, config⟩ (request a own) = .ok type) :
    printType? config a = some type := by
  rw [Resolver.rootType] at h
  rw [printType?]
  split at h
  · rename_i htype
    cases h
    rw [show a.type = some type from htype]
    rfl
  · cases h
  · rename_i resource htype hresource
    split at h
    · rename_i type' hfound
      cases h
      rw [show a.type = none from htype, show a.resource = some resource from hresource]
      exact hfound
    · cases h

namespace Resolves

/-- **In the mode of full selections the type is known**, and the base is full for it. -/
theorem printType_of_all (h : Resolves read a config schema own s) (hmode : a.mode = .all) :
    ∃ type base, printType? config a = some type ∧
      Resolver.rootType ⟨schema, config⟩ (request a own) = .ok type ∧
      Resolver.base ⟨schema, config⟩ (request a own) = .ok base ∧
      schema.fullSelection config.defaultPageSize config.maxDepth a.included type = .ok base := by
  obtain ⟨⟨base, hbase⟩, -⟩ := Resolver.resolve_eq_ok_iff.mp h.resolved
  have hfull := hbase
  simp only [Resolver.base, request, hmode] at hfull
  obtain ⟨type, htype, hfull⟩ := bind_eq_ok_iff.mp hfull
  have htype : Resolver.rootType ⟨schema, config⟩ (request a own) = .ok type := htype
  refine ⟨type, base, printType?_of_rootType htype, htype, hbase, ?_⟩
  split at hfull
  · cases hfull
  · obtain ⟨-, -, hfull⟩ := bind_eq_ok_iff.mp hfull
    exact hfull

/-- The command's own selection of a run is legible. -/
theorem legible_own (h : Resolves read a config schema own s) :
    ∀ s', (request a own).defaultSelection = some s' → s'.Legible := by
  intro s' hown
  have hgiven := h.given
  obtain rfl : own = some s' := hown
  exact legible_of_defaultSelection hgiven

/-- In all other modes what a run resolves is legible. -/
theorem legible (h : Resolves read a config schema own s) (hmode : a.mode ≠ .all) : s.Legible :=
  Resolver.legible_of_resolve hmode h.legible_own h.resolved

theorem wellFormed (h : Resolves read a config schema own s) : s.WellFormed :=
  Resolver.wellFormed_of_resolve (fun s' hown => (h.legible_own s' hown).wellFormed) h.resolved

/-- In all other modes a run resolves the same, whatever the options for full selections. -/
theorem of_mode (h : Resolves read a config schema own s) (hmode : a.mode ≠ .all)
    (type resource : Option String) (included : List String) :
    Resolves read { a with type, resource, included } config schema own s where
  configured := h.configured
  described := h.described
  given := h.given
  resolved := (Resolver.resolve_eq_of_mode hmode type resource included).trans h.resolved

end Resolves

/-- What is legible is printed the same for every type, and for none. -/
theorem print_eq_of_legible (h : s.Legible) (format : Format) (type? type?' : Option String) :
    print schema format type? s = print schema format type?' s := by
  have hall : ∀ type?, print schema .graphql type? s = s.text := by
    intro type?
    cases type? with
    | none => rfl
    | some type => exact h.requestText_eq schema type
  cases format with
  | json => rfl
  | graphql => rw [hall, hall]

/-- **A run prints for the right type, and where it knows none, nothing is marked.** The schema and
    the configuration of a run always agree. If it comes to an output, this is the selection that it
    resolved, printed, and

    * in the mode of full selections, the type to print for is known, and is the type that the
      selection was made for;
    * where the type to print for is known, and no type lists a scalar twice, the text is that of
      the selection with its marks written out, and nothing is marked in that;
    * where the type to print for is not known, nothing in the selection is marked, and no line of
      its text is the mark;
    * in all other modes, the output is the same whatever the type, the resource and what is
      included. -/
theorem printed_of_resolve (read : ReadFile) (a : ResolveArguments) :
    (∀ config schema, configuration read a.config = .ok config →
      Schema.ofFile read a.schema config.connectionSuffix = .ok schema →
        Resolver.make schema config = .ok ⟨schema, config⟩) ∧
    ∀ output, resolve read a = .ok output → ∃ config schema own s,
      Resolves read a config schema own s ∧
      output = print schema a.format (printType? config a) s ∧
      (a.mode = .all → ∃ type base, printType? config a = some type ∧
        Resolver.rootType ⟨schema, config⟩ (request a own) = .ok type ∧
        Resolver.base ⟨schema, config⟩ (request a own) = .ok base ∧
        schema.fullSelection config.defaultPageSize config.maxDepth a.included type =
          .ok base) ∧
      (a.format = .graphql → schema.ScalarsOnce → ∀ type, printType? config a = some type →
        output = (s.expanded schema (some type)).text ∧
          (s.expanded schema (some type)).Unmarked) ∧
      (printType? config a = none → s.Unmarked ∧ ∀ l ∈ s.lines 1, l.content ≠ ['*']) ∧
      (a.mode ≠ .all → ∀ type resource included,
        resolve read { a with type, resource, included } = .ok output) := by
  refine ⟨fun config schema _ hschema => make_of_ofFile hschema, fun output h => ?_⟩
  obtain ⟨config, schema, own, s, hrun, rfl⟩ := resolve_eq_ok_iff.mp h
  refine ⟨config, schema, own, s, hrun, rfl, hrun.printType_of_all,
    fun hformat hscalars type htype => ?_, fun hnone => ?_,
    fun hmode type resource included => ?_⟩
  · rw [hformat, htype]
    exact ⟨Selection.requestText_expanded hrun.wellFormed hscalars type,
      (s.unmarked_expanded hscalars (some type) hrun.wellFormed).2⟩
  · have hmode : a.mode ≠ .all := by
      intro hall
      obtain ⟨type, -, htype, -⟩ := hrun.printType_of_all hall
      rw [hnone] at htype
      cases htype
    have hlegible := hrun.legible hmode
    exact ⟨s.unmarked_of_plain hlegible.wellFormed hlegible.plain,
      s.ne_mark_of_mem_lines 1 hlegible.spelled hlegible.plain⟩
  · exact resolve_eq_ok_iff.mpr ⟨config, schema, own, s, hrun.of_mode hmode type resource included,
      print_eq_of_legible (hrun.legible hmode) a.format _ _⟩

/-- A disk with the description of a shop, and a configuration that knows shops. -/
def shopFiles : ReadFile := fun path =>
  if path = "shop.json" then .ok "\x7b\"Shop\": \x7b\"scalars\": [\"name\"]\x7d\x7d"
  else if path = "engine.yaml" then .ok "resources:\n  shops: Shop\n"
  else .error .notFound

/-- `resolve --schema shop.json --config engine.yaml --mode all --resource shops` -/
def shopArguments : ResolveArguments where
  schema := "shop.json"
  config := some "engine.yaml"
  mode := .all
  type := none
  resource := some "shops"
  default := none
  select := none
  fields := []
  included := []
  requireId := false
  format := .graphql

/-- What is known of shops is printed, and the name stands in place of the mark. -/
theorem printed_shopArguments : resolve shopFiles shopArguments = .ok "\x7b\n  name\n\x7d" ∧
    ∃ config schema own s, Resolves shopFiles shopArguments config schema own s ∧
      ∃ type, printType? config shopArguments = some type ∧
        Resolver.rootType ⟨schema, config⟩ (request shopArguments own) = .ok type := by
  have hrun : resolve shopFiles shopArguments = .ok "\x7b\n  name\n\x7d" := by
    decide +kernel
  obtain ⟨config, schema, own, s, hresolves, -, hall, -⟩ :=
    (printed_of_resolve shopFiles shopArguments).2 _ hrun
  obtain ⟨type, -, hprint, htype, -⟩ := hall rfl
  exact ⟨hrun, config, schema, own, s, hresolves, type, hprint, htype⟩

end CommandLine

end FieldSelection
