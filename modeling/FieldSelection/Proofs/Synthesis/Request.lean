import FieldSelection.Proofs.Number.Digits
import FieldSelection.Proofs.Synthesis.Walk

/-!
# Requests with a full selection

In a request every selection has braces of its own, and nothing between them only where it has no
key and its mark stands for no scalar (`Selection.requestLines_eq_nil_iff`). In the request of a
full selection these are the selections without keys of types that list no scalars but such that
need arguments (`requestLines_eq_nil_iff_of_fullSelection`): they count as selections of something.

All other texts in such a request are names of the schema and page sizes, so unless a name holds a
brace (`NamesUnbraced`), every brace is that of a selection.
-/

namespace FieldSelection

/-! ## 1. Nothing between the braces -/

/-- Without keys, a mark stands for no scalar if they all need arguments. -/
theorem TypeDescriptor.markedScalars_nil_iff {d : TypeDescriptor} :
    d.markedScalars [] = [] ↔
      ∀ name ∈ d.scalars, ∃ f, d.field? name = some f ∧ f.needsArguments = true := by
  rw [markedScalars, List.filter_eq_nil_iff]
  refine forall₂_congr fun name _ => ?_
  cases d.field? name <;> simp [Table.contains]

theorem Item.requestLines_ne_nil (schema : Schema) (type? : Option String) (level : Nat) (key : Key)
    (item : Item) : item.requestLines schema type? level key ≠ [] := by
  cases item <;> simp [Item.requestLines]

namespace Selection

variable {schema : Schema} {type? : Option String} {level : Nat}

/-- A selection that has keys has lines. -/
theorem items_eq_nil_of_requestLines {s : Selection}
    (h : s.requestLines schema type? level = []) : s.items = [] := by
  by_cases hitems : s.items = []
  · exact hitems
  · obtain ⟨e, he⟩ := List.exists_mem_of_ne_nil _ hitems
    have hinfix := item_within schema type? level he
    rw [h] at hinfix
    exact absurd (List.infix_nil.mp hinfix) (Item.requestLines_ne_nil schema _ level e.1 e.2)

/-- There is nothing between the braces of a selection if it has no key, and its mark stands for
    no scalar. -/
theorem requestLines_eq_nil_iff {s : Selection} :
    s.requestLines schema type? level = [] ↔
      s.items = [] ∧ (s.allScalars = true → ∀ d, type?.bind schema.descriptor? = some d →
        d.markedScalars [] = []) := by
  obtain ⟨arguments, allScalars, items⟩ := s
  constructor
  · intro h
    obtain rfl : items = [] := items_eq_nil_of_requestLines h
    refine ⟨rfl, ?_⟩
    rintro rfl d hd
    simpa [requestLines, hd, nameLines, requestItemsLines] using h
  · rintro ⟨rfl, h⟩
    cases allScalars with
    | false => simp [requestLines, requestItemsLines]
    | true =>
      cases hd : type?.bind schema.descriptor? with
      | none => simp [requestLines, hd, requestItemsLines]
      | some d => simp [requestLines, hd, h rfl d hd, nameLines, requestItemsLines]

end Selection

namespace Schema

variable {s : Schema}

/-! ## 2. Empty braces in the request of a full selection -/

/-- A stop without keys has the mark, and its type is known. -/
theorem Stop.marked {pageSize : Nat} {type? : Option String} {t : Selection}
    (h : s.Stop pageSize type? t) (hitems : t.items = []) :
    t.allScalars = true ∧ ∃ d, type?.bind s.descriptor? = some d := by
  cases h with
  | full hfull hne =>
    obtain ⟨hd, -⟩ := hfull
    obtain rfl : _ = [] := hitems
    refine ⟨?_, _, hd⟩
    simpa [Selection.isEmpty] using hne
  | @connection _ _ route =>
    cases route <;> cases hitems
  | edge => cases hitems
  | pageInfo => cases hitems

/-- At a stop there is nothing between the braces if there is no key, and all scalars of the type
    need arguments. -/
theorem Stop.requestLines_eq_nil_iff {pageSize : Nat} {type? : Option String} {t : Selection}
    (h : s.Stop pageSize type? t) (level : Nat) :
    t.requestLines s type? level = [] ↔
      t.items = [] ∧ ∃ d, type?.bind s.descriptor? = some d ∧
        ∀ name ∈ d.scalars, ∃ f, d.field? name = some f ∧ f.needsArguments = true := by
  rw [Selection.requestLines_eq_nil_iff]
  refine and_congr_right fun hitems => ?_
  obtain ⟨hmark, d, hd⟩ := h.marked hitems
  constructor
  · intro h
    exact ⟨d, hd, TypeDescriptor.markedScalars_nil_iff.mp (h hmark d hd)⟩
  · rintro ⟨d, hd, h⟩ - d' hd'
    obtain rfl := Option.some.inj (hd.symm.trans hd')
    exact TypeDescriptor.markedScalars_nil_iff.mpr h

/-! ## 3. The braces in the request of a full selection -/

/-- No name of a scalar or of a field in the schema holds a brace. -/
def NamesUnbraced (s : Schema) : Prop :=
  ∀ e ∈ s.types, (∀ name ∈ e.2.scalars, '{' ∉ name.toList) ∧ ∀ f ∈ e.2.fields, '{' ∉ f.1.toList

section Braces

variable {pageSize : Nat} {type : String} {type? : Option String} {d : TypeDescriptor}
  {t : Selection}

theorem NamesUnbraced.scalar (h : s.NamesUnbraced) (hd : s.descriptor? type = some d)
    {name : String} (hname : name ∈ d.scalars) : '{' ∉ name.toList := by
  obtain ⟨description, ht, rfl⟩ := descriptor?_eq_some_iff.mp hd
  exact (h _ (Table.mem_of_get? ht)).1 name hname

theorem NamesUnbraced.field (h : s.NamesUnbraced) (hd : s.descriptor? type = some d)
    {name : String} {f : FieldDescriptor} (hf : d.field? name = some f) : '{' ∉ name.toList := by
  obtain ⟨description, ht, rfl⟩ := descriptor?_eq_some_iff.mp hd
  rw [field?_descriptor] at hf
  obtain ⟨field, hfield, -⟩ := Option.map_eq_some_iff.mp hf
  exact (h _ (Table.mem_of_get? ht)).2 _ (Table.mem_of_get? hfield)

/-- The arguments of a stop are none, or a page size. -/
theorem Stop.brace_notMem_arguments (h : s.Stop pageSize type? t) :
    '{' ∉ argumentsChars t.arguments := by
  cases h with
  | full hfull hne =>
    obtain ⟨hd, -⟩ := hfull
    exact List.not_mem_nil
  | connection =>
    have hnumber : '{' ∉ (Literal.ofNat pageSize).chars :=
      fun hmem => absurd (Numeral.all_chars (.integer pageSize) '{' hmem) (by decide)
    rw [arguments_wrap]
    simp [argumentsChars, Literal.entriesChars, hnumber]
  | edge => exact List.not_mem_nil
  | pageInfo => exact List.not_mem_nil

/-- The keys of a stop are fields of the schema, or what is written around entries. -/
theorem Stop.brace_notMem_heading (hs : s.NamesUnbraced) (h : s.Stop pageSize type? t) :
    ∀ key ∈ Table.keys t.items, '{' ∉ key.heading := by
  cases h with
  | full hfull hne =>
    obtain ⟨hd, hitems⟩ := hfull
    intro key hkey
    obtain ⟨e, he, rfl⟩ := List.mem_map.mp hkey
    cases hitems e he with
    | object hf => exact hs.field hd hf
    | connection hf => exact hs.field hd hf
  | @connection _ _ route =>
    cases route with
    | nodes =>
      show ∀ key ∈ [Key.field "nodes", .field "pageInfo"], '{' ∉ key.heading
      decide
    | edges =>
      show ∀ key ∈ [Key.field "edges", .field "pageInfo"], '{' ∉ key.heading
      decide
  | edge =>
    show ∀ key ∈ [Key.field "node"], '{' ∉ key.heading
    decide
  | pageInfo => decide

/-- Nothing that is written at a stop holds a brace, but the sets of its keys. -/
theorem Stop.unbraced (hs : s.NamesUnbraced) (h : s.Stop pageSize type? t) :
    t.Unbraced s type? where
  scalars d hd name hname := by
    obtain ⟨type, rfl, hd⟩ := Option.bind_eq_some_iff.mp hd
    exact hs.scalar hd hname
  keys := h.brace_notMem_heading hs
  arguments _ _ hitem := (h.step hitem).brace_notMem_arguments

end Braces

/-- **Which braces stay empty in the request of a full selection.** Every selection that is reached
    has its braces in the request. They hold nothing exactly if the selection has no key and all
    scalars of its type need arguments. If no name in the schema holds a brace, there are no other
    braces in the request: each one opens the set of a selection that is reached. -/
theorem requestLines_eq_nil_iff_of_fullSelection (hs : s.WellFormed) {pageSize maxDepth : Nat}
    {expand : List String} {type : String} {t : Selection}
    (h : s.fullSelection pageSize maxDepth expand type = .ok t) (hne : t.isEmpty = false) :
    (∀ keys end? u, t.Reached s (some type) keys end? u →
      Line.braced keys.length (u.requestLines s end? (keys.length + 1)) <:+:
          (t.requestText s type).toList ∧
        (u.requestLines s end? (keys.length + 1) = [] ↔
          u.items = [] ∧ ∃ d, end?.bind s.descriptor? = some d ∧
            ∀ name ∈ d.scalars, ∃ f, d.field? name = some f ∧ f.needsArguments = true)) ∧
      (s.NamesUnbraced → ∀ after, '{' :: after <:+ (t.requestText s type).toList →
        ∃ keys end? u, t.Reached s (some type) keys end? u ∧
          Line.braced keys.length (u.requestLines s end? (keys.length + 1)) <+: '{' :: after) := by
  have hstop : s.Stop pageSize (some type) t := .full (full_of_fullSelection hs h hne) hne
  rw [Selection.requestText, String.toList_ofList]
  refine ⟨fun keys end? u hu => ⟨?_, (hstop.reached hu).requestLines_eq_nil_iff _⟩,
    fun hnames after hbrace => ?_⟩
  · have hbraced := hu.braced_within 0
    rwa [Nat.zero_add] at hbraced
  · obtain ⟨keys, end?, u, hu, hblock⟩ := Selection.exists_reached_of_brace
      (fun _ _ _ hu => (hstop.reached hu).unbraced hnames) hbrace
    rw [Nat.zero_add] at hblock
    exact ⟨keys, end?, u, hu, hblock⟩

/-- A shop with a translation, of which a text needs a locale. -/
def shop : Schema :=
  ⟨[("Shop", ⟨["name"], [("translation", ⟨"Translation!", []⟩)]⟩),
    ("Translation", ⟨["text"], [("text", ⟨"String", [("locale", "String!")]⟩)]⟩)],
    defaultConnectionSuffix⟩

/-- The full selection of a shop. -/
def shopSelection : Selection := ⟨[], true, [(.field "translation", .node .scalars)]⟩

theorem wellFormed_shop : shop.WellFormed := by
  simp [WellFormed, shop]

theorem namesUnbraced_shop : shop.NamesUnbraced := by
  unfold NamesUnbraced
  decide

theorem reached_translation : shopSelection.Reached shop (some "Shop") [.field "translation"]
    (some "Translation") .scalars :=
  .under List.mem_cons_self .here

/-- The request of a shop, in which the translation is reached without lines and the shop with
    some, and in which every brace opens the set of one that is reached. -/
theorem requestLines_shopSelection :
    shopSelection.requestText shop "Shop" = "\x7b\n  name\n  translation \x7b\n  \x7d\n\x7d" ∧
      shopSelection.requestLines shop (some "Shop") 1 ≠ [] ∧
        Selection.requestLines shop (some "Translation") 2 .scalars = [] ∧
      ∀ after, '{' :: after <:+ (shopSelection.requestText shop "Shop").toList →
        ∃ keys end? u, shopSelection.Reached shop (some "Shop") keys end? u ∧
          Line.braced keys.length (u.requestLines shop end? (keys.length + 1)) <+:
            '{' :: after := by
  have hfull : shop.fullSelection 25 2 [] "Shop" = .ok shopSelection := rfl
  obtain ⟨hsets, hbraces⟩ := requestLines_eq_nil_iff_of_fullSelection wellFormed_shop hfull rfl
  refine ⟨rfl, fun h => ?_, ?_, hbraces namesUnbraced_shop⟩
  · cases ((hsets _ _ _ .here).2.mp h).1
  · exact (hsets _ _ _ reached_translation).2.mpr ⟨rfl, _, rfl, by decide⟩

/-- The translation of a shop is no empty selection, and has nothing between its braces. -/
theorem exists_requestLines_eq_nil :
    ¬ ∀ (s : Schema) (pageSize maxDepth : Nat) (expand : List String) (type : String)
      (t : Selection), s.WellFormed → s.fullSelection pageSize maxDepth expand type = .ok t →
        t.isEmpty = false → ∀ (keys : List Key) (end? : Option String) (u : Selection),
          t.Reached s (some type) keys end? u →
            u.requestLines s end? (keys.length + 1) ≠ [] := by
  intro h
  exact h shop 25 2 [] "Shop" shopSelection wellFormed_shop rfl rfl _ _ _ reached_translation
    (by decide)

end Schema

end FieldSelection
