import FieldSelection.Proofs.Resolution.Override
import FieldSelection.Proofs.Selection.PathEquality
import FieldSelection.Proofs.Synthesis.Levels

/-!
# Resolutions of equal selections

The order of keys and of arguments makes no difference to merging, to adding a path and to resolving
a request, but to the order of the outcome (`equal_of_equal`).

A resolution is taken step by step: what it starts from, the paths one after another, and whether
anything is selected in the end. Each step comes to the same outcome (`SameOutcome`) for selections
that are equal and well formed (`Selection.Twins`). Where the command's own selection is not used,
both resolutions start from the same one, which is well formed as well: it is nothing, or read from
a text, or a full selection (`wellFormed_of_fullSelection`).
-/

namespace FieldSelection

open Selection

/-! ## 1. Full selections are well formed -/

section Synthesis

variable {pageSize : Nat} {s t : Selection}

theorem wellFormed_withNode (h : s.WellFormed) (ht : t.WellFormed) (name : String) :
    (s.withNode name t).WellFormed :=
  h.put (.field name) (show (Item.node t).WellFormed from ht)

/-- A connection around a well-formed selection of its entries is well formed. -/
theorem wellFormed_goal (h : s.WellFormed) (goal : Goal) :
    (goal.selection pageSize s).WellFormed := by
  rw [Goal.selection]
  cases goal.route? with
  | none => exact h
  | some route =>
    cases route with
    | nodes => exact (wellFormed_withNode wellFormed_empty h "nodes").paged pageSize
    | edges =>
      have hnode := wellFormed_withNode wellFormed_empty h "node"
      exact (wellFormed_withNode wellFormed_empty hnode "edges").paged pageSize

theorem wellFormed_addFull {expand : List String}
    {follow : String → Except SelectionError Selection}
    (hfollow : ∀ type u, follow type = .ok u → u.WellFormed)
    {fields : List (String × FieldDescriptor)} (hs : s.WellFormed)
    (h : addFull pageSize expand follow fields s = .ok t) : t.WellFormed := by
  induction fields generalizing s with
  | nil =>
    cases h
    exact hs
  | cons e rest ih =>
    obtain ⟨child?, hchild, h⟩ := bind_eq_ok_iff.mp h
    cases child? with
    | none => exact ih hs h
    | some child =>
      obtain ⟨goal, u, -, hu, -, rfl⟩ := FieldDescriptor.fullSelection?_eq_some_iff.mp hchild
      exact ih (wellFormed_withNode hs (wellFormed_goal (hfollow _ _ hu) goal) e.2.name) h

/-- **A full selection is well formed**, whatever the schema says. -/
theorem wellFormed_of_fullSelectionWithin {schema : Schema} {room : Nat}
    {ancestors expand : List String} {type : String}
    (h : schema.fullSelectionWithin pageSize room ancestors expand type = .ok t) :
    t.WellFormed := by
  induction room generalizing ancestors expand type t with
  | zero =>
    unfold Schema.fullSelectionWithin at h
    split at h
    · cases h
    · split at h <;> cases h <;> exact wellFormed_empty
  | succ room ih =>
    unfold Schema.fullSelectionWithin at h
    split at h
    · cases h
    · split at h
      · cases h
        exact wellFormed_empty
      · have hstart : ∀ w, (Selection.empty.setAllScalars w).WellFormed := fun w => wellFormed_empty
        exact wellFormed_addFull (fun _ _ => ih) (hstart _) h

end Synthesis

/-! ## 2. Twins -/

/-- Two selections that are equal, and well formed. -/
structure Selection.Twins (s t : Selection) : Prop where
  left : s.WellFormed
  right : t.WellFormed
  equal : s ≈ t

theorem Selection.Twins.refl {s : Selection} (h : s.WellFormed) : s.Twins s :=
  ⟨h, h, equiv_refl h⟩

/-- Equal selections both select something, or both nothing. -/
theorem Selection.Twins.isEmpty_eq {s t : Selection} (h : s.Twins t) : s.isEmpty = t.isEmpty := by
  obtain ⟨⟨hmark, -⟩, hitems⟩ := (Item.node_equiv_iff h.left h.right).mp h.equal
  show (s.items.isEmpty && !s.allScalars) = (t.items.isEmpty && !t.allScalars)
  rw [hitems.isEmpty_eq, hmark]

/-- The request with another selection of the command's own. -/
def Request.withDefault (request : Request) (s : Selection) : Request :=
  { request with defaultSelection := some s }

namespace Resolver

variable {r : Resolver} {read : ReadFile} {request : Request}
  {s s' t t' : Selection} {pageSize : Nat} {paths : List String}

theorem wellFormed_of_selection {source : Source} (h : source.selection read = .ok s) :
    s.WellFormed := by
  obtain ⟨-, p, room, hfits⟩ := Source.fits_of_selection h
  exact hfits.sound.wellFormed

theorem wellFormed_of_fullSelection (h : r.fullSelection request = .ok s) : s.WellFormed := by
  obtain ⟨type, -, h⟩ := bind_eq_ok_iff.mp h
  split at h
  · cases h
  · obtain ⟨-, -, h⟩ := bind_eq_ok_iff.mp h
    exact wellFormed_of_fullSelectionWithin h

/-! ## 3. Resolutions -/

/-- Only the default mode looks at the command's own selection. -/
theorem base_twins (h : s.Twins s') :
    SameOutcome Twins (r.base (request.withDefault s)) (r.base (request.withDefault s')) := by
  obtain ⟨mode, _, _, _, _, _, _, _⟩ := request
  cases mode with
  | raw => exact .ok (.refl wellFormed_empty)
  | all => exact .refl fun t ht => .refl (wellFormed_of_fullSelection ht)
  | default => exact .ok h

theorem start_twins (h : s.Twins s') : SameOutcome Twins (r.start read (request.withDefault s))
    (r.start read (request.withDefault s')) := by
  obtain ⟨_, _, _, _, override, _, _, _⟩ := request
  cases override with
  | none => exact base_twins h
  | some source => exact .refl fun t ht => .refl (wellFormed_of_selection ht)

/-- **Paths are added to equal selections with the same outcome.** -/
theorem addPaths_twins (h : s.Twins s') :
    SameOutcome Twins (addPaths pageSize paths s) (addPaths pageSize paths s') := by
  induction paths generalizing s s' with
  | nil => exact .ok h
  | cons path rest ih =>
    obtain ⟨hequal, hfailed⟩ := addPath_equiv h.left h.right h.equal pageSize path
    have htwins : (s.addPath pageSize path).1.Twins (s'.addPath pageSize path).1 :=
      ⟨h.left.addPath pageSize path, h.right.addPath pageSize path, hequal⟩
    rw [addPaths, addPaths]
    generalize s.addPath pageSize path = left, s'.addPath pageSize path = right at hfailed htwins
    obtain ⟨t, failed⟩ := left
    obtain ⟨t', failed'⟩ := right
    cases hfailed
    cases failed with
    | none => exact ih htwins
    | some failure => exact .error _

/-- **Requests with equal selections of the command's own are resolved alike.** -/
theorem resolve_twins (h : s.Twins s') : SameOutcome Twins
    (r.resolve read (request.withDefault s)) (r.resolve read (request.withDefault s')) := by
  rw [resolve_eq, resolve_eq]
  refine (base_twins h).bind fun _ _ _ => (start_twins h).bind fun t t' ht => ?_
  refine (addPaths_twins ht).bind fun u u' hu => ?_
  rw [hu.isEmpty_eq]
  cases u'.isEmpty with
  | true => exact .error _
  | false => exact .ok hu

/-- **Order makes no difference but to order.** Equal selections are equal when they were merged, or
    when a path was added to them, be it in vain; and requests with equal selections of the
    command's own are resolved to equal selections, or to the same error. -/
theorem equal_of_equal (hs : s.WellFormed) (hs' : s'.WellFormed) (ht : t.WellFormed)
    (ht' : t'.WellFormed) (h : s ≈ s') (h' : t ≈ t') :
    s.merge t ≈ s'.merge t' ∧
      (∀ pageSize path, (s.addPath pageSize path).1 ≈ (s'.addPath pageSize path).1 ∧
        (s.addPath pageSize path).2 = (s'.addPath pageSize path).2) ∧
      ∀ (r : Resolver) (read : ReadFile) (request : Request),
        SameOutcome (fun u u' => u ≈ u') (r.resolve read (request.withDefault s))
          (r.resolve read (request.withDefault s')) := by
  refine ⟨merge_equiv hs hs' ht ht' h h', addPath_equiv hs hs' h, fun r read request => ?_⟩
  exact (resolve_twins ⟨hs, hs', h⟩).imp fun _ _ hu => hu.equal

/-- The offer with its price ahead. -/
def pricedOffer : Selection :=
  ⟨[], false, [
    (.field "price", .node ⟨[("net", .boolean true), ("currency", .enum "USD")], false,
      [(.field "amount", .leaf)]⟩),
    (.field "seo", .leaf)]⟩

/-- A listing is merged into both offers, a path fails in both, and both are resolved. -/
theorem equal_of_equal_offers :
    (offer.WellFormed ∧ pricedOffer.WellFormed ∧ listing.WellFormed) ∧
      (offer ≈ pricedOffer ∧ offer ≠ pricedOffer) ∧
      offer.merge listing ≈ pricedOffer.merge listing ∧
      (offer.addPath 25 "seo.title").2 = (pricedOffer.addPath 25 "seo.title").2 ∧
      (∃ u u', (ofTypes [] {}).resolve noFiles (({} : Request).withDefault offer) = .ok u ∧
        (ofTypes [] {}).resolve noFiles (({} : Request).withDefault pricedOffer) = .ok u' ∧
        u ≈ u') := by
  have hpriced : pricedOffer.WellFormed := by
    simp [pricedOffer, WellFormed, ItemsWellFormed, Item.WellFormed, Literal.EntriesWellFormed,
      Literal.WellFormed]
  have hoffers : offer ≈ pricedOffer := by decide
  have hne : offer ≠ pricedOffer := by simp [offer, pricedOffer]
  have hlisting := equiv_refl wellFormed_listing
  obtain ⟨hmerge, hpath, hresolve⟩ := equal_of_equal wellFormed_offer hpriced wellFormed_listing
    wellFormed_listing hoffers hlisting
  refine ⟨⟨wellFormed_offer, hpriced, wellFormed_listing⟩, ⟨hoffers, hne⟩, hmerge,
    (hpath 25 "seo.title").2, ?_⟩
  cases hresolve (ofTypes [] {}) noFiles {} with
  | ok hu => exact ⟨_, _, rfl, rfl, hu⟩

end Resolver

end FieldSelection
