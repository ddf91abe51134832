import FieldSelection.Proofs.Selection.Containment
import FieldSelection.Selection.Equality

/-!
# Equality up to order

Literals, items and selections are equal (`≈`) if they are the same, the order of keys, of arguments
and of the entries of objects apart. The items of a list stay in order.

* On what is well formed this is an equivalence (`Literal.equiv_refl`, `Literal.equiv_symm`,
  `Literal.equiv_trans`, and the same for selections).
* Selections are equal exactly if they look the same at every place (`Selection.equiv_iff`): nothing
  stands there in either of them, or a leaf in both, or nodes with one mark and equal arguments.
* Merging is told place by place, too. So it takes equal selections to equal ones
  (`Selection.merge_equiv`), and two selections may be merged in either order exactly if they give
  no argument of any node two values (`Selection.merge_comm_iff`).
-/

namespace FieldSelection

/-! ## 1. Numbers -/

namespace Numeral

variable {m n o : Numeral}

theorem same_refl (n : Numeral) : n.same n = true := by
  cases n <;> simp [same, Binary64.same]

theorem same_symm (h : m.same n = true) : n.same m = true := by
  match m, n, h with
  | .integer _, .integer _, h => exact beq_iff_eq.mpr (beq_iff_eq.mp h).symm
  | .double _, .double _, h =>
    simp only [same, Binary64.same, Bool.or_eq_true, Bool.and_eq_true, beq_iff_eq] at h ⊢
    exact h.imp Eq.symm And.symm

theorem same_trans (h : m.same n = true) (h' : n.same o = true) : m.same o = true := by
  match m, n, o, h, h' with
  | .integer _, .integer _, .integer _, h, h' =>
    exact beq_iff_eq.mpr ((beq_iff_eq.mp h).trans (beq_iff_eq.mp h'))
  | .double _, .double _, .double _, h, h' =>
    simp only [same, Binary64.same, Bool.or_eq_true, Bool.and_eq_true, beq_iff_eq] at h h' ⊢
    rcases h with rfl | ⟨hx, hy⟩
    · exact h'
    · rcases h' with rfl | ⟨-, hz⟩
      · exact Or.inr ⟨hx, hy⟩
      · exact Or.inr ⟨hx, hz⟩

end Numeral

/-! ## 2. Literals -/

instance : HasEquiv Literal := ⟨fun l m => l.same m = true⟩

/-- What holds of lists and objects if it holds of all that is in them, and of all other literals,
    holds of every literal. -/
@[elab_as_elim]
theorem Literal.induct {p : Literal → Prop} (string : ∀ s, p (.string s))
    (number : ∀ n, p (.number n)) (boolean : ∀ b, p (.boolean b)) (null : p .null)
    (enum : ∀ word, p (.enum word)) (list : ∀ items, (∀ l ∈ items, p l) → p (.list items))
    (object : ∀ entries, (∀ e ∈ entries, p e.2) → p (.object entries)) (l : Literal) : p l :=
  @Literal.rec p (fun items => ∀ l ∈ items, p l) (fun entries => ∀ e ∈ entries, p e.2)
    (fun e => p e.2) string number boolean null enum list object
    (List.forall_mem_nil _) (fun _ _ hl hls => List.forall_mem_cons.mpr ⟨hl, hls⟩)
    (List.forall_mem_nil _) (fun _ _ he hes => List.forall_mem_cons.mpr ⟨he, hes⟩)
    (fun _ _ h => h) l

namespace Literal

variable {l m n : Literal} {xs ys : List Literal} {es fs : List (String × Literal)}

theorem itemsWellFormed_iff : ItemsWellFormed xs ↔ ∀ l ∈ xs, l.WellFormed := by
  induction xs with
  | nil => simp [ItemsWellFormed]
  | cons x rest ih => rw [List.forall_mem_cons, ← ih, ItemsWellFormed]

/-- Lists are equal if they are so at every index. -/
theorem list_equiv_iff :
    Literal.list xs ≈ Literal.list ys ↔ ∀ i : Nat, Option.Rel (· ≈ ·) xs[i]? ys[i]? := by
  show sameItems xs ys = true ↔ _
  induction xs generalizing ys with
  | nil =>
    cases ys with
    | nil => exact ⟨fun _ _ => .none, fun _ => rfl⟩
    | cons y ys =>
      refine ⟨nofun, fun h => ?_⟩
      have hhead := h 0
      cases hhead
  | cons x xs ih =>
    cases ys with
    | nil =>
      refine ⟨nofun, fun h => ?_⟩
      have hhead := h 0
      cases hhead
    | cons y ys =>
      rw [sameItems, Bool.and_eq_true, ih]
      constructor
      · intro h i
        cases i with
        | zero => exact .some h.1
        | succ i => exact h.2 i
      · intro h
        have hhead : x ≈ y := Option.rel_some_some.mp (h 0)
        exact ⟨hhead, fun i => h (i + 1)⟩

theorem entriesWithin_iff : entriesWithin es fs = true ↔
    ∀ e ∈ es, ∃ m, Table.get? e.1 fs = some m ∧ e.2 ≈ m := by
  induction es with
  | nil => simp [entriesWithin]
  | cons e rest ih =>
    rw [entriesWithin, Bool.and_eq_true, ih, List.forall_mem_cons]
    cases Table.get? e.1 fs with
    | none => simp
    | some m => simp

/-- Entries are the same in any order if the tables agree. -/
theorem sameEntries_iff (hes : (Table.keys es).Nodup) (hfs : (Table.keys fs).Nodup) :
    sameEntries es fs = true ↔ Table.Agree (· ≈ ·) es fs := by
  rw [Table.agree_iff hes hfs, sameEntries, Bool.and_eq_true, beq_iff_eq, entriesWithin_iff]

theorem equiv_refl (h : l.WellFormed) : l ≈ l := by
  induction l using Literal.induct with
  | string s => exact beq_self_eq_true s
  | number n => exact n.same_refl
  | boolean b => exact beq_self_eq_true b
  | null => rfl
  | enum word => exact beq_self_eq_true word
  | list items ih =>
    rw [list_equiv_iff]
    intro i
    refine Table.rel_refl fun x hx => ?_
    have hmem := List.mem_of_getElem? hx
    exact ih x hmem (itemsWellFormed_iff.mp h x hmem)
  | object entries ih =>
    obtain ⟨hnodup, hentries⟩ := h
    rw [entriesWellFormed_iff] at hentries
    exact (sameEntries_iff hnodup hnodup).mpr (.refl fun e he => ih e he (hentries e he))

theorem equiv_symm (hl : l.WellFormed) (hm : m.WellFormed) (h : l ≈ m) : m ≈ l := by
  induction l using Literal.induct generalizing m with
  | string s =>
    match m, h with
    | .string _, h => exact beq_iff_eq.mpr (beq_iff_eq.mp h).symm
  | number n =>
    match m, h with
    | .number _, h => exact Numeral.same_symm h
  | boolean b =>
    match m, h with
    | .boolean _, h => exact beq_iff_eq.mpr (beq_iff_eq.mp h).symm
  | null =>
    match m, h with
    | .null, _ => rfl
  | enum word =>
    match m, h with
    | .enum _, h => exact beq_iff_eq.mpr (beq_iff_eq.mp h).symm
  | list items ih =>
    match m, hm, h with
    | .list items', hm, h =>
      rw [list_equiv_iff] at h ⊢
      intro i
      refine Table.rel_symm (fun x hx y hy => ?_) (h i)
      have hmem := List.mem_of_getElem? hx
      exact ih x hmem (itemsWellFormed_iff.mp hl x hmem)
        (itemsWellFormed_iff.mp hm y (List.mem_of_getElem? hy))
  | object entries ih =>
    match m, hm, h with
    | .object entries', ⟨hnodup', hentries'⟩, h =>
      obtain ⟨hnodup, hentries⟩ := hl
      rw [entriesWellFormed_iff] at hentries hentries'
      have hagree := (sameEntries_iff hnodup hnodup').mp h
      exact (sameEntries_iff hnodup' hnodup).mpr
        (hagree.symm fun e he f hf => ih e he (hentries e he) (hentries' f hf))

theorem equiv_trans (hl : l.WellFormed) (hm : m.WellFormed) (hn : n.WellFormed) (h : l ≈ m)
    (h' : m ≈ n) : l ≈ n := by
  induction l using Literal.induct generalizing m n with
  | string s =>
    match m, n, h, h' with
    | .string _, .string _, h, h' =>
      exact beq_iff_eq.mpr ((beq_iff_eq.mp h).trans (beq_iff_eq.mp h'))
  | number n =>
    match m, n, h, h' with
    | .number _, .number _, h, h' => exact Numeral.same_trans h h'
  | boolean b =>
    match m, n, h, h' with
    | .boolean _, .boolean _, h, h' =>
      exact beq_iff_eq.mpr ((beq_iff_eq.mp h).trans (beq_iff_eq.mp h'))
  | null =>
    match m, n, h, h' with
    | .null, .null, _, _ => rfl
  | enum word =>
    match m, n, h, h' with
    | .enum _, .enum _, h, h' =>
      exact beq_iff_eq.mpr ((beq_iff_eq.mp h).trans (beq_iff_eq.mp h'))
  | list items ih =>
    match m, n, hm, hn, h, h' with
    | .list items', .list items'', hm, hn, h, h' =>
      rw [list_equiv_iff] at h h' ⊢
      intro i
      refine Table.rel_trans (fun x hx y hy z hz => ?_) (h i) (h' i)
      have hmem := List.mem_of_getElem? hx
      exact ih x hmem (itemsWellFormed_iff.mp hl x hmem)
        (itemsWellFormed_iff.mp hm y (List.mem_of_getElem? hy))
        (itemsWellFormed_iff.mp hn z (List.mem_of_getElem? hz))
  | object entries ih =>
    match m, n, hm, hn, h, h' with
    | .object entries', .object entries'', ⟨hnodup', hentries'⟩, ⟨hnodup'', hentries''⟩, h, h' =>
      obtain ⟨hnodup, hentries⟩ := hl
      rw [entriesWellFormed_iff] at hentries hentries' hentries''
      have hagree := (sameEntries_iff hnodup hnodup').mp h
      have hagree' := (sameEntries_iff hnodup' hnodup'').mp h'
      refine (sameEntries_iff hnodup hnodup'').mpr (hagree.trans ?_ hagree')
      exact fun e he f hf g hg => ih e he (hentries e he) (hentries' f hf) (hentries'' g hg)

end Literal

/-! ## 3. Selections, place by place -/

instance : HasEquiv Selection := ⟨fun s t => s.same t = true⟩

instance : HasEquiv Item := ⟨fun x y => x.same y = true⟩

/-- What holds of leaves, and of a node if it holds of its items, holds of every item. -/
@[elab_as_elim]
theorem Item.induct {p : Item → Prop} (leaf : p .leaf)
    (node : ∀ s : Selection, (∀ e ∈ s.items, p e.2) → p (.node s)) (x : Item) : p x :=
  @Item.rec (fun s => p (.node s)) p (fun items => ∀ e ∈ items, p e.2) (fun e => p e.2)
    (fun a w items h => node ⟨a, w, items⟩ h) leaf (fun _ h => h)
    (List.forall_mem_nil _) (fun _ _ he hes => List.forall_mem_cons.mpr ⟨he, hes⟩)
    (fun _ _ h => h) x

/-- Both are leaves, or both are nodes with the same mark and equal arguments. -/
def Item.LooksLike : Item → Item → Prop
  | .leaf, .leaf => True
  | .node s, .node t =>
    s.allScalars = t.allScalars ∧ Table.Agree (· ≈ ·) s.arguments t.arguments
  | _, _ => False

namespace Item

variable {x y z x' y' : Item} {s t : Selection}

theorem LooksLike.refl (hx : x.WellFormed) : x.LooksLike x := by
  cases x with
  | leaf => trivial
  | node s =>
    obtain ⟨a, w, is⟩ := s
    have ha := Literal.entriesWellFormed_iff.mp hx.1.2
    exact ⟨rfl, .refl fun e he => Literal.equiv_refl (ha e he)⟩

theorem LooksLike.symm (hx : x.WellFormed) (hy : y.WellFormed) (h : x.LooksLike y) :
    y.LooksLike x := by
  match x, y, hx, hy, h with
  | .leaf, .leaf, _, _, _ => trivial
  | .node ⟨a, w, is⟩, .node ⟨b, v, js⟩, hx, hy, ⟨hmark, harguments⟩ =>
    have ha := Literal.entriesWellFormed_iff.mp hx.1.2
    have hb := Literal.entriesWellFormed_iff.mp hy.1.2
    exact ⟨hmark.symm,
      harguments.symm fun e he f hf => Literal.equiv_symm (ha e he) (hb f hf)⟩

theorem LooksLike.trans (hx : x.WellFormed) (hy : y.WellFormed) (hz : z.WellFormed)
    (h : x.LooksLike y) (h' : y.LooksLike z) : x.LooksLike z := by
  match x, y, z, hx, hy, hz, h, h' with
  | .leaf, .leaf, .leaf, _, _, _, _, _ => trivial
  | .node ⟨a, w, is⟩, .node ⟨b, v, js⟩, .node ⟨c, o, ks⟩, hx, hy, hz, ⟨hmark, harguments⟩,
      ⟨hmark', harguments'⟩ =>
    have ha := Literal.entriesWellFormed_iff.mp hx.1.2
    have hb := Literal.entriesWellFormed_iff.mp hy.1.2
    have hc := Literal.entriesWellFormed_iff.mp hz.1.2
    refine ⟨hmark.trans hmark', harguments.trans ?_ harguments'⟩
    exact fun e he f hf g hg => Literal.equiv_trans (ha e he) (hb f hf) (hc g hg)

/-- The items look alike at every place. -/
def Alike (x y : Item) : Prop :=
  ∀ keys, Option.Rel LooksLike (at? keys x) (at? keys y)

/-- Nodes look alike at every place if they do at their tops and everywhere in their items. -/
theorem alike_node_iff : (node s).Alike (node t) ↔
    (node s).LooksLike (node t) ∧ Table.Agree Alike s.items t.items := by
  constructor
  · intro h
    refine ⟨Option.rel_some_some.mp (h []), fun key => ?_⟩
    have hkey : ∀ keys, Option.Rel LooksLike ((s.get? key).bind (at? keys))
      ((t.get? key).bind (at? keys)) := fun keys => h (key :: keys)
    show Option.Rel Alike (s.get? key) (t.get? key)
    generalize s.get? key = x, t.get? key = y at hkey
    match x, y with
    | none, none => exact .none
    | some x, none =>
      have htop : Option.Rel LooksLike (some x) none := hkey []
      cases htop
    | none, some y =>
      have htop : Option.Rel LooksLike none (some y) := hkey []
      cases htop
    | some x, some y => exact .some hkey
  · intro h keys
    obtain ⟨htop, hitems⟩ := h
    cases keys with
    | nil => exact .some htop
    | cons key keys =>
      have hkey : Option.Rel Alike (s.get? key) (t.get? key) := hitems key
      rw [at?, at?]
      generalize s.get? key = x, t.get? key = y at hkey
      cases hkey with
      | none => exact .none
      | some hxy => exact hxy keys

end Item

/-- Each item has an equal one under its key. -/
theorem Selection.itemsWithin_iff {is js : List (Key × Item)} : Selection.itemsWithin is js = true ↔
    ∀ e ∈ is, ∃ y, Table.get? e.1 js = some y ∧ e.2 ≈ y := by
  induction is with
  | nil => simp [Selection.itemsWithin]
  | cons e rest ih =>
    rw [Selection.itemsWithin, Bool.and_eq_true, ih, List.forall_mem_cons]
    cases Table.get? e.1 js with
    | none => simp
    | some y => simp

/-- Nodes are equal if they look alike and their items agree. -/
theorem Item.node_equiv_iff {s t : Selection} (hs : s.WellFormed) (ht : t.WellFormed) :
    Item.node s ≈ Item.node t ↔
      (Item.node s).LooksLike (.node t) ∧ Table.Agree (· ≈ ·) s.items t.items := by
  obtain ⟨a, w, is⟩ := s
  obtain ⟨b, v, js⟩ := t
  show Selection.same ⟨a, w, is⟩ ⟨b, v, js⟩ = true ↔ _
  have hitems : Table.Agree (fun x y : Item => x ≈ y) is js ↔ is.length = js.length ∧
      ∀ e ∈ is, ∃ y, Table.get? e.1 js = some y ∧ e.2 ≈ y := Table.agree_iff hs.2.1 ht.2.1
  rw [Selection.same, Bool.and_eq_true, Bool.and_eq_true, Bool.and_eq_true, beq_iff_eq, beq_iff_eq,
    Selection.itemsWithin_iff, Literal.sameEntries_iff hs.1.1 ht.1.1, ← hitems]
  constructor
  · intro h
    exact ⟨⟨h.2, h.1.2⟩, h.1.1⟩
  · intro h
    exact ⟨⟨h.2, h.1.2⟩, h.1.1⟩

/-- **Items are equal exactly if they look alike at every place.** -/
theorem Item.equiv_iff {x y : Item} (hx : x.WellFormed) (hy : y.WellFormed) :
    x ≈ y ↔ x.Alike y := by
  induction x using Item.induct generalizing y with
  | leaf =>
    cases y with
    | leaf =>
      refine ⟨fun _ keys => ?_, fun _ => rfl⟩
      cases keys with
      | nil => exact .some trivial
      | cons key keys => exact .none
    | node t =>
      refine ⟨nofun, fun h => ?_⟩
      exact (Option.rel_some_some.mp (h [])).elim
  | node s ih =>
    cases y with
    | leaf =>
      refine ⟨nofun, fun h => ?_⟩
      exact (Option.rel_some_some.mp (h [])).elim
    | node t =>
      have hitems : ∀ e ∈ s.items, ∀ f ∈ t.items, e.2 ≈ f.2 ↔ e.2.Alike f.2 := by
        obtain ⟨a, w, is⟩ := s
        obtain ⟨b, v, js⟩ := t
        intro e he f hf
        exact ih e he (Selection.itemsWellFormed_iff.mp hx.2.2 e he)
          (Selection.itemsWellFormed_iff.mp hy.2.2 f hf)
      rw [node_equiv_iff hx hy, alike_node_iff]
      constructor
      · intro h
        exact ⟨h.1, h.2.imp fun e he f hf => (hitems e he f hf).mp⟩
      · intro h
        exact ⟨h.1, h.2.imp fun e he f hf => (hitems e he f hf).mpr⟩

theorem Item.equiv_refl {x : Item} (hx : x.WellFormed) : x ≈ x :=
  (equiv_iff hx hx).mpr fun _ => Table.rel_refl fun _ hi => .refl (hx.at? hi)

/-! ## 4. Selections that are equal -/

namespace Selection

variable {r s t s' t' : Selection}

/-- **Selections are equal exactly if they look alike at every place.** -/
theorem equiv_iff (hs : s.WellFormed) (ht : t.WellFormed) :
    s ≈ t ↔ ∀ keys, Option.Rel Item.LooksLike (s.at? keys) (t.at? keys) :=
  Item.equiv_iff (x := .node s) (y := .node t) hs ht

theorem WellFormed.at? (h : s.WellFormed) {keys : List Key} {x : Item}
    (hat : s.at? keys = some x) : x.WellFormed :=
  Item.WellFormed.at? (x := .node s) h hat

theorem equiv_refl (h : s.WellFormed) : s ≈ s :=
  Item.equiv_refl (x := .node s) h

theorem equiv_symm (hs : s.WellFormed) (ht : t.WellFormed) (h : s ≈ t) : t ≈ s := by
  rw [equiv_iff hs ht] at h
  exact (equiv_iff ht hs).mpr fun keys =>
    Table.rel_symm (fun _ hx _ hy => .symm (hs.at? hx) (ht.at? hy)) (h keys)

theorem equiv_trans (hr : r.WellFormed) (hs : s.WellFormed) (ht : t.WellFormed) (h : r ≈ s)
    (h' : s ≈ t) : r ≈ t := by
  rw [equiv_iff hr hs] at h
  rw [equiv_iff hs ht] at h'
  exact (equiv_iff hr ht).mpr fun keys => Table.rel_trans
    (fun _ hx _ hy _ hz => .trans (hr.at? hx) (hs.at? hy) (ht.at? hz)) (h keys) (h' keys)

end Selection

/-! ## 5. Merging -/

theorem Selection.WellFormed.nodup_arguments {s : Selection} (h : s.WellFormed) :
    (Table.keys s.arguments).Nodup := by
  cases s
  exact h.1.1

/-- Merging takes items that look alike to items that do. -/
theorem Item.LooksLike.merge {x x' y y' : Item} (hy : y.WellFormed) (hy' : y'.WellFormed)
    (h : x.LooksLike x') (h' : y.LooksLike y') : (x.merge y).LooksLike (x'.merge y') := by
  match x, x', y, y', hy, hy', h, h' with
  | _, _, .leaf, .leaf, _, _, h, _ => rwa [Item.merge, Item.merge]
  | .leaf, .leaf, .node _, .node _, _, _, _, h' => rwa [Item.merge, Item.merge]
  | .node r, .node r', .node s, .node s', hs, hs', ⟨hmark, harguments⟩,
      ⟨hmark', harguments'⟩ =>
    rw [Item.merge, Item.merge, LooksLike, Selection.allScalars_merge, Selection.allScalars_merge,
      Selection.arguments_merge, Selection.arguments_merge, hmark, hmark']
    exact ⟨rfl, harguments.mergeWith (Selection.WellFormed.nodup_arguments hs)
      (Selection.WellFormed.nodup_arguments hs') (fun _ _ _ _ _ hnew => hnew) harguments'⟩

/-- Two items look alike whichever is merged into the other one, exactly if they give no argument
    two values. -/
theorem Item.looksLike_merge_comm_iff {x y : Item} (hx : x.WellFormed) (hy : y.WellFormed) :
    (x.merge y).LooksLike (y.merge x) ↔ ∀ u v, x = .node u → y = .node v → ∀ name l m,
      u.argument? name = some l → v.argument? name = some m → l ≈ m := by
  match x, y, hx, hy with
  | .leaf, .leaf, _, _ => exact ⟨fun _ => nofun, fun _ => trivial⟩
  | .leaf, .node t, hx, hy =>
    rw [Item.merge, Item.merge]
    exact ⟨fun _ => nofun, fun _ => .refl hy⟩
  | .node s, .leaf, hx, hy =>
    rw [Item.merge, Item.merge]
    exact ⟨fun _ => nofun, fun _ => .refl hx⟩
  | .node ⟨a, w, is⟩, .node ⟨b, v, js⟩, ⟨⟨hnodup, ha⟩, _⟩, ⟨⟨hnodup', hb⟩, _⟩ =>
    rw [Literal.entriesWellFormed_iff] at ha hb
    have harguments := Table.Agree.putAll_comm_iff hnodup hnodup'
      (fun e he => Literal.equiv_refl (ha e he)) (fun e he => Literal.equiv_refl (hb e he))
    have hvalue : ∀ {name l m}, Table.get? name a = some l → Table.get? name b = some m →
        l.WellFormed ∧ m.WellFormed :=
      fun hl hm => ⟨ha _ (Table.mem_of_get? hl), hb _ (Table.mem_of_get? hm)⟩
    rw [Item.merge, Item.merge, Selection.merge, Selection.merge]
    constructor
    · intro h u u' hu hu' name l m hl hm
      cases hu
      cases hu'
      obtain ⟨hwl, hwm⟩ := hvalue hl hm
      exact Literal.equiv_symm hwm hwl (harguments.mp h.2 name l m hl hm)
    · intro h
      refine ⟨Bool.or_comm w v, harguments.mpr fun name l m hl hm => ?_⟩
      obtain ⟨hwl, hwm⟩ := hvalue hl hm
      exact Literal.equiv_symm hwl hwm (h _ _ rfl rfl name l m hl hm)

namespace Selection

variable {s s' t t' : Selection}

/-- **Merging takes equal selections to equal ones.** -/
theorem merge_equiv (hs : s.WellFormed) (hs' : s'.WellFormed) (ht : t.WellFormed)
    (ht' : t'.WellFormed) (h : s ≈ s') (h' : t ≈ t') : s.merge t ≈ s'.merge t' := by
  rw [equiv_iff hs hs'] at h
  rw [equiv_iff ht ht'] at h'
  rw [equiv_iff (hs.merge ht) (hs'.merge ht')]
  intro keys
  rw [at?_merge keys s ht, at?_merge keys s' ht']
  exact Table.rel_merge (fun _ _ _ _ _ hy _ hy' => .merge (ht.at? hy) (ht'.at? hy')) (h keys)
    (h' keys)

/-- **Two selections may be merged in either order exactly if they give no argument two values**:
    wherever both have a node, an argument of both has equal values. -/
theorem merge_comm_iff (hs : s.WellFormed) (ht : t.WellFormed) : s.merge t ≈ t.merge s ↔
    ∀ keys u v, s.at? keys = some (.node u) → t.at? keys = some (.node v) → ∀ name l m,
      u.argument? name = some l → v.argument? name = some m → l ≈ m := by
  rw [equiv_iff (hs.merge ht) (ht.merge hs)]
  constructor
  · intro h keys u v hu hv
    have hkeys := h keys
    rw [at?_merge keys s ht, at?_merge keys t hs, hu, hv] at hkeys
    have hnodes := (Item.looksLike_merge_comm_iff (hs.at? hu) (ht.at? hv)).mp
      (Option.rel_some_some.mp hkeys)
    exact hnodes u v rfl rfl
  · intro h keys
    rw [at?_merge keys s ht, at?_merge keys t hs]
    -- what only one of them has stands in both
    cases hx : s.at? keys with
    | none =>
      rw [Option.merge_none_left, Option.merge_none_right]
      exact Table.rel_refl fun _ hy => .refl (ht.at? hy)
    | some x =>
      cases hy : t.at? keys with
      | none => exact .some (.refl (hs.at? hx))
      | some y =>
        refine .some ((Item.looksLike_merge_comm_iff (hs.at? hx) (ht.at? hy)).mpr ?_)
        rintro u v rfl rfl
        exact h keys u v hx hy

/-- An offer and a listing have the price in two currencies; a clip has no arguments. -/
theorem merge_comm_offer_listing_clip :
    (offer.WellFormed ∧ listing.WellFormed ∧ clip.WellFormed) ∧
      ¬ offer.merge listing ≈ listing.merge offer ∧ offer.merge clip ≈ clip.merge offer := by
  refine ⟨⟨wellFormed_offer, wellFormed_listing, wellFormed_clip⟩, ?_, ?_⟩
  · intro h
    have hcurrency := (merge_comm_iff wellFormed_offer wellFormed_listing).mp h
      [.field "price"] _ _ rfl rfl "currency" _ _ rfl rfl
    cases hcurrency
  · refine (merge_comm_iff wellFormed_offer wellFormed_clip).mpr ?_
    intro keys u v hu hv name l m hl hm
    cases keys with
    | nil =>
      cases hu
      cases hl
    | cons key keys =>
      obtain ⟨item, hitem, hat⟩ := Option.bind_eq_some_iff.mp hv
      rcases List.mem_cons.mp (Table.mem_of_get? hitem) with hvideo | hprice
      · cases hvideo
        cases hu
      · cases List.mem_singleton.mp hprice
        cases (eq_nil_of_at?_leaf hat).2

end Selection

end FieldSelection
