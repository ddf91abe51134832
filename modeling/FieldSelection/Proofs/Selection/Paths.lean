import FieldSelection.Proofs.Selection.Places

/-!
# What adding a path does

`Adding` says once how `addSegments` goes along a path. What one path does follows by induction on
it:

* what stood in the selection is kept (`Adding.keptIn`), and what stands anywhere but on the path
  does not change at all (`Adding.at?_eq`);
* a new item is on the path, or is part of the `pageInfo` of a selection that the path pages
  (`Adding.new_item`); a new argument is the page size of such a selection (`Adding.new_argument`);
* a path that does not fail is served: its fields are there, and the selections that it pages are
  paged (`Adding.serves`). A path that is served stays so (`Serves.of_keptIn`), and adding it again
  does nothing (`Serves.adding`).

A path as a whole goes its course if it is made of names (`addPath_of_adding`), and else it changes
nothing (`addPath_of_invalid`).
-/

namespace FieldSelection

/-- The keys of a chain of fields. -/
def fieldKeys (names : List String) : List Key :=
  names.map .field

/-- The path leaves what stands at a place, other than the root, through `nodes` or `edges`. -/
def Pages (names : List String) (place : List Key) : Prop :=
  place ≠ [] ∧ ∃ name, isConnectionField name = true ∧ place ++ [.field name] <+: fieldKeys names

namespace Pages

variable {name next : String} {names : List String} {key : Key} {place : List Key}

/-- The first selection that a path enters. -/
theorem head (h : isConnectionField next = true) (name : String) (rest : List String) :
    Pages (name :: next :: rest) [.field name] :=
  ⟨List.cons_ne_nil _ _, next, h, List.prefix_append [Key.field name, .field next] (fieldKeys rest)⟩

theorem cons (h : Pages names place) (name : String) :
    Pages (name :: names) (.field name :: place) := by
  obtain ⟨-, n, hn, hpre⟩ := h
  exact ⟨List.cons_ne_nil _ _, n, hn, List.cons_prefix_cons.mpr ⟨rfl, hpre⟩⟩

/-- What a path pages is the first selection that it enters, or is paged by its rest. -/
theorem cons_cases (h : Pages (name :: next :: names) place) :
    ∃ rest, place = .field name :: rest ∧
      ((rest = [] ∧ isConnectionField next = true) ∨ Pages (next :: names) rest) := by
  obtain ⟨hne, n, hn, hpre⟩ := h
  match place, hne with
  | key :: rest, _ =>
    obtain ⟨rfl, hrest⟩ := List.cons_prefix_cons.mp hpre
    refine ⟨rest, rfl, ?_⟩
    by_cases hnil : rest = []
    · subst hnil
      obtain ⟨heq, -⟩ := List.cons_prefix_cons.mp hrest
      cases heq
      exact Or.inl ⟨rfl, hn⟩
    · exact Or.inr ⟨hnil, n, hn, hrest⟩

theorem not_singleton (h : Pages [name] place) : False := by
  obtain ⟨hne, n, -, hpre⟩ := h
  match place, hne with
  | key :: rest, _ =>
    have hrest := (List.cons_prefix_cons.mp hpre).2
    exact List.append_ne_nil_of_right_ne_nil rest (List.cons_ne_nil _ _)
      (List.prefix_nil.mp hrest)

end Pages

namespace Selection

variable {pageSize : Nat} {s t : Selection}

/-! ## 1. Putting and looking up -/

theorem get?_putNew_of_some {key key' : Key} {item fresh : Item} (h : s.get? key = some item) :
    (s.putNew key' fresh).get? key = some item := by
  by_cases hkey : key = key'
  · subst hkey
    rw [get?] at h
    rw [get?, putNew, items_withItems, Table.putNew, Table.get?_alter_self, h]
    rfl
  · exact (Table.get?_alter_of_ne hkey _ _ s.items).trans h

/-- What is new after an item was put under a key is that item. -/
theorem get?_putNew_of_none {key key' : Key} {item fresh : Item} (hnone : s.get? key = none)
    (h : (s.putNew key' fresh).get? key = some item) : key = key' ∧ item = fresh := by
  by_cases hkey : key = key'
  · subst hkey
    rw [get?] at hnone
    rw [get?, putNew, items_withItems, Table.putNew, Table.get?_alter_self, hnone] at h
    exact ⟨rfl, (Option.some.inj h).symm⟩
  · have hother : (s.putNew key' fresh).get? key = s.get? key :=
      Table.get?_alter_of_ne hkey _ _ s.items
    rw [hother, hnone] at h
    cases h

theorem at?_putNew_of_some {keys : List Key} {key : Key} {item : Item} (fresh : Item)
    (hne : keys ≠ []) (h : s.at? keys = some item) :
    (s.putNew key fresh).at? keys = some item := by
  match keys, hne with
  | key' :: keys, _ =>
    obtain ⟨i, hi, hat⟩ := Option.bind_eq_some_iff.mp h
    exact Option.bind_eq_some_iff.mpr ⟨i, get?_putNew_of_some hi, hat⟩

/-- What is new after an item was put under a key stands in that item. -/
theorem at?_putNew_of_none {keys : List Key} {key : Key} {item fresh : Item}
    (hnone : s.at? keys = none) (h : (s.putNew key fresh).at? keys = some item) :
    ∃ rest, keys = key :: rest ∧ s.get? key = none ∧ Item.at? rest fresh = some item := by
  match keys with
  | [] => cases hnone
  | key' :: keys =>
    obtain ⟨i, hi, hat⟩ := Option.bind_eq_some_iff.mp h
    cases hget : s.get? key' with
    | some old =>
      rw [get?_putNew_of_some hget] at hi
      cases hi
      rw [at?_cons, hget, Option.bind_some, hat] at hnone
      cases hnone
    | none =>
      obtain ⟨rfl, rfl⟩ := get?_putNew_of_none hget hi
      exact ⟨keys, rfl, hget, hat⟩

theorem isSome_get?_putNew (s : Selection) (key : Key) (fresh : Item) :
    ((s.putNew key fresh).get? key).isSome = true := by
  rw [get?, putNew, items_withItems, Table.putNew, Table.get?_alter_self]
  rfl

/-- Below the key of a node stands what stands in the node. -/
theorem at?_cons_of_node {key : Key} {u : Selection} (h : s.get? key = some (.node u))
    (keys : List Key) : s.at? (key :: keys) = u.at? keys := by
  rw [at?_cons, h]
  rfl

theorem at?_put_self (s t : Selection) (key : Key) (keys : List Key) :
    (s.put key (.node t)).at? (key :: keys) = t.at? keys :=
  at?_cons_of_node (get?_put_self s key (.node t)) keys

theorem at?_put_of_ne {key key' : Key} (h : key' ≠ key) (s : Selection) (item : Item)
    (keys : List Key) : (s.put key item).at? (key' :: keys) = s.at? (key' :: keys) := by
  rw [at?_cons, get?_put_of_ne s h]
  rfl

/-- Where what stood there is unchanged, an argument is new only with what has it. -/
theorem argumentAt?_of_at?_eq {keys : List Key} {name : String} {value : Literal}
    (hsame : ∀ item, s.at? keys = some item → t.at? keys = some item)
    (hnone : s.argumentAt? keys name = none) (h : t.argumentAt? keys name = some value) :
    s.at? keys = none ∧ ∃ item, t.at? keys = some item ∧ item.argument? name = some value := by
  obtain ⟨item, hat, hvalue⟩ := Option.bind_eq_some_iff.mp h
  refine ⟨?_, item, hat, hvalue⟩
  cases hold : s.at? keys with
  | none => rfl
  | some old =>
    rw [hsame old hold] at hat
    cases hat
    rw [argumentAt?, hold, Option.bind_some, hvalue] at hnone
    cases hnone

/-! ## 2. Paging -/

/-- The selection has a page size and `pageInfo`. -/
def Paged (s : Selection) : Prop :=
  (s.argument? "first").isSome = true ∧ (s.get? (.field "pageInfo")).isSome = true

theorem Paged.of_keptIn (h : s.Paged) (hkept : s.KeptIn t) : t.Paged := by
  obtain ⟨value, hvalue⟩ := Option.isSome_iff_exists.mp h.1
  have hfirst : t.argument? "first" = some value := hkept.argument? hvalue
  exact ⟨Option.isSome_iff_exists.mpr ⟨value, hfirst⟩, hkept.isSome_get? h.2⟩

theorem keptIn_paged (pageSize : Nat) (s : Selection) : s.KeptIn (s.paged pageSize) :=
  (keptIn_setNewArgument s "first" (.ofNat pageSize)).trans (keptIn_putNew _ _ _)

theorem paged_paged (pageSize : Nat) (s : Selection) : (s.paged pageSize).Paged := by
  refine ⟨?_, isSome_get?_putNew _ _ _⟩
  rw [argument?, paged, putNew, arguments_withItems, setNewArgument, arguments_mk, Table.putNew,
    Table.get?_alter_self]
  rfl

/-- A selection that is paged stays as it is. -/
theorem Paged.paged_eq (h : s.Paged) (pageSize : Nat) : s.paged pageSize = s := by
  obtain ⟨a, w, is⟩ := s
  obtain ⟨value, hvalue⟩ := Option.isSome_iff_exists.mp h.1
  obtain ⟨item, hitem⟩ := Option.isSome_iff_exists.mp h.2
  have ha : Table.putNew "first" (.ofNat pageSize) a = a := Table.putNew_of_get? _ hvalue
  have his : Table.putNew (.field "pageInfo") (.node pageInfo) is = is :=
    Table.putNew_of_get? _ hitem
  show mk (Table.putNew "first" (.ofNat pageSize) a) w
    (Table.putNew (.field "pageInfo") (.node pageInfo) is) = mk a w is
  rw [ha, his]

/-- A selection that is entered on the way to a field: a connection becomes paged. -/
def entered (pageSize : Nat) (next : String) (s : Selection) : Selection :=
  if isConnectionField next then s.paged pageSize else s

variable {next : String}

theorem keptIn_entered (pageSize : Nat) (next : String) (s : Selection) :
    s.KeptIn (s.entered pageSize next) := by
  rw [entered]
  split
  · exact keptIn_paged pageSize s
  · exact keptIn_refl s

theorem at?_entered_of_some {keys : List Key} {item : Item} (hne : keys ≠ [])
    (h : s.at? keys = some item) : (s.entered pageSize next).at? keys = some item := by
  rw [entered]
  split
  · refine at?_putNew_of_some _ hne ?_
    match keys, hne with
    | key :: keys, _ => exact h
  · exact h

/-- What is new in a selection that was entered is `pageInfo`. -/
theorem at?_entered_of_none {keys : List Key} {item : Item} (hnone : s.at? keys = none)
    (h : (s.entered pageSize next).at? keys = some item) :
    isConnectionField next = true ∧ s.get? (.field "pageInfo") = none ∧
      ∃ rest, keys = .field "pageInfo" :: rest ∧ pageInfo.at? rest = some item := by
  rw [entered] at h
  split at h
  · rename_i hnext
    have hnone' : (s.setNewArgument "first" (.ofNat pageSize)).at? keys = none := by
      match keys with
      | [] => cases hnone
      | key :: keys => exact hnone
    obtain ⟨rest, hkeys, hget, hat⟩ := at?_putNew_of_none hnone' h
    exact ⟨hnext, hget, rest, hkeys, hat⟩
  · rw [hnone] at h
    cases h

/-- `pageInfo` holds two leaves. -/
theorem pageInfo_at? {keys : List Key} {item : Item} (h : pageInfo.at? keys = some item) :
    (keys = [] ∧ item = .node pageInfo) ∨
      (item = .leaf ∧ (keys = [.field "hasNextPage"] ∨ keys = [.field "endCursor"])) := by
  match keys with
  | [] => exact Or.inl ⟨rfl, (Option.some.inj h).symm⟩
  | key :: keys =>
    obtain ⟨i, hi, hat⟩ := Option.bind_eq_some_iff.mp h
    have hmem : (key, i) ∈ [(Key.field "hasNextPage", Item.leaf), (Key.field "endCursor", .leaf)] :=
      Table.mem_of_get? hi
    rcases List.mem_cons.mp hmem with heq | hmem
    · cases heq
      obtain ⟨rfl, rfl⟩ := eq_nil_of_at?_leaf hat
      exact Or.inr ⟨rfl, Or.inl rfl⟩
    · cases List.mem_singleton.mp hmem
      obtain ⟨rfl, rfl⟩ := eq_nil_of_at?_leaf hat
      exact Or.inr ⟨rfl, Or.inr rfl⟩

theorem argument?_entered_of_none {name : String} {value : Literal}
    (hnone : s.argument? name = none) (h : (s.entered pageSize next).argument? name = some value) :
    isConnectionField next = true ∧ name = "first" ∧ value = .ofNat pageSize := by
  rw [entered] at h
  split at h
  · rename_i hnext
    have hput : Table.get? name (Table.putNew "first" (.ofNat pageSize) s.arguments) =
      some value := h
    rw [argument?] at hnone
    by_cases hname : name = "first"
    · subst hname
      rw [Table.putNew, Table.get?_alter_self, hnone] at hput
      exact ⟨hnext, rfl, (Option.some.inj hput).symm⟩
    · rw [Table.putNew, Table.get?_alter_of_ne hname, hnone] at hput
      cases hput
  · rw [hnone] at h
    cases h

/-- A new argument of a selection that was entered is its page size. -/
theorem argumentAt?_entered_of_none {keys : List Key} {name : String} {value : Literal}
    (hnone : s.argumentAt? keys name = none)
    (h : (s.entered pageSize next).argumentAt? keys name = some value) :
    keys = [] ∧ isConnectionField next = true ∧ name = "first" ∧ value = .ofNat pageSize := by
  match keys with
  | [] => exact ⟨rfl, argument?_entered_of_none hnone h⟩
  | key :: keys =>
    exfalso
    obtain ⟨hnew, item, hat, hvalue⟩ := argumentAt?_of_at?_eq
      (fun _ => at?_entered_of_some (List.cons_ne_nil key keys)) hnone h
    obtain ⟨-, -, rest, -, hpage⟩ := at?_entered_of_none hnew hat
    rcases pageInfo_at? hpage with ⟨-, rfl⟩ | ⟨rfl, -⟩
    · cases hvalue
    · cases hvalue

/-! ## 3. The course of a path -/

/-- The selection that a path enters under a key: the node that stands there, or a new one where
    nothing stands. -/
def Enters (s : Selection) (key : Key) (child : Selection) : Prop :=
  s.get? key = some (.node child) ∨ (s.get? key = none ∧ child = empty)

/-- Adding a path to a selection: what is left, and the segment that holds a leaf on the way. -/
inductive Adding (pageSize : Nat) :
    List String → Selection → Selection → Option String → Prop where
  | last (s : Selection) (name : String) :
      Adding pageSize [name] s (s.putNew (.field name) .leaf) none
  | stuck {s : Selection} {name : String} (next : String) (rest : List String)
      (hleaf : s.get? (.field name) = some .leaf) :
      Adding pageSize (name :: next :: rest) s s (some name)
  | into {s child t : Selection} {name next : String} {rest : List String}
      {failed : Option String} (henter : s.Enters (.field name) child)
      (h : Adding pageSize (next :: rest) (child.entered pageSize next) t failed) :
      Adding pageSize (name :: next :: rest) s (s.put (.field name) (.node t)) failed

/-- Adding a path goes its course. -/
theorem adding_addSegments (pageSize : Nat) : ∀ (name : String) (rest : List String)
    (s : Selection), Adding pageSize (name :: rest) s (s.addSegments pageSize (name :: rest)).1
      (s.addSegments pageSize (name :: rest)).2
  | name, [], s => .last s name
  | name, next :: rest, s => by
      rw [addSegments]
      split
      · rename_i hleaf
        exact .stuck next rest hleaf
      · rename_i hleaf
        refine .into ?_ (adding_addSegments pageSize next rest _)
        cases hget : s.get? (.field name) with
        | none => exact Or.inr ⟨hget, rfl⟩
        | some item =>
          cases item with
          | leaf => exact absurd hget hleaf
          | node child => exact Or.inl hget

/-- A path has one course only. -/
theorem Adding.eq_addSegments {names : List String} {failed : Option String}
    (h : Adding pageSize names s t failed) : s.addSegments pageSize names = (t, failed) := by
  induction h with
  | last s name => rfl
  | stuck next rest hleaf => rw [addSegments, hleaf]
  | @into s child t name next rest failed henter h ih =>
    rw [entered] at ih
    rcases henter with hnode | ⟨hnone, rfl⟩
    · simp only [addSegments, hnode, ih]
    · simp only [addSegments, hnone, ih]

namespace Enters

variable {key : Key} {child : Selection}

/-- A new node holds nothing. -/
theorem at?_cons (h : s.Enters key child) {keys : List Key} (hne : keys ≠ []) :
    s.at? (key :: keys) = child.at? keys := by
  rcases h with hnode | ⟨hnone, rfl⟩
  · exact at?_cons_of_node hnode keys
  · match keys, hne with
    | key' :: keys, _ =>
      rw [Selection.at?_cons, hnone]
      rfl

/-- A new node has no arguments. -/
theorem argumentAt?_cons (h : s.Enters key child) (keys : List Key) (name : String) :
    s.argumentAt? (key :: keys) name = child.argumentAt? keys name := by
  rcases h with hnode | ⟨hnone, rfl⟩
  · rw [argumentAt?, at?_cons_of_node hnode]
    rfl
  · rw [argumentAt?, Selection.at?_cons, hnone]
    cases keys <;> rfl

end Enters

namespace Adding

variable {names : List String} {failed : Option String} {keys : List Key} {item : Item}

/-! ## 4. What one path changes -/

/-- What every step of a path keeps, the path keeps. -/
theorem keeps {p : Selection → Prop} (h : Adding pageSize names s t failed)
    (hlast : ∀ s, ∀ name ∈ names, p s → p (s.putNew (.field name) .leaf))
    (hentered : ∀ s name child next, p s → s.Enters (.field name) child →
      p (child.entered pageSize next))
    (hput : ∀ s, ∀ name ∈ names, ∀ t, p s → p t → p (s.put (.field name) (.node t)))
    (hs : p s) : p t := by
  induction h with
  | last s name => exact hlast s name List.mem_cons_self hs
  | stuck => exact hs
  | @into s child t name next rest failed henter h ih =>
    refine hput s name List.mem_cons_self t hs (ih ?_ ?_ (hentered s name child next hs henter))
    · exact fun s name hname => hlast s name (List.mem_cons_of_mem _ hname)
    · exact fun s name hname => hput s name (List.mem_cons_of_mem _ hname)

/-- **A path keeps the selection.** -/
theorem keptIn (h : Adding pageSize names s t failed) : s.KeptIn t := by
  induction h with
  | last s name => exact keptIn_putNew s _ _
  | stuck => exact keptIn_refl _
  | @into s child t name next rest failed henter h ih =>
    refine keptIn_put fun old hold => ?_
    rcases henter with hnode | ⟨hnone, -⟩
    · rw [hnode] at hold
      cases hold
      exact KeptIn.trans (keptIn_entered pageSize next child) ih
    · rw [hnone] at hold
      cases hold

/-- What stands anywhere but on the path does not change. -/
theorem at?_eq (h : Adding pageSize names s t failed) (hat : s.at? keys = some item)
    (hoff : ¬ keys <+: fieldKeys names) : t.at? keys = some item := by
  induction h generalizing keys with
  | last s name => exact at?_putNew_of_some _ (fun hnil => hoff (hnil ▸ List.nil_prefix)) hat
  | stuck => exact hat
  | @into s child t name next rest failed henter h ih =>
    match keys with
    | [] => exact absurd List.nil_prefix hoff
    | key :: keys =>
      by_cases hkey : key = .field name
      · subst hkey
        have hoff' : ¬ keys <+: fieldKeys (next :: rest) := fun hon =>
          hoff (List.cons_prefix_cons.mpr ⟨rfl, hon⟩)
        have hne : keys ≠ [] := fun hnil => hoff' (hnil ▸ List.nil_prefix)
        rw [henter.at?_cons hne] at hat
        rw [at?_put_self]
        exact ih (at?_entered_of_some hne hat) hoff'
      · rw [at?_put_of_ne hkey]
        exact hat

/-- **A new item is on the path, or in the new `pageInfo` of a selection that the path pages.** -/
theorem new_item (h : Adding pageSize names s t failed) (hat : t.at? keys = some item)
    (hnew : s.at? keys = none) :
    keys <+: fieldKeys names ∨ ∃ place rest, keys = place ++ .field "pageInfo" :: rest ∧
      pageInfo.at? rest = some item ∧ Pages names place ∧
        s.at? (place ++ [.field "pageInfo"]) = none := by
  induction h generalizing keys with
  | last s name =>
    obtain ⟨rest, rfl, -, hleaf⟩ := at?_putNew_of_none hnew hat
    obtain ⟨rfl, -⟩ := eq_nil_of_at?_leaf hleaf
    exact Or.inl (List.prefix_refl _)
  | stuck => exact absurd (hnew.symm.trans hat) (by simp)
  | @into s child t name next rest failed henter h ih =>
    match keys with
    | [] => cases hnew
    | key :: keys =>
      by_cases hkey : key = .field name
      · subst hkey
        rw [at?_put_self] at hat
        by_cases hon : keys <+: fieldKeys (next :: rest)
        · exact Or.inl (List.cons_prefix_cons.mpr ⟨rfl, hon⟩)
        have hne : keys ≠ [] := fun hnil => hon (hnil ▸ List.nil_prefix)
        have hnew' : child.at? keys = none := (henter.at?_cons hne).symm.trans hnew
        refine Or.inr ?_
        cases hentered : (child.entered pageSize next).at? keys with
        | none =>
          -- new below the selection that is entered
          obtain ⟨place, rest', rfl, hpage, hpages, hlacks⟩ := (ih hat hentered).resolve_left hon
          refine ⟨.field name :: place, rest', rfl, hpage, hpages.cons name, ?_⟩
          have hlacks' := (keptIn_entered pageSize next child).at?_eq_none hlacks
          exact (henter.at?_cons (List.append_ne_nil_of_right_ne_nil place
            (List.cons_ne_nil _ _))).trans hlacks'
        | some item' =>
          -- new as the selection was entered; the rest of the path leaves it alone
          obtain ⟨hnext, hlacks, rest', rfl, hpage⟩ := at?_entered_of_none hnew' hentered
          rw [h.at?_eq hentered hon] at hat
          cases hat
          refine ⟨[.field name], rest', rfl, hpage, Pages.head hnext name rest, ?_⟩
          refine (henter.at?_cons (List.cons_ne_nil _ _)).trans ?_
          rw [at?_cons, hlacks]
          rfl
      · rw [at?_put_of_ne hkey, hnew] at hat
        cases hat

/-- **A new argument is the page size of a selection that the path pages.** -/
theorem new_argument (h : Adding pageSize names s t failed) {name : String} {value : Literal}
    (hat : t.argumentAt? keys name = some value) (hnew : s.argumentAt? keys name = none) :
    Pages names keys ∧ name = "first" ∧ value = .ofNat pageSize := by
  induction h generalizing keys with
  | last s last =>
    match keys with
    | [] => exact absurd (hnew.symm.trans hat) (by simp)
    | key :: keys =>
      exfalso
      obtain ⟨hnone, item, hat, hvalue⟩ := argumentAt?_of_at?_eq
        (fun _ => at?_putNew_of_some _ (List.cons_ne_nil key keys)) hnew hat
      obtain ⟨rest, -, -, hleaf⟩ := at?_putNew_of_none hnone hat
      obtain ⟨-, rfl⟩ := eq_nil_of_at?_leaf hleaf
      cases hvalue
  | stuck => exact absurd (hnew.symm.trans hat) (by simp)
  | @into s child t first next rest failed henter h ih =>
    match keys with
    | [] => exact absurd (hnew.symm.trans hat) (by simp)
    | key :: keys =>
      by_cases hkey : key = .field first
      · subst hkey
        rw [henter.argumentAt?_cons] at hnew
        rw [argumentAt?, at?_put_self, ← argumentAt?] at hat
        cases hentered : (child.entered pageSize next).argumentAt? keys name with
        | none =>
          obtain ⟨hpages, hname, hvalue⟩ := ih hat hentered
          exact ⟨hpages.cons first, hname, hvalue⟩
        | some value' =>
          rw [h.keptIn.argumentAt? hentered] at hat
          cases hat
          obtain ⟨rfl, hnext, hname, hvalue⟩ := argumentAt?_entered_of_none hnew hentered
          exact ⟨Pages.head hnext first rest, hname, hvalue⟩
      · rw [argumentAt?, at?_put_of_ne hkey, ← argumentAt?, hnew] at hat
        cases hat

end Adding

/-! ## 5. Paths that are served -/

/-- The fields of the path are there, and the selections that it pages are paged. -/
def Serves : List String → Selection → Prop
  | [], _ => True
  | [name], s => (s.get? (.field name)).isSome = true
  | name :: next :: rest, s => ∃ child, s.get? (.field name) = some (.node child) ∧
      (isConnectionField next = true → child.Paged) ∧ Serves (next :: rest) child

variable {names : List String}

/-- **A path that does not fail is served.** -/
theorem Adding.serves {failed : Option String} (h : Adding pageSize names s t failed)
    (hok : failed = none) : Serves names t := by
  induction h with
  | last s name => exact isSome_get?_putNew s _ _
  | stuck => cases hok
  | @into s child t name next rest failed henter h ih =>
    refine ⟨t, get?_put_self s _ _, fun hnext => ?_, ih hok⟩
    have hpaged : (child.entered pageSize next).Paged := by
      rw [entered, if_pos hnext]
      exact paged_paged pageSize child
    exact hpaged.of_keptIn h.keptIn

/-- A path that is served stays so. -/
theorem Serves.of_keptIn (h : Serves names s) (hkept : s.KeptIn t) : Serves names t := by
  induction names generalizing s t with
  | nil => trivial
  | cons name rest ih =>
    cases rest with
    | nil => exact hkept.isSome_get? h
    | cons next rest =>
      obtain ⟨child, hget, hpaged, hrest⟩ := h
      obtain ⟨item, hitem, hchild⟩ := hkept.get? hget
      match item, hchild with
      | .node child', hchild =>
        have hchild : child.KeptIn child' := hchild
        exact ⟨child', hitem, fun hnext => (hpaged hnext).of_keptIn hchild, ih hrest hchild⟩

/-- Adding a path that is served does nothing. -/
theorem Serves.addSegments_eq (h : Serves names s) (pageSize : Nat) :
    s.addSegments pageSize names = (s, none) := by
  induction names generalizing s with
  | nil => rfl
  | cons name rest ih =>
    obtain ⟨a, w, is⟩ := s
    cases rest with
    | nil =>
      obtain ⟨item, hitem⟩ := Option.isSome_iff_exists.mp h
      have hput : Table.putNew (.field name) .leaf is = is := Table.putNew_of_get? _ hitem
      show ((mk a w (Table.putNew (.field name) .leaf is), none) : Selection × Option String) = _
      rw [hput]
    | cons next rest =>
      obtain ⟨child, hget, hpaged, hrest⟩ := h
      have hput : Table.put (.field name) (.node child) is = is := Table.put_of_get? hget
      have hentered : child.entered pageSize next = child := by
        rw [entered]
        split
        · rename_i hnext
          exact (hpaged hnext).paged_eq pageSize
        · rfl
      rw [entered] at hentered
      simp only [addSegments, hget, hentered, ih hrest]
      exact congrArg (fun is => (mk a w is, none)) hput

/-- **A path that is served goes its course to no effect.** -/
theorem Serves.adding (h : Serves names s) (hne : names ≠ []) (pageSize : Nat) :
    Adding pageSize names s s none := by
  obtain ⟨name, rest, rfl⟩ := List.exists_cons_of_ne_nil hne
  have hadding := adding_addSegments pageSize name rest s
  rwa [h.addSegments_eq pageSize] at hadding

/-- The fields of a path that is served are there. -/
theorem Serves.isSome_at? (h : Serves names s) : (s.at? (fieldKeys names)).isSome = true := by
  induction names generalizing s with
  | nil => rfl
  | cons name rest ih =>
    cases rest with
    | nil =>
      obtain ⟨item, hitem⟩ := Option.isSome_iff_exists.mp h
      exact Option.isSome_iff_exists.mpr
        ⟨item, Option.bind_eq_some_iff.mpr ⟨item, hitem, rfl⟩⟩
    | cons next rest =>
      obtain ⟨child, hget, -, hrest⟩ := h
      exact (at?_cons_of_node hget _).symm ▸ ih hrest

theorem Serves.isSome_at?_along (h : Serves names s) {keys : List Key}
    (hpre : keys <+: fieldKeys names) : (s.at? keys).isSome = true := by
  obtain ⟨rest, hrest⟩ := hpre
  exact isSome_at?_of_append (hrest ▸ h.isSome_at?)

/-- The selections that a path pages are paged where it is served. -/
theorem Serves.paged (h : Serves names s) {place : List Key} (hpages : Pages names place) :
    ∃ u, s.at? place = some (.node u) ∧ u.Paged := by
  induction names generalizing s place with
  | nil =>
    obtain ⟨-, n, -, hpre⟩ := hpages
    exact absurd (List.prefix_nil.mp hpre) (List.append_ne_nil_of_right_ne_nil place
      (List.cons_ne_nil _ _))
  | cons name rest ih =>
    cases rest with
    | nil => exact hpages.not_singleton.elim
    | cons next rest =>
      obtain ⟨child, hget, hpaged, hrest⟩ := h
      obtain ⟨keys, rfl, ⟨rfl, hnext⟩ | hrest'⟩ := hpages.cons_cases
      · exact ⟨child, at?_cons_of_node hget [], hpaged hnext⟩
      · rw [at?_cons_of_node hget]
        exact ih hrest hrest'

end Selection

/-! ## 6. Paths as a whole -/

theorem splitDots_ne_nil (cs : List Char) : splitDots cs ≠ [] := by
  cases cs with
  | nil => exact List.cons_ne_nil _ _
  | cons c rest =>
    rw [splitDots]
    split
    · exact List.cons_ne_nil _ _
    · split
      · exact List.cons_ne_nil _ _
      · exact List.cons_ne_nil _ _

/-- A path has a segment. -/
theorem segments_ne_nil (path : String) : segments path ≠ [] := fun h =>
  splitDots_ne_nil _ (List.map_eq_nil_iff.mp h)

namespace Selection

variable {pageSize : Nat} {s t : Selection} {failed : Option String} {path : String}

/-- The path is made of names. -/
theorem find?_invalid_eq_none_iff :
    (segments path).find? (fun name => !isIdentifier name.toList) = none ↔
      ∀ name ∈ segments path, isIdentifier name.toList = true := by
  simp [List.find?_eq_none]

/-- A path with a segment that is no name changes nothing. -/
theorem addPath_of_invalid {segment : String}
    (h : (segments path).find? (fun name => !isIdentifier name.toList) = some segment)
    (pageSize : Nat) (s : Selection) :
    s.addPath pageSize path = (s, some (.invalidSegment path segment)) := by
  rw [addPath, h]

/-- A path goes a course. -/
theorem exists_adding (pageSize : Nat) (path : String) (s : Selection) :
    ∃ t failed, Adding pageSize (segments path) s t failed := by
  obtain ⟨name, rest, hpath⟩ := List.exists_cons_of_ne_nil (segments_ne_nil path)
  exact ⟨_, _, hpath ▸ adding_addSegments pageSize name rest s⟩

/-- A path that is made of names comes to what its course comes to. -/
theorem addPath_of_adding (hnames : ∀ name ∈ segments path, isIdentifier name.toList = true)
    (h : Adding pageSize (segments path) s t failed) :
    s.addPath pageSize path = (t, failed.map (.throughLeaf path)) := by
  rw [addPath, find?_invalid_eq_none_iff.mpr hnames, h.eq_addSegments]

/-- A path does not fail if it is made of names and comes to no leaf on its course. -/
theorem addPath_eq_none_iff : s.addPath pageSize path = (t, none) ↔
    (∀ name ∈ segments path, isIdentifier name.toList = true) ∧
      Adding pageSize (segments path) s t none := by
  constructor
  · intro h
    cases hfind : (segments path).find? (fun name => !isIdentifier name.toList) with
    | some name =>
      rw [addPath_of_invalid hfind] at h
      cases (Prod.ext_iff.mp h).2
    | none =>
      have hnames := find?_invalid_eq_none_iff.mp hfind
      obtain ⟨u, failed, hadding⟩ := exists_adding pageSize path s
      rw [addPath_of_adding hnames hadding] at h
      obtain ⟨rfl, hfailed⟩ := Prod.ext_iff.mp h
      cases failed with
      | none => exact ⟨hnames, hadding⟩
      | some segment => cases hfailed
  · rintro ⟨hnames, h⟩
    exact addPath_of_adding hnames h

end Selection

end FieldSelection
