import FieldSelection.Table
import Mathlib.Data.List.Perm.Subperm

/-!
# Laws of tables

What writing does to a table as a whole: a new key goes to the end (`alter_of_notMem`), so putting
one table after another with other keys is appending it (`putAll_eq_append`). In a table without a
key twice, the entries are what is found (`get?_of_mem`).

Merging one table into another is writing the entries of the one, from first to last (`mergeWith`).
Under each key it merges the two values, or leaves the one that is there (`get?_mergeWith`). It may
be put off: what is merged into a table can be merged into the table that this one is merged into
(`mergeWith_alter`).

Two tables agree if they have the same keys with related values, in any order (`Agree`). It is
enough for that to be equally long and to find every entry of the one in the other (`agree_iff`).
-/

namespace FieldSelection.Table

variable {κ ν : Type}

/-! ## 1. Entries -/

@[simp] theorem keys_nil : keys ([] : List (κ × ν)) = [] := rfl

@[simp] theorem keys_cons (e : κ × ν) (t : List (κ × ν)) : keys (e :: t) = e.1 :: keys t := rfl

@[simp] theorem keys_append (t u : List (κ × ν)) : keys (t ++ u) = keys t ++ keys u :=
  List.map_append

variable [DecidableEq κ]

theorem alter_ne_nil (k : κ) (fresh : ν) (onto : ν → ν) (t : List (κ × ν)) :
    alter k fresh onto t ≠ [] := by
  cases t with
  | nil => simp [alter]
  | cons e rest =>
    rw [alter]
    split <;> simp

theorem alter_of_notMem {k : κ} (fresh : ν) (onto : ν → ν) {t : List (κ × ν)} (h : k ∉ keys t) :
    alter k fresh onto t = t ++ [(k, fresh)] := by
  induction t with
  | nil => rfl
  | cons e rest ih =>
    rw [keys_cons, List.mem_cons, not_or] at h
    rw [alter, if_neg (Ne.symm h.1), ih h.2]
    rfl

/-- The first entry of a table with other keys goes to the end. -/
theorem alter_of_nodup {t u : List (κ × ν)} {e : κ × ν} (onto : ν → ν)
    (h : (keys (t ++ e :: u)).Nodup) : alter e.1 e.2 onto t = t ++ [e] := by
  rw [keys_append, List.nodup_append] at h
  exact alter_of_notMem e.2 onto fun hk => h.2.2 e.1 hk e.1 List.mem_cons_self rfl

/-- A table with the entries of another one merged into it by `f`, from first to last. -/
def mergeWith (f : ν → ν → ν) (t u : List (κ × ν)) : List (κ × ν) :=
  u.foldl (fun t e => alter e.1 e.2 (fun old => f old e.2) t) t

theorem mergeWith_cons (f : ν → ν → ν) (t : List (κ × ν)) (e : κ × ν) (u : List (κ × ν)) :
    mergeWith f t (e :: u) = mergeWith f (alter e.1 e.2 (fun old => f old e.2) t) u := rfl

/-- Merging a table with other keys into a table appends it. -/
theorem mergeWith_eq_append (f : ν → ν → ν) {t u : List (κ × ν)} (h : (keys (t ++ u)).Nodup) :
    mergeWith f t u = t ++ u := by
  induction u generalizing t with
  | nil => exact (List.append_nil t).symm
  | cons e rest ih =>
    rw [mergeWith_cons, alter_of_nodup _ h]
    rw [List.append_cons t e rest] at h ⊢
    exact ih h

/-- Putting a table with other keys into a table appends it. -/
theorem putAll_eq_append {t u : List (κ × ν)} (h : (keys (t ++ u)).Nodup) :
    putAll t u = t ++ u :=
  mergeWith_eq_append (fun _ new => new) h

/-- A table without a key twice is the table of its entries. -/
theorem ofEntries_eq_self {t : List (κ × ν)} (h : (keys t).Nodup) : ofEntries t = t :=
  putAll_eq_append h

/-- What is found is an entry. -/
theorem mem_of_get? {k : κ} {v : ν} {t : List (κ × ν)} (h : get? k t = some v) : (k, v) ∈ t := by
  induction t with
  | nil => cases h
  | cons e rest ih =>
    rw [get?_cons] at h
    split at h
    · rename_i hk
      cases h
      exact hk ▸ List.mem_cons_self
    · exact List.mem_cons_of_mem _ (ih h)

/-- In a table without a key twice, every entry is found. -/
theorem get?_of_mem {k : κ} {v : ν} {t : List (κ × ν)} (h : (keys t).Nodup) (hmem : (k, v) ∈ t) :
    get? k t = some v := by
  induction t with
  | nil => cases hmem
  | cons e rest ih =>
    rw [keys_cons, List.nodup_cons] at h
    rw [get?_cons]
    rcases List.mem_cons.mp hmem with rfl | hmem
    · exact if_pos rfl
    · have hkey : k ∈ keys rest := List.mem_map.mpr ⟨(k, v), hmem, rfl⟩
      have hne : e.1 ≠ k := fun heq => h.1 (heq ▸ hkey)
      rw [if_neg hne, ih h.2 hmem]

/-- What is found in a table is found with more entries after it. -/
theorem get?_append_left {k : κ} {v : ν} {t : List (κ × ν)} (u : List (κ × ν))
    (h : get? k t = some v) : get? k (t ++ u) = some v := by
  induction t with
  | nil => cases h
  | cons e rest ih =>
    rw [List.cons_append, get?_cons] at *
    split
    · rename_i hk
      rwa [if_pos hk] at h
    · rename_i hk
      rw [if_neg hk] at h
      exact ih h

/-- Looking up in a table whose values were changed under their keys. -/
theorem get?_map {μ : Type} (g : κ → ν → μ) (k : κ) (t : List (κ × ν)) :
    get? k (t.map fun e => (e.1, g e.1 e.2)) = (get? k t).map (g k) := by
  induction t with
  | nil => rfl
  | cons e rest ih =>
    rw [List.map_cons, get?_cons, get?_cons, ih]
    by_cases hk : e.1 = k
    · rw [if_pos hk, if_pos hk, hk]
      rfl
    · rw [if_neg hk, if_neg hk]

/-- A key that is there leaves the table as it is, and another one goes to the end. -/
theorem prefix_putNew (k : κ) (v : ν) (t : List (κ × ν)) : t <+: putNew k v t := by
  induction t with
  | nil => exact List.nil_prefix
  | cons e rest ih =>
    rw [putNew] at ih ⊢
    rw [alter]
    split
    · exact List.prefix_refl _
    · exact List.cons_prefix_cons.mpr ⟨rfl, ih⟩

/-- A change that leaves the value under its key leaves the table as it is. -/
theorem alter_of_get? {k : κ} {v : ν} (fresh : ν) {onto : ν → ν} (honto : onto v = v)
    {t : List (κ × ν)} (h : get? k t = some v) : alter k fresh onto t = t := by
  induction t with
  | nil => cases h
  | cons e rest ih =>
    rw [get?_cons] at h
    rw [alter]
    split
    · rename_i hk
      rw [if_pos hk] at h
      cases h
      rw [honto]
    · rename_i hk
      rw [if_neg hk] at h
      rw [ih h]

/-- A key that has a value keeps it. -/
theorem putNew_of_get? {k : κ} {v : ν} (v' : ν) {t : List (κ × ν)} (h : get? k t = some v) :
    putNew k v' t = t :=
  alter_of_get? v' rfl h

/-- Putting what is there changes nothing. -/
theorem put_of_get? {k : κ} {v : ν} {t : List (κ × ν)} (h : get? k t = some v) :
    put k v t = t :=
  alter_of_get? v rfl h

/-- After a value was put unless there was one, the others are found first. -/
theorem get?_putNew (j k : κ) (v : ν) (t : List (κ × ν)) :
    get? j (putNew k v t) = (get? j t).or (get? j [(k, v)]) := by
  by_cases hj : j = k
  · subst hj
    rw [putNew, get?_alter_self, get?_cons, if_pos rfl]
    cases get? j t <;> rfl
  · rw [putNew, get?_alter_of_ne hj, get?_cons, if_neg (Ne.symm hj), get?_nil, Option.or_none]

/-- A key that has no value goes to the end, either way. -/
theorem putNew_eq_put {k : κ} {t : List (κ × ν)} (h : get? k t = none) (v : ν) :
    putNew k v t = put k v t := by
  have hkey := (get?_eq_none_iff k t).mp h
  rw [putNew, put, alter_of_notMem _ _ hkey, alter_of_notMem _ _ hkey]

/-- Putting a value where there is one changes the entries under the key, and there is one of
    them. -/
theorem put_eq_map {k : κ} {v : ν} {t : List (κ × ν)} (ht : (keys t).Nodup)
    (h : get? k t = some v) (w : ν) :
    put k w t = t.map fun e => (e.1, if e.1 = k then w else e.2) := by
  induction t with
  | nil => cases h
  | cons e rest ih =>
    obtain ⟨hnot, hrest⟩ := List.nodup_cons.mp ht
    rw [get?_cons] at h
    rw [put, alter, List.map_cons]
    by_cases hk : e.1 = k
    · have hsame : ∀ e' ∈ rest, (e'.1, if e'.1 = k then w else e'.2) = id e' := by
        intro e' he'
        refine Prod.ext rfl (if_neg fun hk' => hnot ?_)
        rw [hk, ← hk']
        exact List.mem_map_of_mem he'
      rw [if_pos hk, if_pos hk, List.map_congr_left hsame, List.map_id]
    · rw [if_neg hk] at h
      rw [if_neg hk, if_neg hk, ← put, ih hrest h]

/-- The values may be changed ahead of putting a new one or after it. -/
theorem map_putNew {μ : Type} (g : κ → ν → μ) (k : κ) (v : ν) (t : List (κ × ν)) :
    (putNew k v t).map (fun e => (e.1, g e.1 e.2)) =
      putNew k (g k v) (t.map fun e => (e.1, g e.1 e.2)) := by
  induction t with
  | nil => rfl
  | cons e rest ih =>
    rw [List.map_cons, putNew, putNew, alter, alter]
    split
    · rfl
    · rw [List.map_cons, ← putNew, ih, ← putNew]

/-- An entry that is there stays, or is what stands under the key now. -/
theorem mem_putNew_iff {k : κ} {v : ν} {e : κ × ν} {t : List (κ × ν)} :
    e ∈ putNew k v t ↔ e ∈ t ∨ (k ∉ keys t ∧ e = (k, v)) := by
  induction t with
  | nil => simp [putNew, alter]
  | cons e' rest ih =>
    rw [putNew] at ih ⊢
    rw [alter, keys_cons, List.mem_cons, List.mem_cons, not_or]
    split
    · rename_i hk
      subst hk
      simp
    · rename_i hk
      rw [List.mem_cons, ih, or_assoc]
      simp [Ne.symm hk]

/-- What holds of all entries holds of them after a change that keeps it. -/
theorem forall_mem_alter {p : κ × ν → Prop} {k : κ} {fresh : ν} {onto : ν → ν}
    (hfresh : p (k, fresh)) (honto : ∀ old, p (k, old) → p (k, onto old)) {t : List (κ × ν)}
    (h : ∀ e ∈ t, p e) : ∀ e ∈ alter k fresh onto t, p e := by
  induction t with
  | nil => exact List.forall_mem_singleton.mpr hfresh
  | cons e rest ih =>
    obtain ⟨he, hrest⟩ := List.forall_mem_cons.mp h
    rw [alter]
    split
    · rename_i hk
      subst hk
      exact List.forall_mem_cons.mpr ⟨honto e.2 he, hrest⟩
    · exact List.forall_mem_cons.mpr ⟨he, ih hrest⟩

theorem mem_put {k : κ} {v : ν} {e : κ × ν} {t : List (κ × ν)} (h : e ∈ put k v t) :
    e = (k, v) ∨ e ∈ t := by
  have hall : ∀ e ∈ put k v t, e = (k, v) ∨ e ∈ t :=
    forall_mem_alter (Or.inl rfl) (fun _ _ => Or.inl rfl) fun _ he => Or.inr he
  exact hall e h

/-- Putting one table after another makes no entries of its own. -/
theorem mem_putAll {e : κ × ν} {t u : List (κ × ν)} (h : e ∈ putAll t u) : e ∈ t ∨ e ∈ u := by
  induction u generalizing t with
  | nil => exact Or.inl h
  | cons e' rest ih =>
    have hrest : e ∈ putAll (put e'.1 e'.2 t) rest := h
    rcases ih hrest with h | h
    · rcases mem_put h with rfl | h
      · exact Or.inr List.mem_cons_self
      · exact Or.inl h
    · exact Or.inr (List.mem_cons_of_mem _ h)

/-! ## 2. Changing a table twice -/

variable {k j : κ} {t : List (κ × ν)}

theorem mem_keys_alter_self (k : κ) (fresh : ν) (onto : ν → ν) (t : List (κ × ν)) :
    k ∈ keys (alter k fresh onto t) := by
  rw [keys_alter]
  split
  · assumption
  · exact List.mem_append_right _ List.mem_cons_self

theorem mem_keys_alter_of_mem (h : k ∈ keys t) (j : κ) (fresh : ν) (onto : ν → ν) :
    k ∈ keys (alter j fresh onto t) := by
  rw [keys_alter]
  split
  · exact h
  · exact List.mem_append_left _ h

/-- Changing one key twice. -/
theorem alter_alter (k : κ) (fresh fresh' : ν) (onto onto' : ν → ν) (t : List (κ × ν)) :
    alter k fresh' onto' (alter k fresh onto t) =
      alter k (onto' fresh) (fun old => onto' (onto old)) t := by
  induction t with
  | nil => simp [alter]
  | cons e rest ih =>
    by_cases hk : e.1 = k
    · simp [alter, hk]
    · simp [alter, hk, ih]

/-- A key may be taken out ahead of changing another one or after it. -/
theorem filter_alter (hne : k ≠ j) (fresh : ν) (onto : ν → ν) (t : List (κ × ν)) :
    (alter k fresh onto t).filter (fun e => e.1 ≠ j) =
      alter k fresh onto (t.filter fun e => e.1 ≠ j) := by
  simp only [ne_eq, decide_not]
  induction t with
  | nil => simp [alter, hne]
  | cons e rest ih =>
    by_cases hk : e.1 = k
    · simp [alter, hk, hne]
    · by_cases hj : e.1 = j
      · simp [alter, hj, hne.symm, ih]
      · simp [alter, hk, hj, ih]

/-- A key that was taken out is not found, and the others are. -/
theorem get?_filter (k j : κ) (t : List (κ × ν)) :
    get? k (t.filter fun e => e.1 ≠ j) = if k = j then none else get? k t := by
  induction t with
  | nil => exact (ite_self none).symm
  | cons e rest ih =>
    obtain ⟨k', v⟩ := e
    by_cases hj : k' = j
    · rw [List.filter_cons_of_neg (by simpa using hj), ih, get?_cons]
      by_cases hk : k = j
      · rw [if_pos hk, if_pos hk]
      · rw [if_neg hk, if_neg hk, if_neg fun h : k' = k => hk (h.symm.trans hj)]
    · rw [List.filter_cons_of_pos (by simpa using hj), get?_cons, get?_cons, ih]
      by_cases hk : k' = k
      · rw [if_pos hk, if_pos hk, if_neg fun h : k = j => hj (hk.trans h)]
      · rw [if_neg hk, if_neg hk]

/-- Changing a key that is there and changing another one come to the same in either order. -/
theorem alter_comm (hkey : k ∈ keys t) (hne : j ≠ k) (fresh fresh' : ν) (onto onto' : ν → ν) :
    alter k fresh onto (alter j fresh' onto' t) =
      alter j fresh' onto' (alter k fresh onto t) := by
  induction t with
  | nil => cases hkey
  | cons e rest ih =>
    by_cases hk : e.1 = k
    · simp [alter, hk, hne.symm]
    · have hrest : k ∈ keys rest := (List.mem_cons.mp hkey).resolve_left (Ne.symm hk)
      by_cases hj : e.1 = j
      · simp [alter, hj, hne]
      · simp [alter, hk, hj, ih hrest]

/-! ## 3. Merging tables -/

/-- Under a key stand both values merged, or the one that is there. -/
theorem get?_mergeWith (f : ν → ν → ν) (k : κ) (t : List (κ × ν)) {u : List (κ × ν)}
    (hu : (keys u).Nodup) : get? k (mergeWith f t u) = Option.merge f (get? k t) (get? k u) := by
  induction u generalizing t with
  | nil => exact Option.merge_none_right.symm
  | cons e rest ih =>
    obtain ⟨hnot, hrest⟩ := List.nodup_cons.mp hu
    rw [mergeWith_cons, ih _ hrest, get?_cons]
    split
    · rename_i hk
      subst hk
      rw [get?_alter_self, (get?_eq_none_iff e.1 rest).mpr hnot]
      cases get? e.1 t <;> rfl
    · rename_i hk
      rw [get?_alter_of_ne (Ne.symm hk)]

/-- Merging a table changes nothing if what stands under its keys takes its values in. -/
theorem mergeWith_eq_self {f : ν → ν → ν} {t u : List (κ × ν)}
    (h : ∀ e ∈ u, ∃ old, get? e.1 t = some old ∧ f old e.2 = old) : mergeWith f t u = t := by
  induction u with
  | nil => rfl
  | cons e rest ih =>
    obtain ⟨⟨old, hold, hsame⟩, hrest⟩ := List.forall_mem_cons.mp h
    rw [mergeWith_cons, alter_of_get? e.2 hsame hold]
    exact ih hrest

/-- A key that is there may be changed ahead of merging a table without it. -/
theorem alter_mergeWith (f : ν → ν → ν) {u : List (κ × ν)} (hkey : k ∈ keys t) (hu : k ∉ keys u)
    (fresh : ν) (onto : ν → ν) :
    alter k fresh onto (mergeWith f t u) = mergeWith f (alter k fresh onto t) u := by
  induction u generalizing t with
  | nil => rfl
  | cons e rest ih =>
    obtain ⟨hne, hrest⟩ := not_or.mp (mt List.mem_cons.mpr hu)
    rw [mergeWith_cons, mergeWith_cons, ih (mem_keys_alter_of_mem hkey _ _ _) hrest,
      alter_comm hkey (Ne.symm hne)]

/-- **An entry that is merged into a table may be merged after that table.** -/
theorem mergeWith_alter (f : ν → ν → ν) {u : List (κ × ν)} {x : ν} (hu : (keys u).Nodup)
    (hassoc : ∀ old y, get? k u = some y → f (f old y) x = f old (f y x)) :
    mergeWith f t (alter k x (fun old => f old x) u) =
      alter k x (fun old => f old x) (mergeWith f t u) := by
  induction u generalizing t with
  | nil => rfl
  | cons e rest ih =>
    obtain ⟨hnot, hrest⟩ := List.nodup_cons.mp hu
    rw [alter, mergeWith_cons f t e rest]
    split
    · rename_i hk
      subst hk
      have honto : (fun old => f (f old e.2) x) = fun old => f old (f e.2 x) :=
        funext fun old => hassoc old e.2 (if_pos rfl)
      rw [alter_mergeWith f (mem_keys_alter_self _ _ _ _) hnot, alter_alter, honto]
      rfl
    · rename_i hk
      rw [mergeWith_cons]
      refine ih hrest fun old y hy => hassoc old y ?_
      rwa [get?_cons, if_neg hk]

/-- Putting tables after one another may be done in either order. -/
theorem putAll_putAll (t : List (κ × ν)) {u : List (κ × ν)} (hu : (keys u).Nodup)
    (v : List (κ × ν)) : putAll t (putAll u v) = putAll (putAll t u) v := by
  induction v generalizing u with
  | nil => rfl
  | cons e rest ih =>
    have hput : putAll t (put e.1 e.2 u) = put e.1 e.2 (putAll t u) :=
      mergeWith_alter (fun _ new => new) hu fun _ _ _ => rfl
    have hstep : ∀ s : List (κ × ν), putAll s (e :: rest) = putAll (put e.1 e.2 s) rest :=
      fun _ => rfl
    rw [hstep, hstep, ← hput]
    exact ih (nodup_keys_alter e.1 e.2 _ u hu)

/-! ## 4. Tables that agree -/

section Rel

variable {α β : Type}

theorem exists_of_rel_some {related : α → β → Prop} {x : α} {b : Option β}
    (h : Option.Rel related (some x) b) : ∃ y, b = some y ∧ related x y := by
  cases h with
  | some hxy => exact ⟨_, rfl, hxy⟩

theorem eq_none_of_rel {related : α → β → Prop} {b : Option β}
    (h : Option.Rel related none b) : b = none := by
  cases h
  rfl

variable {r : α → α → Prop} {a b c : Option α}

theorem rel_refl (h : ∀ x ∈ a, r x x) : Option.Rel r a a := by
  cases a with
  | none => exact .none
  | some x => exact .some (h x rfl)

theorem rel_symm (h : ∀ x ∈ a, ∀ y ∈ b, r x y → r y x) (hab : Option.Rel r a b) :
    Option.Rel r b a := by
  cases hab with
  | none => exact .none
  | some hxy => exact .some (h _ rfl _ rfl hxy)

theorem rel_trans (h : ∀ x ∈ a, ∀ y ∈ b, ∀ z ∈ c, r x y → r y z → r x z)
    (hab : Option.Rel r a b) (hbc : Option.Rel r b c) : Option.Rel r a c := by
  cases hab with
  | none => exact hbc
  | some hxy =>
    cases hbc with
    | some hyz => exact .some (h _ rfl _ rfl _ rfl hxy hyz)

theorem rel_imp {r' : α → α → Prop} (h : ∀ x ∈ a, ∀ y ∈ b, r x y → r' x y)
    (hab : Option.Rel r a b) : Option.Rel r' a b := by
  cases hab with
  | none => exact .none
  | some hxy => exact .some (h _ rfl _ rfl hxy)

theorem rel_merge {a' b' : Option α} {f : α → α → α} (h : ∀ x ∈ a, ∀ x' ∈ a', ∀ y ∈ b, ∀ y' ∈ b',
    r x x' → r y y' → r (f x y) (f x' y')) (ha : Option.Rel r a a') (hb : Option.Rel r b b') :
    Option.Rel r (Option.merge f a b) (Option.merge f a' b') := by
  cases ha with
  | none => rwa [Option.merge_none_left, Option.merge_none_left]
  | some hx =>
    cases hb with
    | none => exact .some hx
    | some hy => exact .some (h _ rfl _ rfl _ rfl _ rfl hx hy)

end Rel

/-- Both tables have the same keys, with related values. -/
def Agree {μ : Type} (related : ν → μ → Prop) (t : List (κ × ν)) (u : List (κ × μ)) : Prop :=
  ∀ k, Option.Rel related (get? k t) (get? k u)

section Agree

variable {μ : Type} {related : ν → μ → Prop} {u : List (κ × μ)}

theorem Agree.get?_eq_none_iff (h : Agree related t u) (k : κ) :
    get? k t = none ↔ get? k u = none := by
  have hk := h k
  cases ht : get? k t with
  | none =>
    rw [ht] at hk
    exact ⟨fun _ => eq_none_of_rel hk, fun _ => rfl⟩
  | some x =>
    rw [ht] at hk
    obtain ⟨y, hy, -⟩ := exists_of_rel_some hk
    rw [hy]
    exact ⟨nofun, nofun⟩

theorem Agree.mem_keys_iff (h : Agree related t u) (k : κ) : k ∈ keys t ↔ k ∈ keys u := by
  have hnone := h.get?_eq_none_iff k
  rw [Table.get?_eq_none_iff, Table.get?_eq_none_iff] at hnone
  exact not_iff_not.mp hnone

theorem Agree.isEmpty_eq (h : Agree related t u) : t.isEmpty = u.isEmpty := by
  match t, u, h with
  | [], [], _ => rfl
  | _ :: _, _ :: _, _ => rfl
  | [], e :: rest, h => exact absurd ((h.mem_keys_iff e.1).mpr List.mem_cons_self) List.not_mem_nil
  | e :: rest, [], h => exact absurd ((h.mem_keys_iff e.1).mp List.mem_cons_self) List.not_mem_nil

/-- **Tables agree exactly if they are equally long and every entry of the one is found in the
    other.** -/
theorem agree_iff (ht : (keys t).Nodup) (hu : (keys u).Nodup) : Agree related t u ↔
    t.length = u.length ∧ ∀ e ∈ t, ∃ v, get? e.1 u = some v ∧ related e.2 v := by
  have hlengths : (keys t).length = (keys u).length ↔ t.length = u.length := by
    rw [keys, keys, List.length_map, List.length_map]
  constructor
  · intro h
    refine ⟨hlengths.mp ?_, fun e he => ?_⟩
    · exact ((List.perm_ext_iff_of_nodup ht hu).mpr h.mem_keys_iff).length_eq
    · have hkey := h e.1
      rw [get?_of_mem ht he] at hkey
      exact exists_of_rel_some hkey
  · intro h k
    obtain ⟨hlength, hfound⟩ := h
    have hsubset : keys t ⊆ keys u := by
      intro k hk
      obtain ⟨e, he, rfl⟩ := List.mem_map.mp hk
      obtain ⟨v, hv, -⟩ := hfound e he
      exact List.mem_map.mpr ⟨(e.1, v), mem_of_get? hv, rfl⟩
    -- equally many keys, none of them twice: there are no others
    have hperm : (keys t).Perm (keys u) :=
      (ht.subperm hsubset).perm_of_length_le (Nat.le_of_eq (hlengths.mpr hlength).symm)
    cases hv : get? k t with
    | none =>
      rw [get?_eq_none_iff, hperm.mem_iff, ← get?_eq_none_iff] at hv
      rw [hv]
      exact .none
    | some v =>
      obtain ⟨w, hw, hrelated⟩ := hfound (k, v) (mem_of_get? hv)
      rw [hw]
      exact .some hrelated

end Agree

namespace Agree

variable {r : ν → ν → Prop} {u v : List (κ × ν)}

theorem refl (h : ∀ e ∈ t, r e.2 e.2) : Agree r t t :=
  fun _ => rel_refl fun _ hx => h _ (mem_of_get? hx)

theorem symm (h : ∀ e ∈ t, ∀ f ∈ u, r e.2 f.2 → r f.2 e.2) (htu : Agree r t u) : Agree r u t :=
  fun k => rel_symm (fun _ hx _ hy => h _ (mem_of_get? hx) _ (mem_of_get? hy)) (htu k)

theorem trans (h : ∀ e ∈ t, ∀ f ∈ u, ∀ g ∈ v, r e.2 f.2 → r f.2 g.2 → r e.2 g.2)
    (htu : Agree r t u) (huv : Agree r u v) : Agree r t v :=
  fun k => rel_trans
    (fun _ hx _ hy _ hz => h _ (mem_of_get? hx) _ (mem_of_get? hy) _ (mem_of_get? hz)) (htu k)
    (huv k)

theorem imp {r' : ν → ν → Prop} (h : ∀ e ∈ t, ∀ f ∈ u, r e.2 f.2 → r' e.2 f.2)
    (htu : Agree r t u) : Agree r' t u :=
  fun k => rel_imp (fun _ hx _ hy => h _ (mem_of_get? hx) _ (mem_of_get? hy)) (htu k)

/-- Changing a value takes tables that agree to tables that agree. -/
theorem alter {fresh fresh' : ν} {onto onto' : ν → ν} (k : κ) (hfresh : r fresh fresh')
    (honto : ∀ x y, r x y → r (onto x) (onto' y)) (htu : Agree r t u) :
    Agree r (Table.alter k fresh onto t) (Table.alter k fresh' onto' u) := by
  intro j
  by_cases hj : j = k
  · subst hj
    rw [get?_alter_self, get?_alter_self]
    have hj := htu j
    generalize get? j t = x, get? j u = y at hj
    cases hj with
    | none => exact .some hfresh
    | some hxy => exact .some (honto _ _ hxy)
  · rw [get?_alter_of_ne hj, get?_alter_of_ne hj]
    exact htu j

/-- Merging takes tables that agree to tables that agree. -/
theorem mergeWith {f : ν → ν → ν} {t' u' : List (κ × ν)} (hu : (keys u).Nodup)
    (hu' : (keys u').Nodup) (hf : ∀ x x' y y', r x x' → r y y' → r (f x y) (f x' y'))
    (ht : Agree r t t') (huu' : Agree r u u') :
    Agree r (Table.mergeWith f t u) (Table.mergeWith f t' u') := by
  intro k
  rw [get?_mergeWith f k t hu, get?_mergeWith f k t' hu']
  exact rel_merge (fun x _ x' _ y _ y' _ => hf x x' y y') (ht k) (huu' k)

/-- Two tables agree whichever is put after the other one, exactly if their common keys have related
    values. -/
theorem putAll_comm_iff (ht : (keys t).Nodup) (hu : (keys u).Nodup) (htrefl : ∀ e ∈ t, r e.2 e.2)
    (hurefl : ∀ e ∈ u, r e.2 e.2) : Agree r (putAll t u) (putAll u t) ↔
      ∀ k x y, get? k t = some x → get? k u = some y → r y x := by
  have hput : ∀ (k : κ) {t u : List (κ × ν)}, (keys u).Nodup →
      get? k (putAll t u) = Option.merge (fun _ new => new) (get? k t) (get? k u) :=
    fun k {t u} => get?_mergeWith (fun _ new => new) k t
  constructor
  · intro h k x y hx hy
    have hk := h k
    rw [hput k hu, hput k ht, hx, hy] at hk
    exact Option.rel_some_some.mp hk
  · intro h k
    rw [hput k hu, hput k ht]
    cases hx : get? k t with
    | none =>
      rw [Option.merge_none_left, Option.merge_none_right]
      exact rel_refl fun _ hy => hurefl _ (mem_of_get? hy)
    | some x =>
      cases hy : get? k u with
      | none => exact .some (htrefl _ (mem_of_get? hx))
      | some y => exact .some (h k x y hx hy)

end Agree

end FieldSelection.Table
