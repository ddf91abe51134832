/-!
# Insertion-ordered tables

A table is an association list in which every key stands where it first arrived:

* looking a key up answers its first entry (`get?`);
* `alter` is the one way to write: an entry that is there is changed in its place, a key that is not
  there goes to the end;
* `put` overwrites, `putNew` leaves an entry that is there alone, `putAll` puts one table after
  another.

The main statements are the look-up laws (`get?_alter_self`, `get?_alter_of_ne`) and that writing
never doubles a key (`nodup_keys_alter`).
-/

namespace FieldSelection.Table

variable {κ ν : Type} [DecidableEq κ]

/-! ## 1. Operations -/

/-- The value of a key. -/
def get? (k : κ) : List (κ × ν) → Option ν
  | [] => none
  | (k', v) :: rest => if k' = k then some v else get? k rest

/-- The keys in order. -/
def keys (t : List (κ × ν)) : List κ :=
  t.map Prod.fst

/-- Whether a key has an entry. -/
def contains (k : κ) (t : List (κ × ν)) : Bool :=
  (get? k t).isSome

/-- Changes the value of `k` by `onto` where it stands, or appends `k` with the value `fresh`. -/
def alter (k : κ) (fresh : ν) (onto : ν → ν) : List (κ × ν) → List (κ × ν)
  | [] => [(k, fresh)]
  | (k', v) :: rest =>
    if k' = k then (k', onto v) :: rest else (k', v) :: alter k fresh onto rest

/-- Gives `k` the value `v`, whatever it had. -/
def put (k : κ) (v : ν) (t : List (κ × ν)) : List (κ × ν) :=
  alter k v (fun _ => v) t

/-- Gives `k` the value `v` unless it has one. -/
def putNew (k : κ) (v : ν) (t : List (κ × ν)) : List (κ × ν) :=
  alter k v (fun old => old) t

/-- Puts the entries of `u` into `t`, from first to last. -/
def putAll (t u : List (κ × ν)) : List (κ × ν) :=
  u.foldl (fun t e => put e.1 e.2 t) t

/-- The table of a list of entries: the last value of a key counts, at the key's first place. -/
def ofEntries (es : List (κ × ν)) : List (κ × ν) :=
  putAll [] es

/-! ## 2. Looking up -/

@[simp] theorem get?_nil (k : κ) : get? k ([] : List (κ × ν)) = none := rfl

theorem get?_cons (k k' : κ) (v : ν) (t : List (κ × ν)) :
    get? k ((k', v) :: t) = if k' = k then some v else get? k t := rfl

theorem get?_alter_self (k : κ) (fresh : ν) (onto : ν → ν) : ∀ t : List (κ × ν),
    get? k (alter k fresh onto t) = some ((get? k t).elim fresh onto)
  | [] => by simp [alter, get?]
  | (k', v) :: rest => by
      by_cases h : k' = k
      · simp [alter, get?, h]
      · simp [alter, get?, h, get?_alter_self k fresh onto rest]

theorem get?_alter_of_ne {j k : κ} (hne : j ≠ k) (fresh : ν) (onto : ν → ν) :
    ∀ t : List (κ × ν), get? j (alter k fresh onto t) = get? j t
  | [] => by simp [alter, get?, hne.symm]
  | (k', v) :: rest => by
      by_cases h : k' = k
      · subst h; simp [alter, get?, hne.symm]
      · simp only [alter, h, ↓reduceIte, get?_cons, get?_alter_of_ne hne fresh onto rest]

theorem get?_put_self (k : κ) (v : ν) (t : List (κ × ν)) : get? k (put k v t) = some v := by
  rw [put, get?_alter_self]
  cases get? k t <;> rfl

theorem get?_put_of_ne {j k : κ} (hne : j ≠ k) (v : ν) (t : List (κ × ν)) :
    get? j (put k v t) = get? j t :=
  get?_alter_of_ne hne v _ t

theorem get?_eq_none_iff (k : κ) : ∀ t : List (κ × ν), get? k t = none ↔ k ∉ keys t
  | [] => by simp [keys]
  | (k', v) :: rest => by
      have ih := get?_eq_none_iff k rest
      by_cases h : k' = k
      · simp [get?, keys, h]
      · have h' : k ≠ k' := fun e => h e.symm
        simp only [get?, h, ↓reduceIte, ih]
        simp [keys, h']

/-! ## 3. Keys -/

/-- A key that is there keeps all keys in place; a new one goes to the end. -/
theorem keys_alter (k : κ) (fresh : ν) (onto : ν → ν) : ∀ t : List (κ × ν),
    keys (alter k fresh onto t) = if k ∈ keys t then keys t else keys t ++ [k]
  | [] => by simp [alter, keys]
  | (k', v) :: rest => by
      have ih := keys_alter k fresh onto rest
      by_cases h : k' = k
      · simp [alter, keys, h]
      · have h' : k ≠ k' := fun e => h e.symm
        simp only [keys] at ih
        simp only [alter, h, ↓reduceIte, keys, List.map_cons, ih, List.mem_cons, h', false_or]
        by_cases hk : k ∈ List.map Prod.fst rest <;> simp [hk]

theorem nodup_keys_alter (k : κ) (fresh : ν) (onto : ν → ν) (t : List (κ × ν))
    (h : (keys t).Nodup) : (keys (alter k fresh onto t)).Nodup := by
  rw [keys_alter]
  split
  · exact h
  · rename_i hk
    rw [List.nodup_append]
    refine ⟨h, by simp, ?_⟩
    intro a ha b hb e
    rw [List.mem_singleton] at hb
    exact hk (hb ▸ e ▸ ha)

theorem nodup_keys_putAll : ∀ (u t : List (κ × ν)),
    (keys t).Nodup → (keys (putAll t u)).Nodup
  | [], _, h => h
  | (k, v) :: rest, t, h =>
      nodup_keys_putAll rest (put k v t) (nodup_keys_alter k v _ t h)

theorem nodup_keys_ofEntries (es : List (κ × ν)) : (keys (ofEntries es)).Nodup :=
  nodup_keys_putAll es [] (by simp [keys])

end FieldSelection.Table
