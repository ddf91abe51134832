import FieldSelection.Proofs.Grammar.Derivation
import FieldSelection.Proofs.Outcome
import FieldSelection.Proofs.Table

/-!
# Reading what the grammar derives

The readers are total, and this file says what they answer on the tokens of a derivation: its
meaning and the tokens after it, if there is room for its depth, and otherwise that it is too deep
(`Answers`). There is one statement for each reader (`literal_answers`, `selection_answers`, …), all
of them by induction on derivations.

A field without a set ends where no colon, parenthesis or brace follows (`Apart`).
-/

namespace FieldSelection.Grammar

/-! ## 1. Tokens of given kinds -/

/-- The tokens start with tokens of the given kinds, and `rest` follows these. -/
def Spans (ts : List Token) (ks : List Token.Kind) (rest : List Token) : Prop :=
  ∃ us, ts = us ++ rest ∧ us.map Token.kind = ks

theorem spans_nil_iff {ts rest : List Token} : Spans ts [] rest ↔ ts = rest := by
  simp [Spans]

theorem spans_cons_iff {ts rest : List Token} {k : Token.Kind} {ks : List Token.Kind} :
    Spans ts (k :: ks) rest ↔ ∃ o ts', ts = ⟨k, o⟩ :: ts' ∧ Spans ts' ks rest := by
  constructor
  · rintro ⟨us, rfl, h⟩
    obtain ⟨⟨k', o⟩, us, rfl, rfl, rfl⟩ := List.map_eq_cons_iff.mp h
    exact ⟨o, us ++ rest, rfl, us, rfl, rfl⟩
  · rintro ⟨o, ts', rfl, us, rfl, rfl⟩
    exact ⟨⟨k, o⟩ :: us, rfl, rfl⟩

theorem spans_append_iff {ts rest : List Token} {ks ls : List Token.Kind} :
    Spans ts (ks ++ ls) rest ↔ ∃ mid, Spans ts ks mid ∧ Spans mid ls rest := by
  constructor
  · rintro ⟨us, rfl, h⟩
    obtain ⟨vs, ws, rfl, rfl, rfl⟩ := List.map_eq_append_iff.mp h
    exact ⟨ws ++ rest, ⟨vs, List.append_assoc .., rfl⟩, ws, rfl, rfl⟩
  · rintro ⟨_, ⟨vs, rfl, rfl⟩, ws, rfl, rfl⟩
    exact ⟨vs ++ ws, (List.append_assoc ..).symm, List.map_append⟩

/-- Tokens with nothing after them. -/
theorem spans_end_iff {ts : List Token} {ks : List Token.Kind} :
    Spans ts ks [] ↔ ks = ts.map Token.kind := by
  simp [Spans, eq_comm]

theorem startsWith_of_spans {ts rest : List Token} {k : Token.Kind} {ks : List Token.Kind}
    (h : Spans ts (k :: ks) rest) (m : Mark) : startsWith m ts = (k == .mark m) := by
  obtain ⟨o, ts', rfl, -⟩ := spans_cons_iff.mp h
  rfl

/-- No colon, parenthesis or brace comes next. -/
structure Apart (ts : List Token) : Prop where
  colon : startsWith .colon ts = false
  paren : startsWith .openParen ts = false
  brace : startsWith .openBrace ts = false

/-! ## 2. Answers -/

/-- What a reader answers where something of a depth is derived: a `good` answer with enough room,
    and otherwise that it is too deep. -/
structure Answers {α : Type} (b : Bounds) (room depth : Nat) (r : Except Failure α)
    (good : α → Prop) : Prop where
  within : depth ≤ room → ∃ a, r = .ok a ∧ good a
  beyond : room < depth → ∃ o, r = .error ⟨.tooDeep b.limit, o⟩

/-- The value of a reading, and the tokens after it. -/
structure Leaves {α : Type} {ts : List Token} (value : α) (rest : List Token)
    (p : Parsed α ts) : Prop where
  value : p.value = value
  rest : p.rest = rest

section Answers

variable {α β : Type} {b : Bounds} {room d e : Nat} {good : α → Prop} {good' : β → Prop}

theorem answers_ok {a : α} (h : good a) : Answers b room 0 (.ok a) good :=
  ⟨fun _ => ⟨a, rfl, h⟩, fun h => absurd h (Nat.not_lt_zero _)⟩

/-- Going on after an answer. -/
theorem Answers.bind {r : Except Failure α} {f : α → Except Failure β}
    (hr : Answers b room d r good) (hf : ∀ a, good a → Answers b room e (f a) good') :
    Answers b room (max d e) (r >>= f) good' := by
  refine ⟨fun h => ?_, fun h => ?_⟩
  · obtain ⟨a, rfl, ha⟩ := hr.within (by omega)
    exact (hf a ha).within (by omega)
  · by_cases hd : d ≤ room
    · obtain ⟨a, rfl, ha⟩ := hr.within hd
      exact (hf a ha).beyond (by omega)
    · obtain ⟨o, rfl⟩ := hr.beyond (by omega)
      exact ⟨o, rfl⟩

/-- Something made of an answer. -/
theorem Answers.map {r : Except Failure α} {f : α → β} (hr : Answers b room d r good)
    (hf : ∀ a, good a → good' (f a)) : Answers b room d (r >>= fun a => pure (f a)) good' :=
  Nat.max_zero d ▸ hr.bind fun a ha => answers_ok (hf a ha)

/-- One set, list or object further in. -/
theorem Answers.inside {r : Except Failure α} (h : Answers b room d r good) :
    Answers b (room + 1) (d + 1) r good :=
  ⟨fun hd => h.within (by omega), fun hd => h.beyond (by omega)⟩

theorem answers_tooDeep {ts : List Token} : Answers b 0 (d + 1) (.error (b.tooDeep ts)) good :=
  ⟨fun h => absurd h (Nat.not_succ_le_zero d), fun _ => ⟨b.here ts, rfl⟩⟩

end Answers

variable {b : Bounds}

/-! ## 3. Values -/

/-- A value starts with no mark that closes a list. -/
theorem exists_kinds_eq_cons (v : Value) :
    ∃ k ks, v.kinds = k :: ks ∧ k ≠ .mark .closeBracket := by
  cases v <;> exact ⟨_, _, rfl, by simp⟩

mutual

/-- A value is read. -/
theorem literal_answers : ∀ (v : Value) (room : Nat) (ts rest : List Token),
    Spans ts v.kinds rest → Answers b room v.depth (literal b room ts) (Leaves v.literal rest)
  | .string s, room, ts, rest, h => by
      rw [Value.kinds, spans_cons_iff] at h
      obtain ⟨o, ts, rfl, h⟩ := h
      rw [literal.eq_def]
      exact answers_ok ⟨rfl, spans_nil_iff.mp h⟩
  | .number n, room, ts, rest, h => by
      rw [Value.kinds, spans_cons_iff] at h
      obtain ⟨o, ts, rfl, h⟩ := h
      rw [literal.eq_def]
      exact answers_ok ⟨rfl, spans_nil_iff.mp h⟩
  | .word text, room, ts, rest, h => by
      rw [Value.kinds, spans_cons_iff] at h
      obtain ⟨o, ts, rfl, h⟩ := h
      rw [literal.eq_def]
      exact answers_ok ⟨rfl, spans_nil_iff.mp h⟩
  | .list items, room, ts, rest, h => by
      rw [Value.kinds, spans_cons_iff] at h
      obtain ⟨o, ts, rfl, h⟩ := h
      rw [literal.eq_def]
      cases room with
      | zero => exact answers_tooDeep
      | succ room =>
        refine ((literals_answers items room ts rest h).map fun p hp => ?_).inside
        exact ⟨congrArg Literal.list hp.value, hp.rest⟩
  | .object fields, room, ts, rest, h => by
      rw [Value.kinds, spans_cons_iff] at h
      obtain ⟨o, ts, rfl, h⟩ := h
      rw [literal.eq_def]
      cases room with
      | zero => exact answers_tooDeep
      | succ room =>
        refine ((entries_answers fields .objectField .closeBrace [] room ts rest h).map
          fun p hp => ?_).inside
        exact ⟨congrArg Literal.object hp.value, hp.rest⟩

/-- The items of a list are read. -/
theorem literals_answers : ∀ (items : List Value) (room : Nat) (ts rest : List Token),
    Spans ts (Value.itemsKinds items ++ [.mark .closeBracket]) rest →
      Answers b room (Value.itemsDepth items) (literals b room ts)
        (Leaves (Value.literals items) rest)
  | [], room, ts, rest, h => by
      rw [Value.itemsKinds, List.nil_append, spans_cons_iff] at h
      obtain ⟨o, ts, rfl, h⟩ := h
      rw [literals.eq_def]
      exact answers_ok ⟨rfl, spans_nil_iff.mp h⟩
  | item :: items, room, ts, rest, h => by
      rw [Value.itemsKinds, List.append_assoc, spans_append_iff] at h
      obtain ⟨mid, hi, hs⟩ := h
      obtain ⟨k, ks, hk, hne⟩ := exists_kinds_eq_cons item
      obtain ⟨o, ts, rfl, -⟩ := spans_cons_iff.mp (hk ▸ hi)
      rw [literals.eq_def]
      simp only [hne, ↓reduceIte]
      refine (literal_answers item room _ mid hi).bind fun p hp => ?_
      refine (literals_answers items room p.rest rest (hp.rest ▸ hs)).map fun q hq => ?_
      exact ⟨by rw [hp.value, hq.value, Value.literals], hq.rest⟩

/-- Entries are read and put into a table. -/
theorem entries_answers : ∀ (fields : List (String × Value)) (what : Expectation) (close : Mark)
    (table : List (String × Literal)) (room : Nat) (ts rest : List Token),
    Spans ts (Value.entriesKinds fields ++ [.mark close]) rest →
      Answers b room (Value.entriesDepth fields) (entries b room what close table ts)
        (Leaves (Table.putAll table (Value.entries fields)) rest)
  | [], what, close, table, room, ts, rest, h => by
      rw [Value.entriesKinds, List.nil_append, spans_cons_iff] at h
      obtain ⟨o, ts, rfl, h⟩ := h
      rw [entries.eq_def]
      simp only [↓reduceIte]
      exact answers_ok ⟨rfl, spans_nil_iff.mp h⟩
  | (key, value) :: fields, what, close, table, room, ts, rest, h => by
      rw [Value.entriesKinds, List.cons_append, List.cons_append, List.append_assoc,
        spans_cons_iff] at h
      obtain ⟨o, ts, rfl, h⟩ := h
      rw [spans_cons_iff] at h
      obtain ⟨o', ts, rfl, h⟩ := h
      obtain ⟨mid, hv, hs⟩ := spans_append_iff.mp h
      rw [entries.eq_def]
      simp only [reduceCtorEq, ↓reduceIte]
      refine (literal_answers value room ts mid hv).bind fun p hp => ?_
      refine (entries_answers fields what close _ room p.rest rest (hp.rest ▸ hs)).map
        fun q hq => ?_
      exact ⟨by rw [hq.value, hp.value]; rfl, hq.rest⟩

end

/-! ## 4. Heads of selections -/

theorem exists_headKinds_eq_cons (alias? : Option String) (name : String) :
    ∃ first ks, headKinds alias? name = .name first :: ks := by
  cases alias? <;> exact ⟨_, _, rfl⟩

/-- The name of a field is read. -/
theorem fieldName_of_spans {alias? : Option String} {name : String} {ts rest : List Token}
    (h : Spans ts (headKinds alias? name) rest) (hrest : startsWith .colon rest = false) :
    ∃ p, fieldName b ts = .ok p ∧ Leaves name rest p := by
  cases alias? with
  | none =>
    rw [headKinds, spans_cons_iff] at h
    obtain ⟨o, ts, rfl, h⟩ := h
    obtain rfl := spans_nil_iff.mp h
    refine ⟨⟨name, ts, by simp⟩, ?_, rfl, rfl⟩
    simp [fieldName, Grammar.name, bind, Except.bind, hrest]
    rfl
  | some first =>
    rw [headKinds, spans_cons_iff] at h
    obtain ⟨o, ts, rfl, h⟩ := h
    rw [spans_cons_iff] at h
    obtain ⟨o', ts, rfl, h⟩ := h
    rw [spans_cons_iff] at h
    obtain ⟨o'', ts, rfl, h⟩ := h
    obtain rfl := spans_nil_iff.mp h
    exact ⟨⟨name, ts, by simp only [List.length_cons]; omega⟩, rfl, rfl, rfl⟩

/-- A type condition is read. -/
theorem typeCondition_of_spans {type : String} {ts rest : List Token}
    (h : Spans ts [.name "on", .name type] rest) :
    ∃ p, typeCondition b ts = .ok p ∧ Leaves type rest p := by
  rw [spans_cons_iff] at h
  obtain ⟨o, ts, rfl, h⟩ := h
  rw [spans_cons_iff] at h
  obtain ⟨o', ts, rfl, h⟩ := h
  obtain rfl := spans_nil_iff.mp h
  exact ⟨⟨type, ts, by simp only [List.length_cons]; omega⟩, rfl, rfl, rfl⟩

/-- Without a parenthesis there are no arguments. -/
theorem arguments?_eq_none {room : Nat} {ts : List Token} (h : startsWith .openParen ts = false) :
    arguments? b room ts = .ok none := by
  simp [arguments?, h, pure, Except.pure]

/-- Arguments are read and put into a table. -/
theorem arguments?_answers {fields : List (String × Value)} {room : Nat} {ts rest : List Token}
    (h : Spans ts (argumentsKinds (some fields)) rest) :
    Answers b room (Value.entriesDepth fields) (arguments? b room ts)
      fun a => ∃ p, a = some p ∧ Leaves (Table.ofEntries (Value.entries fields)) rest p := by
  have hparen := startsWith_of_spans h .openParen
  rw [argumentsKinds, spans_cons_iff] at h
  obtain ⟨o, ts, rfl, h⟩ := h
  rw [arguments?, hparen]
  exact (entries_answers fields .argumentName .closeParen [] room ts rest h).map
    fun p hp => ⟨_, rfl, hp.value, hp.rest⟩

/-! ## 5. Selections -/

/-- A selection does not start with a mark. -/
theorem exists_phraseKinds_eq_cons (phrase : Phrase) :
    ∃ k ks, phrase.kinds = k :: ks ∧ k ≠ .mark .closeBrace := by
  rcases phrase with ⟨_ | _, _⟩ | ⟨_ | _, _, _, _⟩ | _ <;> exact ⟨_, _, rfl, by simp⟩

/-- A selection starts with a name or the spread. -/
theorem apart_of_spans_phrase {phrase : Phrase} {ts rest : List Token}
    (h : Spans ts phrase.kinds rest) : Apart ts := by
  rcases phrase with ⟨_ | _, _⟩ | ⟨_ | _, _, _, _⟩ | _ <;>
    exact ⟨startsWith_of_spans h _, startsWith_of_spans h _, startsWith_of_spans h _⟩

/-- What comes before selections may also come before what follows these. -/
theorem apart_of_spans_set {set : List Phrase} {ts mid : List Token}
    (h : Spans ts (Phrase.setKinds set) mid) (hmid : Apart mid) : Apart ts := by
  cases set with
  | nil => exact spans_nil_iff.mp h ▸ hmid
  | cons phrase set =>
    obtain ⟨_, hp, -⟩ := spans_append_iff.mp h
    exact apart_of_spans_phrase hp

theorem apart_of_spans_closeBrace {ts rest : List Token}
    (h : Spans ts [.mark .closeBrace] rest) : Apart ts :=
  ⟨startsWith_of_spans h _, startsWith_of_spans h _, startsWith_of_spans h _⟩

/-- Entries of a table that has been filled once change nothing when they are put again. -/
theorem setArguments_ofEntries (s : Selection) (es : List (String × Literal))
    (h : s.arguments = []) : s.setArguments (Table.ofEntries es) = s.setArguments es := by
  have hself := Table.ofEntries_eq_self (Table.nodup_keys_ofEntries es)
  rw [Selection.setArguments, Selection.setArguments, h]
  exact congrArg (Selection.mk · s.allScalars s.items) hself

/-- The set around selections is read where these are. -/
theorem selectionSet_answers {set : List Phrase} {room : Nat} {ts rest : List Token}
    (hset : ∀ (room : Nat) (parent : Selection) (ts rest : List Token),
      Spans ts (Phrase.setKinds set ++ [.mark .closeBrace]) rest →
        Answers b room (Phrase.setDepth set) (selectionsToBrace b room parent ts)
          (Leaves (parent.mergeAll (Phrase.entries set)) rest))
    (h : Spans ts (.mark .openBrace :: (Phrase.setKinds set ++ [.mark .closeBrace])) rest) :
    Answers b room (Phrase.setDepth set + 1) (selectionSet b room ts)
      (Leaves (Selection.empty.mergeAll (Phrase.entries set)) rest) := by
  rw [selectionSet.eq_def]
  cases room with
  | zero => exact answers_tooDeep
  | succ room =>
    rw [spans_cons_iff] at h
    obtain ⟨o, ts, rfl, h⟩ := h
    exact ((hset room .empty ts rest h).map fun p hp => ⟨hp.value, hp.rest⟩).inside

mutual

/-- A selection is read and merged into its set. -/
theorem selection_answers : ∀ (phrase : Phrase) (room : Nat) (parent : Selection)
    (ts rest : List Token), Spans ts phrase.kinds rest → Apart rest →
      Answers b room phrase.depth (selection b room parent ts)
        (Leaves (parent.mergeItem phrase.entry.1 phrase.entry.2) rest)
  | .leaf alias? name, room, parent, ts, rest, h, hrest => by
      obtain ⟨first, ks, hk⟩ := exists_headKinds_eq_cons alias? name
      obtain ⟨p, hname, hp⟩ := fieldName_of_spans (b := b) h hrest.colon
      have hparen : startsWith .openParen p.rest = false := hp.rest ▸ hrest.paren
      have hbrace : startsWith .openBrace p.rest = false := hp.rest ▸ hrest.brace
      rw [Phrase.kinds, hk, spans_cons_iff] at h
      obtain ⟨o, ts, rfl, h⟩ := h
      rw [selection.eq_def]
      simp only [hname, ok_bind, arguments?_eq_none hparen, hbrace]
      exact answers_ok ⟨by rw [hp.value]; rfl, hp.rest⟩
  | .nested alias? name none set, room, parent, ts, rest, h, hrest => by
      obtain ⟨first, ks, hk⟩ := exists_headKinds_eq_cons alias? name
      rw [Phrase.kinds, spans_append_iff] at h
      obtain ⟨mid, hh, hs⟩ := h
      obtain ⟨p, hname, hp⟩ := fieldName_of_spans (b := b) hh (startsWith_of_spans hs _)
      rw [argumentsKinds, List.nil_append, ← hp.rest] at hs
      have hparen : startsWith .openParen p.rest = false := startsWith_of_spans hs _
      have hbrace : startsWith .openBrace p.rest = true := startsWith_of_spans hs _
      rw [hk, spans_cons_iff] at hh
      obtain ⟨o, ts, rfl, -⟩ := hh
      rw [selection.eq_def, Phrase.depth, argumentsDepth, Nat.zero_max]
      simp only [hname, ok_bind, arguments?_eq_none hparen, hbrace, ↓reduceIte]
      refine (selectionSet_answers (selectionsToBrace_answers set) hs).map fun q hq => ?_
      exact ⟨by rw [hp.value, hq.value]; rfl, hq.rest⟩
  | .nested alias? name (some arguments) set, room, parent, ts, rest, h, hrest => by
      obtain ⟨first, ks, hk⟩ := exists_headKinds_eq_cons alias? name
      rw [Phrase.kinds, spans_append_iff] at h
      obtain ⟨mid, hh, hs⟩ := h
      obtain ⟨p, hname, hp⟩ := fieldName_of_spans (b := b) hh (startsWith_of_spans hs _)
      rw [← hp.rest, spans_append_iff] at hs
      obtain ⟨mid', ha, hs⟩ := hs
      rw [hk, spans_cons_iff] at hh
      obtain ⟨o, ts, rfl, -⟩ := hh
      rw [selection.eq_def]
      simp only [hname, ok_bind]
      refine (arguments?_answers ha).bind fun a => ?_
      rintro ⟨q, rfl, hq⟩
      rw [← hq.rest] at hs
      have hbrace : startsWith .openBrace q.rest = true := startsWith_of_spans hs _
      simp only [hbrace, ↓reduceIte]
      refine (selectionSet_answers (selectionsToBrace_answers set) hs).map fun s hs => ?_
      refine ⟨?_, hs.rest⟩
      rw [hp.value, hq.value, hs.value,
        setArguments_ofEntries _ _ (Selection.arguments_mergeAll .empty _)]
      rfl
  | .fragment type set, room, parent, ts, rest, h, hrest => by
      rw [Phrase.kinds, spans_cons_iff] at h
      obtain ⟨o, ts, rfl, h⟩ := h
      obtain ⟨mid, ht, hs⟩ := (@spans_append_iff ts rest [.name "on", .name type] _).mp h
      obtain ⟨p, htype, hp⟩ := typeCondition_of_spans (b := b) ht
      rw [selection.eq_def]
      simp only [htype]
      refine (selectionSet_answers (selectionsToBrace_answers set) (hp.rest ▸ hs)).map
        fun q hq => ?_
      exact ⟨by rw [hp.value, hq.value]; rfl, hq.rest⟩

/-- The selections of a set are read and merged into those before them. -/
theorem selectionsToBrace_answers : ∀ (set : List Phrase) (room : Nat) (parent : Selection)
    (ts rest : List Token), Spans ts (Phrase.setKinds set ++ [.mark .closeBrace]) rest →
      Answers b room (Phrase.setDepth set) (selectionsToBrace b room parent ts)
        (Leaves (parent.mergeAll (Phrase.entries set)) rest)
  | [], room, parent, ts, rest, h => by
      rw [Phrase.setKinds, List.nil_append, spans_cons_iff] at h
      obtain ⟨o, ts, rfl, h⟩ := h
      rw [selectionsToBrace.eq_def]
      exact answers_ok ⟨rfl, spans_nil_iff.mp h⟩
  | phrase :: set, room, parent, ts, rest, h => by
      rw [Phrase.setKinds, List.append_assoc, spans_append_iff] at h
      obtain ⟨mid, hp, hs⟩ := h
      obtain ⟨mid', hs', hc⟩ := spans_append_iff.mp hs
      have happart := apart_of_spans_set hs' (apart_of_spans_closeBrace hc)
      obtain ⟨k, ks, hk, hne⟩ := exists_phraseKinds_eq_cons phrase
      obtain ⟨o, ts, rfl, -⟩ := spans_cons_iff.mp (hk ▸ hp)
      rw [selectionsToBrace.eq_def]
      simp only [hne, ↓reduceIte]
      refine (selection_answers phrase room parent _ mid hp happart).bind fun p hp => ?_
      refine (selectionsToBrace_answers set room p.value p.rest rest (hp.rest ▸ hs)).map
        fun q hq => ?_
      exact ⟨by rw [hq.value, hp.value]; rfl, hq.rest⟩

end

/-- Selections up to the end are read and merged into those before them. -/
theorem selectionsToEnd_answers : ∀ (set : List Phrase) (parent : Selection) (ts : List Token),
    Spans ts (Phrase.setKinds set) [] →
      Answers b b.limit (Phrase.setDepth set) (selectionsToEnd b parent ts)
        (· = parent.mergeAll (Phrase.entries set))
  | [], parent, ts, h => by
      obtain rfl := spans_nil_iff.mp h
      rw [selectionsToEnd.eq_def]
      exact answers_ok rfl
  | phrase :: set, parent, ts, h => by
      rw [Phrase.setKinds, spans_append_iff] at h
      obtain ⟨mid, hp, hs⟩ := h
      have happart : Apart mid := apart_of_spans_set hs ⟨rfl, rfl, rfl⟩
      obtain ⟨k, ks, hk, -⟩ := exists_phraseKinds_eq_cons phrase
      obtain ⟨o, ts, rfl, -⟩ := spans_cons_iff.mp (hk ▸ hp)
      rw [selectionsToEnd.eq_def]
      refine (selection_answers phrase b.limit parent _ mid hp happart).bind fun p hp => ?_
      have ih := selectionsToEnd_answers set p.value p.rest (hp.rest ▸ hs)
      rw [hp.value] at ih ⊢
      exact ih

/-! ## 6. Documents -/

/-- Merging an item leaves a selection of something. -/
theorem isEmpty_mergeItem (s : Selection) (key : Key) (item : Item) :
    (s.mergeItem key item).isEmpty = false := by
  rw [Selection.isEmpty, Selection.mergeItem, Selection.items_withItems, Bool.and_eq_false_iff]
  left
  cases s.items with
  | nil => rfl
  | cons e rest =>
    rw [Table.alter]
    split <;> rfl

theorem isEmpty_mergeAll {s : Selection} (h : s.isEmpty = false) (es : List (Key × Item)) :
    (s.mergeAll es).isEmpty = false := by
  induction es generalizing s with
  | nil => exact h
  | cons e es ih => exact ih (isEmpty_mergeItem s e.1 e.2)

/-- A document selects something if a selection stands at its top. -/
theorem isEmpty_selection {d : Document} (h : d.set ≠ []) : d.selection.isEmpty = false := by
  obtain ⟨phrase, set, hd⟩ := List.exists_cons_of_ne_nil h
  rw [Document.selection, hd]
  exact isEmpty_mergeAll (isEmpty_mergeItem _ _ _) _

/-- A document that starts with a brace is a set with nothing after it. -/
theorem document_of_brace {ts : List Token} (h : startsWith .openBrace ts = true) :
    document b ts = selectionSet b b.limit ts >>= fun set =>
      match set.rest with
      | [] => if set.value.isEmpty then .error ⟨.emptySelection, 0⟩ else .ok set.value
      | t :: _ => .error ⟨.trailingTokens t.kind, t.offset⟩ := by
  cases ts with
  | nil => cases h
  | cons t ts =>
    simp only [document, h, List.isEmpty_cons, Bool.false_eq_true, ↓reduceIte]
    cases selectionSet b b.limit (t :: ts) with
    | error failure => rfl
    | ok set =>
      simp only [pure_bind, ok_bind]
      cases set.rest with
      | nil => cases set.value.isEmpty <;> rfl
      | cons t _ => rfl

/-- Any other document is selections up to the end. -/
theorem document_of_no_brace {t : Token} {ts : List Token}
    (h : startsWith .openBrace (t :: ts) = false) :
    document b (t :: ts) = selectionsToEnd b .empty (t :: ts) >>= fun s =>
      if s.isEmpty then .error ⟨.emptySelection, 0⟩ else .ok s := by
  simp only [document, h, List.isEmpty_cons, Bool.false_eq_true, ↓reduceIte]
  rfl

/-- A document with a selection is read. -/
theorem document_answers {d : Document} {ts : List Token} (hset : d.set ≠ [])
    (h : d.kinds = ts.map Token.kind) :
    Answers b b.limit d.depth (document b ts) (· = d.selection) := by
  have hempty := isEmpty_selection hset
  rw [← spans_end_iff] at h
  cases d with
  | braced set =>
    rw [document_of_brace (startsWith_of_spans h _)]
    refine (selectionSet_answers (selectionsToBrace_answers set) h).bind (e := 0) fun p hp => ?_
    have hvalue : p.value.isEmpty = false := hp.value ▸ hempty
    rw [hp.rest]
    simp only [hvalue, Bool.false_eq_true, ↓reduceIte]
    exact answers_ok hp.value
  | bare set =>
    obtain ⟨phrase, rest, rfl⟩ := List.exists_cons_of_ne_nil hset
    obtain ⟨mid, hp, -⟩ := spans_append_iff.mp h
    obtain ⟨k, ks, hk, -⟩ := exists_phraseKinds_eq_cons phrase
    obtain ⟨o, ts, rfl, -⟩ := spans_cons_iff.mp (hk ▸ hp)
    rw [document_of_no_brace (apart_of_spans_phrase hp).brace, ← Nat.max_zero (Document.depth _)]
    refine (selectionsToEnd_answers (phrase :: rest) .empty _ h).bind fun s hs => ?_
    have hvalue : s.isEmpty = false := hs ▸ hempty
    simp only [hvalue, Bool.false_eq_true, ↓reduceIte]
    exact answers_ok hs

end FieldSelection.Grammar
