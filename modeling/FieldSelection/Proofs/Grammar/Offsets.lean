import FieldSelection.Proofs.Grammar.Derivation

/-!
# Tokens at other offsets

The readers look at the kinds of tokens only; the offsets come up in failures. Where every token
stands at another offset, a reader therefore answers the same, or fails with the same fault at the
offset that corresponds (`Alike`). There is one statement for each reader (`literal_alike`,
`selection_alike`, …), all of them by the reader's own recursion.

What stands in a set does not matter to what is read into it either: the same items are merged into
any two selections (`Grown`).
-/

namespace FieldSelection

/-- The token at another offset. -/
def Token.move (g : Nat → Nat) (t : Token) : Token := ⟨t.kind, g t.offset⟩

/-- The failure at another offset. -/
def Failure.move (g : Nat → Nat) (f : Failure) : Failure := ⟨f.fault, g f.offset⟩

namespace Grammar

/-- The bounds with the end of the source at another offset. -/
def Bounds.move (g : Nat → Nat) (b : Bounds) : Bounds := ⟨g b.stop, b.limit⟩

variable {g : Nat → Nat} {b : Bounds}

/-! ## 1. Outcomes that are alike -/

/-- Both outcomes are results, and related, or both are failures, with one fault at offsets that
    correspond. -/
inductive Alike (g : Nat → Nat) {α β : Type} (related : α → β → Prop) :
    Except Failure α → Except Failure β → Prop where
  | ok {a : α} {a' : β} (h : related a a') : Alike g related (.ok a) (.ok a')
  | error (f : Failure) : Alike g related (.error f) (.error (f.move g))

/-- The values are related, and the tokens after them correspond. -/
structure Follows (g : Nat → Nat) {α β : Type} (related : α → β → Prop) {ts ts' : List Token}
    (p : Parsed α ts) (p' : Parsed β ts') : Prop where
  value : related p.value p'.value
  rest : p'.rest = p.rest.map (Token.move g)

/-- Going on after outcomes that are alike. -/
theorem Alike.bind {α β γ δ : Type} {related : α → β → Prop} {related' : γ → δ → Prop}
    {r : Except Failure α} {r' : Except Failure β} {f : α → Except Failure γ}
    {f' : β → Except Failure δ} (h : Alike g related r r')
    (hf : ∀ a a', related a a' → Alike g related' (f a) (f' a')) :
    Alike g related' (r >>= f) (r' >>= f') := by
  cases h with
  | ok h => exact hf _ _ h
  | error failure => exact .error failure

/-- Something made of outcomes that are alike. -/
theorem Alike.map {α β γ δ : Type} {related : α → β → Prop} {related' : γ → δ → Prop}
    {r : Except Failure α} {r' : Except Failure β} {f : α → γ} {f' : β → δ}
    (h : Alike g related r r') (hf : ∀ a a', related a a' → related' (f a) (f' a')) :
    Alike g related' (r.map f) (r'.map f') := by
  cases h with
  | ok h => exact .ok (hf _ _ h)
  | error failure => exact .error failure

theorem Alike.mono {α β : Type} {related related' : α → β → Prop} {r : Except Failure α}
    {r' : Except Failure β} (h : Alike g related r r')
    (himp : ∀ a a', related a a' → related' a a') : Alike g related' r r' := by
  cases h with
  | ok h => exact .ok (himp _ _ h)
  | error failure => exact .error failure

theorem Alike.exists_of_ok {α β : Type} {related : α → β → Prop} {a : α} {r : Except Failure β}
    (h : Alike g related (.ok a) r) : ∃ a', r = .ok a' ∧ related a a' := by
  cases h with
  | ok h => exact ⟨_, rfl, h⟩

theorem Alike.eq_of_error {α β : Type} {related : α → β → Prop} {f : Failure}
    {r : Except Failure β} (h : Alike g related (.error f) r) : r = .error (f.move g) := by
  cases h with
  | error => rfl

theorem tooDeep_move (b : Bounds) (ts : List Token) :
    (b.move g).tooDeep (ts.map (Token.move g)) = (b.tooDeep ts).move g := by
  cases ts <;> rfl

theorem startsWith_move (m : Mark) (ts : List Token) :
    startsWith m (ts.map (Token.move g)) = startsWith m ts := by
  cases ts <;> rfl

theorem map_kind_move (ts : List Token) :
    (ts.map (Token.move g)).map Token.kind = ts.map Token.kind :=
  List.map_map

/-! ## 2. Names and marks -/

theorem name_alike (what : Expectation) (ts ts' : List Token)
    (h : ts' = ts.map (Token.move g)) :
    Alike g (Follows g Eq) (name b what ts) (name (b.move g) what ts') := by
  subst h
  match ts with
  | [] | ⟨.string _, _⟩ :: _ | ⟨.number _, _⟩ :: _ | ⟨.mark _, _⟩ :: _ | ⟨.spread, _⟩ :: _ =>
    exact .error _
  | ⟨.name word, o⟩ :: ts => exact .ok ⟨rfl, rfl⟩

theorem mark_alike (m : Mark) (ts ts' : List Token) (h : ts' = ts.map (Token.move g)) :
    Alike g (Follows g Eq) (mark b m ts) (mark (b.move g) m ts') := by
  subst h
  match ts with
  | [] => exact .error _
  | ⟨k, o⟩ :: ts =>
    rw [List.map_cons, mark, mark, Token.move]
    split
    · exact .ok ⟨rfl, rfl⟩
    · exact .error _

/-! ## 3. Values -/

mutual

theorem literal_alike : ∀ (room : Nat) (ts ts' : List Token), ts' = ts.map (Token.move g) →
    Alike g (Follows g Eq) (literal b room ts) (literal (b.move g) room ts')
  | _, [], _, rfl => by
      unfold literal
      exact .error _
  | _, ⟨.string _, _⟩ :: _, _, rfl | _, ⟨.number _, _⟩ :: _, _, rfl
  | _, ⟨.name _, _⟩ :: _, _, rfl => by
      unfold literal
      exact .ok ⟨rfl, rfl⟩
  | 0, ⟨.mark .openBracket, _⟩ :: _, _, rfl | 0, ⟨.mark .openBrace, _⟩ :: _, _, rfl => by
      unfold literal
      exact .error _
  | room + 1, ⟨.mark .openBracket, _⟩ :: ts, _, rfl => by
      unfold literal
      refine (literals_alike room ts _ rfl).bind fun p p' hp => .ok ⟨?_, hp.rest⟩
      exact congrArg Literal.list hp.value
  | room + 1, ⟨.mark .openBrace, _⟩ :: ts, _, rfl => by
      unfold literal
      refine (entries_alike room _ _ [] ts _ rfl).bind fun p p' hp => .ok ⟨?_, hp.rest⟩
      exact congrArg Literal.object hp.value
  | _, ⟨.mark .closeBrace, _⟩ :: _, _, rfl | _, ⟨.mark .closeBracket, _⟩ :: _, _, rfl
  | _, ⟨.mark .openParen, _⟩ :: _, _, rfl | _, ⟨.mark .closeParen, _⟩ :: _, _, rfl
  | _, ⟨.mark .colon, _⟩ :: _, _, rfl | _, ⟨.spread, _⟩ :: _, _, rfl => by
      unfold literal
      exact .error _
  termination_by _ ts => 2 * ts.length

theorem literals_alike : ∀ (room : Nat) (ts ts' : List Token), ts' = ts.map (Token.move g) →
    Alike g (Follows g Eq) (literals b room ts) (literals (b.move g) room ts')
  | _, [], _, rfl => by
      unfold literals
      exact .error _
  | room, ⟨k, o⟩ :: ts, _, rfl => by
      rw [List.map_cons]
      unfold literals
      by_cases hk : k = .mark .closeBracket
      · simp only [Token.move, hk, ↓reduceIte]
        exact .ok ⟨rfl, rfl⟩
      · simp only [Token.move, hk, ↓reduceIte]
        refine (literal_alike room (⟨k, o⟩ :: ts) _ rfl).bind fun p p' hp => ?_
        have hshort : p.rest.length < ts.length + 1 := p.shorter
        refine (literals_alike room p.rest _ hp.rest).bind fun q q' hq => .ok ⟨?_, hq.rest⟩
        rw [hp.value, hq.value]
  termination_by _ ts => 2 * ts.length + 1

theorem entries_alike : ∀ (room : Nat) (what : Expectation) (close : Mark)
    (table : List (String × Literal)) (ts ts' : List Token), ts' = ts.map (Token.move g) →
    Alike g (Follows g Eq) (entries b room what close table ts)
      (entries (b.move g) room what close table ts')
  | _, _, _, _, [], _, rfl => by
      unfold entries
      exact .error _
  | room, what, close, table, ⟨k, o⟩ :: ts, _, rfl => by
      rw [List.map_cons]
      unfold entries
      by_cases hk : k = .mark close
      · simp only [Token.move, hk, ↓reduceIte]
        exact .ok ⟨rfl, rfl⟩
      · simp only [Token.move, hk, ↓reduceIte]
        refine (name_alike what (⟨k, o⟩ :: ts) _ rfl).bind fun key key' hkey => ?_
        have h1 : key.rest.length < ts.length + 1 := key.shorter
        refine (mark_alike .colon key.rest _ hkey.rest).bind fun colon colon' hcolon => ?_
        have h2 := colon.shorter
        refine (literal_alike room colon.rest _ hcolon.rest).bind fun value value' hvalue => ?_
        have h3 := value.shorter
        rw [← hkey.value, ← hvalue.value]
        exact (entries_alike room what close _ value.rest _ hvalue.rest).bind
          fun more more' hmore => .ok ⟨hmore.value, hmore.rest⟩
  termination_by _ _ _ _ ts => 2 * ts.length + 1

end

/-! ## 4. Heads of selections -/

theorem fieldName_alike (ts ts' : List Token) (h : ts' = ts.map (Token.move g)) :
    Alike g (Follows g Eq) (fieldName b ts) (fieldName (b.move g) ts') := by
  unfold fieldName
  refine (name_alike .name ts ts' h).bind fun first first' hfirst => ?_
  have hcolon : startsWith .colon first'.rest = startsWith .colon first.rest := by
    rw [hfirst.rest, startsWith_move]
  rw [hcolon]
  split
  · refine (mark_alike .colon first.rest _ hfirst.rest).bind fun colon colon' hcolon => ?_
    exact (name_alike .name colon.rest _ hcolon.rest).bind
      fun second second' hsecond => .ok ⟨hsecond.value, hsecond.rest⟩
  · exact .ok hfirst

theorem typeCondition_alike (ts ts' : List Token) (h : ts' = ts.map (Token.move g)) :
    Alike g (Follows g Eq) (typeCondition b ts) (typeCondition (b.move g) ts') := by
  subst h
  match ts with
  | [] => exact .error _
  | ⟨k, o⟩ :: ts =>
    rw [List.map_cons]
    unfold typeCondition
    by_cases hk : k = .name "on"
    · simp only [Token.move, hk, ↓reduceIte]
      exact (name_alike .typeName ts _ rfl).bind
        fun type type' htype => .ok ⟨htype.value, htype.rest⟩
    · simp only [Token.move, hk, ↓reduceIte]
      exact .error _

/-- Neither has arguments, or both have the same. -/
def OptionFollows (g : Nat → Nat) {α : Type} {ts ts' : List Token} (a : Option (Parsed α ts))
    (a' : Option (Parsed α ts')) : Prop :=
  (a = none ∧ a' = none) ∨ ∃ p p', a = some p ∧ a' = some p' ∧ Follows g Eq p p'

theorem arguments?_alike (room : Nat) (ts ts' : List Token) (h : ts' = ts.map (Token.move g)) :
    Alike g (OptionFollows g) (arguments? b room ts) (arguments? (b.move g) room ts') := by
  have hparen : startsWith .openParen ts' = startsWith .openParen ts := by
    rw [h, startsWith_move]
  rw [arguments?, arguments?, hparen]
  split
  · refine (mark_alike .openParen ts ts' h).bind fun paren paren' hparen => ?_
    exact (entries_alike room _ _ [] paren.rest _ hparen.rest).bind fun table table' htable =>
      .ok (Or.inr ⟨_, _, rfl, rfl, htable.value, htable.rest⟩)
  · exact .ok (Or.inl ⟨rfl, rfl⟩)

/-! ## 5. Selections -/

/-- The same items were merged into two selections. -/
def Grown (parent parent' s s' : Selection) : Prop :=
  ∃ es, s = parent.mergeAll es ∧ s' = parent'.mergeAll es

theorem grown_mergeItem (parent parent' : Selection) (key : Key) (item : Item) :
    Grown parent parent' (parent.mergeItem key item) (parent'.mergeItem key item) :=
  ⟨[(key, item)], rfl, rfl⟩

theorem Grown.trans {r r' s s' t t' : Selection} (h : Grown r r' s s') (h' : Grown s s' t t') :
    Grown r r' t t' := by
  obtain ⟨es, rfl, rfl⟩ := h
  obtain ⟨fs, rfl, rfl⟩ := h'
  exact ⟨es ++ fs, (r.mergeAll_append es fs).symm, (r'.mergeAll_append es fs).symm⟩

/-- Into one selection, the same items make one selection. -/
theorem Grown.eq {r s s' : Selection} (h : Grown r r s s') : s = s' := by
  obtain ⟨es, rfl, rfl⟩ := h
  rfl

mutual

theorem selection_alike : ∀ (room : Nat) (parent parent' : Selection) (ts ts' : List Token),
    ts' = ts.map (Token.move g) →
      Alike g (Follows g (Grown parent parent')) (selection b room parent ts)
        (selection (b.move g) room parent' ts')
  | _, _, _, [], _, rfl | _, _, _, ⟨.string _, _⟩ :: _, _, rfl
  | _, _, _, ⟨.number _, _⟩ :: _, _, rfl | _, _, _, ⟨.mark _, _⟩ :: _, _, rfl => by
      unfold selection
      exact .error _
  | room, parent, parent', ⟨.spread, o⟩ :: ts, _, rfl => by
      unfold selection
      refine (typeCondition_alike ts _ rfl).bind fun type type' htype => ?_
      have hshort := type.shorter
      rw [← htype.value]
      refine (selectionSet_alike room type.rest _ htype.rest).bind fun set set' hset => ?_
      rw [← hset.value]
      exact .ok ⟨grown_mergeItem parent parent' _ _, hset.rest⟩
  | room, parent, parent', ⟨.name first, o⟩ :: ts, _, rfl => by
      unfold selection
      refine (fieldName_alike (⟨.name first, o⟩ :: ts) _ rfl).bind fun field field' hfield => ?_
      have hshort : field.rest.length < ts.length + 1 := field.shorter
      refine (arguments?_alike room field.rest _ hfield.rest).bind fun a a' ha => ?_
      rw [← hfield.value]
      rcases ha with ⟨rfl, rfl⟩ | ⟨p, p', rfl, rfl, hp⟩
      · have hbrace : startsWith .openBrace field'.rest = startsWith .openBrace field.rest := by
          rw [hfield.rest, startsWith_move]
        simp only [hbrace]
        split
        · refine (selectionSet_alike room field.rest _ hfield.rest).bind fun set set' hset => ?_
          rw [← hset.value]
          exact .ok ⟨grown_mergeItem parent parent' _ _, hset.rest⟩
        · exact .ok ⟨grown_mergeItem parent parent' _ _, hfield.rest⟩
      · have hshort' := p.shorter
        have hbrace : startsWith .openBrace p'.rest = startsWith .openBrace p.rest := by
          rw [hp.rest, startsWith_move]
        simp only [hbrace]
        split
        · refine (selectionSet_alike room p.rest _ hp.rest).bind fun set set' hset => ?_
          rw [← hset.value, ← hp.value]
          exact .ok ⟨grown_mergeItem parent parent' _ _, hset.rest⟩
        · exact .error _
  termination_by _ _ _ ts => 2 * ts.length

theorem selectionSet_alike : ∀ (room : Nat) (ts ts' : List Token), ts' = ts.map (Token.move g) →
    Alike g (Follows g Eq) (selectionSet b room ts) (selectionSet (b.move g) room ts')
  | 0, ts, _, rfl => by
      unfold selectionSet
      simp only [tooDeep_move]
      exact .error _
  | room + 1, ts, _, rfl => by
      unfold selectionSet
      refine (mark_alike .openBrace ts _ rfl).bind fun brace brace' hbrace => ?_
      have hshort := brace.shorter
      exact (selectionsToBrace_alike room .empty .empty brace.rest _ hbrace.rest).bind
        fun set set' hset => .ok ⟨hset.value.eq, hset.rest⟩
  termination_by _ ts => 2 * ts.length

theorem selectionsToBrace_alike : ∀ (room : Nat) (parent parent' : Selection)
    (ts ts' : List Token), ts' = ts.map (Token.move g) →
      Alike g (Follows g (Grown parent parent')) (selectionsToBrace b room parent ts)
        (selectionsToBrace (b.move g) room parent' ts')
  | _, _, _, [], _, rfl => by
      unfold selectionsToBrace
      exact .error _
  | room, parent, parent', ⟨k, o⟩ :: ts, _, rfl => by
      rw [List.map_cons]
      unfold selectionsToBrace
      by_cases hk : k = .mark .closeBrace
      · simp only [Token.move, hk, ↓reduceIte]
        exact .ok ⟨⟨[], rfl, rfl⟩, rfl⟩
      · simp only [Token.move, hk, ↓reduceIte]
        refine (selection_alike room parent parent' (⟨k, o⟩ :: ts) _ rfl).bind
          fun next next' hnext => ?_
        have hshort : next.rest.length < ts.length + 1 := next.shorter
        exact (selectionsToBrace_alike room next.value next'.value next.rest _ hnext.rest).bind
          fun set set' hset => .ok ⟨hnext.value.trans hset.value, hset.rest⟩
  termination_by _ _ _ ts => 2 * ts.length + 1

end

/-- **Selections up to the end are read alike**, into whatever they are merged. -/
theorem selectionsToEnd_alike : ∀ (parent parent' : Selection) (ts ts' : List Token),
    ts' = ts.map (Token.move g) →
      Alike g (Grown parent parent') (selectionsToEnd b parent ts)
        (selectionsToEnd (b.move g) parent' ts')
  | _, _, [], _, rfl => by
      unfold selectionsToEnd
      exact .ok ⟨[], rfl, rfl⟩
  | parent, parent', t :: ts, _, rfl => by
      rw [List.map_cons]
      unfold selectionsToEnd
      refine (selection_alike b.limit parent parent' (t :: ts) _ rfl).bind
        fun next next' hnext => ?_
      have hshort : next.rest.length < ts.length + 1 := next.shorter
      exact (selectionsToEnd_alike next.value next'.value next.rest _ hnext.rest).mono
        fun _ _ h => hnext.value.trans h
  termination_by _ _ ts => ts.length

end Grammar

end FieldSelection
