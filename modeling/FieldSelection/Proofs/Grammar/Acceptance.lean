import FieldSelection.Proofs.Grammar.Reading

/-!
# What is read is derived

The other direction of `Reading`: where a reader succeeds, the tokens that it took are those of a
derivation with the answer as its meaning, no deeper than there was room (`exists_value`,
`exists_phrase`, …). The induction is the readers' own, on the number of tokens.

Together with `Reading` this is the grammar's theorem: a text is accepted exactly if its tokens are
derived, and the answer is what the derivation means (`parseWithin_eq_ok_iff`).
-/

namespace FieldSelection

namespace Grammar

variable {b : Bounds}

/-! ## 1. Single tokens -/

theorem spans_of_name_eq_ok {what : Expectation} {ts : List Token} {p : Parsed String ts}
    (h : name b what ts = .ok p) : Spans ts [.name p.value] p.rest := by
  unfold name at h
  split at h
  · cases h
    exact spans_cons_iff.mpr ⟨_, _, rfl, spans_nil_iff.mpr rfl⟩
  · cases h

theorem spans_of_mark_eq_ok {m : Mark} {ts : List Token} {p : Parsed Unit ts}
    (h : mark b m ts = .ok p) : Spans ts [.mark m] p.rest := by
  cases ts with
  | nil => cases h
  | cons t ts =>
    rw [mark] at h
    split at h
    · rename_i ht
      cases h
      exact spans_cons_iff.mpr ⟨t.offset, ts, by rw [← ht], spans_nil_iff.mpr rfl⟩
    · cases h

/-- One token of a kind, and no more. -/
theorem spans_one (k : Token.Kind) (o : Nat) (ts : List Token) : Spans (⟨k, o⟩ :: ts) [k] ts :=
  spans_cons_iff.mpr ⟨o, ts, rfl, spans_nil_iff.mpr rfl⟩

theorem Spans.append {ts mid rest : List Token} {ks ls : List Token.Kind} (h : Spans ts ks mid)
    (h' : Spans mid ls rest) : Spans ts (ks ++ ls) rest :=
  spans_append_iff.mpr ⟨mid, h, h'⟩

/-! ## 2. Values -/

mutual

/-- A value that is read is derived. -/
theorem exists_value : ∀ (room : Nat) (ts : List Token) (p : Parsed Literal ts),
    literal b room ts = .ok p →
      ∃ v : Value, Spans ts v.kinds p.rest ∧ v.depth ≤ room ∧ v.literal = p.value
  | _, [], _, h => by
      rw [literal.eq_def] at h
      cases h
  | _, ⟨.string s, o⟩ :: ts, _, h => by
      rw [literal.eq_def] at h
      cases h
      exact ⟨.string s, spans_one _ o ts, Nat.zero_le _, rfl⟩
  | _, ⟨.number n, o⟩ :: ts, _, h => by
      rw [literal.eq_def] at h
      cases h
      exact ⟨.number n, spans_one _ o ts, Nat.zero_le _, rfl⟩
  | _, ⟨.name text, o⟩ :: ts, _, h => by
      rw [literal.eq_def] at h
      cases h
      exact ⟨.word text, spans_one _ o ts, Nat.zero_le _, rfl⟩
  | 0, ⟨.mark .openBracket, _⟩ :: _, _, h | 0, ⟨.mark .openBrace, _⟩ :: _, _, h => by
      rw [literal.eq_def] at h
      cases h
  | room + 1, ⟨.mark .openBracket, o⟩ :: ts, _, h => by
      rw [literal.eq_def] at h
      obtain ⟨q, hq, h⟩ := bind_eq_ok_iff.mp h
      cases h
      obtain ⟨items, hs, hd, hv⟩ := exists_items room ts q hq
      exact ⟨.list items, (spans_one _ o ts).append hs, Nat.succ_le_succ hd,
        congrArg Literal.list hv⟩
  | room + 1, ⟨.mark .openBrace, o⟩ :: ts, _, h => by
      rw [literal.eq_def] at h
      obtain ⟨q, hq, h⟩ := bind_eq_ok_iff.mp h
      cases h
      obtain ⟨fields, hs, hd, hv⟩ := exists_fields room .objectField .closeBrace [] ts q hq
      exact ⟨.object fields, (spans_one _ o ts).append hs, Nat.succ_le_succ hd,
        congrArg Literal.object hv⟩
  | _, ⟨.mark .closeBrace, _⟩ :: _, _, h | _, ⟨.mark .closeBracket, _⟩ :: _, _, h
  | _, ⟨.mark .openParen, _⟩ :: _, _, h | _, ⟨.mark .closeParen, _⟩ :: _, _, h
  | _, ⟨.mark .colon, _⟩ :: _, _, h | _, ⟨.spread, _⟩ :: _, _, h => by
      rw [literal.eq_def] at h
      cases h
  termination_by _ ts => 2 * ts.length

/-- The items of a list that are read are derived. -/
theorem exists_items : ∀ (room : Nat) (ts : List Token) (p : Parsed (List Literal) ts),
    literals b room ts = .ok p →
      ∃ items : List Value, Spans ts (Value.itemsKinds items ++ [.mark .closeBracket]) p.rest ∧
        Value.itemsDepth items ≤ room ∧ Value.literals items = p.value
  | _, [], _, h => by
      rw [literals.eq_def] at h
      cases h
  | room, ⟨k, o⟩ :: ts, p, h => by
      rw [literals.eq_def] at h
      simp only at h
      split at h
      · rename_i hk
        subst hk
        cases h
        exact ⟨[], spans_one _ o ts, Nat.zero_le _, rfl⟩
      · obtain ⟨q, hq, h⟩ := bind_eq_ok_iff.mp h
        obtain ⟨r, hr, h⟩ := bind_eq_ok_iff.mp h
        cases h
        have hshort : q.rest.length < ts.length + 1 := q.shorter
        obtain ⟨item, hs, hd, hv⟩ := exists_value room _ q hq
        obtain ⟨items, hs', hd', hv'⟩ := exists_items room q.rest r hr
        refine ⟨item :: items, ?_, Nat.max_le.mpr ⟨hd, hd'⟩, by rw [Value.literals, hv, hv']⟩
        rw [Value.itemsKinds, List.append_assoc]
        exact hs.append hs'
  termination_by _ ts => 2 * ts.length + 1

/-- Entries that are read are derived. -/
theorem exists_fields : ∀ (room : Nat) (what : Expectation) (close : Mark)
    (table : List (String × Literal)) (ts : List Token) (p : Parsed (List (String × Literal)) ts),
    entries b room what close table ts = .ok p →
      ∃ fields : List (String × Value),
        Spans ts (Value.entriesKinds fields ++ [.mark close]) p.rest ∧
          Value.entriesDepth fields ≤ room ∧
            Table.putAll table (Value.entries fields) = p.value
  | _, _, _, _, [], _, h => by
      rw [entries.eq_def] at h
      cases h
  | room, what, close, table, ⟨k, o⟩ :: ts, p, h => by
      rw [entries.eq_def] at h
      simp only at h
      split at h
      · rename_i hk
        subst hk
        cases h
        exact ⟨[], spans_one _ o ts, Nat.zero_le _, rfl⟩
      · obtain ⟨key, hkey, h⟩ := bind_eq_ok_iff.mp h
        obtain ⟨colon, hcolon, h⟩ := bind_eq_ok_iff.mp h
        obtain ⟨value, hvalue, h⟩ := bind_eq_ok_iff.mp h
        obtain ⟨more, hmore, h⟩ := bind_eq_ok_iff.mp h
        cases h
        have h1 : key.rest.length < ts.length + 1 := key.shorter
        have h2 := colon.shorter
        have h3 := value.shorter
        obtain ⟨v, hs, hd, hv⟩ := exists_value room _ value hvalue
        obtain ⟨fields, hs', hd', hv'⟩ := exists_fields room what close _ value.rest more hmore
        refine ⟨(key.value, v) :: fields, ?_, Nat.max_le.mpr ⟨hd, hd'⟩, ?_⟩
        · have hhead := (spans_of_name_eq_ok hkey).append (spans_of_mark_eq_ok hcolon)
          rw [Value.entriesKinds, List.cons_append, List.cons_append, List.append_assoc]
          exact hhead.append (hs.append hs')
        · rw [← hv', ← hv]
          rfl
  termination_by _ _ _ _ ts => 2 * ts.length + 1

end

/-! ## 3. Heads of selections -/

/-- The name of a field that is read is derived. -/
theorem exists_head {ts : List Token} {p : Parsed String ts} (h : fieldName b ts = .ok p) :
    ∃ alias?, Spans ts (headKinds alias? p.value) p.rest := by
  rw [fieldName] at h
  obtain ⟨first, hfirst, h⟩ := bind_eq_ok_iff.mp h
  split at h
  · obtain ⟨colon, hcolon, h⟩ := bind_eq_ok_iff.mp h
    obtain ⟨second, hsecond, h⟩ := bind_eq_ok_iff.mp h
    cases h
    exact ⟨some first.value, (spans_of_name_eq_ok hfirst).append
      ((spans_of_mark_eq_ok hcolon).append (spans_of_name_eq_ok hsecond))⟩
  · cases h
    exact ⟨none, spans_of_name_eq_ok hfirst⟩

/-- A type condition that is read is derived. -/
theorem spans_of_typeCondition_eq_ok {ts : List Token} {p : Parsed String ts}
    (h : typeCondition b ts = .ok p) : Spans ts [.name "on", .name p.value] p.rest := by
  match ts with
  | [] => cases h
  | ⟨k, o⟩ :: ts =>
    rw [typeCondition] at h
    simp only at h
    split at h
    · rename_i hk
      subst hk
      obtain ⟨type, htype, h⟩ := bind_eq_ok_iff.mp h
      cases h
      exact (spans_one _ o ts).append (spans_of_name_eq_ok htype)
    · cases h

/-- Arguments that are read are derived. -/
theorem exists_arguments {room : Nat} {ts : List Token} {p : Parsed (List (String × Literal)) ts}
    (h : arguments? b room ts = .ok (some p)) :
    ∃ fields : List (String × Value), Spans ts (argumentsKinds (some fields)) p.rest ∧
      Value.entriesDepth fields ≤ room ∧ Table.ofEntries (Value.entries fields) = p.value := by
  rw [arguments?] at h
  split at h
  · obtain ⟨paren, hparen, h⟩ := bind_eq_ok_iff.mp h
    obtain ⟨table, htable, h⟩ := bind_eq_ok_iff.mp h
    cases h
    obtain ⟨fields, hs, hd, hv⟩ := exists_fields room _ _ _ _ table htable
    exact ⟨fields, (spans_of_mark_eq_ok hparen).append hs, hd, hv⟩
  · cases h

/-! ## 4. Selections -/

mutual

/-- A selection that is read is derived, and its entry is merged into its set. -/
theorem exists_phrase : ∀ (room : Nat) (parent : Selection) (ts : List Token)
    (p : Parsed Selection ts), selection b room parent ts = .ok p →
      ∃ phrase : Phrase, Spans ts phrase.kinds p.rest ∧ phrase.depth ≤ room ∧
        parent.mergeItem phrase.entry.1 phrase.entry.2 = p.value
  | _, _, [], _, h | _, _, ⟨.string _, _⟩ :: _, _, h | _, _, ⟨.number _, _⟩ :: _, _, h
  | _, _, ⟨.mark _, _⟩ :: _, _, h => by
      rw [selection.eq_def] at h
      cases h
  | room, parent, ⟨.spread, o⟩ :: ts, _, h => by
      rw [selection.eq_def] at h
      obtain ⟨type, htype, h⟩ := bind_eq_ok_iff.mp h
      obtain ⟨q, hq, h⟩ := bind_eq_ok_iff.mp h
      cases h
      have hshort := type.shorter
      obtain ⟨set, hs, hd, hv⟩ := exists_set room type.rest q hq
      refine ⟨.fragment type.value set, ?_, hd, by rw [← hv]; rfl⟩
      exact (spans_one _ o ts).append ((spans_of_typeCondition_eq_ok htype).append hs)
  | room, parent, ⟨.name first, o⟩ :: ts, p, h => by
      rw [selection.eq_def] at h
      obtain ⟨field, hfield, h⟩ := bind_eq_ok_iff.mp h
      have hshort : field.rest.length < ts.length + 1 := field.shorter
      obtain ⟨alias?, hhead⟩ := exists_head hfield
      obtain ⟨a, ha, h⟩ := bind_eq_ok_iff.mp h
      match a with
      | none =>
        simp only at h
        split at h
        · obtain ⟨q, hq, h⟩ := bind_eq_ok_iff.mp h
          cases h
          obtain ⟨set, hs, hd, hv⟩ := exists_set room field.rest q hq
          refine ⟨.nested alias? field.value none set, hhead.append hs, ?_, by rw [← hv]; rfl⟩
          exact Nat.max_le.mpr ⟨Nat.zero_le _, hd⟩
        · cases h
          exact ⟨.leaf alias? field.value, hhead, Nat.zero_le _, rfl⟩
      | some q =>
        simp only at h
        have hshort' := q.shorter
        obtain ⟨fields, hargs, hd', hv'⟩ := exists_arguments ha
        split at h
        · obtain ⟨s, hs, h⟩ := bind_eq_ok_iff.mp h
          cases h
          obtain ⟨set, hset, hd, hv⟩ := exists_set room q.rest s hs
          refine ⟨.nested alias? field.value (some fields) set, hhead.append (hargs.append hset),
            Nat.max_le.mpr ⟨hd', hd⟩, ?_⟩
          rw [← hv, ← hv', setArguments_ofEntries _ _ (Selection.arguments_mergeAll .empty _)]
          rfl
        · cases h
  termination_by _ _ ts => 2 * ts.length

/-- A set that is read is derived. -/
theorem exists_set : ∀ (room : Nat) (ts : List Token) (p : Parsed Selection ts),
    selectionSet b room ts = .ok p →
      ∃ set : List Phrase,
        Spans ts (.mark .openBrace :: (Phrase.setKinds set ++ [.mark .closeBrace])) p.rest ∧
          Phrase.setDepth set + 1 ≤ room ∧
            Selection.empty.mergeAll (Phrase.entries set) = p.value
  | 0, _, _, h => by
      rw [selectionSet.eq_def] at h
      cases h
  | room + 1, ts, _, h => by
      rw [selectionSet.eq_def] at h
      obtain ⟨brace, hbrace, h⟩ := bind_eq_ok_iff.mp h
      obtain ⟨q, hq, h⟩ := bind_eq_ok_iff.mp h
      cases h
      have hshort := brace.shorter
      obtain ⟨set, hs, hd, hv⟩ := exists_setRest room .empty brace.rest q hq
      exact ⟨set, (spans_of_mark_eq_ok hbrace).append hs, Nat.succ_le_succ hd, hv⟩
  termination_by _ ts => 2 * ts.length

/-- Selections that are read up to a closing brace are derived. -/
theorem exists_setRest : ∀ (room : Nat) (parent : Selection) (ts : List Token)
    (p : Parsed Selection ts), selectionsToBrace b room parent ts = .ok p →
      ∃ set : List Phrase, Spans ts (Phrase.setKinds set ++ [.mark .closeBrace]) p.rest ∧
        Phrase.setDepth set ≤ room ∧ parent.mergeAll (Phrase.entries set) = p.value
  | _, _, [], _, h => by
      rw [selectionsToBrace.eq_def] at h
      cases h
  | room, parent, ⟨k, o⟩ :: ts, _, h => by
      rw [selectionsToBrace.eq_def] at h
      simp only at h
      split at h
      · rename_i hk
        subst hk
        cases h
        exact ⟨[], spans_one _ o ts, Nat.zero_le _, rfl⟩
      · obtain ⟨q, hq, h⟩ := bind_eq_ok_iff.mp h
        obtain ⟨r, hr, h⟩ := bind_eq_ok_iff.mp h
        cases h
        have hshort : q.rest.length < ts.length + 1 := q.shorter
        obtain ⟨phrase, hs, hd, hv⟩ := exists_phrase room parent _ q hq
        obtain ⟨set, hs', hd', hv'⟩ := exists_setRest room q.value q.rest r hr
        refine ⟨phrase :: set, ?_, Nat.max_le.mpr ⟨hd, hd'⟩, by rw [← hv', ← hv]; rfl⟩
        rw [Phrase.setKinds, List.append_assoc]
        exact hs.append hs'
  termination_by _ _ ts => 2 * ts.length + 1

end

/-- Selections that are read up to the end are derived. -/
theorem exists_bareSet : ∀ (parent : Selection) (ts : List Token) (s : Selection),
    selectionsToEnd b parent ts = .ok s →
      ∃ set : List Phrase, Spans ts (Phrase.setKinds set) [] ∧
        Phrase.setDepth set ≤ b.limit ∧ parent.mergeAll (Phrase.entries set) = s
  | parent, [], _, h => by
      rw [selectionsToEnd.eq_def] at h
      cases h
      exact ⟨[], spans_nil_iff.mpr rfl, Nat.zero_le _, rfl⟩
  | parent, t :: ts, s, h => by
      rw [selectionsToEnd.eq_def] at h
      obtain ⟨q, hq, h⟩ := bind_eq_ok_iff.mp h
      have hshort : q.rest.length < ts.length + 1 := q.shorter
      obtain ⟨phrase, hs, hd, hv⟩ := exists_phrase b.limit parent _ q hq
      obtain ⟨set, hs', hd', hv'⟩ := exists_bareSet q.value q.rest s h
      exact ⟨phrase :: set, hs.append hs', Nat.max_le.mpr ⟨hd, hd'⟩, by rw [← hv', ← hv]; rfl⟩
  termination_by _ ts => ts.length

/-! ## 5. Documents -/

/-- A document without a selection at its top selects nothing. -/
theorem set_ne_nil {set : List Phrase} {s : Selection}
    (h : Selection.empty.mergeAll (Phrase.entries set) = s) (hs : s.isEmpty = false) :
    set ≠ [] := by
  rintro rfl
  subst h
  cases hs

/-- A document that is read is derived. -/
theorem exists_document {ts : List Token} {s : Selection} (h : document b ts = .ok s) :
    ∃ d : Document, d.kinds = ts.map Token.kind ∧ d.set ≠ [] ∧ d.depth ≤ b.limit ∧
      d.selection = s := by
  match ts with
  | [] => cases h
  | t :: ts =>
    by_cases hbrace : startsWith .openBrace (t :: ts) = true
    · rw [document_of_brace hbrace] at h
      obtain ⟨p, hp, h⟩ := bind_eq_ok_iff.mp h
      obtain ⟨set, hs, hd, hv⟩ := exists_set b.limit _ p hp
      cases hrest : p.rest with
      | nil =>
        rw [hrest] at hs h
        simp only at h
        split at h
        · cases h
        · rename_i hempty
          cases h
          exact ⟨.braced set, spans_end_iff.mp hs, set_ne_nil hv (by simpa using hempty), hd, hv⟩
      | cons t' rest =>
        rw [hrest] at h
        cases h
    · rw [document_of_no_brace (by simpa using hbrace)] at h
      obtain ⟨s', hs', h⟩ := bind_eq_ok_iff.mp h
      obtain ⟨set, hs, hd, hv⟩ := exists_bareSet .empty _ s' hs'
      split at h
      · cases h
      · rename_i hempty
        cases h
        exact ⟨.bare set, spans_end_iff.mp hs, set_ne_nil hv (by simpa using hempty), hd, hv⟩

end Grammar

open Grammar

/-- What a text is read as is what its derivation means. -/
theorem Selection.exists_derivation {limit : Nat} {source : String} {s : Selection}
    (h : parseWithin limit source = .ok s) :
    ∃ ts, tokens 0 source.toList = .ok ts ∧
      ∃ d : Document, d.kinds = ts.map Token.kind ∧ d.set ≠ [] ∧ d.depth ≤ limit ∧
        d.selection = s := by
  rw [parseWithin, mapError_eq_ok_iff, bind_eq_ok_iff] at h
  obtain ⟨ts, hts, h⟩ := h
  exact ⟨ts, hts, exists_document h⟩

/-- A text whose tokens are derived is read if it is not too deep, and else fails for its depth. -/
theorem Selection.parseWithin_of_derivation (limit : Nat) {source : String} {ts : List Token}
    {d : Document} (hts : tokens 0 source.toList = .ok ts) (hd : d.kinds = ts.map Token.kind)
    (hset : d.set ≠ []) :
    (d.depth ≤ limit → parseWithin limit source = .ok d.selection) ∧
      (limit < d.depth → ∃ p, parseWithin limit source = .error ⟨.tooDeep limit, p⟩) := by
  have hread := document_answers (b := ⟨Text.bytes source.toList, limit⟩) hset hd
  rw [parseWithin]
  simp only [hts, ok_bind]
  refine ⟨fun hdepth => ?_, fun hdepth => ?_⟩
  · obtain ⟨s, hs, rfl⟩ := hread.within hdepth
    rw [hs]
    rfl
  · obtain ⟨o, ho⟩ := hread.beyond hdepth
    rw [ho]
    exact ⟨_, rfl⟩

/-- **A text is accepted exactly if its tokens are derived**, by a document that selects something
    and opens at most `limit` sets, lists and objects at once; the answer is what it means. -/
theorem Selection.parseWithin_eq_ok_iff (limit : Nat) (source : String) (s : Selection) :
    Selection.parseWithin limit source = .ok s ↔
      ∃ ts, tokens 0 source.toList = .ok ts ∧
        ∃ d : Document, d.kinds = ts.map Token.kind ∧ d.set ≠ [] ∧ d.depth ≤ limit ∧
          d.selection = s := by
  constructor
  · intro h
    exact exists_derivation h
  · rintro ⟨ts, hts, d, hd, hset, hdepth, rfl⟩
    exact (parseWithin_of_derivation limit hts hd hset).1 hdepth

end FieldSelection
