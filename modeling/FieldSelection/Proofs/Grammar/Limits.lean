import FieldSelection.Proofs.Grammar.Predictions
import FieldSelection.Proofs.Grammar.TokenOrder

/-!
# The readers under two limits

A reader with at least as much room does the same, unless there is one set, list or object too many
for the other one (`Cut`). There is one statement for each reader (`literal_cut`, `selection_cut`,
…), all of them by the reader's own recursion.

So a limit only cuts (`Selection.parseWithin_limit`): a greater one gives the same answer to a text
that is not too deep, and shows later that one is. What is closed counts no more, so the limit is
never exceeded by as many sets, lists and objects as there are next to each other.
-/

namespace FieldSelection

namespace Grammar

/-- The bounds with another limit. -/
def Bounds.withLimit (b : Bounds) (limit : Nat) : Bounds := ⟨b.stop, limit⟩

variable {b : Bounds} {limit : Nat} {α β : Type}

/-! ## 1. Outcomes under two limits -/

/-- The first outcome is that something is too deep, or both are the same. -/
inductive Cut (b : Bounds) : Except Failure α → Except Failure α → Prop where
  | tooDeep (ts : List Token) (r : Except Failure α) : Cut b (.error (b.tooDeep ts)) r
  | same (r : Except Failure α) : Cut b r r

/-- Going on after such outcomes. -/
theorem Cut.bind {r r' : Except Failure α} {f f' : α → Except Failure β} (h : Cut b r r')
    (hf : ∀ a, Cut b (f a) (f' a)) : Cut b (r >>= f) (r' >>= f') := by
  cases h with
  | tooDeep ts r => exact .tooDeep ts _
  | same r =>
    cases r with
    | error e => exact .same _
    | ok a => exact hf a

/-- Something made of such outcomes. -/
theorem Cut.map {r r' : Except Failure α} (h : Cut b r r') (f : α → β) :
    Cut b (r >>= fun a => pure (f a)) (r' >>= fun a => pure (f a)) :=
  h.bind fun _ => .same _

/-! ## 2. Values -/

mutual

theorem literal_cut : ∀ (room room' : Nat) (ts : List Token), room ≤ room' →
    Cut b (literal b room ts) (literal (b.withLimit limit) room' ts)
  | _, _, [], _ | _, _, ⟨.string _, _⟩ :: _, _ | _, _, ⟨.number _, _⟩ :: _, _
  | _, _, ⟨.name _, _⟩ :: _, _ | _, _, ⟨.mark .closeBrace, _⟩ :: _, _
  | _, _, ⟨.mark .closeBracket, _⟩ :: _, _ | _, _, ⟨.mark .openParen, _⟩ :: _, _
  | _, _, ⟨.mark .closeParen, _⟩ :: _, _ | _, _, ⟨.mark .colon, _⟩ :: _, _
  | _, _, ⟨.spread, _⟩ :: _, _ => by
      unfold literal
      exact .same _
  | 0, _, ⟨.mark .openBracket, _⟩ :: _, _ | 0, _, ⟨.mark .openBrace, _⟩ :: _, _ => by
      unfold literal
      exact .tooDeep _ _
  | room + 1, room' + 1, ⟨.mark .openBracket, _⟩ :: ts, h => by
      unfold literal
      exact (literals_cut room room' ts (Nat.le_of_succ_le_succ h)).map _
  | room + 1, room' + 1, ⟨.mark .openBrace, _⟩ :: ts, h => by
      unfold literal
      exact (entries_cut room room' .objectField .closeBrace [] ts
        (Nat.le_of_succ_le_succ h)).map _
  termination_by _ _ ts => 2 * ts.length

theorem literals_cut : ∀ (room room' : Nat) (ts : List Token), room ≤ room' →
    Cut b (literals b room ts) (literals (b.withLimit limit) room' ts)
  | _, _, [], _ => by
      unfold literals
      exact .same _
  | room, room', t :: ts, h => by
      unfold literals
      by_cases ht : t.kind = .mark .closeBracket
      · simp only [ht, ↓reduceIte]
        exact .same _
      · simp only [ht, ↓reduceIte]
        refine (literal_cut room room' (t :: ts) h).bind fun item => ?_
        have hshort : item.rest.length < ts.length + 1 := item.shorter
        exact (literals_cut room room' item.rest h).map _
  termination_by _ _ ts => 2 * ts.length + 1

theorem entries_cut : ∀ (room room' : Nat) (what : Expectation) (close : Mark)
    (table : List (String × Literal)) (ts : List Token), room ≤ room' →
      Cut b (entries b room what close table ts)
        (entries (b.withLimit limit) room' what close table ts)
  | _, _, _, _, _, [], _ => by
      unfold entries
      exact .same _
  | room, room', what, close, table, t :: ts, h => by
      unfold entries
      by_cases ht : t.kind = .mark close
      · simp only [ht, ↓reduceIte]
        exact .same _
      · simp only [ht, ↓reduceIte]
        refine Cut.bind (.same (name b what (t :: ts))) fun key => ?_
        have h1 : key.rest.length < ts.length + 1 := key.shorter
        refine Cut.bind (.same (mark b .colon key.rest)) fun colon => ?_
        have h2 := colon.shorter
        refine (literal_cut room room' colon.rest h).bind fun value => ?_
        have h3 := value.shorter
        exact (entries_cut room room' what close _ value.rest h).map _
  termination_by _ _ _ _ _ ts => 2 * ts.length + 1

end

/-! ## 3. Selections -/

theorem arguments?_cut (room room' : Nat) (ts : List Token) (h : room ≤ room') :
    Cut b (arguments? b room ts) (arguments? (b.withLimit limit) room' ts) := by
  unfold arguments?
  split
  · refine Cut.bind (.same (mark b .openParen ts)) fun paren => ?_
    exact (entries_cut room room' .argumentName .closeParen [] paren.rest h).map _
  · exact .same _

mutual

theorem selection_cut : ∀ (room room' : Nat) (parent : Selection) (ts : List Token),
    room ≤ room' →
      Cut b (selection b room parent ts) (selection (b.withLimit limit) room' parent ts)
  | _, _, _, [], _ | _, _, _, ⟨.string _, _⟩ :: _, _ | _, _, _, ⟨.number _, _⟩ :: _, _
  | _, _, _, ⟨.mark _, _⟩ :: _, _ => by
      unfold selection
      exact .same _
  | room, room', parent, ⟨.spread, o⟩ :: ts, h => by
      unfold selection
      refine Cut.bind (.same (typeCondition b ts)) fun type => ?_
      have hshort := type.shorter
      exact (selectionSet_cut room room' type.rest h).map _
  | room, room', parent, ⟨.name first, o⟩ :: ts, h => by
      unfold selection
      refine Cut.bind (.same (fieldName b (⟨.name first, o⟩ :: ts))) fun field => ?_
      have hshort : field.rest.length < ts.length + 1 := field.shorter
      refine (arguments?_cut room room' field.rest h).bind fun a => ?_
      match a with
      | none =>
        simp only
        split
        · exact (selectionSet_cut room room' field.rest h).map _
        · exact .same _
      | some arguments =>
        have hshort' := arguments.shorter
        simp only
        split
        · exact (selectionSet_cut room room' arguments.rest h).map _
        · exact .same _
  termination_by _ _ _ ts => 2 * ts.length

theorem selectionSet_cut : ∀ (room room' : Nat) (ts : List Token), room ≤ room' →
    Cut b (selectionSet b room ts) (selectionSet (b.withLimit limit) room' ts)
  | 0, _, _, _ => by
      unfold selectionSet
      exact .tooDeep _ _
  | room + 1, room' + 1, ts, h => by
      unfold selectionSet
      refine Cut.bind (.same (mark b .openBrace ts)) fun brace => ?_
      have hshort := brace.shorter
      exact (selectionsToBrace_cut room room' .empty brace.rest (Nat.le_of_succ_le_succ h)).map _
  termination_by _ _ ts => 2 * ts.length

theorem selectionsToBrace_cut : ∀ (room room' : Nat) (parent : Selection) (ts : List Token),
    room ≤ room' → Cut b (selectionsToBrace b room parent ts)
      (selectionsToBrace (b.withLimit limit) room' parent ts)
  | _, _, _, [], _ => by
      unfold selectionsToBrace
      exact .same _
  | room, room', parent, t :: ts, h => by
      unfold selectionsToBrace
      by_cases ht : t.kind = .mark .closeBrace
      · simp only [ht, ↓reduceIte]
        exact .same _
      · simp only [ht, ↓reduceIte]
        refine (selection_cut room room' parent (t :: ts) h).bind fun next => ?_
        have hshort : next.rest.length < ts.length + 1 := next.shorter
        exact (selectionsToBrace_cut room room' next.value next.rest h).map _
  termination_by _ _ _ ts => 2 * ts.length + 1

end

theorem selectionsToEnd_cut (h : b.limit ≤ limit) : ∀ (parent : Selection) (ts : List Token),
    Cut b (selectionsToEnd b parent ts) (selectionsToEnd (b.withLimit limit) parent ts)
  | _, [] => by
      unfold selectionsToEnd
      exact .same _
  | parent, t :: ts => by
      unfold selectionsToEnd
      refine (selection_cut b.limit limit parent (t :: ts) h).bind fun next => ?_
      have hshort : next.rest.length < ts.length + 1 := next.shorter
      exact selectionsToEnd_cut h next.value next.rest
  termination_by _ ts => ts.length

/-- **A greater limit gives the same answer** to a document, unless it is too deep. -/
theorem document_cut (h : b.limit ≤ limit) (ts : List Token) :
    Cut b (document b ts) (document (b.withLimit limit) ts) := by
  match ts with
  | [] => exact .same _
  | t :: ts =>
    cases hbrace : startsWith .openBrace (t :: ts) with
    | true =>
      rw [document_of_brace hbrace, document_of_brace hbrace]
      exact (selectionSet_cut b.limit limit (t :: ts) h).bind fun _ => .same _
    | false =>
      rw [document_of_no_brace hbrace, document_of_no_brace hbrace]
      exact (selectionsToEnd_cut h .empty (t :: ts)).bind fun _ => .same _

end Grammar

open Grammar

/-! ## 4. Texts under two limits -/

/-- A text whose tokens are read as a document. -/
theorem Selection.parseWithin_of_tokens {source : String} {ts : List Token}
    (hts : tokens 0 source.toList = .ok ts) (limit : Nat) :
    parseWithin limit source =
      (document ⟨Text.bytes source.toList, limit⟩ ts).mapError
        (GrammarError.ofFailure source.toList) := by
  rw [parseWithin]
  simp only [hts, ok_bind]

theorem Selection.parseWithin_of_tokens_error {source : String} {f : Failure}
    (hf : tokens 0 source.toList = .error f) (limit : Nat) :
    parseWithin limit source = .error (GrammarError.ofFailure source.toList f) := by
  rw [parseWithin]
  simp only [hf]
  rfl

/-- **Where a text fails** with a fault that shows at a token. -/
theorem Selection.parseWithin_eq_error_iff {source : String} {ts : List Token}
    (hts : tokens 0 source.toList = .ok ts) {limit : Nat} {fault : Fault} (hplaced : Placed fault)
    (place : Text.Position) :
    parseWithin limit source = .error ⟨fault, place⟩ ↔
      ∃ rest, rest <:+ ts ∧
        Text.locate source.toList (Bounds.here ⟨Text.bytes source.toList, limit⟩ rest) = place ∧
          problem? limit .start (ts.map Token.kind) = some (fault, rest.length) := by
  rw [parseWithin_of_tokens hts, mapError_eq_error_iff]
  constructor
  · rintro ⟨⟨fault', o⟩, hf, heq⟩
    cases heq
    obtain ⟨rest, hsuffix, rfl, hproblem⟩ := (document_eq_error_iff hplaced).mp hf
    exact ⟨rest, hsuffix, rfl, hproblem⟩
  · rintro ⟨rest, hsuffix, rfl, hproblem⟩
    exact ⟨_, (document_eq_error_iff hplaced).mpr ⟨rest, hsuffix, rfl, hproblem⟩, rfl⟩

/-- The place of a failure, seen against the source. -/
theorem offset_locate_here {source : String} {ts rest : List Token}
    (hts : tokens 0 source.toList = .ok ts) (hsuffix : rest <:+ ts) (limit : Nat) :
    (Text.locate source.toList (Bounds.here ⟨Text.bytes source.toList, limit⟩ rest)).offset =
      Bounds.here ⟨Text.bytes source.toList, limit⟩ rest := by
  have horder := (inOrder_tokens 0 _ ts hts).suffix hsuffix
  rw [Nat.zero_add] at horder
  exact Nat.min_eq_left (here_le_stop horder)

namespace Selection

variable {source : String} {ts : List Token} {limit limit' : Nat}

/-- A text that is not too deep has the same answer with more room. -/
theorem parseWithin_of_le (hle : limit ≤ limit')
    (h : ∀ place, parseWithin limit source ≠ .error ⟨.tooDeep limit, place⟩) :
    parseWithin limit' source = parseWithin limit source := by
  cases hts : tokens 0 source.toList with
  | error f => rw [parseWithin_of_tokens_error hts, parseWithin_of_tokens_error hts]
  | ok ts =>
    rw [parseWithin_of_tokens hts] at h
    rw [parseWithin_of_tokens hts, parseWithin_of_tokens hts]
    have hcut : Cut ⟨Text.bytes source.toList, limit⟩
        (document ⟨Text.bytes source.toList, limit⟩ ts)
        (document ⟨Text.bytes source.toList, limit'⟩ ts) := document_cut hle ts
    generalize document ⟨Text.bytes source.toList, limit⟩ ts = r at h hcut
    generalize document ⟨Text.bytes source.toList, limit'⟩ ts = r' at hcut
    cases hcut with
    | tooDeep us r => exact absurd rfl (h _)
    | same r => rfl

/-- A text that is too deep is so sooner with less room. -/
theorem exists_tooDeep_of_lt (hlt : limit < limit') {place' : Text.Position}
    (h : parseWithin limit' source = .error ⟨.tooDeep limit', place'⟩) :
    ∃ place, parseWithin limit source = .error ⟨.tooDeep limit, place⟩ ∧
      place.offset < place'.offset := by
  cases hts : tokens 0 source.toList with
  | error f =>
    rw [parseWithin_of_tokens_error hts] at h
    have hfault : f.fault = .tooDeep limit' := congrArg GrammarError.fault (Except.error.inj h)
    have hlexical := lexical_of_tokens 0 _ f hts
    rw [hfault] at hlexical
    cases hlexical
  | ok ts =>
    obtain ⟨rest', hsuffix', rfl, hproblem'⟩ :=
      (parseWithin_eq_error_iff hts (.tooDeep limit') place').mp h
    have hdepth : Pending.start.depth ≤ limit := Nat.zero_le limit
    obtain ⟨left, hleft, hproblem⟩ := problem?_tooDeep_of_lt hlt hdepth hproblem'
    have hle := left_le_length hproblem
    rw [List.length_map] at hle
    have hdrop : (ts.drop (ts.length - left)).length = left := by
      rw [List.length_drop]
      omega
    have hsuffix : ts.drop (ts.length - left) <:+ ts := List.drop_suffix _ ts
    rw [← hdrop] at hproblem hleft
    refine ⟨_, (parseWithin_eq_error_iff hts (.tooDeep limit) _).mpr
      ⟨_, hsuffix, rfl, hproblem⟩, ?_⟩
    rw [offset_locate_here hts hsuffix, offset_locate_here hts hsuffix']
    have horder := inOrder_tokens 0 _ ts hts
    rw [Nat.zero_add] at horder
    exact here_lt_here (b := ⟨Text.bytes source.toList, limit⟩) horder hsuffix' hsuffix hleft

/-- Nothing is too deep for a limit that is as great as the number of tokens. -/
theorem parseWithin_ne_tooDeep (hts : tokens 0 source.toList = .ok ts) (hle : ts.length ≤ limit)
    (n : Nat) (place : Text.Position) : parseWithin limit source ≠ .error ⟨.tooDeep n, place⟩ := by
  intro h
  obtain ⟨rest, -, -, hproblem⟩ := (parseWithin_eq_error_iff hts (.tooDeep n) place).mp h
  obtain rfl := eq_limit_of_tooDeep hproblem
  have := limit_lt_of_tooDeep hproblem
  simp only [Pending.reach, List.length_map] at this
  omega

/-- **The limit only cuts.** With a greater limit, a text that is not too deep has the same answer,
    be it a selection or an error; a text that is too deep is so further on. No text is too deep for
    a limit of at least the number of its tokens. What has been closed counts no more: if a text is
    derived, it is too deep exactly if more sets, lists and objects than the limit are open at
    once. -/
theorem parseWithin_limit (source : String) :
    (∀ limit limit', limit < limit' →
      ((∀ place, parseWithin limit source ≠ .error ⟨.tooDeep limit, place⟩) →
        parseWithin limit' source = parseWithin limit source) ∧
      ∀ place', parseWithin limit' source = .error ⟨.tooDeep limit', place'⟩ →
        ∃ place, parseWithin limit source = .error ⟨.tooDeep limit, place⟩ ∧
          place.offset < place'.offset) ∧
      ∀ ts, tokens 0 source.toList = .ok ts →
        (∀ limit n place, ts.length ≤ limit →
          parseWithin limit source ≠ .error ⟨.tooDeep n, place⟩) ∧
        ∀ d : Document, d.kinds = ts.map Token.kind → d.set ≠ [] → ∀ limit,
          (∃ place, parseWithin limit source = .error ⟨.tooDeep limit, place⟩) ↔
            limit < d.depth := by
  refine ⟨fun limit limit' hlt => ⟨parseWithin_of_le (Nat.le_of_lt hlt),
    fun place' => exists_tooDeep_of_lt hlt⟩, fun ts hts => ⟨fun limit n place hle =>
      parseWithin_ne_tooDeep hts hle n place, fun d hd hset limit => ?_⟩⟩
  obtain ⟨hwithin, hbeyond⟩ := parseWithin_of_derivation limit hts hd hset
  refine ⟨fun ⟨place, h⟩ => Nat.not_le.mp fun hle => ?_, hbeyond⟩
  cases (hwithin hle).symm.trans h

/-- A set in a set: too deep for a limit of one, sooner for none, and never for one of seven, the
    number of its tokens. A set alone is the same with room for more. -/
theorem parseWithin_limit_items :
    parseWithin 5 "variants { id }" = parseWithin 1 "variants { id }" ∧
      parseWithin 1 "variants { items { id } }" = .error ⟨.tooDeep 1, 17, 1, 18⟩ ∧
      (∃ place, parseWithin 0 "variants { items { id } }" = .error ⟨.tooDeep 0, place⟩ ∧
        place.offset < 17) ∧
      ∀ n place, parseWithin 7 "variants { items { id } }" ≠ .error ⟨.tooDeep n, place⟩ := by
  have hitems : parseWithin 1 "variants { items { id } }" = .error ⟨.tooDeep 1, 17, 1, 18⟩ :=
    failure?_eq_some_iff.mp (by decide +kernel)
  obtain ⟨hset, -⟩ := parseWithin_limit "variants { id }"
  obtain ⟨hsets, hlong⟩ := parseWithin_limit "variants { items { id } }"
  refine ⟨(hset 1 5 (by decide)).1 fun place h => ?_, hitems,
    (hsets 0 1 (by decide)).2 _ hitems, ?_⟩
  · have hnone : failure? (parseWithin 1 "variants { id }") = none := by decide +kernel
    cases hnone.symm.trans (failure?_eq_some_iff.mpr h)
  · intro n place
    refine (hlong [⟨.name "variants", 0⟩, ⟨.mark .openBrace, 9⟩, ⟨.name "items", 11⟩,
      ⟨.mark .openBrace, 17⟩, ⟨.name "id", 19⟩, ⟨.mark .closeBrace, 22⟩,
      ⟨.mark .closeBrace, 24⟩] (by decide +kernel)).1 7 n place (Nat.le_refl 7)

end Selection

end FieldSelection
