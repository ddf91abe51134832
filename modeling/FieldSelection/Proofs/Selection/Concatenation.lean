import FieldSelection.Proofs.Grammar.Offsets
import FieldSelection.Proofs.Grammar.Seams
import FieldSelection.Proofs.Selection.Parsed

/-!
# Texts one after another are merged

A text of selections without braces around them may go on, on the next line, with another such text.

* The selections of the first text are read first, whatever follows them
  (`selectionsToEnd_of_spans`), and the reader goes on from what they select with the tokens of the
  second text, moved (`parseWithin_line`).
* So the whole is read as the two selections merged, and where the second text is wrong, the whole
  is wrong in the same way, further on (`parseWithin_append`).
-/

namespace FieldSelection

namespace Grammar

variable {b : Bounds}

/-! ## 1. Selections one after another -/

/-- The selections ahead are read first. -/
theorem selectionsToEnd_of_spans : ∀ (set : List Phrase) (parent : Selection)
    (ts mid : List Token), Spans ts (Phrase.setKinds set) mid → Apart mid →
      Phrase.setDepth set ≤ b.limit →
        selectionsToEnd b parent ts =
          selectionsToEnd b (parent.mergeAll (Phrase.entries set)) mid
  | [], parent, ts, mid, h, _, _ => by
      obtain rfl := spans_nil_iff.mp h
      rfl
  | phrase :: set, parent, ts, mid, h, hmid, hdepth => by
      obtain ⟨next, hphrase, hset⟩ := spans_append_iff.mp h
      obtain ⟨hd, hd'⟩ := Nat.max_le.mp hdepth
      have hnext : Apart next := apart_of_spans_set hset hmid
      obtain ⟨p, hp, hvalue, hrest⟩ :=
        (selection_answers phrase b.limit parent ts next hphrase hnext).within hd
      obtain ⟨k, ks, hk, -⟩ := exists_phraseKinds_eq_cons phrase
      obtain ⟨o, ts, rfl, -⟩ := spans_cons_iff.mp (hk ▸ hphrase)
      rw [selectionsToEnd.eq_def b parent]
      simp only
      rw [hp, ok_bind, hvalue, hrest]
      exact selectionsToEnd_of_spans set _ next mid hset hmid hd'

/-- No tokens stand for no selections only. -/
theorem ne_nil_of_spans {set : List Phrase} {ts : List Token}
    (h : Spans ts (Phrase.setKinds set) []) : set ≠ [] ↔ ts ≠ [] := by
  cases set with
  | nil => simp [spans_nil_iff.mp h]
  | cons phrase set =>
    obtain ⟨k, ks, hk, -⟩ := exists_phraseKinds_eq_cons phrase
    rw [Phrase.setKinds, hk] at h
    obtain ⟨o, ts, rfl, -⟩ := spans_cons_iff.mp h
    simp

/-- A document that starts with a selection is the selections up to its end. -/
theorem document_of_apart {ts : List Token} (h : Apart ts) (hne : ts ≠ []) :
    document b ts = selectionsToEnd b .empty ts := by
  obtain ⟨t, ts, rfl⟩ := List.exists_cons_of_ne_nil hne
  rw [document_of_no_brace h.brace]
  cases hs : selectionsToEnd b .empty (t :: ts) with
  | error f => rfl
  | ok s =>
    obtain ⟨set, hset, -, rfl⟩ := exists_bareSet .empty _ s hs
    have hsome : (Document.bare set).selection.isEmpty = false :=
      isEmpty_selection ((ne_nil_of_spans hset).mpr hne)
    exact if_neg (Bool.not_eq_true _ ▸ hsome)

theorem Apart.move {ts : List Token} (h : Apart ts) (g : Nat → Nat) :
    Apart (ts.map (Token.move g)) := by
  refine ⟨?_, ?_, ?_⟩
  · rw [startsWith_move, h.colon]
  · rw [startsWith_move, h.paren]
  · rw [startsWith_move, h.brace]

end Grammar

open Grammar

namespace Selection

/-! ## 2. Two texts -/

/-- The kind of the first token of a text, if the text is made of tokens. -/
def firstKind? (source : String) : Option Token.Kind :=
  (kinds? source.toList).bind List.head?

theorem firstKind?_of_tokens {source : String} {ts : List Token}
    (h : tokens 0 source.toList = .ok ts) : firstKind? source = (ts.map Token.kind).head? := by
  rw [firstKind?, kinds?_eq_some_iff.mpr ⟨ts, h, rfl⟩]
  rfl

/-- How far the text after a line is moved. -/
def seam (first : String) (offset : Nat) : Nat := Text.bytes first.toList + 1 + offset

theorem toList_line (first second : String) :
    (first ++ "\n" ++ second).toList = first.toList ++ '\n' :: second.toList := by
  rw [String.toList_append, String.toList_append, List.append_assoc]
  rfl

theorem bytes_line (first second : String) :
    Text.bytes (first ++ "\n" ++ second).toList = seam first (Text.bytes second.toList) := by
  rw [toList_line, Text.bytes_append, seam, Nat.add_assoc]
  rfl

/-- The tokens of both texts. -/
theorem tokens_append {first second : String} {ts us : List Token}
    (hts : tokens 0 first.toList = .ok ts) (hus : tokens 0 second.toList = .ok us) :
    tokens 0 (first ++ "\n" ++ second).toList = .ok (ts ++ us.map (Token.move (seam first))) := by
  have hmoved := tokens_move (Text.bytes first.toList + 1) 0 second.toList
  rw [hus] at hmoved
  obtain ⟨us', hus', rfl⟩ := hmoved.exists_of_ok
  rw [toList_line, tokens_line second.toList 0 first.toList ts hts, Nat.zero_add,
    ← Nat.add_zero (Text.bytes first.toList + 1), hus']
  rfl

theorem offset_locate_line (first second : String) (offset : Nat) :
    (Text.locate (first ++ "\n" ++ second).toList (seam first offset)).offset =
      (Text.locate second.toList offset).offset + Text.bytes first.toList + 1 := by
  show min (seam first offset) (Text.bytes (first ++ "\n" ++ second).toList) =
    min offset (Text.bytes second.toList) + Text.bytes first.toList + 1
  rw [bytes_line, seam, seam]
  omega

/-- A text that starts with a name or the spread is made of tokens with no mark ahead. -/
theorem exists_apart {source : String}
    (h : firstKind? source = some .spread ∨ ∃ word, firstKind? source = some (.name word)) :
    ∃ ts, tokens 0 source.toList = .ok ts ∧ Apart ts ∧ ts ≠ [] := by
  obtain ⟨k, hk, hno⟩ : ∃ k, firstKind? source = some k ∧ ∀ m, (k == .mark m) = false := by
    rcases h with h | ⟨word, h⟩
    · exact ⟨.spread, h, fun _ => rfl⟩
    · exact ⟨.name word, h, fun _ => rfl⟩
  obtain ⟨ks, hks, hhead⟩ := Option.bind_eq_some_iff.mp hk
  obtain ⟨ts, hts, rfl⟩ := kinds?_eq_some_iff.mp hks
  cases ts with
  | nil => cases hhead
  | cons t ts =>
    cases hhead
    exact ⟨t :: ts, hts, ⟨hno _, hno _, hno _⟩, List.cons_ne_nil t ts⟩

/-- A text that is read and starts with a selection is made of selections. -/
theorem exists_bare {limit : Nat} {source : String} {s : Selection}
    (h : parseWithin limit source = .ok s) (hbare : firstKind? source ≠ some (.mark .openBrace)) :
    ∃ ts set, tokens 0 source.toList = .ok ts ∧ Spans ts (Phrase.setKinds set) [] ∧ set ≠ [] ∧
      Phrase.setDepth set ≤ limit ∧ empty.mergeAll (Phrase.entries set) = s := by
  obtain ⟨ts, hts, d, hd, hset, hdepth, hs⟩ := exists_derivation h
  cases d with
  | braced set =>
    rw [firstKind?_of_tokens hts, ← hd] at hbare
    exact absurd rfl hbare
  | bare set => exact ⟨ts, set, hts, spans_end_iff.mpr hd, hset, hdepth, hs⟩

/-- After a text that is read, the next one is read into what that selects. -/
theorem parseWithin_line {limit : Nat} {first second : String} {s : Selection} {us : List Token}
    (hfirst : parseWithin limit first = .ok s)
    (hbare : firstKind? first ≠ some (.mark .openBrace))
    (hus : tokens 0 second.toList = .ok us) (hapart : Apart us) :
    parseWithin limit (first ++ "\n" ++ second) =
      (selectionsToEnd (Bounds.move (seam first) ⟨Text.bytes second.toList, limit⟩) s
        (us.map (Token.move (seam first)))).mapError
          (GrammarError.ofFailure (first ++ "\n" ++ second).toList) := by
  obtain ⟨ts, set, hts, hspans, hset, hdepth, rfl⟩ := exists_bare hfirst hbare
  have hkinds : Spans (ts ++ us.map (Token.move (seam first))) (Phrase.setKinds set)
      (us.map (Token.move (seam first))) := ⟨ts, rfl, (spans_end_iff.mp hspans).symm⟩
  have hnext : Apart (us.map (Token.move (seam first))) := hapart.move _
  have hne : ts ++ us.map (Token.move (seam first)) ≠ [] :=
    List.append_ne_nil_of_left_ne_nil ((ne_nil_of_spans hspans).mp hset) _
  rw [parseWithin]
  simp only [tokens_append hts hus, ok_bind]
  rw [document_of_apart (apart_of_spans_set hkinds hnext) hne,
    selectionsToEnd_of_spans set .empty _ _ hkinds hnext hdepth, bytes_line]
  rfl

/-! ## 3. Their selections -/

/-- **What two texts select, one after another.** A text of selections without braces around them
    that is read may be followed, on the next line, by another one: the whole is read as the first
    selection with the second one merged into it, and if the second text is wrong, the whole is
    wrong for the same reason, at the place that corresponds. -/
theorem parseWithin_append {limit : Nat} {first : String} {s : Selection}
    (hfirst : parseWithin limit first = .ok s)
    (hbare : firstKind? first ≠ some (.mark .openBrace)) :
    (∀ second t, parseWithin limit second = .ok t →
      firstKind? second ≠ some (.mark .openBrace) →
        parseWithin limit (first ++ "\n" ++ second) = .ok (s.merge t)) ∧
      ∀ second e, parseWithin limit second = .error e →
        (firstKind? second = some .spread ∨ ∃ word, firstKind? second = some (.name word)) →
          ∃ e', parseWithin limit (first ++ "\n" ++ second) = .error e' ∧ e'.fault = e.fault ∧
            e'.position.offset = e.position.offset + Text.bytes first.toList + 1 := by
  constructor
  · intro second t hsecond hbare'
    obtain ⟨us, more, hus, hspans, -, hdepth, rfl⟩ := exists_bare hsecond hbare'
    have hapart : Apart us := apart_of_spans_set hspans ⟨rfl, rfl, rfl⟩
    have hmoved : Spans (us.map (Token.move (seam first))) (Phrase.setKinds more) [] := by
      rw [spans_end_iff, map_kind_move, spans_end_iff.mp hspans]
    have hlegal := legal_of_kinds? (kinds?_eq_some_iff.mpr ⟨us, hus, rfl⟩)
    rw [← spans_end_iff.mp hspans] at hlegal
    have hwell := (Phrase.itemsFit_entries more hlegal hdepth).sound.1
    obtain ⟨r, hr, rfl⟩ := (selectionsToEnd_answers
      (b := Bounds.move (seam first) ⟨Text.bytes second.toList, limit⟩) more s _ hmoved).within
        hdepth
    rw [parseWithin_line hfirst hbare hus hapart, hr, merge_mergeAll s hwell]
    rfl
  · intro second e hsecond hkind
    obtain ⟨us, hus, hapart, hne⟩ := exists_apart hkind
    rw [parseWithin, mapError_eq_error_iff] at hsecond
    obtain ⟨f, hf, rfl⟩ := hsecond
    simp only [hus, ok_bind, document_of_apart hapart hne] at hf
    have halike := selectionsToEnd_alike (g := seam first) (b := ⟨Text.bytes second.toList, limit⟩)
      .empty s us _ rfl
    rw [hf] at halike
    rw [parseWithin_line hfirst hbare hus hapart, halike.eq_of_error]
    exact ⟨_, rfl, rfl, offset_locate_line first second f.offset⟩

/-- `variants` with the given fields. -/
def variantsWith (fields : List String) : Selection :=
  ⟨[], false, [(.field "variants", .node ⟨[], false, fields.map fun name => (.field name, .leaf)⟩)]⟩

/-- `variants { name }` -/
def variantsDocument (name : String) : Document :=
  .bare [.nested none "variants" none [.leaf none name]]

/-- The stock of the variants after their ids, and arguments for no set. -/
theorem parseWithin_append_variants :
    parseWithin 1 ("variants { id } # all" ++ "\n" ++ "variants { stock }") =
        .ok (variantsWith ["id", "stock"]) ∧
      ∃ e, parseWithin 1 ("variants { id } # all" ++ "\n" ++ "id stock(at: home)") = .error e ∧
        e.fault = .argumentsWithoutSelection "stock" ∧ e.position.offset = 3 + 21 + 1 := by
  have hfirst : parseWithin 1 "variants { id } # all" = .ok (variantsDocument "id").selection :=
    parseWithin_of_kinds? (by decide +kernel) (List.cons_ne_nil _ _) (Nat.le_refl 1)
  have hsecond : parseWithin 1 "variants { stock }" = .ok (variantsDocument "stock").selection :=
    parseWithin_of_kinds? (by decide +kernel) (List.cons_ne_nil _ _) (Nat.le_refl 1)
  have herror : parseWithin 1 "id stock(at: home)" =
      .error ⟨.argumentsWithoutSelection "stock", 3, 1, 4⟩ :=
    failure?_eq_some_iff.mp (by decide +kernel)
  have happend := parseWithin_append hfirst (by decide +kernel)
  refine ⟨happend.1 _ _ hsecond (by decide +kernel), ?_⟩
  exact happend.2 _ _ herror (Or.inr ⟨"id", by decide +kernel⟩)

end Selection

end FieldSelection
