import FieldSelection.Proofs.Grammar.Limits
import FieldSelection.Proofs.Grammar.Offsets
import FieldSelection.Proofs.Grammar.Pieces

/-!
# Text between tokens

Blanks, commas and comments between tokens say nothing. Where a token starts or ends, more of them
may be put in (`TokenBoundary`): the text is then made of the same pieces, one of them with a longer
gap (`Widened`), and so it has the same tokens, those from there on further on (`tokens_widened`).
The grammar looks at the kinds of tokens only, so the text is read as the same selection, or fails
with the same fault at the offset that corresponds (`document_displaced`); what is wrong with a text
as a whole shows at its start in any case (`Fault.overall`). `Selection.parseWithin_insert` puts
this together.
-/

namespace FieldSelection

/-- Whether the fault is that of a text as a whole. -/
def Fault.overall : Fault → Bool
  | .emptySource | .emptySelection => true
  | _ => false

namespace Grammar

open Text (bytes)

/-! ## 1. Longer gaps -/

variable {a w front back cs rest : List Char} {k : Token.Kind} {p : Piece} {ps qs qs' : List Piece}

theorem Ignorable.append (ha : Ignorable a) (hw : Ignorable w) : Ignorable (a ++ w) := by
  induction ha with
  | nil => exact hw
  | blank h _ ih => exact .blank h ih
  | @comment line cs h _ ih =>
    rw [List.cons_append, List.append_assoc, List.cons_append]
    exact .comment h ih

theorem LastGap.prepend (hw : Ignorable w) (h : LastGap cs) : LastGap (w ++ cs) := by
  obtain ⟨front, tail, rfl, hfront, htail⟩ := h
  exact ⟨w ++ front, tail, (List.append_assoc ..).symm, hw.append hfront, htail⟩

/-- Nothing that starts a gap goes on with a name. -/
theorem isNameChar_of_startsGap {c : Char} (h : startsGap c = true) : isNameChar c = false := by
  rw [Bool.eq_false_iff]
  intro hname
  have hcases : c.isDigit = true ∨ isNameStart c = true := by
    simp only [isNameChar, Char.isAlphanum, isNameStart, Bool.or_eq_true] at hname ⊢
    tauto
  rcases hcases with hdigit | hstart
  · have hcode := toNat_of_isDigit hdigit
    cases (startsGap_of_toNat hcode.1 (by omega)).symm.trans h
  · cases (startsGap_of_isNameStart hstart).symm.trans h

/-- Nothing that starts a gap goes on with a number. -/
theorem isDigit_of_startsGap {c : Char} (h : startsGap c = true) : c.isDigit = false := by
  rw [Bool.eq_false_iff]
  intro hdigit
  cases (isNameChar_of_isDigit hdigit).symm.trans (isNameChar_of_startsGap h)

/-- A token that does not go on does not go on ahead of a gap. -/
theorem Maximal.insert (hw : Ignorable w) (h : Maximal k (a ++ rest)) :
    Maximal k (a ++ (w ++ rest)) := by
  cases a with
  | cons c a => exact h
  | nil =>
    have hgap := startsGap_of_ignorable hw
    cases w with
    | nil => exact h
    | cons c w =>
      cases k with
      | name => exact fun c hc => isNameChar_of_startsGap (hgap c hc)
      | number => exact fun c hc => isDigit_of_startsGap (hgap c hc)
      | string | mark | spread => trivial

namespace Piece

/-- Tokens further on. -/
theorem tokens_add (start n : Nat) (ps : List Piece) :
    tokens (start + n) ps = (tokens start ps).map (Token.move (· + n)) := by
  induction ps generalizing start with
  | nil => rfl
  | cons p ps ih =>
    rw [tokens, tokens, List.map_cons, Nat.add_right_comm start, Nat.add_right_comm _ n, ih]
    rfl

theorem start_le_of_mem_tokens {start : Nat} {t : Token} (h : t ∈ tokens start ps) :
    start ≤ t.offset := by
  induction ps generalizing start with
  | nil => cases h
  | cons p ps ih =>
    rcases List.mem_cons.mp h with rfl | h
    · exact Nat.le_add_right _ _
    · have := ih h
      omega

theorem lt_of_mem_tokens (htexts : ∀ p ∈ ps, p.text ≠ []) {start : Nat} {t : Token}
    (h : t ∈ tokens start ps) : t.offset < start + bytes (ps.flatMap chars) := by
  induction ps generalizing start with
  | nil => cases h
  | cons p ps ih =>
    obtain ⟨hp, htexts⟩ := List.forall_mem_cons.mp htexts
    obtain ⟨c, text, hp⟩ := List.exists_cons_of_ne_nil hp
    have hpos := c.utf8Size_pos
    rw [List.flatMap_cons, chars, Text.bytes_append, Text.bytes_append]
    rcases List.mem_cons.mp h with rfl | h
    · rw [hp, Text.bytes_cons]
      simp only
      omega
    · have := ih htexts h
      omega

end Piece

theorem Spells.ne_nil {text : List Char} (h : Spells text k) : text ≠ [] := by
  obtain ⟨c, cs, rfl, -⟩ := h
  exact List.cons_ne_nil c cs

/-! ## 2. Text put in -/

/-- With `w` put in after `a`, the text has the same pieces but for a longer gap: all of their
    tokens are further on. -/
structure Widened (a w rest : List Char) (ps ps' : List Piece) : Prop where
  laid : Laid ps' (a ++ (w ++ rest))
  moved (start : Nat) :
    Piece.tokens start ps' = (Piece.tokens start ps).map (Token.move (· + bytes w))
  after (start : Nat) : ∀ t ∈ Piece.tokens start ps, start + bytes a ≤ t.offset

/-- Text that is put in ahead of all pieces. -/
theorem exists_widened_front (hw : Ignorable w) (h : Laid ps rest) :
    ∃ ps', Widened [] w rest ps ps' := by
  cases h with
  | last h =>
    have hlast := h.prepend hw
    exact ⟨[], .last hlast, fun _ => rfl, nofun⟩
  | @piece p ps rest hgap htext hmaximal hmore =>
    refine ⟨⟨w ++ p.gap, p.text, p.kind⟩ :: ps, ?_, fun start => ?_, fun start t ht =>
      Piece.start_le_of_mem_tokens ht⟩
    · have h := Laid.piece (p := ⟨w ++ p.gap, p.text, p.kind⟩) (hw.append hgap) htext hmaximal
        hmore
      rwa [List.append_assoc] at h
    · have hstart : start + bytes (w ++ p.gap) = start + bytes w + bytes p.gap := by
        rw [Text.bytes_append, Nat.add_assoc]
      rw [← Piece.tokens_add, Piece.tokens, Piece.tokens, hstart]

/-- Text that is put in ahead of the first token. -/
theorem exists_widened_gap (hw : Ignorable w) (h : Laid (p :: ps) (p.gap ++ rest)) :
    ∃ ps', Widened p.gap w rest (p :: ps) ps' := by
  generalize hcs : p.gap ++ rest = cs at h
  cases h with
  | @piece _ _ rest' hgap htext hmaximal hmore =>
    obtain rfl := List.append_cancel_left hcs
    refine ⟨⟨p.gap ++ w, p.text, p.kind⟩ :: ps, ?_, fun start => ?_, fun start t ht => ?_⟩
    · have h := Laid.piece (p := ⟨p.gap ++ w, p.text, p.kind⟩) (hgap.append hw) htext hmaximal
        hmore
      rwa [List.append_assoc] at h
    · have hstart : start + bytes (p.gap ++ w) = start + bytes w + bytes p.gap := by
        rw [Text.bytes_append, ← Nat.add_assoc, Nat.add_right_comm]
      rw [← Piece.tokens_add, Piece.tokens, Piece.tokens, hstart]
    · rcases List.mem_cons.mp ht with rfl | ht
      · exact Nat.le_refl _
      · exact Nat.le_trans (Nat.le_add_right _ _) (Piece.start_le_of_mem_tokens ht)

/-- Pieces ahead of those with the longer gap stay as they are. -/
theorem Laid.behind (hw : Ignorable w) (h : Laid (ps ++ qs) (ps.flatMap Piece.chars ++ (a ++ rest)))
    (h' : Laid qs' (a ++ (w ++ rest))) :
    Laid (ps ++ qs') (ps.flatMap Piece.chars ++ (a ++ (w ++ rest))) := by
  induction ps with
  | nil => exact h'
  | cons p ps ih =>
    simp only [List.cons_append, List.flatMap_cons, Piece.chars, List.append_assoc] at h ⊢
    obtain ⟨hgap, htext, hmaximal, hmore⟩ := laid_cons_iff.mp h
    refine laid_cons_iff.mpr ⟨hgap, htext, ?_, ih hmore⟩
    rw [← List.append_assoc] at hmaximal ⊢
    exact hmaximal.insert hw

/-- The offset of what was at `o` before `w` was put in after `front`. -/
def shifted (front w : List Char) (o : Nat) : Nat :=
  if bytes front ≤ o then o + bytes w else o

/-- **The tokens of the longer text.** -/
theorem tokens_widened (hw : Ignorable w)
    (h : Laid (ps ++ qs) (ps.flatMap Piece.chars ++ (a ++ rest))) (h' : Widened a w rest qs qs') :
    tokens 0 (ps.flatMap Piece.chars ++ (a ++ (w ++ rest))) =
      .ok ((Piece.tokens 0 (ps ++ qs)).map
        (Token.move (shifted (ps.flatMap Piece.chars ++ a) w))) := by
  have htexts : ∀ p ∈ ps, p.text ≠ [] :=
    fun p hp => (h.spells p (List.mem_append_left qs hp)).ne_nil
  have hbefore : (Piece.tokens 0 ps).map (Token.move (shifted (ps.flatMap Piece.chars ++ a) w)) =
      Piece.tokens 0 ps := by
    refine (List.map_congr_left fun t ht => ?_).trans (List.map_id _)
    have hlt := Piece.lt_of_mem_tokens htexts ht
    rw [Token.move, shifted, Text.bytes_append, if_neg (by omega)]
    rfl
  have hafter (start : Nat) (hstart : start = bytes (ps.flatMap Piece.chars)) :
      (Piece.tokens start qs).map (Token.move (shifted (ps.flatMap Piece.chars ++ a) w)) =
        (Piece.tokens start qs).map (Token.move (· + bytes w)) := by
    refine List.map_congr_left fun t ht => ?_
    have hle := h'.after start t ht
    rw [Token.move, Token.move, shifted, Text.bytes_append, if_pos (by omega)]
  rw [tokens_of_laid (h.behind hw h'.laid), Piece.tokens_append, Piece.tokens_append, h'.moved,
    List.map_append, hbefore, hafter _ (Nat.zero_add _)]

/-! ## 3. Where tokens start and end -/

/-- A token of the text starts or ends where its back part follows its front part. -/
def TokenBoundary (front back : List Char) : Prop :=
  ∃ before p after, Laid (before ++ p :: after) (front ++ back) ∧
    (front = before.flatMap Piece.chars ++ p.gap ∨ front = (before ++ [p]).flatMap Piece.chars)

/-- Front parts of one text that take as many bytes are the same. -/
theorem eq_of_bytes_eq {b c d : List Char} (h : a ++ b = c ++ d) (hbytes : bytes a = bytes c) :
    a = c := by
  have hdrop := Text.dropBytes?_append a b
  rw [h, hbytes, Text.dropBytes?_append] at hdrop
  obtain rfl := Option.some.inj hdrop
  exact List.append_cancel_right h

theorem exists_piece_of_mem {start : Nat} {t : Token} (h : t ∈ Piece.tokens start ps) :
    ∃ before p after, ps = before ++ p :: after ∧
      t.offset = start + bytes (before.flatMap Piece.chars ++ p.gap) := by
  induction ps generalizing start with
  | nil => cases h
  | cons p ps ih =>
    rcases List.mem_cons.mp h with rfl | h
    · exact ⟨[], p, ps, rfl, rfl⟩
    · obtain ⟨before, q, after, rfl, hoffset⟩ := ih h
      refine ⟨p :: before, q, after, rfl, ?_⟩
      rw [hoffset]
      simp only [List.flatMap_cons, Piece.chars, Text.bytes_append]
      omega

/-- The offset of a token is where it starts. -/
theorem tokenBoundary_of_mem {ts : List Token} {t : Token}
    (h : tokens 0 (front ++ back) = .ok ts) (ht : t ∈ ts) (hoffset : t.offset = bytes front) :
    TokenBoundary front back := by
  obtain ⟨ps, hlaid, rfl⟩ := tokens_eq_ok_iff.mp h
  obtain ⟨before, p, after, rfl, hstart⟩ := exists_piece_of_mem ht
  obtain ⟨rest, hrest, hpiece⟩ := hlaid.drop
  cases hpiece with
  | @piece _ _ rest =>
    rw [← List.append_assoc] at hrest
    have hbytes : bytes front = bytes (before.flatMap Piece.chars ++ p.gap) := by omega
    exact ⟨before, p, after, hlaid, Or.inl (eq_of_bytes_eq hrest hbytes)⟩

/-- **Text put in where a token starts or ends** changes the offsets of tokens only. -/
theorem TokenBoundary.exists_tokens (h : TokenBoundary front back) (hw : Ignorable w) :
    ∃ ts, tokens 0 (front ++ back) = .ok ts ∧
      tokens 0 (front ++ (w ++ back)) = .ok (ts.map (Token.move (shifted front w))) := by
  obtain ⟨before, p, after, hlaid, rfl | rfl⟩ := h
  · rw [List.append_assoc] at hlaid
    obtain ⟨rest, hrest, hpiece⟩ := hlaid.drop
    obtain rfl := List.append_cancel_left hrest
    obtain ⟨ps', hps'⟩ := exists_widened_gap hw hpiece
    have htokens := tokens_widened hw hlaid hps'
    rw [List.append_assoc, List.append_assoc]
    exact ⟨_, tokens_of_laid hlaid 0, htokens⟩
  · rw [List.append_cons] at hlaid
    obtain ⟨rest, hrest, hpiece⟩ := hlaid.drop
    obtain rfl := List.append_cancel_left hrest
    obtain ⟨ps', hps'⟩ := exists_widened_front hw hpiece
    have htokens := tokens_widened hw (a := []) hlaid hps'
    rw [List.append_nil] at htokens
    exact ⟨_, tokens_of_laid hlaid 0, htokens⟩

/-! ## 4. Faults of a text as a whole -/

variable {limit left : Nat} {st st' : Pending} {ks : List Token.Kind} {fault : Fault}
  {found : Option Token.Kind}

/-- Whether a token has been read. -/
def Pending.begun : Pending → Bool
  | .start => false
  | .done | .more => true
  | .due _ st => st.begun

theorem Pending.begun_push (st : Pending) (ns : List Need) : (st.push ns).begun = st.begun := by
  induction ns with
  | nil => rfl
  | cons n ns ih => exact ih

theorem Pending.begun_step (h : st.step k = some st') (hst : st = .start ∨ st.begun = true) :
    st'.begun = true := by
  induction st with
  | start =>
    rw [step] at h
    split at h
    · cases h
      rfl
    · obtain ⟨ns, -, rfl⟩ := Option.map_eq_some_iff.mp h
      exact begun_push .more ns
  | done => cases h
  | more =>
    obtain ⟨ns, -, rfl⟩ := Option.map_eq_some_iff.mp h
    exact begun_push .more ns
  | due n st ih =>
    have hbegun : st.begun = true := by simpa [begun] using hst
    rw [step] at h
    split at h
    · cases h
      rwa [begun_push]
    split at h
    · exact ih h (Or.inr hbegun)
    · cases h

theorem Need.overall_fault (n : Need) (found : Option Token.Kind) :
    (n.fault found).overall = false := by
  cases n <;> rfl

theorem Pending.overall_fault (h : st.begun = true ∨ found ≠ none) :
    (st.fault found).overall = false := by
  induction st with
  | start =>
    cases found with
    | none => simp [begun] at h
    | some k => rfl
  | done | more => cases found <;> rfl
  | due n st ih =>
    rw [fault]
    split
    · exact ih h
    · exact n.overall_fault found

/-- Once a token has been read, nothing is wrong with the text as a whole. -/
theorem Wrong.overall (h : Wrong limit st ks fault left)
    (hst : st.begun = true ∨ st = .start ∧ ks ≠ []) : fault.overall = false := by
  induction h with
  | crowded | opened => rfl
  | unfinished =>
    rcases hst with hst | ⟨-, hne⟩
    · exact Pending.overall_fault (Or.inl hst)
    · exact absurd rfl hne
  | refused => exact Pending.overall_fault (Or.inr nofun)
  | taken _ hstep _ _ ih =>
    exact ih (Or.inl (Pending.begun_step hstep (hst.symm.imp And.left id)))

variable {b : Bounds} {g : Nat → Nat} {ts : List Token} {f : Failure}

theorem Foretold.overall {α : Type} {whole : List Token} {problem : Option (Fault × Nat)}
    {good : α → Prop} (h : Foretold b whole problem good (.error f))
    (hproblem : ∀ fault left, problem = some (fault, left) → fault.overall = false) :
    f.fault.overall = false := by
  cases h with
  | error fault rest _ h => exact hproblem fault _ h
  | argued => rfl

/-- The same selection, or the same fault: that of a text as a whole at its start, any other one at
    the offset that corresponds. -/
inductive Displaced (g : Nat → Nat) :
    Except Failure Selection → Except Failure Selection → Prop where
  | ok (s : Selection) : Displaced g (.ok s) (.ok s)
  | error (f : Failure) (h : f.fault.overall = false) : Displaced g (.error f) (.error (f.move g))
  | overall (fault : Fault) (h : fault.overall = true) :
      Displaced g (.error ⟨fault, 0⟩) (.error ⟨fault, 0⟩)

/-- **A document whose tokens stand at other offsets.** -/
theorem document_displaced (b : Bounds) (ts : List Token) :
    Displaced g (document b ts) (document (b.move g) (ts.map (Token.move g))) := by
  cases ts with
  | nil => exact .overall .emptySource rfl
  | cons t ts =>
    have hproblem : ∀ fault left,
        problem? b.limit .start ((t :: ts).map Token.kind) = some (fault, left) →
          fault.overall = false := fun fault left h =>
      (problem?_eq_some_iff.mp h).overall (Or.inr ⟨rfl, List.cons_ne_nil _ _⟩)
    have hstart : At b (t :: ts) _ .start (t :: ts) := ⟨List.suffix_refl _, rfl⟩
    cases hbrace : startsWith .openBrace (t :: ts) with
    | true =>
      have hbrace' : startsWith .openBrace ((t :: ts).map (Token.move g)) = true := by
        rwa [startsWith_move]
      have hset := selectionSet_foretold b.limit .done (t :: ts) rfl (hstart.set hbrace rfl rfl)
      have halike := selectionSet_alike (b := b) (g := g) b.limit (t :: ts) _ rfl
      rw [document_of_brace hbrace, document_of_brace hbrace']
      generalize selectionSet b b.limit (t :: ts) = r at hset halike ⊢
      change Displaced g _ (selectionSet (b.move g) b.limit ((t :: ts).map (Token.move g)) >>= _)
      generalize selectionSet (b.move g) b.limit ((t :: ts).map (Token.move g)) = r' at halike ⊢
      cases halike with
      | error f => exact .error f (hset.overall hproblem)
      | @ok p p' hp =>
        rw [ok_bind, ok_bind, hp.rest, hp.value]
        cases p.rest with
        | cons u us => exact .error ⟨.trailingTokens u.kind, u.offset⟩ rfl
        | nil =>
          simp only [List.map_nil]
          split
          · exact .overall .emptySelection rfl
          · exact .ok _
    | false =>
      have hbrace' : startsWith .openBrace ((t :: ts).map (Token.move g)) = false := by
        rwa [startsWith_move]
      have hend := selectionsToEnd_foretold .empty _ (hstart.bare hbrace)
      have halike := selectionsToEnd_alike (b := b) (g := g) .empty .empty (t :: ts) _ rfl
      rw [List.map_cons] at hbrace' halike ⊢
      rw [document_of_no_brace hbrace, document_of_no_brace hbrace']
      generalize selectionsToEnd b .empty (t :: ts) = r at hend halike ⊢
      generalize selectionsToEnd (b.move g) .empty (t.move g :: ts.map (Token.move g)) = r'
        at halike ⊢
      cases halike with
      | error f => exact .error f (hend.overall hproblem)
      | @ok s s' hs =>
        rw [ok_bind, ok_bind, hs.eq]
        split
        · exact .overall .emptySelection rfl
        · exact .ok s'

end Grammar

open Grammar

/-! ## 5. Texts -/

/-- What a place past the end stands for moves with the end. -/
theorem offset_locate_shifted {cs cs' front w : List Char} (hle : Text.bytes front ≤ Text.bytes cs)
    (hbytes : Text.bytes cs' = Text.bytes cs + Text.bytes w) (o : Nat) :
    (Text.locate cs' (shifted front w o)).offset =
      shifted front w (Text.locate cs o).offset := by
  change min (shifted front w o) (Text.bytes cs') =
    shifted front w (min o (Text.bytes cs))
  rw [hbytes, shifted, shifted]
  split <;> split <;> omega

/-- **Text that says nothing may stand wherever a token starts or ends.** With it the text has the
    same tokens, those after it further on, and is read as the same selection; or it fails with the
    same fault, further on if it showed there, and at the start if it is that of the whole text. -/
theorem Selection.parseWithin_insert {source source' : String} {front w back : List Char}
    (hsource : source.toList = front ++ back) (hsource' : source'.toList = front ++ (w ++ back))
    (hboundary : TokenBoundary front back) (hw : Ignorable w) :
    ∃ ts, tokens 0 source.toList = .ok ts ∧
      tokens 0 source'.toList = .ok (ts.map (Token.move (shifted front w))) ∧
      ∀ limit, (∀ s, parseWithin limit source = .ok s → parseWithin limit source' = .ok s) ∧
        ∀ e, parseWithin limit source = .error e →
          ∃ place, parseWithin limit source' = .error ⟨e.fault, place⟩ ∧
            if e.fault.overall then e.position.offset = 0 ∧ place.offset = 0
            else place.offset = shifted front w e.position.offset := by
  obtain ⟨ts, hts, hts'⟩ := hboundary.exists_tokens hw
  rw [← hsource] at hts
  rw [← hsource'] at hts'
  refine ⟨ts, hts, hts', fun limit => ?_⟩
  have hbytes : Text.bytes source'.toList = Text.bytes source.toList + Text.bytes w := by
    rw [hsource, hsource']
    simp only [Text.bytes_append]
    omega
  have hle : Text.bytes front ≤ Text.bytes source.toList := by
    rw [hsource, Text.bytes_append]
    exact Nat.le_add_right _ _
  have hstop : (⟨Text.bytes source'.toList, limit⟩ : Bounds) =
      Bounds.move (shifted front w) ⟨Text.bytes source.toList, limit⟩ := by
    rw [Bounds.move, shifted, if_pos hle, hbytes]
  have hdocument := document_displaced (g := shifted front w)
    ⟨Text.bytes source.toList, limit⟩ ts
  rw [parseWithin_of_tokens hts, parseWithin_of_tokens hts', hstop]
  generalize document ⟨Text.bytes source.toList, limit⟩ ts = r at hdocument ⊢
  generalize document _ (ts.map (Token.move (shifted front w))) = r' at hdocument ⊢
  cases hdocument with
  | ok s => exact ⟨fun s' h => h, nofun⟩
  | error f hf =>
    refine ⟨nofun, ?_⟩
    rintro e ⟨⟩
    refine ⟨_, rfl, ?_⟩
    simp only [GrammarError.ofFailure, hf]
    exact offset_locate_shifted hle hbytes f.offset
  | overall fault hfault =>
    refine ⟨nofun, ?_⟩
    rintro e ⟨⟩
    refine ⟨_, rfl, ?_⟩
    simp only [GrammarError.ofFailure, hfault, ↓reduceIte]
    exact ⟨Nat.zero_min _, Nat.zero_min _⟩

/-- A comment behind a spread: what is wrong after the spread is wrong after the comment. -/
theorem Selection.parseWithin_insert_comment :
    TokenBoundary "...".toList "x".toList ∧ Ignorable "#\n".toList ∧
      parseWithin 5 "...x" = .error ⟨.expected .onKeyword (some (.name "x")), 3, 1, 4⟩ ∧
      ∃ place, parseWithin 5 "...#\nx" = .error ⟨.expected .onKeyword (some (.name "x")), place⟩ ∧
        place.offset = 5 := by
  have htokens : tokens 0 ("...".toList ++ "x".toList) = .ok [⟨.spread, 0⟩, ⟨.name "x", 3⟩] := by
    decide +kernel
  have hboundary : TokenBoundary "...".toList "x".toList :=
    tokenBoundary_of_mem htokens (t := ⟨.name "x", 3⟩) (by simp) rfl
  have hw : Ignorable ('#' :: ([] ++ ['\n'])) := .comment nofun .nil
  have herror : parseWithin 5 "...x" =
      .error ⟨.expected .onKeyword (some (.name "x")), 3, 1, 4⟩ :=
    failure?_eq_some_iff.mp (by decide +kernel)
  have hsource : "...x".toList = "...".toList ++ "x".toList := rfl
  have hsource' : "...#\nx".toList = "...".toList ++ (['#', '\n'] ++ "x".toList) := rfl
  obtain ⟨-, -, -, hparse⟩ := parseWithin_insert hsource hsource' hboundary hw
  exact ⟨hboundary, hw, herror, (hparse 5).2 _ herror⟩

end FieldSelection
