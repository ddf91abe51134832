import FieldSelection.Proofs.Grammar.Acceptance
import FieldSelection.Proofs.Grammar.Problems

/-!
# The readers fail with what is foretold

At some tokens of a text, with a stack of what is due there, `problem?` foretells what is wrong with
the text, and where (`At`). A reader that starts there either takes what is due first and comes to
tokens with the same problem ahead, or it fails with that problem (`Foretold`). There is one
statement for each reader (`literal_foretold`, `selection_foretold`, …), all of them by the reader's
own recursion; the room that the reader has is what the open sets, lists and objects leave of the
limit.

A document is therefore read exactly if it has no problem, a set without selections apart, and else
fails with its problem (`document_foretold`).
-/

namespace FieldSelection.Grammar

variable {b : Bounds} {whole : List Token} {problem : Option (Fault × Nat)} {n : Need}
  {ns : List Need} {st : Pending} {t : Token} {ts : List Token} {α β : Type}

/-! ## 1. What is foretold -/

/-- The tokens are the last ones of the whole text, and the problem is the one ahead, if all of
    `st` is due there. -/
structure At (b : Bounds) (whole : List Token) (problem : Option (Fault × Nat)) (st : Pending)
    (ts : List Token) : Prop where
  suffix : ts <:+ whole
  ahead : problem = problem? b.limit st (ts.map Token.kind)

/-- A result is good, or the failure is the problem. -/
inductive Foretold (b : Bounds) (whole : List Token) (problem : Option (Fault × Nat))
    (good : α → Prop) : Except Failure α → Prop where
  | ok (a : α) (h : good a) : Foretold b whole problem good (.ok a)
  | error (fault : Fault) (rest : List Token) (hsuffix : rest <:+ whole)
      (h : problem = some (fault, rest.length)) :
      Foretold b whole problem good (.error ⟨fault, b.here rest⟩)
  /-- That arguments have no set is shown at the start of their field. -/
  | argued (field : String) (start left : Nat)
      (h : problem = some (.argumentsWithoutSelection field, left)) :
      Foretold b whole problem good (.error ⟨.argumentsWithoutSelection field, start⟩)

/-- Going on after what is foretold. -/
theorem Foretold.bind {good : α → Prop} {good' : β → Prop} {r : Except Failure α}
    {f : α → Except Failure β} (h : Foretold b whole problem good r)
    (hf : ∀ a, good a → Foretold b whole problem good' (f a)) :
    Foretold b whole problem good' (r >>= f) := by
  cases h with
  | ok a h => exact hf a h
  | error fault rest hsuffix h => exact .error fault rest hsuffix h
  | argued field start left h => exact .argued field start left h

/-- A failure that is foretold ends all that would come after it. -/
theorem Foretold.of_error {good : α → Prop} {good' : β → Prop} {f : Failure}
    (h : Foretold b whole problem good (.error f)) : Foretold b whole problem good' (.error f) := by
  cases h with
  | error fault rest hsuffix h => exact .error fault rest hsuffix h
  | argued field start left h => exact .argued field start left h

/-- Something made of a good result. -/
theorem Foretold.map {good : α → Prop} {good' : β → Prop} {r : Except Failure α} {f : α → β}
    (h : Foretold b whole problem good r) (hf : ∀ a, good a → good' (f a)) :
    Foretold b whole problem good' (r >>= fun a => pure (f a)) :=
  h.bind fun a ha => .ok _ (hf a ha)

namespace At

theorem rest (h : t :: ts <:+ whole) : ts <:+ whole :=
  (List.suffix_cons t ts).trans h

/-- A token that is taken. -/
theorem taken (h : At b whole problem (.due n st) (t :: ts)) (ns : List Need)
    (hc : (Pending.due n st).crowded b.limit = false) (ht : n.after? t.kind = some ns)
    (hroom : (st.push ns).depth ≤ b.limit) : At b whole problem (st.push ns) ts :=
  ⟨rest h.suffix, h.ahead.trans (problem?_of_taken ns hc ht hroom)⟩

/-- A need that is left out. -/
theorem skipped (h : At b whole problem (.due n st) ts) (hopt : n.optional = true)
    (hts : ∀ t, ts.head? = some t → n.after? t.kind = none) : At b whole problem st ts := by
  refine ⟨h.suffix, h.ahead.trans (problem?_of_skipped hopt ?_)⟩
  intro k hk
  rw [List.head?_map] at hk
  obtain ⟨t, ht, rfl⟩ := Option.map_eq_some_iff.mp hk
  exact hts t ht

/-- A token that is wrong, or an end, is the problem. -/
theorem eq_of_refused (h : At b whole problem (.due n st) ts)
    (hc : (Pending.due n st).crowded b.limit = false) (hopt : n.optional = false)
    (hts : ∀ t, ts.head? = some t → n.after? t.kind = none) :
    problem = some (n.fault (ts.head?.map Token.kind), ts.length) := by
  rw [h.ahead, problem?_of_refused hc hopt, List.head?_map, List.length_map]
  intro k hk
  rw [List.head?_map] at hk
  obtain ⟨t, ht, rfl⟩ := Option.map_eq_some_iff.mp hk
  exact hts t ht

/-- At a token that is wrong, or an end, a reader fails. -/
theorem refused {good : α → Prop} {fault : Fault} (h : At b whole problem (.due n st) ts)
    (hc : (Pending.due n st).crowded b.limit = false) (hopt : n.optional = false)
    (hts : ∀ t, ts.head? = some t → n.after? t.kind = none)
    (hfault : n.fault (ts.head?.map Token.kind) = fault) :
    Foretold b whole problem good (.error ⟨fault, b.here ts⟩) :=
  .error fault ts h.suffix (hfault ▸ h.eq_of_refused hc hopt hts)

/-- A token that opens one set, list or object too many. -/
theorem opened {good : α → Prop} (h : At b whole problem (.due n st) (t :: ts))
    (ns : List Need) (ht : n.after? t.kind = some ns) (hroom : b.limit < (st.push ns).depth) :
    Foretold b whole problem good (.error (b.tooDeep (t :: ts))) := by
  refine .error _ _ h.suffix (h.ahead.trans ?_)
  rw [List.map_cons, problem?_of_opened ht hroom, List.length_map]
  rfl

/-- Another stack that does the same with the next token. -/
theorem congr {st' : Pending} (h : At b whole problem st (t :: ts))
    (hc : st.crowded b.limit = false) (hc' : st'.crowded b.limit = false)
    (hstep : st.step t.kind = st'.step t.kind)
    (hfault : st.fault (some t.kind) = st'.fault (some t.kind)) :
    At b whole problem st' (t :: ts) :=
  ⟨h.suffix, h.ahead.trans (problem?_congr hc hc' hstep hfault)⟩

end At

section Room

variable {room limit : Nat}

/-- The sets, lists and objects that are open are within the limit. -/
theorem depth_le (h : room + st.depth = limit) : st.depth ≤ limit :=
  h ▸ Nat.le_add_left _ _

theorem depth_le_rest (h : room + (Pending.due n st).depth = limit) : st.depth ≤ limit :=
  Nat.le_trans (Nat.le_add_left _ _) (depth_le h)

theorem depth_due_le (hn : n.depth = 0) (h : st.depth ≤ limit) :
    (Pending.due n st).depth ≤ limit :=
  (Pending.depth_due hn st).symm ▸ h

/-- Without room, one more is too many. -/
theorem lt_depth (hn : n.depth = 1) (h : 0 + st.depth = limit) :
    limit < (Pending.due n st).depth := by
  rw [Pending.depth_due_succ hn]
  omega

/-- One more takes one off the room. -/
theorem depth_inside (hn : n.depth = 1) (h : room + 1 + st.depth = limit) :
    room + (Pending.due n st).depth = limit := by
  rw [Pending.depth_due_succ hn]
  omega

end Room

/-! ## 2. Names and marks -/

/-- A name is read where one is due. -/
theorem name_foretold (needs : String → List Need) {what : Expectation}
    (h : At b whole problem (.due n st) ts)
    (hc : (Pending.due n st).crowded b.limit = false) (hopt : n.optional = false)
    (hstart : ∀ t, ts.head? = some t → n.after? t.kind = nameStart? needs t.kind)
    (hfault : ∀ found, n.fault found = .expected what found)
    (hroom : ∀ word, (st.push (needs word)).depth ≤ b.limit) :
    Foretold b whole problem (fun p => At b whole problem (st.push (needs p.value)) p.rest)
      (name b what ts) := by
  match ts with
  | [] => exact h.refused hc hopt nofun (hfault _)
  | ⟨.name word, o⟩ :: ts => exact .ok _ (h.taken _ hc (hstart _ rfl) (hroom word))
  | ⟨.string _, _⟩ :: _ | ⟨.number _, _⟩ :: _ | ⟨.mark _, _⟩ :: _ | ⟨.spread, _⟩ :: _ =>
    refine h.refused hc hopt (fun t ht => ?_) (hfault _)
    cases ht
    exact hstart _ rfl

/-- A mark is read where it is due. -/
theorem mark_foretold {m : Mark} (ns : List Need) (h : At b whole problem (.due n st) ts)
    (hc : (Pending.due n st).crowded b.limit = false) (hopt : n.optional = false)
    (hstart : ∀ k, n.after? k = markStart? m ns k)
    (hfault : ∀ found, n.fault found = .expected (.mark m) found)
    (hroom : (st.push ns).depth ≤ b.limit) :
    Foretold b whole problem (fun p => At b whole problem (st.push ns) p.rest) (mark b m ts) := by
  match ts with
  | [] => exact h.refused hc hopt nofun (hfault _)
  | t :: ts =>
    rw [mark]
    split
    · rename_i ht
      exact .ok _ (h.taken _ hc ((hstart _).trans (if_pos ht)) hroom)
    · rename_i hno
      refine h.refused hc hopt (fun t ht => ?_) (hfault _)
      cases ht
      exact (hstart _).trans (if_neg hno)

/-! ## 3. Values -/

/-- A list whose next token does not close it goes on with a value. -/
theorem At.values (h : At b whole problem (.due .values st) (t :: ts))
    (ht : t.kind ≠ .mark .closeBracket) :
    At b whole problem (.due .value (.due .values st)) (t :: ts) := by
  refine h.congr rfl rfl ?_ rfl
  have hvalues : Need.values.after? t.kind = (valueStart? t.kind).map (· ++ [.values]) := if_neg ht
  rw [Pending.step, Pending.step, hvalues, Need.after?]
  cases valueStart? t.kind with
  | none => rfl
  | some ns => exact congrArg some (Pending.push_append st ns [.values])

mutual

/-- A value is read where one is due. -/
theorem literal_foretold : ∀ (room : Nat) (st : Pending) (ts : List Token),
    room + st.depth = b.limit → At b whole problem (.due .value st) ts →
      Foretold b whole problem (fun p => At b whole problem st p.rest) (literal b room ts)
  | _, _, [], _, h => by
      unfold literal
      exact h.refused rfl rfl nofun rfl
  | _, st, ⟨.string _, _⟩ :: _, hroom, h | _, st, ⟨.number _, _⟩ :: _, hroom, h
  | _, st, ⟨.name _, _⟩ :: _, hroom, h => by
      unfold literal
      exact .ok _ (h.taken [] rfl rfl (depth_le hroom))
  | 0, st, ⟨.mark .openBracket, _⟩ :: _, hroom, h => by
      unfold literal
      exact h.opened [.values] rfl (lt_depth rfl hroom)
  | 0, st, ⟨.mark .openBrace, _⟩ :: _, hroom, h => by
      unfold literal
      exact h.opened [.entries .objectField .closeBrace] rfl (lt_depth rfl hroom)
  | room + 1, st, ⟨.mark .openBracket, _⟩ :: ts, hroom, h => by
      unfold literal
      have hopen : room + (Pending.due .values st).depth = b.limit := depth_inside rfl hroom
      exact (literals_foretold room st ts hopen
        (h.taken [.values] rfl rfl (depth_le hopen))).map fun _ hp => hp
  | room + 1, st, ⟨.mark .openBrace, _⟩ :: ts, hroom, h => by
      unfold literal
      have hopen : room + (Pending.due (.entries .objectField .closeBrace) st).depth = b.limit :=
        depth_inside rfl hroom
      exact (entries_foretold room .objectField .closeBrace [] st ts hopen
        (h.taken [.entries .objectField .closeBrace] rfl rfl (depth_le hopen))).map
          fun _ hp => hp
  | _, _, ⟨.mark .closeBrace, _⟩ :: _, _, h | _, _, ⟨.mark .closeBracket, _⟩ :: _, _, h
  | _, _, ⟨.mark .openParen, _⟩ :: _, _, h | _, _, ⟨.mark .closeParen, _⟩ :: _, _, h
  | _, _, ⟨.mark .colon, _⟩ :: _, _, h | _, _, ⟨.spread, _⟩ :: _, _, h => by
      unfold literal
      refine h.refused rfl rfl (fun t ht => ?_) rfl
      cases ht
      rfl
  termination_by _ _ ts => 2 * ts.length

/-- The items of a list are read where they are due. -/
theorem literals_foretold : ∀ (room : Nat) (st : Pending) (ts : List Token),
    room + (Pending.due .values st).depth = b.limit → At b whole problem (.due .values st) ts →
      Foretold b whole problem (fun p => At b whole problem st p.rest) (literals b room ts)
  | _, _, [], _, h => by
      unfold literals
      exact h.refused rfl rfl nofun rfl
  | room, st, t :: ts, hroom, h => by
      unfold literals
      by_cases ht : t.kind = .mark .closeBracket
      · simp only [ht, ↓reduceIte]
        exact .ok _ (h.taken [] rfl (if_pos ht) (depth_le_rest hroom))
      · simp only [ht, ↓reduceIte]
        refine (literal_foretold room (.due .values st) (t :: ts) hroom (h.values ht)).bind
          fun p hp => ?_
        have hshort : p.rest.length < ts.length + 1 := p.shorter
        exact (literals_foretold room st p.rest hroom hp).map fun _ hq => hq
  termination_by _ _ ts => 2 * ts.length + 1

/-- Entries are read where they are due. -/
theorem entries_foretold : ∀ (room : Nat) (what : Expectation) (close : Mark)
    (table : List (String × Literal)) (st : Pending) (ts : List Token),
    room + (Pending.due (.entries what close) st).depth = b.limit →
      At b whole problem (.due (.entries what close) st) ts →
        Foretold b whole problem (fun p => At b whole problem st p.rest)
          (entries b room what close table ts)
  | _, _, _, _, _, [], _, h => by
      unfold entries
      exact h.refused rfl rfl nofun rfl
  | room, what, close, table, st, t :: ts, hroom, h => by
      unfold entries
      by_cases ht : t.kind = .mark close
      · simp only [ht, ↓reduceIte]
        exact .ok _ (h.taken [] rfl (if_pos ht) (depth_le_rest hroom))
      · simp only [ht, ↓reduceIte]
        have hstart : ∀ u, (t :: ts).head? = some u →
            (Need.entries what close).after? u.kind =
              nameStart? (fun _ => [.colon, .value, .entries what close]) u.kind := by
          intro u hu
          cases hu
          exact if_neg ht
        have hvalue : (Pending.due .value (.due (.entries what close) st)).depth ≤ b.limit :=
          depth_due_le rfl (depth_le hroom)
        refine (name_foretold _ h rfl rfl hstart (fun _ => rfl)
          fun _ => depth_due_le rfl hvalue).bind fun key hkey => ?_
        have h1 : key.rest.length < ts.length + 1 := key.shorter
        refine (mark_foretold [] hkey rfl rfl (fun _ => rfl) (fun _ => rfl) hvalue).bind
          fun colon hcolon => ?_
        have h2 := colon.shorter
        refine (literal_foretold room _ colon.rest hroom hcolon).bind fun value hvalue => ?_
        have h3 := value.shorter
        exact (entries_foretold room what close _ st value.rest hroom hvalue).map
          fun _ hmore => hmore
  termination_by _ _ _ _ _ ts => 2 * ts.length + 1

end

/-! ## 4. Heads of selections -/

theorem exists_of_startsWith {m : Mark} (h : startsWith m ts = true) :
    ∃ o rest, ts = ⟨.mark m, o⟩ :: rest := by
  match ts with
  | ⟨k, o⟩ :: rest =>
    obtain rfl : k = .mark m := beq_iff_eq.mp h
    exact ⟨o, rest, rfl⟩

theorem kind_ne_of_startsWith {m : Mark} (h : startsWith m ts = false) (ht : ts.head? = some t) :
    t.kind ≠ .mark m := by
  obtain ⟨rest, rfl⟩ := List.head?_eq_some_iff.mp ht
  exact beq_eq_false_iff_ne.mp h

/-- A mark that comes next is read. -/
theorem mark_foretold_of_startsWith {m : Mark} (ns : List Need)
    (h : At b whole problem (.due n st) ts) (hm : startsWith m ts = true)
    (hc : (Pending.due n st).crowded b.limit = false) (hafter : n.after? (.mark m) = some ns)
    (hroom : (st.push ns).depth ≤ b.limit) :
    Foretold b whole problem (fun p => At b whole problem (st.push ns) p.rest) (mark b m ts) := by
  obtain ⟨o, rest, rfl⟩ := exists_of_startsWith hm
  rw [mark, if_pos rfl]
  exact .ok _ (h.taken _ hc hafter hroom)

theorem phraseStart?_of_ne_spread {k : Token.Kind} (h : k ≠ .spread) :
    phraseStart? k = nameStart? (fun word => [.tail word]) k := by
  cases k with
  | spread => exact absurd rfl h
  | _ => rfl

theorem partsStart?_of_ne {name : String} {k : Token.Kind} (hparen : k ≠ .mark .openParen)
    (hbrace : k ≠ .mark .openBrace) : partsStart? name k = none := by
  unfold partsStart?
  split <;> first | rfl | contradiction

/-- A name that no colon follows is the name of its field. -/
theorem At.parts {name : String} (h : At b whole problem (.due (.tail name) st) ts)
    (hcolon : startsWith .colon ts = false) : At b whole problem (.due (.parts name) st) ts := by
  refine ⟨h.suffix, h.ahead.trans (problem?_tail fun hk => ?_)⟩
  rw [List.head?_map] at hk
  obtain ⟨t, ht, hkind⟩ := Option.map_eq_some_iff.mp hk
  exact kind_ne_of_startsWith hcolon ht hkind

/-- The name of a field is read where a selection is due. -/
theorem fieldName_foretold (h : At b whole problem (.due .phrase st) ts)
    (hspread : ∀ t, ts.head? = some t → t.kind ≠ .spread)
    (hc : st.crowded b.limit = false) (hroom : st.depth ≤ b.limit) :
    Foretold b whole problem (fun p => At b whole problem (.due (.parts p.value) st) p.rest)
      (fieldName b ts) := by
  unfold fieldName
  refine (name_foretold _ h rfl rfl (fun t ht => phraseStart?_of_ne_spread (hspread t ht))
    (fun _ => rfl) fun _ => depth_due_le rfl hroom).bind fun first hfirst => ?_
  by_cases hcolon : startsWith .colon first.rest = true
  · simp only [hcolon, ↓reduceIte]
    refine (mark_foretold_of_startsWith [.field] hfirst hcolon hc rfl
      (depth_due_le rfl hroom)).bind fun colon hfield => ?_
    exact (name_foretold (fun name => [.parts name]) hfield rfl rfl (fun _ _ => rfl) (fun _ => rfl)
      fun _ => depth_due_le rfl hroom).map fun _ hp => hp
  · simp only [hcolon]
    exact .ok _ (hfirst.parts (by simpa using hcolon))

/-- A type condition is read where it is due. -/
theorem typeCondition_foretold (h : At b whole problem (.due .on (.due .type st)) ts)
    (hroom : st.depth ≤ b.limit) :
    Foretold b whole problem (fun p => At b whole problem st p.rest) (typeCondition b ts) := by
  match ts with
  | [] => exact h.refused rfl rfl nofun rfl
  | t :: ts =>
    unfold typeCondition
    by_cases ht : t.kind = .name "on"
    · simp only [ht, ↓reduceIte]
      refine (name_foretold (fun _ => []) (h.taken [] rfl (if_pos ht) ?_) rfl rfl
        (fun _ _ => rfl) (fun _ => rfl) fun _ => hroom).map fun _ hp => hp
      exact depth_due_le rfl hroom
    · simp only [ht, ↓reduceIte]
      refine h.refused rfl rfl (fun u hu => ?_) rfl
      cases hu
      exact if_neg ht

/-- Arguments are read where they may follow, if a parenthesis does. -/
theorem arguments?_foretold {room : Nat} {name : String} (hroom : room + st.depth = b.limit)
    (h : At b whole problem (.due (.parts name) st) ts) (hc : st.crowded b.limit = false)
    (hparen : startsWith .openParen ts = true) :
    Foretold b whole problem
      (fun a => ∃ p, a = some p ∧ At b whole problem (.due (.argued name) st) p.rest)
      (arguments? b room ts) := by
  have hargued : (Pending.due (.argued name) st).depth ≤ b.limit :=
    depth_due_le rfl (depth_le hroom)
  have hopen : room + (Pending.due (.entries .argumentName .closeParen)
      (.due (.argued name) st)).depth = b.limit := by
    rw [Pending.depth_due rfl, Pending.depth_due rfl, hroom]
  rw [arguments?, if_pos hparen]
  refine (mark_foretold_of_startsWith [.entries .argumentName .closeParen, .argued name]
    h hparen hc rfl (depth_due_le rfl hargued)).bind fun paren hentries => ?_
  exact (entries_foretold room .argumentName .closeParen [] _ paren.rest hopen hentries).map
    fun _ hp => ⟨_, rfl, hp⟩

/-! ## 5. Selections -/

/-- A set whose next token does not close it goes on with a selection. -/
theorem At.phrases (h : At b whole problem (.due .phrases st) (t :: ts))
    (ht : t.kind ≠ .mark .closeBrace) :
    At b whole problem (.due .phrase (.due .phrases st)) (t :: ts) := by
  refine h.congr rfl rfl ?_ rfl
  have hphrases : Need.phrases.after? t.kind = (phraseStart? t.kind).map (· ++ [.phrases]) :=
    if_neg ht
  rw [Pending.step, Pending.step, hphrases, Need.after?]
  cases phraseStart? t.kind with
  | none => rfl
  | some ns => exact congrArg some (Pending.push_append st ns [.phrases])

/-- Ahead of the end the next selection is due. -/
theorem At.nextPhrase (h : At b whole problem .more (t :: ts)) :
    At b whole problem (.due .phrase .more) (t :: ts) := by
  refine h.congr rfl rfl ?_ rfl
  rw [Pending.step, Pending.step, Need.after?]
  cases phraseStart? t.kind <;> rfl

/-- A document that starts with no brace is made of selections. -/
theorem At.bare (h : At b whole problem .start (t :: ts))
    (ht : startsWith .openBrace (t :: ts) = false) : At b whole problem .more (t :: ts) := by
  refine h.congr rfl rfl ?_ rfl
  rw [Pending.step, Pending.step, if_neg (kind_ne_of_startsWith ht rfl)]

/-- A set that starts here, whatever it is due for. -/
theorem At.set {st' : Pending} (h : At b whole problem st' ts)
    (hts : startsWith .openBrace ts = true)
    (hstep : st'.step (.mark .openBrace) = some (.due .phrases st))
    (hdepth : st'.depth = st.depth) : At b whole problem (.due .set st) ts := by
  obtain ⟨o, rest, rfl⟩ := exists_of_startsWith hts
  exact ⟨h.suffix, h.ahead.trans (problem?_set hstep hdepth _)⟩

/-- A field without parts ends ahead of a token that starts none. -/
theorem At.leaf {name : String} (h : At b whole problem (.due (.parts name) st) ts)
    (hparen : startsWith .openParen ts = false) (hbrace : startsWith .openBrace ts = false) :
    At b whole problem st ts := by
  refine h.skipped rfl fun t ht => ?_
  have hopen := kind_ne_of_startsWith hparen ht
  have hset := kind_ne_of_startsWith hbrace ht
  exact partsStart?_of_ne hopen hset

mutual

/-- A selection is read where one is due. -/
theorem selection_foretold : ∀ (room : Nat) (parent : Selection) (st : Pending)
    (ts : List Token), room + st.depth = b.limit → st.crowded b.limit = false →
      At b whole problem (.due .phrase st) ts →
        Foretold b whole problem (fun p => At b whole problem st p.rest)
          (selection b room parent ts)
  | _, _, _, [], _, _, h => by
      unfold selection
      exact h.refused rfl rfl nofun rfl
  | _, _, _, ⟨.string _, _⟩ :: _, _, _, h | _, _, _, ⟨.number _, _⟩ :: _, _, _, h
  | _, _, _, ⟨.mark _, _⟩ :: _, _, _, h => by
      unfold selection
      refine h.refused rfl rfl (fun t ht => ?_) rfl
      cases ht
      rfl
  | room, parent, st, ⟨.spread, o⟩ :: ts, hroom, hc, h => by
      unfold selection
      have hset : (Pending.due .set st).depth ≤ b.limit := depth_due_le rfl (depth_le hroom)
      refine (typeCondition_foretold (h.taken [.on, .type, .set] rfl rfl
        (depth_due_le rfl (depth_due_le rfl hset))) hset).bind fun type htype => ?_
      have hshort := type.shorter
      exact (selectionSet_foretold room st type.rest hroom htype).map fun _ hp => hp
  | room, parent, st, ⟨.name first, o⟩ :: ts, hroom, hc, h => by
      unfold selection
      refine (fieldName_foretold h (by simp) hc (depth_le hroom)).bind fun field hfield => ?_
      have hshort : field.rest.length < ts.length + 1 := field.shorter
      by_cases hparen : startsWith .openParen field.rest = true
      · refine (arguments?_foretold hroom hfield hc hparen).bind ?_
        rintro _ ⟨arguments, rfl, hargued⟩
        have hshort' := arguments.shorter
        simp only
        split
        · rename_i hbrace
          exact (selectionSet_foretold room st arguments.rest hroom
            (hargued.set hbrace rfl (Pending.depth_due rfl st))).map fun _ hp => hp
        · rename_i hbrace
          have hno : startsWith .openBrace arguments.rest = false := by simpa using hbrace
          exact .argued _ _ _ (hargued.eq_of_refused rfl rfl
            fun t ht => if_neg (kind_ne_of_startsWith hno ht))
      · have hno : startsWith .openParen field.rest = false := by simpa using hparen
        simp only [arguments?_eq_none hno, ok_bind]
        split
        · rename_i hbrace
          exact (selectionSet_foretold room st field.rest hroom
            (hfield.set hbrace rfl (Pending.depth_due rfl st))).map fun _ hp => hp
        · rename_i hbrace
          exact .ok _ (hfield.leaf hno (by simpa using hbrace))
  termination_by _ _ _ ts => 2 * ts.length

/-- A set is read where one is due. -/
theorem selectionSet_foretold : ∀ (room : Nat) (st : Pending) (ts : List Token),
    room + st.depth = b.limit → At b whole problem (.due .set st) ts →
      Foretold b whole problem (fun p => At b whole problem st p.rest) (selectionSet b room ts)
  | 0, st, ts, hroom, h => by
      unfold selectionSet
      have hcrowded : (Pending.due .set st).crowded b.limit = true := by
        simp only [Pending.crowded, beq_self_eq_true, Bool.true_and, Bool.or_eq_true,
          decide_eq_true_eq]
        omega
      refine .error _ ts h.suffix (h.ahead.trans ?_)
      rw [problem?_of_crowded hcrowded, List.length_map]
  | room + 1, st, ts, hroom, h => by
      unfold selectionSet
      have hopen : room + (Pending.due .phrases st).depth = b.limit := depth_inside rfl hroom
      have hdepth : (Pending.due .set st).depth = st.depth := Pending.depth_due (n := .set) rfl st
      have hc : (Pending.due .set st).crowded b.limit = false :=
        Pending.crowded_eq_false_of_lt (by omega)
      refine (mark_foretold [.phrases] h hc rfl (fun _ => rfl) (fun _ => rfl)
        (depth_le hopen)).bind fun brace hbrace => ?_
      have hshort := brace.shorter
      exact (selectionsToBrace_foretold room .empty st brace.rest hopen hbrace).map fun _ hp => hp
  termination_by _ _ ts => 2 * ts.length

/-- The selections of a set are read where they are due. -/
theorem selectionsToBrace_foretold : ∀ (room : Nat) (parent : Selection) (st : Pending)
    (ts : List Token), room + (Pending.due .phrases st).depth = b.limit →
      At b whole problem (.due .phrases st) ts →
        Foretold b whole problem (fun p => At b whole problem st p.rest)
          (selectionsToBrace b room parent ts)
  | _, _, _, [], _, h => by
      unfold selectionsToBrace
      exact h.refused rfl rfl nofun rfl
  | room, parent, st, t :: ts, hroom, h => by
      unfold selectionsToBrace
      by_cases ht : t.kind = .mark .closeBrace
      · simp only [ht, ↓reduceIte]
        exact .ok _ (h.taken [] rfl (if_pos ht) (depth_le_rest hroom))
      · simp only [ht, ↓reduceIte]
        refine (selection_foretold room parent (.due .phrases st) (t :: ts) hroom rfl
          (h.phrases ht)).bind fun next hnext => ?_
        have hshort : next.rest.length < ts.length + 1 := next.shorter
        exact (selectionsToBrace_foretold room next.value st next.rest hroom hnext).map
          fun _ hp => hp
  termination_by _ _ _ ts => 2 * ts.length + 1

end

/-- Selections are read up to the end. -/
theorem selectionsToEnd_foretold : ∀ (parent : Selection) (ts : List Token),
    At b whole problem .more ts →
      Foretold b whole problem (fun _ => problem = none) (selectionsToEnd b parent ts)
  | parent, [], h => by
      unfold selectionsToEnd
      exact .ok _ h.ahead
  | parent, t :: ts, h => by
      unfold selectionsToEnd
      refine (selection_foretold b.limit parent .more (t :: ts) rfl rfl h.nextPhrase).bind
        fun next hnext => ?_
      have hshort : next.rest.length < ts.length + 1 := next.shorter
      exact selectionsToEnd_foretold next.value next.rest hnext
  termination_by _ ts => ts.length

/-! ## 6. Documents -/

theorem set_eq_nil {set : List Phrase}
    (h : (Selection.empty.mergeAll (Phrase.entries set)).isEmpty = true) : set = [] := by
  by_contra hne
  cases h.symm.trans (isEmpty_selection (d := .braced set) hne)

/-- **A document is read unless it has a problem**, and then fails with that, a set without
    selections apart. -/
theorem document_foretold (hne : ts ≠ []) (h : At b ts problem .start ts) :
    Foretold b ts problem (fun _ => problem = none) (document b ts) ∨
      document b ts = .error ⟨.emptySelection, 0⟩ ∧ problem = none ∧
        ts.map Token.kind = [.mark .openBrace, .mark .closeBrace] := by
  by_cases hbrace : startsWith .openBrace ts = true
  · have hset := selectionSet_foretold b.limit .done ts rfl (h.set hbrace rfl rfl)
    rw [document_of_brace hbrace]
    cases hr : selectionSet b b.limit ts with
    | error f =>
      rw [hr] at hset
      exact Or.inl hset.of_error
    | ok p =>
      rw [hr] at hset
      cases hset with
      | ok _ hp =>
        rw [ok_bind]
        have hahead := hp.ahead
        cases hrest : p.rest with
        | nil =>
          rw [hrest] at hahead
          simp only
          split
          · rename_i hempty
            obtain ⟨set, hspans, -, hvalue⟩ := exists_set b.limit ts p hr
            rw [← hvalue] at hempty
            rw [set_eq_nil hempty, hrest] at hspans
            exact Or.inr ⟨rfl, hahead, (spans_end_iff.mp hspans).symm⟩
          · exact Or.inl (.ok _ hahead)
        | cons t rest =>
          rw [hrest] at hahead
          refine Or.inl (.error _ (t :: rest) (hrest ▸ hp.suffix) (hahead.trans ?_))
          simp [problem?, Pending.crowded, Pending.step, Pending.fault]
  · obtain ⟨t, rest, rfl⟩ := List.exists_cons_of_ne_nil hne
    have hno : startsWith .openBrace (t :: rest) = false := by simpa using hbrace
    have hend := selectionsToEnd_foretold .empty _ (h.bare hno)
    rw [document_of_no_brace hno]
    cases hr : selectionsToEnd b .empty (t :: rest) with
    | error f =>
      rw [hr] at hend
      exact Or.inl hend.of_error
    | ok s =>
      rw [hr] at hend
      cases hend with
      | ok _ hnone =>
        obtain ⟨set, hspans, -, hvalue⟩ := exists_bareSet .empty (t :: rest) s hr
        rw [ok_bind]
        split
        · rename_i hempty
          rw [← hvalue] at hempty
          rw [set_eq_nil hempty] at hspans
          cases spans_end_iff.mp hspans
        · exact Or.inl (.ok _ hnone)

/-- The fault shows at the token that is wrong, or at the end. -/
inductive Placed : Fault → Prop where
  | expected (what : Expectation) (found : Option Token.Kind) : Placed (.expected what found)
  | trailingTokens (found : Token.Kind) : Placed (.trailingTokens found)
  | tooDeep (limit : Nat) : Placed (.tooDeep limit)

/-- A document fails with a fault of this kind where the problem is, and only there. -/
theorem document_eq_error_iff {fault : Fault} {o : Nat} (hplaced : Placed fault) :
    document b ts = .error ⟨fault, o⟩ ↔
      ∃ rest, rest <:+ ts ∧ b.here rest = o ∧
        problem? b.limit .start (ts.map Token.kind) = some (fault, rest.length) := by
  by_cases hne : ts = []
  · subst hne
    constructor
    · intro h
      cases h
      cases hplaced
    · rintro ⟨rest, -, -, h⟩
      obtain rfl : Fault.emptySource = fault := congrArg Prod.fst (Option.some.inj h)
      cases hplaced
  rcases document_foretold hne ⟨List.suffix_refl ts, rfl⟩ with h | ⟨h, hnone, -⟩
  · constructor
    · intro hr
      rw [hr] at h
      cases h with
      | error _ rest hsuffix h => exact ⟨rest, hsuffix, rfl, h⟩
      | argued => cases hplaced
    · rintro ⟨rest, hsuffix, rfl, hproblem⟩
      generalize document b ts = r at h
      cases h with
      | ok s h => cases hproblem.symm.trans h
      | error fault' rest' hsuffix' h =>
        have heq := Option.some.inj (hproblem.symm.trans h)
        obtain ⟨rfl, hlength⟩ := Prod.mk.inj heq
        rw [(List.suffix_of_suffix_length_le hsuffix hsuffix'
          (Nat.le_of_eq hlength)).eq_of_length hlength]
      | argued field start left h =>
        cases (Option.some.inj (hproblem.symm.trans h))
        cases hplaced
  · constructor
    · intro hr
      cases h.symm.trans hr
      cases hplaced
    · rintro ⟨rest, -, -, hproblem⟩
      cases hnone.symm.trans hproblem

end FieldSelection.Grammar
