import FieldSelection.Proofs.Grammar.Limits
import FieldSelection.Proofs.Grammar.Spelling

/-!
# Where a text goes wrong

A document is accepted if some limit accepts it; only the kinds of its tokens matter for that
(`Accepted`). Tokens are viable if an accepted document starts with them and goes on (`Viable`).

* A document without a problem is accepted (`accepted_of_problem`), and an accepted one has no
  problem with enough room (`exists_problem_of_accepted`).
* So where a text fails because something else was expected, the tokens ahead are viable and no
  accepted document goes on with the next token (`parseWithin_expected`): the error is at the first
  token that cannot be right.
-/

namespace FieldSelection

namespace Grammar

/-- Some limit accepts a text with these tokens. -/
def Accepted (ks : List Token.Kind) : Prop :=
  ∃ (limit : Nat) (source : String) (s : Selection),
    kinds? source.toList = some ks ∧ Selection.parseWithin limit source = .ok s

/-- An accepted document starts with these tokens, and has more. -/
def Viable (ks : List Token.Kind) : Prop :=
  ∃ more, more ≠ [] ∧ Accepted (ks ++ more)

variable {limit left : Nat} {st : Pending} {k : Token.Kind} {ks us ls : List Token.Kind}

/-! ## 1. Accepted documents -/

theorem accepted_of_problem (hks : ∀ k ∈ ks, Writable k)
    (hne : ks ≠ [.mark .openBrace, .mark .closeBrace]) (h : problem? limit .start ks = none) :
    Accepted ks := by
  obtain ⟨cs, hcs⟩ := exists_text hks
  obtain ⟨ts, hts, rfl⟩ := kinds?_eq_some_iff.mp hcs
  have hnil : ts ≠ [] := by
    rintro rfl
    cases h
  have hsource : (String.ofList cs).toList = cs := String.toList_ofList
  refine ⟨limit, String.ofList cs, ?_⟩
  rw [hsource, hcs]
  have hread := document_foretold (b := ⟨Text.bytes cs, limit⟩) hnil ⟨List.suffix_refl ts, rfl⟩
  rw [h] at hread
  rw [Selection.parseWithin_of_tokens (hsource.symm ▸ hts), hsource]
  generalize document ⟨Text.bytes cs, limit⟩ ts = r at hread
  rcases hread with hread | ⟨-, -, hkinds⟩
  · cases hread with
    | ok s _ => exact ⟨s, rfl, rfl⟩
    | error _ _ _ h => cases h
    | argued _ _ _ h => cases h
  · exact absurd hkinds hne

theorem exists_problem_of_accepted (h : Accepted ks) :
    ∃ limit, problem? limit .start ks = none := by
  obtain ⟨limit, source, s, hkinds, h⟩ := h
  obtain ⟨ts, hts, rfl⟩ := kinds?_eq_some_iff.mp hkinds
  refine ⟨limit, ?_⟩
  rw [Selection.parseWithin_of_tokens hts, mapError_eq_ok_iff] at h
  have hnil : ts ≠ [] := by
    rintro rfl
    cases h
  rcases document_foretold (b := ⟨Text.bytes source.toList, limit⟩) hnil
    ⟨List.suffix_refl ts, rfl⟩ with hread | ⟨herror, -⟩
  · rw [h] at hread
    cases hread with
    | ok _ hnone => exact hnone
  · cases h.symm.trans herror

/-! ## 2. Viable tokens -/

theorem writable_id : Writable (.name "id") := writable_name (by decide)

theorem writable_of_mem_filling {n : Need} (h : k ∈ n.filling) : Writable k := by
  have hname : k = .name "id" ∨ k = .name "on" ∨ ∃ m, k = .mark m := by
    cases n <;> simp only [Need.filling, List.mem_cons, List.not_mem_nil, or_false] at h <;>
      rcases h with rfl | rfl | rfl | rfl <;> simp
  rcases hname with rfl | rfl | ⟨m, rfl⟩
  · exact writable_id
  · exact writable_name (by decide)
  · exact writable_mark m

theorem writable_of_mem_completion (h : k ∈ st.completion) : Writable k := by
  induction st with
  | start => exact List.mem_singleton.mp h ▸ writable_id
  | more => exact List.mem_singleton.mp h ▸ writable_id
  | done => cases h
  | due n st ih =>
    rcases List.mem_append.mp h with h | h
    · exact writable_of_mem_filling h
    · exact ih h

theorem completion_ne_nil (h : st ≠ .done) : st.completion ≠ [] := by
  cases st with
  | done => exact absurd rfl h
  | due n st => cases n <;> exact List.cons_ne_nil _ _
  | _ => exact List.cons_ne_nil _ _

/-- What completes a document is no set without selections. -/
theorem append_completion_ne (hrun : Pending.start.run us = some st) (hdone : st ≠ .done) :
    us ++ st.completion ≠ [.mark .openBrace, .mark .closeBrace] := by
  intro heq
  match us with
  | [] =>
    cases hrun
    cases heq
  | [k] =>
    obtain ⟨rfl, hcompletion⟩ := List.cons.inj heq
    cases hrun
    cases hcompletion
  | k :: k' :: us =>
    have hnil : us ++ st.completion = [] := (List.cons.inj (List.cons.inj heq).2).2
    exact completion_ne_nil hdone (List.append_eq_nil_iff.mp hnil).2

/-- Tokens that are taken one after another are viable, unless they are a whole set. -/
theorem viable_of_run (hus : ∀ k ∈ us, Writable k) (hrun : Pending.start.run us = some st)
    (hdone : st ≠ .done) : Viable us := by
  have hroom : Pending.start.depth + us.length < us.length + 1 :=
    Nat.lt_succ_of_le (Nat.le_of_eq (Nat.zero_add _))
  obtain ⟨hdepth, hgo⟩ := problem?_of_run hrun hroom
  refine ⟨st.completion, completion_ne_nil hdone, accepted_of_problem ?_
    (append_completion_ne hrun hdone) ((hgo _).trans (problem?_completion hdepth))⟩
  intro k hk
  rcases List.mem_append.mp hk with hk | hk
  · exact hus k hk
  · exact writable_of_mem_completion hk

/-- **Ahead of what is wrong, the tokens are viable.** -/
theorem viable_of_problem {what : Expectation} {found : Option Token.Kind}
    (hus : ∀ k ∈ us, Writable k)
    (h : problem? limit .start (us ++ ls) = some (.expected what found, ls.length)) :
    Viable us := by
  obtain ⟨us', more, st, heq, hmore, hrun, -, hdone, -⟩ :=
    exists_run_of_problem h (Nat.zero_le limit)
  obtain ⟨rfl, rfl⟩ := List.append_inj' heq hmore.symm
  refine viable_of_run hus hrun fun hst => ?_
  obtain ⟨k, hk⟩ := hdone hst
  cases hk

/-- **No accepted document goes on with what is wrong.** -/
theorem not_accepted_of_problem {what : Expectation} {found : Option Token.Kind}
    (h : problem? limit .start (us ++ k :: ls) = some (.expected what found, ls.length + 1))
    (more : List Token.Kind) : ¬ Accepted (us ++ k :: more) := by
  intro haccepted
  obtain ⟨limit', hnone⟩ := exists_problem_of_accepted haccepted
  have hwrong := problem?_append h more
  -- what is wrong is so for a limit that is as great as both
  have hstays : problem? (max limit limit') .start (us ++ k :: more) =
      some (.expected what found, more.length + 1) := by
    rw [problem?_of_le (Nat.le_max_left limit limit'), hwrong]
    intro left hleft
    cases hwrong.symm.trans hleft
  have hgone : problem? (max limit limit') .start (us ++ k :: more) = none := by
    rw [problem?_of_le (Nat.le_max_right limit limit'), hnone]
    intro left hleft
    cases hnone.symm.trans hleft
  cases hstays.symm.trans hgone

end Grammar

open Grammar

/-! ## 3. The place of an error -/

/-- **A syntax error is at the first token that cannot be right**, under any limit. A text that
    fails because something else was expected fails at one of its tokens or at its end. The tokens
    ahead of that are viable, and no accepted document starts with them and the token there. -/
theorem Selection.parseWithin_expected {source : String} {ts : List Token} {limit : Nat}
    {what : Expectation} {found : Option Token.Kind} {place : Text.Position}
    (hts : tokens 0 source.toList = .ok ts)
    (h : parseWithin limit source = .error ⟨.expected what found, place⟩) :
    ((∃ t ∈ ts, place.offset = t.offset) ∨ place.offset = Text.bytes source.toList) ∧
      (∀ us t more, ts = us ++ t :: more → place.offset = t.offset →
        Viable (us.map Token.kind) ∧
          ∀ ls, ¬ Accepted ((us ++ [t]).map Token.kind ++ ls)) ∧
      (place.offset = Text.bytes source.toList → Viable (ts.map Token.kind)) := by
  obtain ⟨rest, hsuffix, rfl, hproblem⟩ :=
    (parseWithin_eq_error_iff hts (.expected what found) place).mp h
  have hhere := offset_locate_here hts hsuffix limit
  have horder := inOrder_tokens 0 _ ts hts
  rw [Nat.zero_add] at horder
  have hwritable := writable_of_kinds? (kinds?_eq_some_iff.mpr ⟨ts, hts, rfl⟩)
  rw [hhere]
  refine ⟨?_, ?_, ?_⟩
  · cases rest with
    | nil => exact Or.inr rfl
    | cons t rest => exact Or.inl ⟨t, hsuffix.mem List.mem_cons_self, rfl⟩
  · rintro us t more rfl ht
    obtain rfl : t :: more = rest :=
      eq_of_here_eq (b := ⟨Text.bytes source.toList, limit⟩) horder (List.suffix_append us _)
        hsuffix ht.symm
    have hproblem : problem? limit .start (us.map Token.kind ++ t.kind :: more.map Token.kind) =
        some (.expected what found, (more.map Token.kind).length + 1) := by
      rw [List.map_append] at hproblem
      rw [List.length_map]
      exact hproblem
    constructor
    · refine viable_of_problem (fun k hk => hwritable k ?_) hproblem
      rw [List.map_append]
      exact List.mem_append_left _ hk
    · intro ls
      rw [List.map_append, List.append_assoc]
      exact not_accepted_of_problem hproblem ls
  · intro hend
    obtain rfl : [] = rest :=
      eq_of_here_eq (b := ⟨Text.bytes source.toList, limit⟩) horder List.nil_suffix hsuffix
        hend.symm
    have hproblem : problem? limit .start (ts.map Token.kind ++ []) =
        some (.expected what found, 0) := by
      rw [List.append_nil]
      exact hproblem
    exact viable_of_problem hwritable hproblem

/-- A closing parenthesis in a set, and a set that is not closed. -/
theorem Selection.parseWithin_expected_variants :
    (parseWithin 5 "variants { id ) }" =
        .error ⟨.expected .name (some (.mark .closeParen)), 14, 1, 15⟩ ∧
      Viable [.name "variants", .mark .openBrace, .name "id"] ∧
      ∀ ls, ¬ Accepted
        ([.name "variants", .mark .openBrace, .name "id", .mark .closeParen] ++ ls)) ∧
    parseWithin 3 "variants \x7b id" = .error ⟨.expected (.mark .closeBrace) none, 13, 1, 14⟩ ∧
      Viable [.name "variants", .mark .openBrace, .name "id"] := by
  have hparen : parseWithin 5 "variants { id ) }" =
      .error ⟨.expected .name (some (.mark .closeParen)), 14, 1, 15⟩ :=
    failure?_eq_some_iff.mp (by decide +kernel)
  have hend : parseWithin 3 "variants \x7b id" =
      .error ⟨.expected (.mark .closeBrace) none, 13, 1, 14⟩ :=
    failure?_eq_some_iff.mp (by decide +kernel)
  have htokens : tokens 0 "variants { id ) }".toList = .ok
      ([⟨.name "variants", 0⟩, ⟨.mark .openBrace, 9⟩, ⟨.name "id", 11⟩] ++
        ⟨.mark .closeParen, 14⟩ :: [⟨.mark .closeBrace, 16⟩]) := by decide +kernel
  have htokens' : tokens 0 "variants \x7b id".toList = .ok
      [⟨.name "variants", 0⟩, ⟨.mark .openBrace, 9⟩, ⟨.name "id", 11⟩] := by decide +kernel
  obtain ⟨-, hwrong, -⟩ := parseWithin_expected htokens hparen
  obtain ⟨hviable, hnone⟩ := hwrong _ _ _ rfl rfl
  obtain ⟨-, -, hopen⟩ := parseWithin_expected htokens' hend
  exact ⟨⟨hparen, hviable, hnone⟩, hend, hopen (by decide +kernel)⟩

end FieldSelection
