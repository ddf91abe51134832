import FieldSelection.Proofs.Grammar.Pending

/-!
# What is wrong with a text

`Wrong` says how a text goes wrong: its tokens are taken one after another, up to the one that is
wrong, or the end. That is what `problem?` finds (`problem?_eq_some_iff`), so what it says about a
text, and about those that start with the same tokens, goes by induction on that:

* the same token is wrong whatever comes after it (`problem?_append`);
* a greater limit changes nothing but what is too deep (`problem?_of_le`), which shows later
  (`problem?_tooDeep_of_lt`), and never where the limit is as great as the number of tokens
  (`limit_lt_of_tooDeep`);
* nothing is wrong ahead of a problem (`exists_run_of_problem`), and whatever is due can be
  completed (`problem?_completion`).
-/

namespace FieldSelection.Grammar

variable {limit limit' left : Nat} {n : Need} {ns : List Need} {st st' : Pending} {k : Token.Kind}
  {ks : List Token.Kind} {fault : Fault}

/-! ## 1. How a text goes wrong -/

/-- The fault of a text under a limit, with the number of tokens that are left at it. -/
inductive Wrong (limit : Nat) : Pending → List Token.Kind → Fault → Nat → Prop where
  | crowded {st : Pending} (ks : List Token.Kind) (h : st.crowded limit = true) :
      Wrong limit st ks (.tooDeep limit) ks.length
  | unfinished {st : Pending} (hc : st.crowded limit = false) (h : st.finished = false) :
      Wrong limit st [] (st.fault none) 0
  | refused {st : Pending} {k : Token.Kind} (ks : List Token.Kind)
      (hc : st.crowded limit = false) (h : st.step k = none) :
      Wrong limit st (k :: ks) (st.fault (some k)) (ks.length + 1)
  | opened {st st' : Pending} {k : Token.Kind} (ks : List Token.Kind) (h : st.step k = some st')
      (hdepth : limit < st'.depth) : Wrong limit st (k :: ks) (.tooDeep limit) (ks.length + 1)
  | taken {st st' : Pending} {k : Token.Kind} {ks : List Token.Kind} {fault : Fault} {left : Nat}
      (hc : st.crowded limit = false) (h : st.step k = some st') (hdepth : st'.depth ≤ limit)
      (hrest : Wrong limit st' ks fault left) : Wrong limit st (k :: ks) fault left

/-- **A problem is how the text goes wrong.** -/
theorem problem?_eq_some_iff :
    problem? limit st ks = some (fault, left) ↔ Wrong limit st ks fault left := by
  constructor
  · intro h
    induction ks generalizing st with
    | nil =>
      cases hc : st.crowded limit with
      | true =>
        cases (problem?_of_crowded hc).symm.trans h
        exact .crowded [] hc
      | false =>
        cases hf : st.finished with
        | true => simp [problem?, hc, hf] at h
        | false =>
          simp only [problem?, hc, hf, Bool.false_eq_true, ↓reduceIte] at h
          cases h
          exact .unfinished hc hf
    | cons k ks ih =>
      rcases exists_move limit st k with hc | ⟨hc, hstep⟩ | ⟨st', hc, hstep, hd⟩ |
        ⟨st', hc, hstep, hd⟩
      · cases (problem?_of_crowded hc).symm.trans h
        exact .crowded (k :: ks) hc
      · cases (problem?_cons_refused hc hstep).symm.trans h
        exact .refused ks hc hstep
      · cases (problem?_cons_opened hstep hd).symm.trans h
        exact .opened ks hstep hd
      · exact .taken hc hstep hd (ih ((problem?_cons_taken hc hstep hd).symm.trans h))
  · intro h
    induction h with
    | crowded ks hc => exact problem?_of_crowded hc
    | unfinished hc hf => simp [problem?, hc, hf]
    | refused ks hc hstep => exact problem?_cons_refused hc hstep
    | opened ks hstep hd => exact problem?_cons_opened hstep hd
    | taken hc hstep hd _ ih => exact (problem?_cons_taken hc hstep hd).trans ih

theorem Wrong.left_le (h : Wrong limit st ks fault left) : left ≤ ks.length := by
  induction h with
  | taken _ _ _ _ ih => exact Nat.le_succ_of_le ih
  | _ => exact Nat.le_refl _

theorem left_le_length (h : problem? limit st ks = some (fault, left)) : left ≤ ks.length :=
  (problem?_eq_some_iff.mp h).left_le

/-- **A wrong token is wrong whatever comes after it.** -/
theorem problem?_append {us ls : List Token.Kind}
    (h : problem? limit st (us ++ k :: ls) = some (fault, ls.length + 1))
    (ls' : List Token.Kind) :
    problem? limit st (us ++ k :: ls') = some (fault, ls'.length + 1) := by
  have hwrong := problem?_eq_some_iff.mp h
  clear h
  generalize hleft : ls.length + 1 = left at hwrong
  induction us generalizing st with
  | nil =>
    cases hwrong with
    | crowded _ hc => exact problem?_of_crowded hc
    | refused _ hc hstep => exact problem?_cons_refused hc hstep
    | opened _ hstep hd => exact problem?_cons_opened hstep hd
    | taken hc hstep hd hrest =>
      have := hrest.left_le
      omega
  | cons u us ih =>
    have hlong : ls.length + 1 ≠ (us ++ k :: ls).length + 1 := by
      rw [List.length_append, List.length_cons]
      omega
    cases hwrong with
    | crowded _ hc => exact absurd hleft hlong
    | refused _ hc hstep => exact absurd hleft hlong
    | opened _ hstep hd => exact absurd hleft hlong
    | taken hc hstep hd hrest => exact (problem?_cons_taken hc hstep hd).trans (ih hrest)

/-! ## 2. More room -/

theorem Pending.crowded_of_le (hle : limit ≤ limit') (h : st.crowded limit = false) :
    st.crowded limit' = false := by
  induction st with
  | due n st ih =>
    simp only [crowded, Bool.or_eq_false_iff, Bool.and_eq_false_iff, decide_eq_false_iff_not] at h ⊢
    exact ⟨h.1.imp_right fun h => by omega, h.2.imp_right ih⟩
  | _ => rfl

/-- **A greater limit changes nothing but what is too deep.** -/
theorem problem?_of_le (hle : limit ≤ limit')
    (h : ∀ left, problem? limit st ks ≠ some (.tooDeep limit, left)) :
    problem? limit' st ks = problem? limit st ks := by
  induction ks generalizing st with
  | nil =>
    cases hc : st.crowded limit with
    | true => exact absurd (problem?_of_crowded hc) (h 0)
    | false => simp [problem?, hc, Pending.crowded_of_le hle hc]
  | cons k ks ih =>
    rcases exists_move limit st k with hc | ⟨hc, hstep⟩ | ⟨st', hc, hstep, hd⟩ |
      ⟨st', hc, hstep, hd⟩
    · exact absurd (problem?_of_crowded hc) (h _)
    · rw [problem?_cons_refused hc hstep,
        problem?_cons_refused (Pending.crowded_of_le hle hc) hstep]
    · exact absurd (problem?_cons_opened hstep hd) (h _)
    · rw [problem?_cons_taken hc hstep hd] at h ⊢
      rw [problem?_cons_taken (Pending.crowded_of_le hle hc) hstep (Nat.le_trans hd hle)]
      exact ih h

/-- What is too deep is so for the limit. -/
theorem eq_limit_of_tooDeep (h : problem? limit st ks = some (.tooDeep limit', left)) :
    limit' = limit := by
  have hwrong := problem?_eq_some_iff.mp h
  clear h
  generalize hfault : Fault.tooDeep limit' = fault at hwrong
  induction hwrong with
  | crowded ks hc => exact Fault.tooDeep.inj hfault
  | unfinished _ _ => exact absurd hfault.symm (Pending.fault_ne_tooDeep _ _ _)
  | refused _ _ _ => exact absurd hfault.symm (Pending.fault_ne_tooDeep _ _ _)
  | opened ks hstep hd => exact Fault.tooDeep.inj hfault
  | taken _ _ _ _ ih => exact ih hfault

theorem Pending.lt_reach_of_crowded (h : st.crowded limit = true) : limit < st.reach := by
  induction st with
  | due n st ih =>
    simp only [crowded, Bool.or_eq_true, Bool.and_eq_true, beq_iff_eq, decide_eq_true_eq] at h
    rw [reach]
    rcases h with ⟨rfl, h⟩ | ⟨-, h⟩
    · have := st.depth_le_reach
      rw [Need.reach]
      omega
    · exact Nat.lt_add_left _ (ih h)
  | _ => cases h

/-- **What is too deep takes more tokens than the limit.** -/
theorem limit_lt_of_tooDeep (h : problem? limit st ks = some (.tooDeep limit, left)) :
    limit < st.reach + ks.length := by
  have hwrong := problem?_eq_some_iff.mp h
  clear h
  generalize hfault : Fault.tooDeep limit = fault at hwrong
  induction hwrong with
  | crowded ks hc => exact Nat.lt_add_right _ (Pending.lt_reach_of_crowded hc)
  | unfinished _ _ => exact absurd hfault.symm (Pending.fault_ne_tooDeep _ _ _)
  | refused _ _ _ => exact absurd hfault.symm (Pending.fault_ne_tooDeep _ _ _)
  | @opened _ st' _ ks hstep hd =>
    have := (Pending.depth_step hstep).2
    have := st'.depth_le_reach
    rw [List.length_cons]
    omega
  | taken _ hstep _ _ ih =>
    have := ih hfault
    have := (Pending.depth_step hstep).2
    rw [List.length_cons]
    omega

/-- **With less room it is too deep sooner.** -/
theorem problem?_tooDeep_of_lt (hlt : limit < limit') (hdepth : st.depth ≤ limit)
    (h : problem? limit' st ks = some (.tooDeep limit', left)) :
    ∃ left', left < left' ∧ problem? limit st ks = some (.tooDeep limit, left') := by
  have hwrong := problem?_eq_some_iff.mp h
  clear h
  generalize hfault : Fault.tooDeep limit' = fault at hwrong
  induction hwrong with
  | crowded ks hc =>
    cases (Pending.crowded_eq_false_of_lt (Nat.lt_of_le_of_lt hdepth hlt)).symm.trans hc
  | unfinished _ _ => exact absurd hfault.symm (Pending.fault_ne_tooDeep _ _ _)
  | refused _ _ _ => exact absurd hfault.symm (Pending.fault_ne_tooDeep _ _ _)
  | opened ks hstep hd =>
    have := (Pending.depth_step hstep).1
    omega
  | @taken st st' k ks fault left _ hstep _ hrest ih =>
    have hleft : left < ks.length + 1 := Nat.lt_succ_of_le hrest.left_le
    rcases exists_move limit st k with hc | ⟨hc, hnone⟩ | ⟨u, hc, hu, hd⟩ | ⟨u, hc, hu, hd⟩
    · exact ⟨_, hleft, problem?_of_crowded hc⟩
    · cases hstep.symm.trans hnone
    · exact ⟨_, hleft, problem?_cons_opened hu hd⟩
    · cases hstep.symm.trans hu
      rw [problem?_cons_taken hc hstep hd]
      exact ih hd hfault

/-! ## 3. Completions -/

/-- What is due after tokens; none if one of them is wrong. -/
def Pending.run : Pending → List Token.Kind → Option Pending
  | st, [] => some st
  | st, k :: ks => (st.step k).bind (·.run ks)

theorem Pending.run_snoc {st'' : Pending} (hrun : st.run ks = some st')
    (hstep : st'.step k = some st'') : st.run (ks ++ [k]) = some st'' := by
  induction ks generalizing st with
  | nil =>
    cases hrun
    exact congrArg (·.bind fun st => st.run []) hstep
  | cons k ks ih =>
    obtain ⟨mid, hmid, hrun⟩ := Option.bind_eq_some_iff.mp hrun
    rw [List.cons_append, run, hmid]
    exact ih hrun

/-- With enough room, a text goes on from what is due after its first tokens. -/
theorem problem?_of_run {us : List Token.Kind} (hrun : st.run us = some st')
    (hroom : st.depth + us.length < limit) :
    st'.depth < limit ∧ ∀ ls, problem? limit st (us ++ ls) = problem? limit st' ls := by
  induction us generalizing st with
  | nil =>
    cases hrun
    exact ⟨hroom, fun _ => rfl⟩
  | cons k us ih =>
    obtain ⟨mid, hstep, hrun⟩ := Option.bind_eq_some_iff.mp hrun
    have hdepth := (Pending.depth_step hstep).1
    rw [List.length_cons] at hroom
    obtain ⟨hlt, hgo⟩ := ih hrun (by omega)
    refine ⟨hlt, fun ls => ?_⟩
    rw [List.cons_append, problem?_cons_taken (Pending.crowded_eq_false_of_lt (by omega)) hstep
      (by omega)]
    exact hgo ls

/-- **Ahead of a problem nothing is wrong**: some stack is due there, and any other text may go on
    from it. The problem is only what comes after the end of a document if nothing is due. -/
theorem exists_run_of_problem (h : problem? limit st ks = some (fault, left))
    (hdepth : st.depth ≤ limit) :
    ∃ us more st', ks = us ++ more ∧ more.length = left ∧ st.run us = some st' ∧
      st'.depth ≤ limit ∧ (st' = .done → ∃ k, fault = .trailingTokens k) ∧
        ∀ ls, problem? limit st (us ++ ls) = problem? limit st' ls := by
  have hwrong := problem?_eq_some_iff.mp h
  clear h
  induction hwrong with
  | @crowded st ks hc =>
    refine ⟨[], ks, st, rfl, rfl, rfl, hdepth, ?_, fun _ => rfl⟩
    rintro rfl
    cases hc
  | @unfinished st _ hf =>
    refine ⟨[], [], st, rfl, rfl, rfl, hdepth, ?_, fun _ => rfl⟩
    rintro rfl
    cases hf
  | @refused st k ks _ _ =>
    refine ⟨[], k :: ks, st, rfl, rfl, rfl, hdepth, ?_, fun _ => rfl⟩
    rintro rfl
    exact ⟨k, rfl⟩
  | @opened st _ k ks hstep _ =>
    refine ⟨[], k :: ks, st, rfl, rfl, rfl, hdepth, ?_, fun _ => rfl⟩
    rintro rfl
    cases hstep
  | @taken st st' k ks fault left hc hstep hd _ ih =>
    obtain ⟨us, more, u, rfl, hmore, hrun, hdepth', hdone, hgo⟩ := ih hd
    refine ⟨k :: us, more, u, rfl, hmore, ?_, hdepth', hdone, fun ls => ?_⟩
    · rw [Pending.run, hstep]
      exact hrun
    · rw [List.cons_append, problem?_cons_taken hc hstep hd]
      exact hgo ls

/-- A set without selections meets a need for a set. -/
theorem problem?_braces (hc : (Pending.due n st).crowded limit = false)
    (h : n.after? (.mark .openBrace) = some [.phrases]) (hdepth : st.depth < limit)
    (ks : List Token.Kind) :
    problem? limit (.due n st) (.mark .openBrace :: .mark .closeBrace :: ks) =
      problem? limit st ks := by
  have hopen : (st.push [.phrases]).depth ≤ limit :=
    Nat.le_trans (Nat.le_of_eq (Pending.depth_due_succ rfl st)) hdepth
  rw [problem?_of_taken _ hc h hopen]
  exact problem?_of_last rfl rfl (Nat.le_of_lt hdepth)

/-- What fills a need meets it. -/
theorem problem?_filling (hdepth : (Pending.due n st).depth < limit) (ks : List Token.Kind) :
    problem? limit (.due n st) (n.filling ++ ks) = problem? limit st ks := by
  have hst : st.depth < limit := Nat.lt_of_le_of_lt (Nat.le_add_left _ _) hdepth
  have hle := Nat.le_of_lt hst
  have hc := Pending.crowded_eq_false_of_lt hdepth
  cases n with
  | tail first => exact problem?_braces hc rfl hst ks
  | parts name => exact problem?_braces hc rfl hst ks
  | argued name => exact problem?_braces hc rfl hst ks
  | set => exact problem?_braces hc rfl hst ks
  | on => exact problem?_of_last hc rfl hle
  | type => exact problem?_of_last hc rfl hle
  | value => exact problem?_of_last hc rfl hle
  | values => exact problem?_of_last hc rfl hle
  | colon => exact problem?_of_last hc rfl hle
  | entries what close => exact problem?_of_last hc (if_pos rfl) hle
  | phrase =>
    have htail : (Pending.due (.tail "id") st).depth < limit := hdepth
    refine (problem?_of_taken [.tail "id"] hc rfl (Nat.le_of_lt htail)).trans ?_
    exact problem?_braces (Pending.crowded_eq_false_of_lt htail) rfl hst ks
  | field =>
    have hparts : (Pending.due (.parts "id") st).depth < limit := hdepth
    refine (problem?_of_taken [.parts "id"] hc rfl (Nat.le_of_lt hparts)).trans ?_
    exact problem?_braces (Pending.crowded_eq_false_of_lt hparts) rfl hst ks
  | phrases =>
    have htail : (Pending.due (.tail "id") (.due .phrases st)).depth < limit :=
      Nat.lt_of_le_of_lt (Nat.le_of_eq (Nat.zero_add _)) hdepth
    refine (problem?_of_taken [.tail "id", .phrases] hc rfl (Nat.le_of_lt htail)).trans ?_
    refine (problem?_braces (Pending.crowded_eq_false_of_lt htail) rfl hdepth _).trans ?_
    exact problem?_of_last rfl rfl hle

/-- **Whatever is due can be completed.** -/
theorem problem?_completion (hdepth : st.depth < limit) :
    problem? limit st st.completion = none := by
  induction st with
  | start => rfl
  | done => rfl
  | more => rfl
  | due n st ih =>
    rw [Pending.completion, problem?_filling hdepth]
    exact ih (Nat.lt_of_le_of_lt (Nat.le_add_left _ _) hdepth)

end FieldSelection.Grammar
