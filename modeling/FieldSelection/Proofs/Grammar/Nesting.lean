import FieldSelection.Proofs.Grammar.Viability

/-!
# Where a text is too deep

Braces and square brackets open and close the sets, lists and objects of a text, and nothing else
does. So how many of them are open somewhere is how many brackets more than are closed have been
opened ahead (`OpenAfter`), and that is the depth of what is due there (`due_of_run`).

* Where a text is too deep for a limit, as many are open as the limit is (`open_of_tooDeep`).
* The next token opens one more (`OpensAt`), but for one case: after the head of a type condition
  the room for its set is looked at ahead of its brace, so the brace need not be there
  (`MissesSetAt`).

That is what `Selection.parseWithin_tooDeep` says about the offset of the error.
-/

namespace FieldSelection

namespace Token.Kind

/-- Whether the token opens a set, a list or an object. -/
def opens : Token.Kind → Bool
  | .mark .openBrace | .mark .openBracket => true
  | _ => false

/-- Whether the token closes a set, a list or an object. -/
def closes : Token.Kind → Bool
  | .mark .closeBrace | .mark .closeBracket => true
  | _ => false

end Token.Kind

namespace Grammar

/-- After the tokens, `n` sets, lists and objects are open. -/
def OpenAfter (n : Nat) (ks : List Token.Kind) : Prop :=
  ks.countP Token.Kind.opens = ks.countP Token.Kind.closes + n

/-- A token takes the number of sets, lists and objects that are open from `n` to `n'`. -/
def Shifts (k : Token.Kind) (n n' : Nat) : Prop :=
  n' + (if k.closes then 1 else 0) = n + (if k.opens then 1 else 0)

variable {limit left d d' : Nat} {n : Need} {ns : List Need} {st st' : Pending} {k : Token.Kind}
  {ks us : List Token.Kind}

theorem OpenAfter.snoc (h : OpenAfter d us) (hk : Shifts k d d') : OpenAfter d' (us ++ [k]) := by
  simp only [OpenAfter, Shifts, List.countP_append, List.countP_singleton] at h hk ⊢
  omega

theorem shifts_of_opens (h : k.opens = true) (n : Nat) : Shifts k n (n + 1) := by
  unfold Token.Kind.opens at h
  split at h <;> first | rfl | cases h

/-! ## 1. One token -/

/-- Whether the need is no part of a type condition. Entries close with a mark that closes. -/
def Need.settled : Need → Bool
  | .on | .type | .set => false
  | .entries _ close => close == .closeParen || close == .closeBrace
  | _ => true

/-- What a token calls for, where `d` sets, lists and objects are open: one more if the token opens
    it, and one less if it closes it. A type condition is due only after the spread. -/
structure Calls (k : Token.Kind) (d : Nat) (ns : List Need) : Prop where
  depth : Shifts k d (ns.map Need.depth).sum
  settled : ns.all Need.settled = true ∨
    ∃ ms, k = .spread ∧ ns = .on :: .type :: .set :: ms ∧ ms.all Need.settled = true

/-- What is due in any case comes after it. -/
theorem Calls.snoc (h : Calls k d ns) (hn : n.settled = true) :
    Calls k (d + n.depth) (ns ++ [n]) where
  depth := by
    have hdepth := h.depth
    simp only [Shifts, List.map_append, List.sum_append, List.map_singleton,
      List.sum_singleton] at hdepth ⊢
    omega
  settled := by
    rcases h.settled with hall | ⟨ms, rfl, rfl, hall⟩
    · exact Or.inl (by rw [List.all_append, hall, List.all_cons, hn]; rfl)
    · exact Or.inr ⟨ms ++ [n], rfl, rfl, by rw [List.all_append, hall, List.all_cons, hn]; rfl⟩

theorem calls_phraseStart? (h : phraseStart? k = some ns) : Calls k 0 ns := by
  unfold phraseStart? at h
  split at h <;> cases h
  · exact ⟨rfl, Or.inl rfl⟩
  · exact ⟨rfl, Or.inr ⟨[], rfl, rfl, rfl⟩⟩

theorem calls_partsStart? {name : String} (h : partsStart? name k = some ns) : Calls k 0 ns := by
  unfold partsStart? at h
  split at h <;> cases h <;> exact ⟨rfl, Or.inl rfl⟩

theorem calls_valueStart? (h : valueStart? k = some ns) : Calls k 0 ns := by
  unfold valueStart? at h
  split at h <;> cases h <;> exact ⟨rfl, Or.inl rfl⟩

/-- What a settled need calls for at a token. -/
theorem calls_after? (hn : n.settled = true) (h : n.after? k = some ns) : Calls k n.depth ns := by
  cases n with
  | on => cases hn
  | type => cases hn
  | set => cases hn
  | phrase => exact calls_phraseStart? h
  | parts name => exact calls_partsStart? h
  | value => exact calls_valueStart? h
  | argued name =>
    simp only [Need.after?, markStart?] at h
    split at h
    · rename_i hk
      subst hk
      cases h
      exact ⟨rfl, Or.inl rfl⟩
    · cases h
  | colon =>
    simp only [Need.after?, markStart?] at h
    split at h
    · rename_i hk
      subst hk
      cases h
      exact ⟨rfl, Or.inl rfl⟩
    · cases h
  | field =>
    simp only [Need.after?, nameStart?] at h
    split at h <;> cases h
    exact ⟨rfl, Or.inl rfl⟩
  | tail first =>
    simp only [Need.after?] at h
    split at h
    · rename_i hk
      subst hk
      cases h
      exact ⟨rfl, Or.inl rfl⟩
    · exact calls_partsStart? h
  | phrases =>
    simp only [Need.after?] at h
    split at h
    · rename_i hk
      subst hk
      cases h
      exact ⟨rfl, Or.inl rfl⟩
    · obtain ⟨ms, hms, rfl⟩ := Option.map_eq_some_iff.mp h
      exact (calls_phraseStart? hms).snoc (n := .phrases) rfl
  | values =>
    simp only [Need.after?] at h
    split at h
    · rename_i hk
      subst hk
      cases h
      exact ⟨rfl, Or.inl rfl⟩
    · obtain ⟨ms, hms, rfl⟩ := Option.map_eq_some_iff.mp h
      exact (calls_valueStart? hms).snoc (n := .values) rfl
  | entries what close =>
    have hclose : close = .closeParen ∨ close = .closeBrace := by
      simpa [Need.settled] using hn
    simp only [Need.after?, nameStart?] at h
    split at h
    · rename_i hk
      subst hk
      cases h
      rcases hclose with rfl | rfl <;> exact ⟨rfl, Or.inl rfl⟩
    · split at h <;> cases h
      rcases hclose with rfl | rfl <;> exact ⟨rfl, Or.inl rfl⟩

theorem Need.depth_of_optional (h : n.optional = true) : n.depth = 0 := by
  cases n <;> first | rfl | cases h

namespace Pending

/-- Whether no part of a type condition is due. -/
def settled : Pending → Bool
  | .due n st => n.settled && st.settled
  | _ => true

theorem settled_push (st : Pending) (ns : List Need) :
    (st.push ns).settled = (ns.all Need.settled && st.settled) := by
  induction ns with
  | nil => rfl
  | cons n ns ih => rw [push_cons, settled, ih, List.all_cons, Bool.and_assoc]

theorem depth_push (st : Pending) (ns : List Need) :
    (st.push ns).depth = (ns.map Need.depth).sum + st.depth := by
  induction ns with
  | nil => exact (Nat.zero_add _).symm
  | cons n ns ih => rw [push_cons, depth, ih, List.map_cons, List.sum_cons, Nat.add_assoc]

theorem crowded_of_settled (h : st.settled = true) : st.crowded limit = false := by
  induction st with
  | due n st ih =>
    rw [settled, Bool.and_eq_true] at h
    have hn : (n == Need.set) = false := by
      cases n <;> first | rfl | cases h.1
    rw [crowded, hn, ih h.2, Bool.false_and, Bool.and_false]
    rfl
  | _ => rfl

end Pending

theorem shifts_of_calls (h : Calls k d ns) (st : Pending) :
    Shifts k (d + st.depth) (st.push ns).depth := by
  have hdepth := h.depth
  rw [Pending.depth_push]
  simp only [Shifts] at hdepth ⊢
  omega

/-! ## 2. Tokens one after another -/

/-- What is due after tokens: a part of a type condition only if the parts ahead of it are the last
    tokens. -/
inductive Due : List Token.Kind → Pending → Prop where
  | settled (us : List Token.Kind) {st : Pending} (h : st.settled = true) : Due us st
  | on (us : List Token.Kind) {st : Pending} (h : st.settled = true) :
      Due (us ++ [.spread]) (st.push [.on, .type, .set])
  | type (us : List Token.Kind) {st : Pending} (h : st.settled = true) :
      Due (us ++ [.spread, .name "on"]) (st.push [.type, .set])
  | set (us : List Token.Kind) (type : String) {st : Pending} (h : st.settled = true) :
      Due (us ++ [.spread, .name "on", .name type]) (.due .set st)

theorem due_of_calls (us : List Token.Kind) (h : Calls k d ns) (hst : st.settled = true) :
    Due (us ++ [k]) (st.push ns) := by
  rcases h.settled with hall | ⟨ms, rfl, rfl, hall⟩
  · exact .settled _ (by rw [Pending.settled_push, hall, hst]; rfl)
  · have hsettled : (st.push ms).settled = true := by
      rw [Pending.settled_push, hall, hst]
      rfl
    exact .on us hsettled

/-- A token after which no part of a type condition was due. -/
theorem due_step_of_settled (us : List Token.Kind) (h : st.settled = true)
    (hstep : st.step k = some st') : Due (us ++ [k]) st' ∧ Shifts k st.depth st'.depth := by
  induction st with
  | start =>
    unfold Pending.step at hstep
    split at hstep
    · rename_i hk
      subst hk
      cases hstep
      exact ⟨.settled _ rfl, rfl⟩
    · obtain ⟨ns, hns, rfl⟩ := Option.map_eq_some_iff.mp hstep
      have hcalls := calls_phraseStart? hns
      exact ⟨due_of_calls us hcalls rfl, shifts_of_calls hcalls .more⟩
  | done => cases hstep
  | more =>
    obtain ⟨ns, hns, rfl⟩ := Option.map_eq_some_iff.mp hstep
    have hcalls := calls_phraseStart? hns
    exact ⟨due_of_calls us hcalls rfl, shifts_of_calls hcalls .more⟩
  | due n st ih =>
    rw [Pending.settled, Bool.and_eq_true] at h
    unfold Pending.step at hstep
    split at hstep
    · rename_i ns hns
      cases hstep
      have hcalls := calls_after? h.1 hns
      exact ⟨due_of_calls us hcalls h.2, shifts_of_calls hcalls st⟩
    · split at hstep
      · rename_i hopt
        rw [Pending.depth_due (Need.depth_of_optional hopt)]
        exact ih h.2 hstep
      · cases hstep

/-- **What a token makes of what is due.** -/
theorem Due.step (h : Due us st) (hstep : st.step k = some st') :
    Due (us ++ [k]) st' ∧ Shifts k st.depth st'.depth := by
  cases h with
  | settled _ h => exact due_step_of_settled us h hstep
  | on vs h =>
    simp only [Pending.push_cons, Pending.step, Need.after?, Need.optional] at hstep
    split at hstep
    · rename_i hns
      split at hns <;> cases hns
      rename_i hk
      subst hk
      cases hstep
      rw [List.append_assoc]
      exact ⟨.type vs h, by simp [Shifts, Pending.depth, Need.depth, Token.Kind.opens,
        Token.Kind.closes]⟩
    · cases hstep
  | type vs h =>
    simp only [Pending.push_cons, Pending.step, Need.after?, Need.optional, nameStart?] at hstep
    split at hstep
    · rename_i hns
      split at hns <;> cases hns
      cases hstep
      rw [List.append_assoc]
      exact ⟨.set vs _ h, by simp [Shifts, Pending.depth, Need.depth, Token.Kind.opens,
        Token.Kind.closes]⟩
    · cases hstep
  | set vs type h =>
    simp only [Pending.step, Need.after?, Need.optional, markStart?] at hstep
    split at hstep
    · rename_i hns
      split at hns <;> cases hns
      rename_i hk
      subst hk
      cases hstep
      refine ⟨.settled _ h, ?_⟩
      rw [Pending.depth_due (n := .set) rfl, Pending.push_cons, Pending.depth_due_succ rfl]
      rfl
    · cases hstep

/-- **What is due after tokens**, and how many sets, lists and objects they leave open. -/
theorem due_of_run {vs : List Token.Kind} (h : Due us st) (hopen : OpenAfter st.depth us)
    (hrun : st.run vs = some st') : Due (us ++ vs) st' ∧ OpenAfter st'.depth (us ++ vs) := by
  induction vs generalizing us st with
  | nil =>
    cases hrun
    rw [List.append_nil]
    exact ⟨h, hopen⟩
  | cons k vs ih =>
    obtain ⟨mid, hstep, hrun⟩ := Option.bind_eq_some_iff.mp hrun
    obtain ⟨hdue, hshifts⟩ := h.step hstep
    rw [List.append_cons]
    exact ih hdue (hopen.snoc hshifts) hrun

/-! ## 3. Tokens that are too deep -/

/-- The last tokens are the head of a type condition, whose set comes next. -/
def AwaitsSet (us : List Token.Kind) : Prop :=
  ∃ ahead type, us = ahead ++ [.spread, .name "on", .name type]

/-- A set that is due with no room for it is that of a type condition, and its brace may come. -/
theorem Due.awaitsSet (h : Due us st) (hcrowded : st.crowded limit = true) :
    AwaitsSet us ∧ limit ≤ st.depth ∧ ∃ st', st.step (.mark .openBrace) = some st' := by
  cases h with
  | settled _ h => cases (Pending.crowded_of_settled h).symm.trans hcrowded
  | on vs h => cases hcrowded
  | type vs h => cases hcrowded
  | set vs type h =>
    refine ⟨⟨vs, type, rfl⟩, ?_, _, rfl⟩
    rw [Pending.depth_due (n := .set) rfl]
    simpa [Pending.crowded, Need.optional] using hcrowded

/-- What is due after a token that opens a set, a list or an object. -/
theorem Due.exists_run (h : Due us st) (hrun : Pending.start.run us = some st)
    (hk : k.opens = true) (hstep : st.step k = some st') :
    ∃ st', Pending.start.run (us ++ [k]) = some st' ∧ st' ≠ .done := by
  refine ⟨st', Pending.run_snoc hrun hstep, ?_⟩
  rintro rfl
  have hshifts := (h.step hstep).2
  simp only [Shifts, hk, ↓reduceIte, Pending.depth] at hshifts
  split at hshifts
  · rename_i hcloses
    unfold Token.Kind.opens at hk
    split at hk <;> first | cases hcloses | cases hk
  · omega

/-- **Where tokens are too deep**, as many sets, lists and objects as the limit are open; the next
    token opens one more, or the set of a type condition would come next and does not. -/
theorem open_of_tooDeep (h : problem? limit .start ks = some (.tooDeep limit, left)) :
    ∃ us more, ks = us ++ more ∧ more.length = left ∧ OpenAfter limit us ∧
      ((∃ k rest st, more = k :: rest ∧ k.opens = true ∧
          Pending.start.run (us ++ [k]) = some st ∧ st ≠ .done) ∨
        (∃ st, Pending.start.run us = some st ∧ st ≠ .done) ∧ AwaitsSet us ∧
          more.head? ≠ some (.mark .openBrace)) := by
  obtain ⟨us, more, st, rfl, rfl, hrun, hdepth, hdone, hgo⟩ :=
    exists_run_of_problem h (Nat.zero_le limit)
  have hstart : Due [] .start := .settled [] rfl
  obtain ⟨hdue, hopen⟩ := due_of_run hstart rfl hrun
  rw [List.nil_append] at hdue hopen
  refine ⟨us, more, rfl, rfl, ?_⟩
  rw [hgo] at h
  have hwrong := problem?_eq_some_iff.mp h
  generalize hfault : Fault.tooDeep limit = fault at hwrong
  generalize hleft : more.length = left at hwrong
  cases hwrong with
  | crowded _ hcrowded =>
    obtain ⟨hset, hle, st', hstep⟩ := hdue.awaitsSet hcrowded
    refine ⟨Nat.le_antisymm hdepth hle ▸ hopen, ?_⟩
    by_cases hhead : more.head? = some (.mark .openBrace)
    · obtain ⟨rest, rfl⟩ := List.head?_eq_some_iff.mp hhead
      obtain ⟨st', hrun', hst'⟩ := hdue.exists_run hrun rfl hstep
      exact Or.inl ⟨_, rest, st', rfl, rfl, hrun', hst'⟩
    · refine Or.inr ⟨⟨st, hrun, fun hst => ?_⟩, hset, hhead⟩
      obtain ⟨k, hk⟩ := hdone hst
      cases hfault.trans hk
  | unfinished _ _ => exact absurd hfault.symm (Pending.fault_ne_tooDeep _ _ _)
  | refused _ _ _ => exact absurd hfault.symm (Pending.fault_ne_tooDeep _ _ _)
  | @opened _ st' k rest hstep hlt =>
    have hshifts := (hdue.step hstep).2
    have hk : k.opens = true := by
      by_contra hk
      simp only [Shifts, hk, ↓reduceIte] at hshifts
      omega
    have heq : st.depth = limit := by
      simp only [Shifts, hk, ↓reduceIte] at hshifts
      omega
    obtain ⟨st', hrun', hst'⟩ := hdue.exists_run hrun hk hstep
    exact ⟨heq ▸ hopen, Or.inl ⟨k, rest, st', rfl, hk, hrun', hst'⟩⟩
  | taken _ _ _ hrest =>
    have := hrest.left_le
    rw [List.length_cons] at hleft
    omega

/-- A set, a list or an object opens at an offset of a text, while `n` of them are open. -/
def OpensAt (n : Nat) (ts : List Token) (offset : Nat) : Prop :=
  ∃ us t more, ts = us ++ t :: more ∧ t.offset = offset ∧ t.kind.opens = true ∧
    OpenAfter n (us.map Token.kind) ∧ Viable ((us ++ [t]).map Token.kind)

/-- At an offset of a text, or at its end, the set of a type condition would come and does not,
    while `n` sets, lists and objects are open. -/
def MissesSetAt (n stop : Nat) (ts : List Token) (offset : Nat) : Prop :=
  ∃ us more, ts = us ++ more ∧ (more.head?.map Token.offset).getD stop = offset ∧
    startsWith .openBrace more = false ∧ AwaitsSet (us.map Token.kind) ∧
      OpenAfter n (us.map Token.kind) ∧ Viable (us.map Token.kind)

/-- Nowhere in the text are more than `n` sets, lists and objects open. -/
def NestsWithin (n : Nat) (ks : List Token.Kind) : Prop :=
  ∀ us d, us <+: ks → OpenAfter d us → d ≤ n

/-- A text nests no deeper than it opens sets, lists and objects. -/
theorem nestsWithin_of_countP_le {n : Nat} (h : ks.countP Token.Kind.opens ≤ n) :
    NestsWithin n ks := by
  intro us d hus hopen
  have hle := hus.sublist.countP_le (p := Token.Kind.opens)
  unfold OpenAfter at hopen
  omega

/-- Where another one opens, it nests deeper. -/
theorem OpensAt.not_nestsWithin {n offset : Nat} {ts : List Token} (h : OpensAt n ts offset) :
    ¬ NestsWithin n (ts.map Token.kind) := by
  obtain ⟨us, t, more, rfl, -, hopens, hopen, -⟩ := h
  intro hwithin
  have hprefix : us.map Token.kind ++ [t.kind] <+: (us ++ t :: more).map Token.kind :=
    ⟨more.map Token.kind, by simp⟩
  have hle := hwithin _ (n + 1) hprefix (hopen.snoc (shifts_of_opens hopens n))
  omega

end Grammar

open Grammar

/-! ## 4. The place of the error -/

/-- **A text is too deep where one set, list or object too many opens**, or where the set of a type
    condition is missing that would be one too many. So if no more than the limit are ever open in
    the text, it is only for such a set that it is too deep. -/
theorem Selection.parseWithin_tooDeep {source : String} {ts : List Token} {limit n : Nat}
    {place : Text.Position} (hts : tokens 0 source.toList = .ok ts)
    (h : parseWithin limit source = .error ⟨.tooDeep n, place⟩) :
    n = limit ∧
      (OpensAt limit ts place.offset ∨
        MissesSetAt limit (Text.bytes source.toList) ts place.offset) ∧
      (NestsWithin limit (ts.map Token.kind) →
        MissesSetAt limit (Text.bytes source.toList) ts place.offset) := by
  obtain ⟨rest, hsuffix, rfl, hproblem⟩ := (parseWithin_eq_error_iff hts (.tooDeep n) place).mp h
  obtain rfl := eq_limit_of_tooDeep hproblem
  have hwritable := writable_of_kinds? (kinds?_eq_some_iff.mpr ⟨ts, hts, rfl⟩)
  rw [offset_locate_here hts hsuffix]
  obtain ⟨us, hus⟩ := hsuffix
  subst hus
  obtain ⟨us', more', heq, hleft, hopen, hcases⟩ := open_of_tooDeep hproblem
  rw [List.map_append] at heq hwritable
  obtain ⟨rfl, rfl⟩ := List.append_inj' heq (by rw [hleft, List.length_map])
  have hplace : OpensAt n (us ++ rest) (Bounds.here ⟨Text.bytes source.toList, n⟩ rest) ∨
      MissesSetAt n (Text.bytes source.toList) (us ++ rest)
        (Bounds.here ⟨Text.bytes source.toList, n⟩ rest) := by
    rcases hcases with ⟨k, ls, st, hmore, hk, hrun, hst⟩ | ⟨⟨st, hrun, hst⟩, hset, hhead⟩
    · obtain ⟨t, more, rfl, rfl, rfl⟩ := List.map_eq_cons_iff.mp hmore
      refine Or.inl ⟨us, t, more, rfl, rfl, hk, hopen, ?_⟩
      rw [List.map_append]
      refine viable_of_run (fun k hk => hwritable k ?_) hrun hst
      rw [List.map_cons, List.append_cons]
      exact List.mem_append_left _ hk
    · refine Or.inr ⟨us, rest, rfl, ?_, ?_, hset, hopen,
        viable_of_run (fun k hk => hwritable k (List.mem_append_left _ hk)) hrun hst⟩
      · cases rest <;> rfl
      · cases rest with
        | nil => rfl
        | cons t rest => exact beq_eq_false_iff_ne.mpr fun ht => hhead (congrArg some ht)
  exact ⟨rfl, hplace, fun hwithin => hplace.resolve_left fun h => h.not_nestsWithin hwithin⟩

/-- The set of a type condition that is one too many, there and missing. -/
theorem Selection.parseWithin_tooDeep_video :
    (∃ ts, tokens 0 "media { ... on Video { id } }".toList = .ok ts ∧
      parseWithin 1 "media { ... on Video { id } }" = .error ⟨.tooDeep 1, 21, 1, 22⟩ ∧
        (OpensAt 1 ts 21 ∨ MissesSetAt 1 29 ts 21)) ∧
    ∃ ts, tokens 0 "... on Video".toList = .ok ts ∧
      parseWithin 0 "... on Video" = .error ⟨.tooDeep 0, 12, 1, 13⟩ ∧
        NestsWithin 0 (ts.map Token.kind) ∧ MissesSetAt 0 12 ts 12 := by
  have hset : parseWithin 1 "media { ... on Video { id } }" = .error ⟨.tooDeep 1, 21, 1, 22⟩ :=
    failure?_eq_some_iff.mp (by decide +kernel)
  have hmissing : parseWithin 0 "... on Video" = .error ⟨.tooDeep 0, 12, 1, 13⟩ :=
    failure?_eq_some_iff.mp (by decide +kernel)
  have htokens : tokens 0 "media { ... on Video { id } }".toList = .ok
      [⟨.name "media", 0⟩, ⟨.mark .openBrace, 6⟩, ⟨.spread, 8⟩, ⟨.name "on", 12⟩,
        ⟨.name "Video", 15⟩, ⟨.mark .openBrace, 21⟩, ⟨.name "id", 23⟩, ⟨.mark .closeBrace, 26⟩,
        ⟨.mark .closeBrace, 28⟩] := by decide +kernel
  have htokens' : tokens 0 "... on Video".toList = .ok
      [⟨.spread, 0⟩, ⟨.name "on", 4⟩, ⟨.name "Video", 7⟩] := by decide +kernel
  have hwithin : NestsWithin 0 [.spread, .name "on", .name "Video"] :=
    nestsWithin_of_countP_le (by decide)
  exact ⟨⟨_, htokens, hset, (parseWithin_tooDeep htokens hset).2.1⟩, _, htokens', hmissing, hwithin,
    (parseWithin_tooDeep htokens' hmissing).2.2 hwithin⟩

/-- A text without braces and square brackets may be too deep. -/
theorem Selection.exists_tooDeep_without_brackets :
    ∃ source ts limit place, tokens 0 source.toList = .ok ts ∧
      parseWithin limit source = .error ⟨.tooDeep limit, place⟩ ∧
        NestsWithin limit (ts.map Token.kind) ∧ ∀ t ∈ ts, t.kind.opens = false := by
  exact ⟨"... on Video", [⟨.spread, 0⟩, ⟨.name "on", 4⟩, ⟨.name "Video", 7⟩], 0, ⟨12, 1, 13⟩,
    by decide +kernel, failure?_eq_some_iff.mp (by decide +kernel),
    nestsWithin_of_countP_le (by decide), by decide⟩

end FieldSelection
