import FieldSelection.Grammar.Document

/-!
# What is due in a text

The readers never look at more than one token ahead. So what they do with a text depends on a stack
of what is still due after the tokens so far, and each token is either taken by what is due first,
and replaced by what it calls for, or is the first one that is wrong.

* `Need` is something that is due, and `Need.after?` is what is due instead of it after a token.
* `Pending` is the stack, over one of three bottoms. `Pending.step` is what one token does to it,
  and `Pending.depth` counts the selection sets, lists and objects that it leaves open.
* `problem?` is what is wrong with a text under a limit, and where: the fault, with the number of
  tokens that are left at it. `Predictions` shows that the readers fail with that.

Everything about it comes from what one token can do (`Move`, `exists_move`), which opens one set,
list or object at most (`Pending.depth_step`).
-/

namespace FieldSelection.Grammar

/-! ## 1. Needs -/

/-- Something that is due at a place of a text. -/
inductive Need where
  /-- A selection. -/
  | phrase
  /-- Selections up to the closing brace of their set. -/
  | phrases
  /-- What may follow the first name of a field: the name that it is an alias for, or the parts of
      the field. -/
  | tail (first : String)
  /-- The name of a field after its alias. -/
  | field
  /-- What may follow the name of a field: arguments and a set, or a set. -/
  | parts (name : String)
  /-- The set that the arguments of a field require. -/
  | argued (name : String)
  /-- The keyword of a type condition. -/
  | on
  /-- The name of a type. -/
  | type
  /-- The set of a type condition. -/
  | set
  | value
  /-- Values up to the closing bracket of their list. -/
  | values
  /-- Entries up to their closing mark. -/
  | entries (what : Expectation) (close : Mark)
  | colon
  deriving DecidableEq, Repr

/-- What a name calls for, if the token is one. -/
def nameStart? (needs : String → List Need) : Token.Kind → Option (List Need)
  | .name word => some (needs word)
  | _ => none

/-- What a mark calls for, if the token is that one. -/
def markStart? (m : Mark) (needs : List Need) (k : Token.Kind) : Option (List Need) :=
  if k = .mark m then some needs else none

/-- What the first token of a selection calls for. -/
def phraseStart? : Token.Kind → Option (List Need)
  | .name word => some [.tail word]
  | .spread => some [.on, .type, .set]
  | _ => none

/-- What the first token after the name of a field calls for. -/
def partsStart? (name : String) : Token.Kind → Option (List Need)
  | .mark .openParen => some [.entries .argumentName .closeParen, .argued name]
  | .mark .openBrace => some [.phrases]
  | _ => none

/-- What the first token of a value calls for. -/
def valueStart? : Token.Kind → Option (List Need)
  | .string _ | .number _ | .name _ => some []
  | .mark .openBracket => some [.values]
  | .mark .openBrace => some [.entries .objectField .closeBrace]
  | _ => none

namespace Need

/-- What is due after a token instead of the need, if the need takes the token. -/
def after? : Need → Token.Kind → Option (List Need)
  | .phrase, k => phraseStart? k
  | .phrases, k =>
    if k = .mark .closeBrace then some [] else (phraseStart? k).map (· ++ [.phrases])
  | .tail first, k => if k = .mark .colon then some [.field] else partsStart? first k
  | .field, k => nameStart? (fun name => [.parts name]) k
  | .parts name, k => partsStart? name k
  | .argued _, k | .set, k => markStart? .openBrace [.phrases] k
  | .on, k => if k = .name "on" then some [] else none
  | .type, k => nameStart? (fun _ => []) k
  | .value, k => valueStart? k
  | .values, k =>
    if k = .mark .closeBracket then some [] else (valueStart? k).map (· ++ [.values])
  | .entries what close, k =>
    if k = .mark close then some []
    else nameStart? (fun _ => [.colon, .value, .entries what close]) k
  | .colon, k => markStart? .colon [] k

/-- Whether a text may go on, or end, without it. -/
def optional : Need → Bool
  | .tail _ | .parts _ => true
  | _ => false

/-- What the readers expect where a token is wrong. -/
def expectation (found : Option Token.Kind) : Need → Expectation
  | .phrases => if found = none then .mark .closeBrace else .name
  | .on => .onKeyword
  | .type => .typeName
  | .argued _ | .set => .mark .openBrace
  | .value | .values => .value
  | .entries what _ => what
  | .colon => .mark .colon
  | .phrase | .tail _ | .field | .parts _ => .name

/-- The fault of a token that is wrong, or of an end. -/
def fault (found : Option Token.Kind) : Need → Fault
  | .argued name => .argumentsWithoutSelection name
  | need => .expected (need.expectation found) found

/-- How many sets, lists and objects it leaves open. -/
def depth : Need → Nat
  | .phrases | .values | .entries _ .closeBrace => 1
  | _ => 0

/-- The depth, with the set of a type condition counted as one that is open. -/
def reach : Need → Nat
  | .set => 1
  | need => need.depth

/-- A text for it, the shortest one that takes a token. -/
def filling : Need → List Token.Kind
  | .phrase | .field => [.name "id", .mark .openBrace, .mark .closeBrace]
  | .phrases => [.name "id", .mark .openBrace, .mark .closeBrace, .mark .closeBrace]
  | .tail _ | .parts _ | .argued _ | .set => [.mark .openBrace, .mark .closeBrace]
  | .on => [.name "on"]
  | .type | .value => [.name "id"]
  | .values => [.mark .closeBracket]
  | .entries _ close => [.mark close]
  | .colon => [.mark .colon]

end Need

/-! ## 2. Stacks -/

/-- All that is due after the tokens so far. -/
inductive Pending where
  /-- A document. -/
  | start
  /-- The end of the source. -/
  | done
  /-- Selections up to the end of the source. -/
  | more
  | due (need : Need) (rest : Pending)
  deriving DecidableEq, Repr

namespace Pending

/-- Needs on top of what is due. -/
def push (st : Pending) (ns : List Need) : Pending := ns.foldr .due st

@[simp] theorem push_nil (st : Pending) : st.push [] = st := rfl

@[simp] theorem push_cons (st : Pending) (n : Need) (ns : List Need) :
    st.push (n :: ns) = .due n (st.push ns) := rfl

@[simp] theorem push_append (st : Pending) (ns ms : List Need) :
    st.push (ns ++ ms) = (st.push ms).push ns :=
  List.foldr_append

/-- What is due after a token; none if the token is wrong. -/
def step : Pending → Token.Kind → Option Pending
  | .start, k =>
    if k = .mark .openBrace then some (.due .phrases .done)
    else (phraseStart? k).map Pending.more.push
  | .done, _ => none
  | .more, k => (phraseStart? k).map Pending.more.push
  | .due n st, k =>
    match n.after? k with
    | some ns => some (st.push ns)
    | none => if n.optional then st.step k else none

/-- Whether the text may end. -/
def finished : Pending → Bool
  | .start => false
  | .done | .more => true
  | .due n st => n.optional && st.finished

/-- The fault of a token that is wrong, or of an end. -/
def fault : Pending → Option Token.Kind → Fault
  | .start, none => .emptySource
  | .done, some k => .trailingTokens k
  | .start, found | .done, found | .more, found => .expected .name found
  | .due n st, found => if n.optional then st.fault found else n.fault found

/-- How many sets, lists and objects are open. -/
def depth : Pending → Nat
  | .due n st => n.depth + st.depth
  | _ => 0

/-- The depth, with the sets of type conditions that are due counted as open. -/
def reach : Pending → Nat
  | .due n st => n.reach + st.reach
  | _ => 0

/-- Whether the set of a type condition is due, with no room for it. Its brace is not looked at. -/
def crowded (limit : Nat) : Pending → Bool
  | .due n st => (n == .set && decide (limit ≤ st.depth)) || (n.optional && st.crowded limit)
  | _ => false

/-- A text for all that is due. -/
def completion : Pending → List Token.Kind
  | .start | .more => [.name "id"]
  | .done => []
  | .due n st => n.filling ++ st.completion

end Pending

/-- What is wrong with a text under a limit, and how many tokens are left there. -/
def problem? (limit : Nat) : Pending → List Token.Kind → Option (Fault × Nat)
  | st, [] =>
    if st.crowded limit then some (.tooDeep limit, 0)
    else if st.finished then none
    else some (st.fault none, 0)
  | st, k :: ks =>
    if st.crowded limit then some (.tooDeep limit, ks.length + 1)
    else
      match st.step k with
      | none => some (st.fault (some k), ks.length + 1)
      | some st' =>
        if limit < st'.depth then some (.tooDeep limit, ks.length + 1) else problem? limit st' ks

variable {limit limit' left : Nat} {n : Need} {ns : List Need} {st st' : Pending} {k : Token.Kind}
  {ks : List Token.Kind} {fault : Fault}

/-! ## 3. One token -/

/-- A token that is taken, with room for what it calls for. -/
theorem problem?_of_taken (ns : List Need) (hc : (Pending.due n st).crowded limit = false)
    (h : n.after? k = some ns) (hroom : (st.push ns).depth ≤ limit) :
    problem? limit (.due n st) (k :: ks) = problem? limit (st.push ns) ks := by
  simp [problem?, hc, Pending.step, h, Nat.not_lt.mpr hroom]

/-- A token that is all that the need asks for. -/
theorem problem?_of_last (hc : (Pending.due n st).crowded limit = false)
    (h : n.after? k = some []) (hroom : st.depth ≤ limit) :
    problem? limit (.due n st) (k :: ks) = problem? limit st ks :=
  problem?_of_taken [] hc h hroom

/-- A token that opens one set, list or object too many. -/
theorem problem?_of_opened (h : n.after? k = some ns) (hroom : limit < (st.push ns).depth) :
    problem? limit (.due n st) (k :: ks) = some (.tooDeep limit, ks.length + 1) := by
  simp [problem?, Pending.step, h, hroom]

/-- A token that is wrong, or an end. -/
theorem problem?_of_refused (hc : (Pending.due n st).crowded limit = false)
    (hopt : n.optional = false) (h : ∀ k, ks.head? = some k → n.after? k = none) :
    problem? limit (.due n st) ks = some (n.fault ks.head?, ks.length) := by
  cases ks with
  | nil => simp [problem?, hc, Pending.finished, Pending.fault, hopt]
  | cons k ks =>
    have hk : n.after? k = none := h k rfl
    simp [problem?, hc, Pending.step, Pending.fault, hopt, hk]

/-- A need that is left out. -/
theorem problem?_of_skipped (hopt : n.optional = true)
    (h : ∀ k, ks.head? = some k → n.after? k = none) :
    problem? limit (.due n st) ks = problem? limit st ks := by
  have hn : (n == Need.set) = false := by cases n <;> first | rfl | cases hopt
  cases ks with
  | nil =>
    simp [problem?, Pending.crowded, Pending.finished, Pending.fault, hopt, hn]
  | cons k ks =>
    have hk : n.after? k = none := h k rfl
    simp [problem?, Pending.crowded, Pending.step, Pending.fault, hopt, hn, hk]

/-- Stacks that do the same with the next token. -/
theorem problem?_congr (hc : st.crowded limit = false) (hc' : st'.crowded limit = false)
    (hstep : st.step k = st'.step k) (hfault : st.fault (some k) = st'.fault (some k)) :
    problem? limit st (k :: ks) = problem? limit st' (k :: ks) := by
  simp [problem?, hc, hc', hstep, hfault]

/-- The set of a type condition that there is no room for. -/
theorem problem?_of_crowded (h : st.crowded limit = true) :
    problem? limit st ks = some (.tooDeep limit, ks.length) := by
  cases ks <;> simp [problem?, h]

/-! ## 4. Depth -/

theorem Pending.depth_due (hn : n.depth = 0) (st : Pending) : (due n st).depth = st.depth := by
  rw [depth, hn, Nat.zero_add]

theorem Pending.depth_due_succ (hn : n.depth = 1) (st : Pending) :
    (due n st).depth = st.depth + 1 := by
  rw [depth, hn, Nat.add_comm]

/-- Needs on top take nothing off. -/
theorem Pending.le_push (st : Pending) (ns : List Need) :
    st.depth ≤ (st.push ns).depth ∧ st.reach ≤ (st.push ns).reach := by
  induction ns with
  | nil => exact ⟨Nat.le_refl _, Nat.le_refl _⟩
  | cons n ns ih =>
    exact ⟨Nat.le_trans ih.1 (Nat.le_add_left _ _), Nat.le_trans ih.2 (Nat.le_add_left _ _)⟩

theorem Need.depth_le_reach (n : Need) : n.depth ≤ n.reach := by
  cases n <;> first | exact Nat.le_refl _ | exact Nat.zero_le _

theorem Need.reach_le (n : Need) : n.reach ≤ 1 := by
  cases n with
  | entries what close => cases close <;> exact Nat.le_of_ble_eq_true rfl
  | _ => exact Nat.le_of_ble_eq_true rfl

theorem Pending.depth_le_reach (st : Pending) : st.depth ≤ st.reach := by
  induction st with
  | due n st ih => exact Nat.add_le_add n.depth_le_reach ih
  | _ => exact Nat.le_refl 0

theorem Pending.crowded_eq_false_of_lt (h : st.depth < limit) : st.crowded limit = false := by
  induction st with
  | due n st ih =>
    rw [depth] at h
    have hroom : ¬ limit ≤ st.depth := by omega
    simp [crowded, hroom, ih (Nat.lt_of_le_of_lt (Nat.le_add_left _ _) h)]
  | _ => rfl

/-- On any stack, `more` are at most one set, list or object deeper than `less`. -/
def OneMore (less more : List Need) : Prop :=
  ∀ st : Pending, (st.push more).depth ≤ (st.push less).depth + 1 ∧
    (st.push more).reach ≤ (st.push less).reach + 1

theorem oneMore_nil (less : List Need) : OneMore less [] := fun st =>
  ⟨Nat.le_succ_of_le (st.le_push less).1, Nat.le_succ_of_le (st.le_push less).2⟩

theorem oneMore_singleton (n : Need) : OneMore [] [n] := by
  intro st
  have hdepth : n.depth ≤ 1 := Nat.le_trans n.depth_le_reach n.reach_le
  have hreach : n.reach ≤ 1 := n.reach_le
  simp only [Pending.push_cons, Pending.push_nil, Pending.depth, Pending.reach]
  omega

theorem OneMore.append {less more : List Need} (h : OneMore less more) (ms : List Need) :
    OneMore (less ++ ms) (more ++ ms) := by
  intro st
  rw [Pending.push_append, Pending.push_append]
  exact h (st.push ms)

theorem OneMore.mono {more : List Need} (h : OneMore [] more) (less : List Need) :
    OneMore less more := fun st =>
  ⟨Nat.le_trans (h st).1 (Nat.succ_le_succ (st.le_push less).1),
    Nat.le_trans (h st).2 (Nat.succ_le_succ (st.le_push less).2)⟩

/-- A need that leaves nothing open, on top. -/
theorem OneMore.cons {less more : List Need} {n : Need} (hn : n.reach = 0)
    (h : OneMore less more) : OneMore less (n :: more) := by
  intro st
  have hdepth : n.depth = 0 := Nat.le_zero.mp (hn ▸ n.depth_le_reach)
  rw [Pending.push_cons, Pending.depth, Pending.reach, hn, hdepth, Nat.zero_add, Nat.zero_add]
  exact h st

theorem oneMore_phraseStart? (h : phraseStart? k = some ns) : OneMore [] ns := by
  unfold phraseStart? at h
  split at h <;> cases h
  · exact oneMore_singleton _
  · exact .cons rfl (.cons rfl (oneMore_singleton .set))

theorem oneMore_partsStart? {name : String} (h : partsStart? name k = some ns) :
    OneMore [] ns := by
  unfold partsStart? at h
  split at h <;> cases h
  · exact .cons rfl (oneMore_singleton (.argued name))
  · exact oneMore_singleton .phrases

theorem oneMore_valueStart? (h : valueStart? k = some ns) : OneMore [] ns := by
  unfold valueStart? at h
  split at h <;> cases h
  · exact oneMore_nil _
  · exact oneMore_nil _
  · exact oneMore_nil _
  · exact oneMore_singleton .values
  · exact oneMore_singleton (.entries .objectField .closeBrace)

theorem oneMore_markStart? {m : Mark} {more : List Need} (hmore : OneMore [] more)
    (h : markStart? m more k = some ns) : OneMore [] ns := by
  unfold markStart? at h
  split at h <;> cases h
  exact hmore

theorem oneMore_nameStart? {needs : String → List Need} {less : List Need}
    (hneeds : ∀ word, OneMore less (needs word)) (h : nameStart? needs k = some ns) :
    OneMore less ns := by
  unfold nameStart? at h
  split at h <;> cases h
  exact hneeds _

/-- A token opens one set, list or object at most. -/
theorem Need.oneMore_after? (h : n.after? k = some ns) : OneMore [n] ns := by
  have hset : OneMore [] [phrases] := oneMore_singleton _
  cases n with
  | phrase => exact (oneMore_phraseStart? h).mono _
  | parts name => exact (oneMore_partsStart? h).mono _
  | value => exact (oneMore_valueStart? h).mono _
  | argued name => exact (oneMore_markStart? hset h).mono _
  | set => exact (oneMore_markStart? hset h).mono _
  | colon => exact (oneMore_markStart? (oneMore_nil []) h).mono _
  | type => exact oneMore_nameStart? (fun _ => oneMore_nil _) h
  | field => exact oneMore_nameStart? (fun _ => (oneMore_singleton _).mono _) h
  | on =>
    simp only [after?] at h
    split at h <;> cases h
    exact oneMore_nil _
  | tail first =>
    simp only [after?] at h
    split at h
    · cases h
      exact (oneMore_singleton _).mono _
    · exact (oneMore_partsStart? h).mono _
  | phrases =>
    simp only [after?] at h
    split at h
    · cases h
      exact oneMore_nil _
    · obtain ⟨ms, hms, rfl⟩ := Option.map_eq_some_iff.mp h
      exact (oneMore_phraseStart? hms).append [phrases]
  | values =>
    simp only [after?] at h
    split at h
    · cases h
      exact oneMore_nil _
    · obtain ⟨ms, hms, rfl⟩ := Option.map_eq_some_iff.mp h
      exact (oneMore_valueStart? hms).append [values]
  | entries what close =>
    simp only [after?] at h
    split at h
    · cases h
      exact oneMore_nil _
    · refine oneMore_nameStart? (fun _ => ?_) h
      have hrest : OneMore [] [colon, value] := .cons rfl (oneMore_singleton value)
      exact hrest.append [entries what close]

namespace Pending

/-- The next stack is not more than one set, list or object deeper. -/
theorem depth_step (h : st.step k = some st') :
    st'.depth ≤ st.depth + 1 ∧ st'.reach ≤ st.reach + 1 := by
  induction st with
  | start =>
    unfold step at h
    split at h
    · cases h
      exact ⟨Nat.le_refl _, Nat.le_refl _⟩
    · obtain ⟨ns, hns, rfl⟩ := Option.map_eq_some_iff.mp h
      exact oneMore_phraseStart? hns more
  | done => cases h
  | more =>
    obtain ⟨ns, hns, rfl⟩ := Option.map_eq_some_iff.mp h
    exact oneMore_phraseStart? hns more
  | due n st ih =>
    unfold step at h
    split at h
    · rename_i ns hns
      cases h
      exact Need.oneMore_after? hns st
    · split at h
      · have := ih h
        rw [depth, reach]
        omega
      · cases h

end Pending

/-! ## 5. Moves -/

/-- What the next token comes to: there is no room for a set that is due, the token is wrong, it
    opens one set, list or object too many, or it is taken. -/
inductive Move (limit : Nat) (st : Pending) (k : Token.Kind) : Prop where
  | crowded (h : st.crowded limit = true)
  | refused (hc : st.crowded limit = false) (h : st.step k = none)
  | opened (st' : Pending) (hc : st.crowded limit = false) (h : st.step k = some st')
      (hdepth : limit < st'.depth)
  | taken (st' : Pending) (hc : st.crowded limit = false) (h : st.step k = some st')
      (hdepth : st'.depth ≤ limit)

theorem exists_move (limit : Nat) (st : Pending) (k : Token.Kind) : Move limit st k := by
  cases hc : st.crowded limit with
  | true => exact .crowded hc
  | false =>
    cases h : st.step k with
    | none => exact .refused hc h
    | some st' =>
      by_cases hdepth : limit < st'.depth
      · exact .opened st' hc h hdepth
      · exact .taken st' hc h (Nat.not_lt.mp hdepth)

theorem problem?_cons_refused (hc : st.crowded limit = false) (h : st.step k = none) :
    problem? limit st (k :: ks) = some (st.fault (some k), ks.length + 1) := by
  simp [problem?, hc, h]

theorem problem?_cons_opened (h : st.step k = some st') (hdepth : limit < st'.depth) :
    problem? limit st (k :: ks) = some (.tooDeep limit, ks.length + 1) := by
  simp [problem?, h, hdepth]

theorem problem?_cons_taken (hc : st.crowded limit = false) (h : st.step k = some st')
    (hdepth : st'.depth ≤ limit) : problem? limit st (k :: ks) = problem? limit st' ks := by
  simp [problem?, hc, h, Nat.not_lt.mpr hdepth]

/-- A wrong token is not one that opens too much. -/
theorem Pending.fault_ne_tooDeep (st : Pending) (found : Option Token.Kind) (limit : Nat) :
    st.fault found ≠ .tooDeep limit := by
  induction st with
  | start => cases found <;> nofun
  | done => cases found <;> nofun
  | more => cases found <;> nofun
  | due n st ih =>
    rw [fault]
    split
    · exact ih
    · cases n <;> nofun

/-! ## 6. Needs that come to the same -/

/-- A name that no colon follows is no alias. -/
theorem problem?_tail {name : String} (h : ks.head? ≠ some (.mark .colon)) :
    problem? limit (.due (.tail name) st) ks = problem? limit (.due (.parts name) st) ks := by
  cases ks with
  | nil => rfl
  | cons k ks =>
    have hk : k ≠ .mark .colon := fun hk => h (congrArg some hk)
    have htail : (Need.tail name).after? k = partsStart? name k := if_neg hk
    have hparts : (Need.parts name).after? k = partsStart? name k := rfl
    simp [problem?, Pending.crowded, Pending.step, Pending.fault, Need.optional, htail, hparts]

/-- Whatever a set is due for, its brace is the same. -/
theorem problem?_set (h : st'.step (.mark .openBrace) = some (.due .phrases st))
    (hdepth : st'.depth = st.depth) (ks : List Token.Kind) :
    problem? limit st' (.mark .openBrace :: ks) =
      problem? limit (.due .set st) (.mark .openBrace :: ks) := by
  have hphrases : (Pending.due .phrases st).depth = st.depth + 1 := Pending.depth_due_succ rfl st
  by_cases hroom : limit ≤ st.depth
  · have hcrowded : (Pending.due .set st).crowded limit = true := by simp [Pending.crowded, hroom]
    rw [problem?_cons_opened h (hphrases ▸ Nat.lt_succ_of_le hroom), problem?_of_crowded hcrowded]
    rfl
  · have hlt := Nat.not_le.mp hroom
    have hset : (Pending.due .set st).depth = st.depth := Pending.depth_due (n := .set) rfl st
    have hstep : (Pending.due .set st).step (.mark .openBrace) = some (.due .phrases st) := rfl
    rw [problem?_cons_taken (Pending.crowded_eq_false_of_lt (hdepth ▸ hlt)) h (hphrases ▸ hlt),
      problem?_cons_taken (Pending.crowded_eq_false_of_lt (hset ▸ hlt)) hstep (hphrases ▸ hlt)]

end FieldSelection.Grammar
