import FieldSelection.Proofs.Grammar.Acceptance
import FieldSelection.Proofs.Grammar.Doubles
import FieldSelection.Proofs.Selection.Merging
import FieldSelection.Proofs.Selection.Phrases

/-!
# Selections that are read from a text

What a selection that has been read looks like, whatever its text (`Fits`): names are identifiers,
no key and no name occurs twice, nothing carries the mark for all scalar fields, type conditions
hold nodes without arguments, and nothing is deeper than there was room.

* Merging keeps this (`Fits.merge`), so what a derivation with legal tokens means has it
  (`fits_selection`).
* The tokens of a text are legal (`legal_of_kinds?`), so every selection that is read has it
  (`fits_of_parseWithin`).
-/

namespace FieldSelection

namespace Grammar

/-! ## 1. Tokens of texts -/

/-- Names are identifiers, and numbers are as required. -/
def Legal (p : Numeral → Prop) : Token.Kind → Prop
  | .name word => isIdentifier word.toList = true
  | .number n => p n
  | _ => True

theorem legal_of_numeral? {negative : Bool} {whole : List Char} {fraction : Option (List Char)}
    {k : Token.Kind} (h : numeral? negative whole fraction = some k) :
    Legal Numeral.Canonical k := by
  unfold numeral? at h
  split at h
  · cases h
  · obtain ⟨n, hn, rfl⟩ := Option.map_eq_some_iff.mp h
    exact canonical_of_ofParts? hn

theorem legal_of_lexeme? {c : Char} {cs : List Char} {t : Token.Kind × List Char}
    (h : lexeme? c cs = some t) : Legal Numeral.Canonical t.1 := by
  by_cases hnumber : c = '-' ∨ c.isDigit = true
  · rw [lexeme?_number cs hnumber, number_toOption] at h
    split at h
    · cases h
    · obtain ⟨f, -, h⟩ := Option.bind_eq_some_iff.mp h
      obtain ⟨k, hk, rfl⟩ := Option.map_eq_some_iff.mp h
      exact legal_of_numeral? hk
  by_cases hname : isNameStart c = true
  · rw [lexeme?_of_isNameStart cs hname] at h
    cases h
    simp [Legal, isIdentifier, hname]
  by_cases hdot : c = '.'
  · rw [hdot, lexeme?_dot] at h
    split at h
    · cases h
      trivial
    · cases h
  have hno : (c = '-' || c.isDigit) = false := by simpa using hnumber
  obtain ⟨u, hu, rfl⟩ := Option.map_eq_some_iff.mp h
  unfold lexeme at hu
  simp only [hno, hname, hdot, Bool.false_eq_true, ↓reduceIte] at hu
  split at hu
  · cases hs : stringRest 1 cs <;> rw [hs] at hu <;> cases hu
    trivial
  · cases hm : Mark.ofChar? c <;> rw [hm] at hu <;> cases hu
    trivial

/-- The tokens of a text are legal. -/
theorem legal_of_kinds? : ∀ {cs : List Char} {ks : List Token.Kind}, kinds? cs = some ks →
    ∀ k ∈ ks, Legal Numeral.Canonical k
  | cs, ks, h => by
      cases hg : (gap false cs).rest with
      | nil =>
        rw [kinds?_of_gap hg] at h
        cases h
        exact List.forall_mem_nil _
      | cons c rest =>
        rw [kinds?_of_rest hg] at h
        obtain ⟨t, ht, h⟩ := Option.bind_eq_some_iff.mp h
        obtain ⟨ls, hls, rfl⟩ := Option.map_eq_some_iff.mp h
        have hlt : t.2.length < cs.length :=
          Nat.lt_of_le_of_lt (lexeme?_rest_suffix ht).length_le (rest_lt_of_gap hg)
        exact List.forall_mem_cons.mpr ⟨legal_of_lexeme? ht, legal_of_kinds? hls⟩
  termination_by cs => cs.length

end Grammar

open Grammar

/-! ## 2. Literals that fit -/

/-- No name twice in an object, names are identifiers and words are read as words, not too deep, and
    numbers are as required. -/
structure Literal.Fits (p : Numeral → Prop) (room : Nat) (l : Literal) : Prop where
  wellFormed : l.WellFormed
  spelled : l.Spelled
  depth : l.depth ≤ room
  numbers : ∀ n ∈ l.numbers, p n

/-- The items of a list fit. -/
structure Literal.ItemsFit (p : Numeral → Prop) (room : Nat) (items : List Literal) : Prop where
  wellFormed : Literal.ItemsWellFormed items
  spelled : Literal.ItemsSpelled items
  depth : Literal.itemsDepth items ≤ room
  numbers : ∀ n ∈ Literal.itemsNumbers items, p n

/-- Entries fit, their names included. -/
structure Literal.EntriesFit (p : Numeral → Prop) (room : Nat)
    (entries : List (String × Literal)) : Prop where
  wellFormed : Literal.EntriesWellFormed entries
  spelled : Literal.EntriesSpelled entries
  depth : Literal.entriesDepth entries ≤ room
  numbers : ∀ n ∈ Literal.entriesNumbers entries, p n

section Literals

variable {p : Numeral → Prop} {room : Nat}

namespace Literal

theorem itemsFit_cons {item : Literal} {rest : List Literal} (h : item.Fits p room)
    (h' : ItemsFit p room rest) : ItemsFit p room (item :: rest) :=
  ⟨⟨h.wellFormed, h'.wellFormed⟩, ⟨h.spelled, h'.spelled⟩, Nat.max_le.mpr ⟨h.depth, h'.depth⟩,
    List.forall_mem_append.mpr ⟨h.numbers, h'.numbers⟩⟩

/-- Entries fit if each of them does. -/
theorem entriesFit_iff {entries : List (String × Literal)} :
    EntriesFit p room entries ↔
      ∀ e ∈ entries, isIdentifier e.1.toList = true ∧ e.2.Fits p room := by
  induction entries with
  | nil =>
    constructor
    · exact fun _ => List.forall_mem_nil _
    · exact fun _ => ⟨trivial, trivial, Nat.zero_le _, by simp [entriesNumbers]⟩
  | cons e rest ih =>
    rw [List.forall_mem_cons, ← ih]
    constructor
    · rintro ⟨hw, hs, hd, hn⟩
      obtain ⟨hd, hd'⟩ := Nat.max_le.mp hd
      obtain ⟨hn, hn'⟩ := List.forall_mem_append.mp hn
      exact ⟨⟨hs.1, hw.1, hs.2.1, hd, hn⟩, hw.2, hs.2.2, hd', hn'⟩
    · rintro ⟨⟨hname, h⟩, h'⟩
      exact ⟨⟨h.wellFormed, h'.wellFormed⟩, ⟨hname, h.spelled, h'.spelled⟩,
        Nat.max_le.mpr ⟨h.depth, h'.depth⟩,
        List.forall_mem_append.mpr ⟨h.numbers, h'.numbers⟩⟩

/-- Entries that are put after others fit if both do. -/
theorem EntriesFit.putAll {es fs : List (String × Literal)} (h : EntriesFit p room es)
    (h' : EntriesFit p room fs) : EntriesFit p room (Table.putAll es fs) := by
  rw [entriesFit_iff] at *
  intro e he
  exact (Table.mem_putAll he).elim (h e) (h' e)

theorem fits_ofWord {word : String} (h : isIdentifier word.toList = true) :
    (ofWord word).Fits p room := by
  unfold ofWord
  split
  · exact ⟨trivial, trivial, Nat.zero_le _, by simp [numbers]⟩
  split
  · exact ⟨trivial, trivial, Nat.zero_le _, by simp [numbers]⟩
  split
  · exact ⟨trivial, trivial, Nat.zero_le _, by simp [numbers]⟩
  · rename_i htrue hfalse hnull
    exact ⟨trivial, ⟨h, htrue, hfalse, hnull⟩, Nat.zero_le _, by simp [numbers]⟩

end Literal

end Literals

mutual

/-- What a value with legal tokens means fits. -/
theorem Grammar.Value.fits_literal {p : Numeral → Prop} : ∀ (v : Value) {room : Nat},
    (∀ k ∈ v.kinds, Legal p k) → v.depth ≤ room → v.literal.Fits p room
  | .string _, _, _, _ =>
      ⟨trivial, trivial, Nat.zero_le _, by simp [Value.literal, Literal.numbers]⟩
  | .number n, _, h, _ => by
      have hn : p n := h (.number n) List.mem_cons_self
      exact ⟨trivial, trivial, Nat.zero_le _, by simpa [Value.literal, Literal.numbers] using hn⟩
  | .word text, _, h, _ => Literal.fits_ofWord (h (.name text) List.mem_cons_self)
  | .list items, room, h, hd => by
      rw [Value.kinds, List.forall_mem_cons, List.forall_mem_append] at h
      obtain ⟨room, rfl⟩ := Nat.exists_eq_add_of_le' (Nat.lt_of_lt_of_le (Nat.succ_pos _) hd)
      have hitems := Value.itemsFit_literals items h.2.1 (Nat.le_of_succ_le_succ hd)
      exact ⟨hitems.wellFormed, hitems.spelled, Nat.succ_le_succ hitems.depth, hitems.numbers⟩
  | .object entries, room, h, hd => by
      rw [Value.kinds, List.forall_mem_cons, List.forall_mem_append] at h
      obtain ⟨room, rfl⟩ := Nat.exists_eq_add_of_le' (Nat.lt_of_lt_of_le (Nat.succ_pos _) hd)
      have hnil : Literal.EntriesFit p room [] := Literal.entriesFit_iff.mpr (List.forall_mem_nil _)
      have hentries := hnil.putAll
        (Value.entriesFit_entries entries h.2.1 (Nat.le_of_succ_le_succ hd))
      exact ⟨⟨Table.nodup_keys_ofEntries _, hentries.wellFormed⟩, hentries.spelled,
        Nat.succ_le_succ hentries.depth, hentries.numbers⟩

/-- What the items of a list with legal tokens mean fits. -/
theorem Grammar.Value.itemsFit_literals {p : Numeral → Prop} : ∀ (items : List Value) {room : Nat},
    (∀ k ∈ Value.itemsKinds items, Legal p k) → Value.itemsDepth items ≤ room →
      Literal.ItemsFit p room (Value.literals items)
  | [], _, _, _ => ⟨trivial, trivial, Nat.zero_le _, by simp [Value.literals, Literal.itemsNumbers]⟩
  | item :: rest, _, h, hd => by
      obtain ⟨h, h'⟩ := List.forall_mem_append.mp h
      obtain ⟨hd, hd'⟩ := Nat.max_le.mp hd
      exact Literal.itemsFit_cons (Value.fits_literal item h hd)
        (Value.itemsFit_literals rest h' hd')

/-- What entries with legal tokens mean fits. -/
theorem Grammar.Value.entriesFit_entries {p : Numeral → Prop} :
    ∀ (entries : List (String × Value)) {room : Nat},
      (∀ k ∈ Value.entriesKinds entries, Legal p k) → Value.entriesDepth entries ≤ room →
        Literal.EntriesFit p room (Value.entries entries)
  | [], _, _, _ => Literal.entriesFit_iff.mpr (List.forall_mem_nil _)
  | (name, value) :: rest, _, h, hd => by
      rw [Value.entriesKinds, List.forall_mem_cons, List.forall_mem_cons,
        List.forall_mem_append] at h
      obtain ⟨hd, hd'⟩ := Nat.max_le.mp hd
      have hrest := Value.entriesFit_entries rest h.2.2.2 hd'
      rw [Literal.entriesFit_iff] at hrest ⊢
      exact List.forall_mem_cons.mpr ⟨⟨h.1, Value.fits_literal value h.2.2.1 hd⟩, hrest⟩

end

/-! ## 3. Selections that fit -/

mutual

/-- The arguments and the items of a selection fit, with no name and no key twice, and nothing
    carries the mark for all scalar fields. -/
def Selection.Fits (p : Numeral → Prop) : (room : Nat) → Selection → Prop
  | 0, _ => False
  | room + 1, ⟨arguments, allScalars, items⟩ =>
    ((Table.keys arguments).Nodup ∧ Literal.EntriesFit p (room + 1) arguments) ∧
      allScalars = false ∧ (Table.keys items).Nodup ∧ Selection.ItemsFit p room items

/-- The items fit under their keys, and these are identifiers. -/
def Selection.ItemsFit (p : Numeral → Prop) (room : Nat) : List (Key × Item) → Prop
  | [] => True
  | (key, item) :: rest =>
    (isIdentifier key.name.toList = true ∧ Item.Fits p room key item) ∧
      Selection.ItemsFit p room rest

/-- An item fits under its key; a type condition holds a node without arguments. -/
def Item.Fits (p : Numeral → Prop) (room : Nat) : Key → Item → Prop
  | .field _, .leaf => True
  | .field _, .node selection => Selection.Fits p room selection
  | .onType _, .leaf => False
  | .onType _, .node selection => selection.arguments = [] ∧ Selection.Fits p room selection

end

/-- What follows for a selection that fits. -/
structure Selection.Sound (p : Numeral → Prop) (room : Nat) (s : Selection) : Prop where
  wellFormed : s.WellFormed
  spelled : s.Spelled
  plain : s.Plain
  depth : max (Literal.entriesDepth s.arguments) s.depth ≤ room
  numbers : ∀ n ∈ s.numbers, p n

section Selections

variable {p : Numeral → Prop}

mutual

/-- A selection that fits is well formed, spelled, plain and not too deep. -/
theorem Selection.Fits.sound : ∀ {s : Selection} {room : Nat}, s.Fits p room → s.Sound p room
  | ⟨arguments, _, items⟩, room + 1, ⟨⟨hnodup, harguments⟩, rfl, hkeys, h⟩ => by
      obtain ⟨hw, hs, hp, hd, hn⟩ := Selection.ItemsFit.sound h
      exact ⟨⟨⟨hnodup, harguments.wellFormed⟩, hkeys, hw⟩, ⟨harguments.spelled, hs⟩, ⟨rfl, hp⟩,
        Nat.max_le.mpr ⟨harguments.depth, Nat.succ_le_succ hd⟩,
        List.forall_mem_append.mpr ⟨harguments.numbers, hn⟩⟩

/-- Items that fit are well formed, spelled, plain and not too deep. -/
theorem Selection.ItemsFit.sound : ∀ {items : List (Key × Item)} {room : Nat},
    Selection.ItemsFit p room items →
      Selection.ItemsWellFormed items ∧ Selection.ItemsSpelled items ∧
        Selection.ItemsPlain items ∧ Selection.itemsDepth items ≤ room ∧
          ∀ n ∈ Selection.itemsNumbers items, p n
  | [], _, _ => ⟨trivial, trivial, trivial, Nat.zero_le _, by simp [Selection.itemsNumbers]⟩
  | (key, item) :: rest, _, ⟨⟨hkey, hitem⟩, h⟩ => by
      obtain ⟨hw, hs, hp, hd, hn⟩ := Item.Fits.sound hitem
      obtain ⟨hw', hs', hp', hd', hn'⟩ := Selection.ItemsFit.sound h
      exact ⟨⟨hw, hw'⟩, ⟨hkey, hs, hs'⟩, ⟨hp, hp'⟩, Nat.max_le.mpr ⟨hd, hd'⟩,
        List.forall_mem_append.mpr ⟨hn, hn'⟩⟩

/-- An item that fits is well formed, spelled, plain and not too deep. -/
theorem Item.Fits.sound : ∀ {key : Key} {item : Item} {room : Nat}, item.Fits p room key →
    item.WellFormed ∧ item.Spelled ∧ item.Plain key ∧ item.depth ≤ room ∧ ∀ n ∈ item.numbers, p n
  | .field _, .leaf, _, _ => ⟨trivial, trivial, trivial, Nat.zero_le _, by simp [Item.numbers]⟩
  | .field _, .node s, _, h => by
      obtain ⟨hw, hs, hp, hd, hn⟩ := Selection.Fits.sound (s := s) h
      exact ⟨hw, hs, hp, hd, hn⟩
  | .onType _, .node s, _, ⟨hnone, h⟩ => by
      obtain ⟨hw, hs, hp, hd, hn⟩ := Selection.Fits.sound (s := s) h
      exact ⟨hw, hs, ⟨hnone, hp⟩, hd, hn⟩

end

/-! ## 4. Merging -/

theorem Selection.itemsFit_iff {room : Nat} {items : List (Key × Item)} :
    Selection.ItemsFit p room items ↔
      ∀ e ∈ items, isIdentifier e.1.name.toList = true ∧ Item.Fits p room e.1 e.2 := by
  induction items with
  | nil => simp [Selection.ItemsFit]
  | cons e rest ih => rw [List.forall_mem_cons, ← ih, Selection.ItemsFit]

/-- Changing an item or adding one keeps items that fit. -/
theorem Selection.ItemsFit.alter {room : Nat} {key : Key} {fresh : Item} {onto : Item → Item}
    (hkey : isIdentifier key.name.toList = true) (hfresh : fresh.Fits p room key)
    (honto : ∀ old : Item, old.Fits p room key → (onto old).Fits p room key)
    {items : List (Key × Item)} (h : Selection.ItemsFit p room items) :
    Selection.ItemsFit p room (Table.alter key fresh onto items) := by
  rw [Selection.itemsFit_iff] at *
  exact Table.forall_mem_alter ⟨hkey, hfresh⟩ (fun old hold => ⟨hkey, honto old hold.2⟩) h

mutual

/-- Merging keeps selections that fit. -/
theorem Selection.Fits.merge : ∀ {s r : Selection} {room : Nat}, r.Fits p room → s.Fits p room →
    (r.merge s).Fits p room
  | ⟨b, _, js⟩, ⟨a, _, is⟩, room + 1, ⟨⟨hnodup, ha⟩, rfl, hkeys, his⟩, ⟨⟨_, hb⟩, rfl, _, hjs⟩ => by
      rw [Selection.merge]
      exact ⟨⟨Table.nodup_keys_putAll b a hnodup, ha.putAll hb⟩, rfl,
        Selection.nodup_keys_mergeItems js hkeys, Selection.ItemsFit.merge his hjs⟩

/-- Merging keeps items that fit. -/
theorem Selection.ItemsFit.merge : ∀ {js is : List (Key × Item)} {room : Nat},
    Selection.ItemsFit p room is → Selection.ItemsFit p room js →
      Selection.ItemsFit p room (Selection.mergeItems is js)
  | [], _, _, h, _ => by rwa [Selection.mergeItems_nil]
  | (key, item) :: rest, is, room, h, ⟨⟨hkey, hitem⟩, hrest⟩ => by
      rw [Selection.mergeItems_cons]
      have honto : ∀ old : Item, old.Fits p room key → (old.merge item).Fits p room key :=
        fun old hold => Item.Fits.merge hold hitem
      exact Selection.ItemsFit.merge (h.alter hkey hitem honto) hrest

/-- Merging keeps an item that fits. -/
theorem Item.Fits.merge : ∀ {new old : Item} {key : Key} {room : Nat}, old.Fits p room key →
    new.Fits p room key → (old.merge new).Fits p room key
  | .leaf, _, _, _, h, _ => by rwa [Item.merge]
  | .node _, .leaf, _, _, _, h => by rwa [Item.merge]
  | .node s, .node r, .field _, room, h, h' => by
      rw [Item.merge]
      exact Selection.Fits.merge (s := s) (r := r) h h'
  | .node ⟨b, v, js⟩, .node ⟨a, w, is⟩, .onType _, room, ⟨hnone, h⟩, ⟨hnone', h'⟩ => by
      rw [Item.merge]
      refine ⟨?_, Selection.Fits.merge (s := ⟨b, v, js⟩) (r := ⟨a, w, is⟩) h h'⟩
      obtain rfl : a = [] := hnone
      obtain rfl : b = [] := hnone'
      rw [Selection.merge]
      rfl

end

/-- A set of items that fit, merged one after another. -/
theorem Selection.fits_mergeAll {room : Nat} {es : List (Key × Item)}
    (h : Selection.ItemsFit p room es) : (Selection.empty.mergeAll es).Fits p (room + 1) := by
  have hnil : Literal.EntriesFit p (room + 1) [] :=
    Literal.entriesFit_iff.mpr (List.forall_mem_nil _)
  have hitems : Selection.ItemsFit p room [] := trivial
  rw [Selection.mergeAll_eq]
  exact ⟨⟨List.nodup_nil, hnil⟩, rfl, Selection.nodup_keys_mergeItems es List.nodup_nil,
    hitems.merge h⟩

theorem Selection.Fits.setArguments {s : Selection} {room : Nat}
    {arguments : List (String × Literal)} (h : s.Fits p room)
    (h' : Literal.EntriesFit p room arguments) : (s.setArguments arguments).Fits p room := by
  obtain ⟨a, w, is⟩ := s
  cases room with
  | zero => exact h
  | succ room =>
    obtain ⟨⟨hnodup, ha⟩, hrest⟩ := h
    exact ⟨⟨Table.nodup_keys_putAll arguments a hnodup, ha.putAll h'⟩, hrest⟩

/-! ## 5. Derivations -/

theorem legal_of_headKinds {alias? : Option String} {name : String}
    (h : ∀ k ∈ headKinds alias? name, Legal p k) : isIdentifier name.toList = true :=
  h (.name name) (by cases alias? <;> simp [headKinds])

mutual

/-- What a phrase with legal tokens adds to its set fits. -/
theorem Grammar.Phrase.fits_entry : ∀ (phrase : Phrase) {room : Nat},
    (∀ k ∈ phrase.kinds, Legal p k) → phrase.depth ≤ room →
      isIdentifier phrase.entry.1.name.toList = true ∧ phrase.entry.2.Fits p room phrase.entry.1
  | .leaf alias? name, room, h, _ => ⟨legal_of_headKinds h, trivial⟩
  | .nested alias? name none set, room, h, hd => by
      rw [Phrase.kinds, List.forall_mem_append, argumentsKinds, List.nil_append,
        List.forall_mem_cons, List.forall_mem_append] at h
      rw [Phrase.depth, argumentsDepth, Nat.zero_max] at hd
      obtain ⟨room, rfl⟩ := Nat.exists_eq_add_of_le' (Nat.lt_of_lt_of_le (Nat.succ_pos _) hd)
      have hset := Phrase.itemsFit_entries set h.2.2.1 (Nat.le_of_succ_le_succ hd)
      exact ⟨legal_of_headKinds h.1, Selection.fits_mergeAll hset⟩
  | .nested alias? name (some arguments) set, room, h, hd => by
      rw [Phrase.kinds, List.forall_mem_append, List.forall_mem_append, argumentsKinds,
        List.forall_mem_cons, List.forall_mem_cons, List.forall_mem_append,
        List.forall_mem_append] at h
      obtain ⟨hargs, hd⟩ := Nat.max_le.mp hd
      obtain ⟨room, rfl⟩ := Nat.exists_eq_add_of_le' (Nat.lt_of_lt_of_le (Nat.succ_pos _) hd)
      have hset := Phrase.itemsFit_entries set h.2.2.2.1 (Nat.le_of_succ_le_succ hd)
      exact ⟨legal_of_headKinds h.1, (Selection.fits_mergeAll hset).setArguments
        (Value.entriesFit_entries arguments h.2.1.2.1 hargs)⟩
  | .fragment type set, room, h, hd => by
      rw [Phrase.kinds, List.forall_mem_cons, List.forall_mem_cons, List.forall_mem_cons,
        List.forall_mem_cons, List.forall_mem_append] at h
      obtain ⟨room, rfl⟩ := Nat.exists_eq_add_of_le' (Nat.lt_of_lt_of_le (Nat.succ_pos _) hd)
      have hset := Phrase.itemsFit_entries set h.2.2.2.2.1 (Nat.le_of_succ_le_succ hd)
      exact ⟨h.2.2.1, Selection.arguments_mergeAll .empty _, Selection.fits_mergeAll hset⟩

/-- What the phrases of a set with legal tokens add to it fits. -/
theorem Grammar.Phrase.itemsFit_entries : ∀ (set : List Phrase) {room : Nat},
    (∀ k ∈ Phrase.setKinds set, Legal p k) → Phrase.setDepth set ≤ room →
      Selection.ItemsFit p room (Phrase.entries set)
  | [], _, _, _ => trivial
  | phrase :: rest, _, h, hd => by
      obtain ⟨h, h'⟩ := List.forall_mem_append.mp h
      obtain ⟨hd, hd'⟩ := Nat.max_le.mp hd
      exact ⟨Phrase.fits_entry phrase h hd, Phrase.itemsFit_entries rest h' hd'⟩

end

/-- What a document with legal tokens means fits. -/
theorem Grammar.Document.fits_selection {d : Document} {limit : Nat}
    (h : ∀ k ∈ d.kinds, Legal p k) (hd : d.depth ≤ limit) : d.selection.Fits p (limit + 1) := by
  cases d with
  | braced set =>
    rw [Document.kinds, List.forall_mem_cons, List.forall_mem_append] at h
    have hdepth : Phrase.setDepth set + 1 ≤ limit := hd
    exact Selection.fits_mergeAll (Phrase.itemsFit_entries set h.2.1 (by omega))
  | bare set => exact Selection.fits_mergeAll (Phrase.itemsFit_entries set h hd)

end Selections

theorem Selection.items_ne_nil {s : Selection} (h : s.isEmpty = false) (hp : s.Plain) :
    s.items ≠ [] := by
  obtain ⟨_, _, items⟩ := s
  obtain rfl := hp.1
  rintro rfl
  cases h

/-- A text with the tokens of a document is read as what this means. -/
theorem Selection.parseWithin_of_kinds? {limit : Nat} {source : String} {d : Document}
    (h : kinds? source.toList = some d.kinds) (hset : d.set ≠ []) (hdepth : d.depth ≤ limit) :
    parseWithin limit source = .ok d.selection := by
  obtain ⟨ts, hts, hkinds⟩ := kinds?_eq_some_iff.mp h
  exact (parseWithin_of_derivation limit hts hkinds.symm hset).1 hdepth

/-- **What is read from a text fits**, and its numbers are among those of the text. -/
theorem Selection.fits_of_parseWithin {limit : Nat} {source : String} {s : Selection}
    (h : parseWithin limit source = .ok s) :
    ∃ ks, kinds? source.toList = some ks ∧ s.items ≠ [] ∧ s.arguments = [] ∧
      s.Fits (fun n => n.Canonical ∧ .number n ∈ ks) (limit + 1) := by
  obtain ⟨ts, hts, d, hd, hset, hdepth, rfl⟩ := exists_derivation h
  have hkinds : kinds? source.toList = some d.kinds := kinds?_eq_some_iff.mpr ⟨ts, hts, hd.symm⟩
  have hlegal : ∀ k ∈ d.kinds, Legal (fun n => n.Canonical ∧ .number n ∈ d.kinds) k := by
    intro k hk
    have hcanonical := legal_of_kinds? hkinds k hk
    cases k with
    | number n => exact ⟨hcanonical, hk⟩
    | name | string | mark | spread => exact hcanonical
  have hfits := d.fits_selection hlegal hdepth
  exact ⟨d.kinds, hkinds, items_ne_nil (isEmpty_selection hset) hfits.sound.plain,
    arguments_mergeAll .empty _, hfits⟩

end FieldSelection
