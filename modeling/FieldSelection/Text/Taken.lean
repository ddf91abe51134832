/-!
# Values read off the front of a list

A reader that takes a value off the front of a list answers the value together with what is left:

* `Taken` also keeps what was taken, and that both parts make up the whole list again;
* `Parsed` only keeps that something was taken, which is what lets a reader go on with the rest.
-/

namespace FieldSelection

/-- A value, the characters it was read from, and the characters after them. -/
structure Taken (α : Type) (input : List Char) where
  value : α
  text : List Char
  rest : List Char
  whole : text ++ rest = input

/-- A value and the part of the input after it, which is shorter than the input. -/
structure Parsed (α : Type) {τ : Type} (input : List τ) where
  value : α
  rest : List τ
  shorter : rest.length < input.length

namespace Taken

variable {α : Type} {input : List Char}

theorem length_rest (t : Taken α input) : t.text.length + t.rest.length = input.length := by
  have h := congrArg List.length t.whole
  rwa [List.length_append] at h

theorem rest_le (t : Taken α input) : t.rest.length ≤ input.length := by
  have := t.length_rest
  omega

/-- A character ahead of the input is taken too. -/
def cons (c : Char) (t : Taken α input) : Taken α (c :: input) :=
  ⟨t.value, c :: t.text, t.rest, congrArg (c :: ·) t.whole⟩

/-- Another value read from the same characters. -/
def map {β : Type} (f : α → β) (t : Taken α input) : Taken β input :=
  ⟨f t.value, t.text, t.rest, t.whole⟩

end Taken

namespace Parsed

variable {α τ : Type} {input : List τ}

/-- A value read from the first item alone. -/
def one (value : α) (first : τ) (rest : List τ) : Parsed α (first :: rest) :=
  ⟨value, rest, Nat.lt_succ_self rest.length⟩

/-- An item ahead of the input is read too. -/
def cons (first : τ) (p : Parsed α input) : Parsed α (first :: input) :=
  ⟨p.value, p.rest, Nat.lt_succ_of_lt p.shorter⟩

/-- A value read after something that was taken. -/
def after {β : Type} {input : List Char} (t : Taken β input) (p : Parsed α t.rest) :
    Parsed α input :=
  ⟨p.value, p.rest, Nat.lt_of_lt_of_le p.shorter t.rest_le⟩

/-- Another value read from the same items. -/
def map {β : Type} (f : α → β) (p : Parsed α input) : Parsed β input :=
  ⟨f p.value, p.rest, p.shorter⟩

end Parsed

/-- The characters that satisfy `p`, up to the first that does not. -/
def takeWhile (p : Char → Bool) (input : List Char) : Taken Unit input :=
  ⟨(), input.takeWhile p, input.dropWhile p, List.takeWhile_append_dropWhile⟩

end FieldSelection
