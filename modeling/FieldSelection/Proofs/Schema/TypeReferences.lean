import FieldSelection.Proofs.Schema.Lookup
import Mathlib.Data.List.Forall2

/-!
# What signatures say

A type reference names a type, and wraps it as a list or as non-null to any depth (`TypeReference`);
a signature is its text, with white space around any part (`TypeReference.Written`). Signatures
are trimmed at both ends and never read along these rules, and yet

* the trimmed text is the name in the middle, since all that stands around a name is trimmed, and
  nothing in a name is (`Written.exists_name`, `namedChars_append`);
* a signature ends with an exclamation mark, white space apart, if and only if the outermost wrapper
  is the non-null mark (`Written.exists_last`).

So a field is described by what its signatures refer to (`described_of_written`).
-/

namespace FieldSelection

/-! ## 1. Type references and their texts -/

/-- A named type, or a type wrapped as a list or as non-null. -/
inductive TypeReference where
  | named (name : String)
  | list (inner : TypeReference)
  | nonNull (inner : TypeReference)

/-- A type name is not empty and has no brackets, exclamation marks and white space. -/
structure IsTypeName (name : String) : Prop where
  ne_nil : name.toList ≠ []
  noOpening : '[' ∉ name.toList
  noClosing : ']' ∉ name.toList
  noMark : '!' ∉ name.toList
  noBlank : name.toList.any Text.isBlank = false

namespace TypeReference

/-- The name in the middle. -/
def name : TypeReference → String
  | .named name => name
  | .list inner => name inner
  | .nonNull inner => name inner

/-- The outermost wrapper is the non-null mark. -/
def NonNull (t : TypeReference) : Prop := ∃ inner, t = .nonNull inner

/-- White space only. -/
def Blank (cs : List Char) : Prop := cs.all Text.isBlank = true

/-- The texts of a type reference: any white space stands around each part. -/
inductive Written : TypeReference → List Char → Prop where
  | named (before after : List Char) {name : String} (hname : IsTypeName name)
      (hbefore : Blank before) (hafter : Blank after) :
      Written (.named name) (before ++ name.toList ++ after)
  | list (before after : List Char) {t : TypeReference} {cs : List Char} (inner : Written t cs)
      (hbefore : Blank before) (hafter : Blank after) :
      Written (.list t) (before ++ '[' :: (cs ++ ']' :: after))
  -- white space ahead of the mark, or ahead of it all, is part of the inner text
  | nonNull (after : List Char) {t : TypeReference} {cs : List Char} (inner : Written t cs)
      (hafter : Blank after) :
      Written (.nonNull t) (cs ++ '!' :: after)

end TypeReference

/-! ## 2. Trimming -/

section Names

variable {name : String} {c : Char}

theorem IsTypeName.isBlank_eq_false (h : IsTypeName name) (hc : c ∈ name.toList) :
    Text.isBlank c = false :=
  Bool.eq_false_iff.mpr (List.any_eq_false.mp h.noBlank c hc)

theorem IsTypeName.ne_mark (h : IsTypeName name) (hc : c ∈ name.toList) : c ≠ '!' :=
  fun e => h.noMark (e ▸ hc)

/-- No character of a name is trimmed. -/
theorem IsTypeName.isWrapping_eq_false (h : IsTypeName name) (hc : c ∈ name.toList) :
    Signature.isWrapping c = false := by
  have hopening : c ≠ '[' := fun e => h.noOpening (e ▸ hc)
  have hclosing : c ≠ ']' := fun e => h.noClosing (e ▸ hc)
  simp [Signature.isWrapping, hopening, hclosing, h.ne_mark hc, h.isBlank_eq_false hc]

end Names

namespace Signature

/-- White space is trimmed. -/
theorem isWrapping_of_blank {cs : List Char} (h : TypeReference.Blank cs) :
    ∀ c ∈ cs, isWrapping c = true := by
  intro c hc
  have hblank : Text.isBlank c = true := List.all_eq_true.mp h c hc
  simp [isWrapping, hblank]

/-- Trimming the end of a text goes up to the last character that stays. -/
theorem trimmed_append {p : Char → Bool} {front after : List Char} {c : Char} (hc : p c = false)
    (hafter : ∀ d ∈ after, p d = true) :
    ((front ++ c :: after).reverse.dropWhile p).reverse = front ++ [c] := by
  have hback : ∀ d ∈ after.reverse, p d = true := fun d hd => hafter d (List.mem_reverse.mp hd)
  rw [List.reverse_append, List.reverse_cons, List.append_assoc,
    List.dropWhile_append_of_pos hback, List.singleton_append,
    List.dropWhile_cons_of_neg (by simp [hc]), List.reverse_cons, List.reverse_reverse]

/-- What is around a name is trimmed at both ends, up to the name. -/
theorem namedChars_append {before name after : List Char} (hne : name ≠ [])
    (hbefore : ∀ c ∈ before, isWrapping c = true) (hname : ∀ c ∈ name, isWrapping c = false)
    (hafter : ∀ c ∈ after, isWrapping c = true) : namedChars (before ++ name ++ after) = name := by
  have hfront : (before ++ name ++ after).dropWhile isWrapping = name ++ after := by
    obtain ⟨c, cs, rfl⟩ := List.exists_cons_of_ne_nil hne
    rw [List.append_assoc, List.dropWhile_append_of_pos hbefore, List.cons_append,
      List.dropWhile_cons_of_neg (by simp [hname c List.mem_cons_self])]
  obtain ⟨front, c, rfl⟩ := (List.eq_nil_or_concat' name).resolve_left hne
  have hc : isWrapping c = false := hname c (List.mem_append_right front (.head []))
  rw [namedChars, hfront, List.append_assoc, List.singleton_append, trimmed_append hc hafter]

end Signature

/-! ## 3. Signatures -/

namespace TypeReference.Written

open Signature (isWrapping isWrapping_of_blank)

variable {t : TypeReference} {cs : List Char} {signature : String}

theorem isTypeName (h : t.Written cs) : IsTypeName t.name := by
  induction h with
  | named _ _ hname => exact hname
  | list _ _ _ _ _ ih => exact ih
  | nonNull _ _ _ ih => exact ih

/-- Around the name stand brackets, marks and white space only. -/
theorem exists_name (h : t.Written cs) : ∃ before after, cs = before ++ t.name.toList ++ after ∧
    (∀ c ∈ before, isWrapping c = true) ∧ (∀ c ∈ after, isWrapping c = true) := by
  -- from the name outwards: every wrapper puts more of what is trimmed at one end or at both
  induction h with
  | named before after _ hbefore hafter =>
    exact ⟨before, after, rfl, isWrapping_of_blank hbefore, isWrapping_of_blank hafter⟩
  | list before after _ hbefore hafter ih =>
    obtain ⟨front, back, rfl, hfront, hback⟩ := ih
    refine ⟨before ++ '[' :: front, back ++ ']' :: after, by simp [name], ?_, ?_⟩
    · exact List.forall_mem_append.mpr
        ⟨isWrapping_of_blank hbefore, List.forall_mem_cons.mpr ⟨rfl, hfront⟩⟩
    · exact List.forall_mem_append.mpr
        ⟨hback, List.forall_mem_cons.mpr ⟨rfl, isWrapping_of_blank hafter⟩⟩
  | nonNull after _ hafter ih =>
    obtain ⟨front, back, rfl, hfront, hback⟩ := ih
    refine ⟨front, back ++ '!' :: after, by simp [name], hfront, ?_⟩
    exact List.forall_mem_append.mpr
      ⟨hback, List.forall_mem_cons.mpr ⟨rfl, isWrapping_of_blank hafter⟩⟩

/-- The last character that is no white space is the non-null mark if and only if that mark is the
    outermost wrapper. -/
theorem exists_last (h : t.Written cs) : ∃ front c after, cs = front ++ c :: after ∧
    Text.isBlank c = false ∧ Blank after ∧ (c = '!' ↔ t.NonNull) := by
  -- the outermost wrapper alone decides, so there is no induction
  cases h with
  | named before after hname _ hafter =>
    obtain ⟨front, c, hlast⟩ := (List.eq_nil_or_concat' _).resolve_left hname.ne_nil
    have hc : c ∈ _ := hlast ▸ List.mem_append_right front (.head [])
    refine ⟨before ++ front, c, after, by simp [hlast], hname.isBlank_eq_false hc, hafter, ?_⟩
    exact iff_of_false (hname.ne_mark hc) nofun
  | @list before after u cs _ _ hafter =>
    refine ⟨before ++ '[' :: cs, ']', after, by simp, by decide, hafter, ?_⟩
    exact iff_of_false (by decide) nofun
  | @nonNull after u cs _ hafter =>
    exact ⟨cs, '!', after, rfl, by decide, hafter, iff_of_true rfl ⟨u, rfl⟩⟩

/-- The named type of a signature is the name in the middle. -/
theorem named_eq (h : t.Written signature.toList) : Signature.named signature = t.name := by
  obtain ⟨before, after, hcs, hbefore, hafter⟩ := h.exists_name
  have hname := h.isTypeName
  rw [Signature.named, hcs, Signature.namedChars_append hname.ne_nil hbefore
    (fun _ => hname.isWrapping_eq_false) hafter, String.ofList_toList]

/-- A signature counts as non-null if and only if the outermost wrapper is the non-null mark. -/
theorem isNonNull_iff (h : t.Written signature.toList) :
    Signature.isNonNull signature = true ↔ t.NonNull := by
  obtain ⟨front, c, after, hcs, hc, hafter, hmark⟩ := h.exists_last
  rw [Signature.isNonNull, hcs, Text.trimEnd,
    Signature.trimmed_append hc (List.all_eq_true.mp hafter), List.getLast?_concat, beq_iff_eq,
    Option.some_inj, hmark]

/-- An argument has a non-null signature if and only if one of the references is non-null. -/
theorem any_isNonNull_iff {arguments : List (String × String)} {ts : List TypeReference}
    (h : List.Forall₂ (fun a u => u.Written a.2.toList) arguments ts) :
    (arguments.any fun a => Signature.isNonNull a.2) = true ↔ ∃ u ∈ ts, u.NonNull := by
  induction h with
  | nil => simp
  | cons hu _ ih =>
    rw [List.any_cons, Bool.or_eq_true, ih, hu.isNonNull_iff, List.exists_mem_cons_iff]

end TypeReference.Written

/-! ## 4. Fields -/

namespace Schema

/-- What is known about a field from the type that it refers to, and the types that its arguments
    refer to. -/
structure Describes (s : Schema) (target : TypeReference) (arguments : List TypeReference)
    (f : FieldDescriptor) : Prop where
  type : f.type = target.name
  needsArguments : f.needsArguments = true ↔ ∃ t ∈ arguments, t.NonNull
  isConnection : f.isConnection = true ↔ ∃ stem, target.name = stem ++ s.connectionSuffix

theorem isConnectionName_iff {s : Schema} {type : String} :
    s.isConnectionName type = true ↔ ∃ stem, type = stem ++ s.connectionSuffix := by
  rw [isConnectionName, List.isSuffixOf_iff_suffix]
  constructor
  · rintro ⟨stem, h⟩
    exact ⟨String.ofList stem, String.toList_inj.mp (by rw [String.toList_append,
      String.toList_ofList, h])⟩
  · rintro ⟨stem, rfl⟩
    exact ⟨stem.toList, (String.toList_append ..).symm⟩

/-- **A signature names the type in the middle and is non-null at its outermost wrapper, and a field
    is described by what its signatures refer to.** -/
theorem described_of_written {t : TypeReference} {signature : String}
    (h : t.Written signature.toList) :
    Signature.named signature = t.name ∧ (Signature.isNonNull signature = true ↔ t.NonNull) ∧
    ∀ (s : Schema) (type field : String) (description : TypeDescription)
      (arguments : List (String × String)) (ts : List TypeReference),
      Table.get? type s.types = some description →
      Table.get? field description.fields = some ⟨signature, arguments⟩ →
      List.Forall₂ (fun a u => u.Written a.2.toList) arguments ts →
        ∃ d f, s.descriptor? type = some d ∧ d.field? field = some f ∧ s.Describes t ts f := by
  refine ⟨h.named_eq, h.isNonNull_iff, ?_⟩
  intro s type field description arguments ts htype hfield harguments
  have hd := descriptor?_eq_some_iff.mpr ⟨description, htype, rfl⟩
  have hf := field?_descriptor (s := s) description type field
  rw [hfield, Option.map_some] at hf
  refine ⟨_, _, hd, hf, ?_, ?_, ?_⟩
  · exact h.named_eq
  · exact TypeReference.Written.any_isNonNull_iff harguments
  · rw [← h.named_eq]
    exact isConnectionName_iff

/-- A shop with its stock on pages, which are asked for by the ids of the products. -/
def stockShop : Schema where
  types := [("Shop", ⟨[], [("stock", ⟨" [ [ StockPage ! ] ]\t! ",
    [("first", "Int"), ("ids", "[ID!] !")]⟩)]⟩)]
  connectionSuffix := "Page"

/-- `[[StockPage!]]!` -/
def stockType : TypeReference := .nonNull (.list (.list (.nonNull (.named "StockPage"))))

/-- `Int` and `[ID!]!` -/
def stockArguments : List TypeReference := [.named "Int", .nonNull (.list (.nonNull (.named "ID")))]

/-- The stock is a connection and needs its ids. -/
theorem described_stock :
    stockType.Written " [ [ StockPage ! ] ]\t! ".toList ∧
    List.Forall₂ (fun a u => TypeReference.Written u a.2.toList)
      [("first", "Int"), ("ids", "[ID!] !")] stockArguments ∧
    Signature.named " [ [ StockPage ! ] ]\t! " = "StockPage" ∧
    ∃ d f, stockShop.descriptor? "Shop" = some d ∧ d.field? "stock" = some f ∧
      f.needsArguments = true ∧ f.isConnection = true := by
  have hpage : IsTypeName "StockPage" := by constructor <;> decide
  have hint : IsTypeName "Int" := by constructor <;> decide
  have hid : IsTypeName "ID" := by constructor <;> decide
  have hstock : stockType.Written " [ [ StockPage ! ] ]\t! ".toList :=
    .nonNull [' '] (.list [' '] ['\t'] (.list [' '] [' ']
      (.nonNull [' '] (.named [' '] [' '] hpage rfl rfl) rfl) rfl rfl) rfl rfl) rfl
  have harguments : List.Forall₂ (fun a u => TypeReference.Written u a.2.toList)
      [("first", "Int"), ("ids", "[ID!] !")] stockArguments :=
    .cons (.named [] [] hint rfl rfl) (.cons
      (.nonNull [] (.list [] [' '] (.nonNull [] (.named [] [] hid rfl rfl) rfl) rfl rfl) rfl) .nil)
  obtain ⟨hname, -, hfield⟩ := described_of_written hstock
  obtain ⟨d, f, hd, hf, h⟩ := hfield stockShop "Shop" "stock" _ _ _ rfl rfl harguments
  refine ⟨hstock, harguments, hname, d, f, hd, hf, ?_, ?_⟩
  · exact h.needsArguments.mpr ⟨_, List.mem_cons_of_mem _ (.head []), _, rfl⟩
  · exact h.isConnection.mpr ⟨"Stock", by decide⟩

end Schema

end FieldSelection
