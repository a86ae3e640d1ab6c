/-
  `Proofs.Tokenization.Interning`: the tables of a source, entry by entry.

  The tables of a source list what is entered for its lexemes (`tokenize_areOf`): the spelling
  of an identifier where it comes for the first time, the body of each string, the value of
  each number, and nothing for any other lexeme.  The indices of identifiers come in the
  order of their table (`tokenize_inOrder`).
-/
import LoxReader.Proofs.Tokenization.Gist
import LoxReader.Proofs.Tokenization.Munch
import LoxReader.Proofs.Tokenization.Numbering
import Mathlib.Data.List.Induction
import Mathlib.Data.List.Nodup

set_option autoImplicit false

namespace LoxReader

/-! ## Lists without repetitions -/

section

variable {α : Type} [BEq α] [LawfulBEq α] {xs : List α} {x : α}

theorem eraseDups_concat_of_mem (h : x ∈ xs) : (xs ++ [x]).eraseDups = xs.eraseDups := by
  rw [List.eraseDups_append]
  simp [List.removeAll, h]

theorem eraseDups_concat_of_not_mem (h : x ∉ xs) :
    (xs ++ [x]).eraseDups = xs.eraseDups ++ [x] := by
  rw [List.eraseDups_append]
  simp [List.removeAll, h, List.eraseDups_cons]

theorem nodup_eraseDups (xs : List α) : xs.eraseDups.Nodup := by
  induction xs using List.reverseRecOn with
  | nil => simp
  | append_singleton xs x ih =>
      by_cases hx : x ∈ xs
      · rwa [eraseDups_concat_of_mem hx]
      · rw [eraseDups_concat_of_not_mem hx, ← List.concat_eq_append, List.nodup_concat,
          List.mem_eraseDups]
        exact ⟨hx, ih⟩

end

/-! ## What is entered for a lexeme -/

namespace Lexeme

/-- The spelling of an identifier. -/
def name? : Lexeme → Option String
  | .word text =>
    match Keyword.ofSpelling? (String.ofList text) with
    | some _ => none
    | none => some (String.ofList text)
  | _ => none

/-- The body of a string that closes. -/
def string? : Lexeme → Option String
  | .quoted body => some (String.ofList body)
  | _ => none

/-- The value of a number that is small enough. -/
def number? : Lexeme → Option UInt64
  | .digits run =>
    if digitsValue run < UInt64.size then some (UInt64.ofNat (digitsValue run)) else none
  | _ => none

end Lexeme

namespace Tables

/-- A spelling that is in the table keeps its index there, and another is entered behind
the rest. -/
theorem intern_cases (tables : Tables) (word : String) :
    (word ∈ tables.names ∧ (tables.intern word).1.index < tables.names.size ∧
      (tables.intern word).2.names = tables.names) ∨
      (word ∉ tables.names ∧ (tables.intern word).1 = ⟨tables.names.size⟩ ∧
        (tables.intern word).2.names = tables.names.push word) := by
  have hname := tables.name_intern word
  obtain ⟨names, strings, numbers⟩ := tables
  simp only [intern] at hname ⊢
  split at hname
  · rename_i index _
    rw [name, tableGet_eq_ok_iff] at hname
    exact .inl ⟨Array.mem_of_getElem? hname, (Array.getElem?_eq_some_iff.mp hname).1, rfl⟩
  · rename_i hnone
    exact .inr ⟨Array.idxOf?_eq_none_iff.mp hnone, rfl, rfl⟩

/-- The tables list what is entered for the lexemes. -/
structure AreOf (tables : Tables) (ls : List Lexeme) : Prop where
  names : tables.names.toList = (ls.filterMap Lexeme.name?).eraseDups
  strings : tables.strings.toList = ls.filterMap Lexeme.string?
  numbers : tables.numbers.toList = ls.filterMap Lexeme.number?

theorem names_read {tables : Tables} {words : List String}
    (h : tables.names.toList = words.eraseDups) (l : Lexeme) :
    (tables.read l).2.names.toList = (words ++ l.name?.toList).eraseDups := by
  cases l with
  | digits run =>
      simp only [read, Lexeme.name?, Option.toList_none, List.append_nil]
      split <;> exact h
  | word word =>
      cases hword : Keyword.ofSpelling? (String.ofList word) with
      | some k =>
          simp only [read, Lexeme.name?, hword]
          rwa [Option.toList_none, List.append_nil]
      | none =>
          have hmem : String.ofList word ∈ tables.names ↔ String.ofList word ∈ words := by
            rw [Array.mem_def, h, List.mem_eraseDups]
          simp only [read, Lexeme.name?, hword, Option.toList_some]
          rcases tables.intern_cases (String.ofList word) with ⟨hold, -, heq⟩ | ⟨hnew, -, heq⟩
          · rw [eraseDups_concat_of_mem (hmem.mp hold), ← h]
            exact congrArg Array.toList heq
          · rw [eraseDups_concat_of_not_mem (mt hmem.mpr hnew), ← h, ← Array.toList_push]
            exact congrArg Array.toList heq
  | _ => simpa [read, Lexeme.name?, addString] using h

theorem strings_read (tables : Tables) (l : Lexeme) :
    (tables.read l).2.strings.toList = tables.strings.toList ++ l.string?.toList := by
  cases l with
  | digits run =>
      simp only [read]
      split <;> exact (List.append_nil _).symm
  | word word =>
      simp only [read]
      split
      · exact (List.append_nil _).symm
      · rw [(tables.enters_intern _).2]
        exact (List.append_nil _).symm
  | quoted body => exact Array.toList_push
  | _ => exact (List.append_nil _).symm

theorem numbers_read (tables : Tables) (l : Lexeme) :
    (tables.read l).2.numbers.toList = tables.numbers.toList ++ l.number?.toList := by
  cases l with
  | digits run =>
      simp only [read, Lexeme.number?]
      split
      · exact Array.toList_push
      · exact (List.append_nil _).symm
  | word word =>
      simp only [read]
      split
      · exact (List.append_nil _).symm
      · rw [(tables.enters_intern _).1]
        exact (List.append_nil _).symm
  | _ => exact (List.append_nil _).symm

theorem AreOf.read {tables : Tables} {ls : List Lexeme} (h : tables.AreOf ls) (l : Lexeme) :
    (tables.read l).2.AreOf (ls ++ [l]) := by
  have hconcat : ∀ {β : Type} (f : Lexeme → Option β),
      (ls ++ [l]).filterMap f = ls.filterMap f ++ (f l).toList :=
    fun f => Tokenization.filterMap_append_toList f ls (some l)
  refine ⟨?_, ?_, ?_⟩
  · rw [hconcat, names_read h.names]
  · rw [hconcat, strings_read, h.strings]
  · rw [hconcat, numbers_read, h.numbers]

end Tables

/-- Reading lexemes enters what is entered for them. -/
theorem Tokenization.areOf_readFrom {t : Tokenization} {before : List Lexeme}
    (h : t.tables.AreOf before) (loc : Location) (ls : List Lexeme) :
    (t.readFrom loc ls).tables.AreOf (before ++ ls) := by
  induction ls generalizing t loc before with
  | nil => rwa [List.append_nil]
  | cons l ls ih =>
      -- What has been entered is listed along with the lexemes that it was entered for.
      have hread := h.read l
      rw [← tables_add t loc] at hread
      rw [List.append_cons]
      exact ih hread _

theorem tokenize_areOf (source : String) :
    (tokenize source).tables.AreOf (lexemes source.toList) := by
  have hunread : (Tokenization.unread source).tables.AreOf [] := ⟨rfl, rfl, rfl⟩
  exact Tokenization.areOf_readFrom hunread .start _

/-! ## The indices of identifiers -/

/-- All indices below the size of a table. -/
def NameId.upTo (size : Nat) : List NameId :=
  (List.range size).map NameId.mk

theorem NameId.mem_upTo {size : Nat} {id : NameId} : id ∈ upTo size ↔ id.index < size := by
  cases id
  simp [upTo]

/-- An identifier with this index, if it is one, has its spelling in the table before, or it
is entered behind the rest; nothing else is entered. -/
def Interns (old : Array String) (id? : Option NameId) (new : Array String) : Prop :=
  (id? = none ∧ new = old) ∨ (∃ id, id? = some id ∧ id.index < old.size ∧ new = old) ∨
    ∃ word, id? = some ⟨old.size⟩ ∧ new = old.push word

/-- Indices that come in the order of the table still do so behind one that is interned. -/
theorem Interns.upTo_eq {old new : Array String} {id? : Option NameId} (h : Interns old id? new)
    {ids : List NameId} (hids : ids.eraseDups = NameId.upTo old.size) :
    (ids ++ id?.toList).eraseDups = NameId.upTo new.size := by
  -- The indices of the table have all come before, and no other has.
  have hmem : ∀ id, id ∈ ids ↔ id.index < old.size := fun id => by
    rw [← List.mem_eraseDups, hids, NameId.mem_upTo]
  rcases h with ⟨rfl, rfl⟩ | ⟨id, rfl, hlt, rfl⟩ | ⟨word, rfl, rfl⟩
  · rwa [Option.toList_none, List.append_nil]
  · rwa [Option.toList_some, eraseDups_concat_of_mem ((hmem id).mpr hlt)]
  · have hnew : (⟨old.size⟩ : NameId) ∉ ids := fun h => Nat.lt_irrefl _ ((hmem _).mp h)
    rw [Option.toList_some, eraseDups_concat_of_not_mem hnew, hids, Array.size_push, NameId.upTo,
      NameId.upTo, List.range_succ, List.map_append]
    rfl

theorem Tables.interns_read (tables : Tables) (l : Lexeme) :
    Interns tables.names ((tables.read l).1.pick TokenKind.nameId?) (tables.read l).2.names := by
  cases l with
  | digits run =>
      simp only [read]
      split <;> exact .inl ⟨rfl, rfl⟩
  | word word =>
      simp only [read]
      split
      · exact .inl ⟨rfl, rfl⟩
      · rcases tables.intern_cases (String.ofList word) with ⟨-, hlt, heq⟩ | ⟨-, hid, heq⟩
        · exact .inr (.inl ⟨_, rfl, hlt, heq⟩)
        · exact .inr (.inr ⟨_, congrArg some hid, heq⟩)
  | _ => exact .inl ⟨rfl, rfl⟩

namespace Tokenization

/-- The indices of the identifiers among the tokens. -/
def nameIds (t : Tokenization) : List NameId :=
  t.tokens.toList.filterMap fun token => token.kind.nameId?

/-- The indices of identifiers come in the order of the table, each of them at least once. -/
def InOrder (t : Tokenization) : Prop :=
  t.nameIds.eraseDups = NameId.upTo t.tables.names.size

theorem InOrder.add {t : Tokenization} (h : t.InOrder) (loc : Location) (l : Lexeme) :
    (t.add loc l).InOrder := by
  have hids : (t.add loc l).nameIds = t.nameIds ++ _ := filterMap_kind_add rfl t loc l
  rw [InOrder, hids, tables_add]
  exact (t.tables.interns_read l).upTo_eq h

theorem InOrder.push_eof {t : Tokenization} (h : t.InOrder) (loc : Location) :
    (t.push .eof loc).InOrder := by
  have hids : (t.push .eof loc).nameIds = t.nameIds := filterMap_kind_push_eof rfl t loc
  rw [InOrder, hids]
  exact h

end Tokenization

theorem tokenize_inOrder (source : String) : (tokenize source).InOrder := by
  have hunread : (Tokenization.unread source).InOrder := rfl
  exact Tokenization.readFrom_of (fun _ h => h.add) (fun _ h => h.push_eof) hunread .start _

end LoxReader
