/-
  `Proofs.Tokenization.Numbering`: how the literals of a source are numbered.

  Each string and each number that is read is entered behind the entries of its table.  So
  the literals of one sort among the tokens are numbered from 0 without a gap, and there
  are as many of them as there are entries.
-/
import LoxReader.Proofs.Ast.Leaves
import LoxReader.Proofs.Tokenization.Meaning

set_option autoImplicit false

namespace LoxReader

/-! ## One literal -/

/-- A literal with this index, if it is one of the sort of the table, is entered at the end
of the table; nothing else is entered. -/
def Enters {β : Type} (old : Array β) (id? : Option LiteralId) (new : Array β) : Prop :=
  (id? = none ∧ new = old) ∨ ∃ entry, id? = some ⟨old.size⟩ ∧ new = old.push entry

theorem Enters.upTo_eq {β : Type} {old new : Array β} {id? : Option LiteralId}
    (h : Enters old id? new) :
    LiteralId.upTo new.size = LiteralId.upTo old.size ++ id?.toList := by
  rcases h with ⟨rfl, rfl⟩ | ⟨entry, rfl, rfl⟩
  · exact (List.append_nil _).symm
  · rw [Array.size_push, LiteralId.upTo, List.range_succ, List.map_append]
    rfl

/-- The literal that a reading adds, if it adds one. -/
def Reading.literal? : Reading → Option Literal
  | .token kind => Literal.ofToken? kind
  | _ => none

/-- What a reading adds to what is picked from the kinds of tokens, if it adds something. -/
def Reading.pick {α : Type} (f : TokenKind → Option α) : Reading → Option α
  | .token kind => f kind
  | _ => none

theorem Reading.literal?_eq (reading : Reading) :
    reading.literal? = reading.pick Literal.ofToken? := by
  cases reading <;> rfl

theorem Tables.enters_intern (tables : Tables) (word : String) :
    (tables.intern word).2.numbers = tables.numbers ∧
      (tables.intern word).2.strings = tables.strings := by
  obtain ⟨names, strings, numbers⟩ := tables
  simp only [intern]
  split <;> exact ⟨rfl, rfl⟩

/-- A literal that is read is entered in its table, and in no other. -/
theorem Tables.enters_read (tables : Tables) (l : Lexeme) :
    Enters tables.numbers ((tables.read l).1.literal?.bind Literal.numberId?)
        (tables.read l).2.numbers ∧
      Enters tables.strings ((tables.read l).1.literal?.bind Literal.stringId?)
        (tables.read l).2.strings := by
  cases l with
  | digits digits =>
      simp only [read]
      split
      · exact ⟨.inr ⟨_, rfl, rfl⟩, .inl ⟨rfl, rfl⟩⟩
      · exact ⟨.inl ⟨rfl, rfl⟩, .inl ⟨rfl, rfl⟩⟩
  | word word =>
      simp only [read]
      split
      · rename_i k _
        cases k <;> exact ⟨.inl ⟨rfl, rfl⟩, .inl ⟨rfl, rfl⟩⟩
      · obtain ⟨hnumbers, hstrings⟩ := tables.enters_intern (String.ofList word)
        exact ⟨.inl ⟨rfl, hnumbers⟩, .inl ⟨rfl, hstrings⟩⟩
  | quoted body => exact ⟨.inl ⟨rfl, rfl⟩, .inr ⟨_, rfl, rfl⟩⟩
  | _ => exact ⟨.inl ⟨rfl, rfl⟩, .inl ⟨rfl, rfl⟩⟩

/-! ## All literals -/

/-- The literals of each sort among the tokens are numbered as the entries of their table
are. -/
structure Tokenization.Numbered (t : Tokenization) : Prop where
  numbers : (literalsOf t.tokens.toList).filterMap Literal.numberId? =
    LiteralId.upTo t.tables.numbers.size
  strings : (literalsOf t.tokens.toList).filterMap Literal.stringId? =
    LiteralId.upTo t.tables.strings.size

theorem literalsOf_concat (ts : List Token) (token : Token) :
    literalsOf (ts ++ [token]) = literalsOf ts ++ (Literal.ofToken? token.kind).toList := by
  rw [literalsOf, List.filterMap_append]
  rfl

namespace Tokenization

theorem filterMap_append_toList {α β : Type} (f : α → Option β) (xs : List α) (x? : Option α) :
    (xs ++ x?.toList).filterMap f = xs.filterMap f ++ (x?.bind f).toList := by
  rw [List.filterMap_append]
  congr 1
  cases x? with
  | none => rfl
  | some x => cases h : f x <;> simp [h]

section

variable {α : Type} {f : TokenKind → Option α}

/-- What is picked from the tokens grows by what is picked from the one that is read. -/
theorem filterMap_kind_add (herror : f .error = none) (t : Tokenization) (loc : Location)
    (l : Lexeme) :
    (t.add loc l).tokens.toList.filterMap (fun token => f token.kind) =
      t.tokens.toList.filterMap (fun token => f token.kind) ++
        ((t.tables.read l).1.pick f).toList := by
  rcases hread : t.tables.read l with ⟨reading, after⟩
  cases reading with
  | trivia =>
      rw [add_of_trivia hread]
      exact (List.append_nil _).symm
  | token kind =>
      rw [add_of_token hread, Array.toList_push]
      exact filterMap_append_toList _ _ (some _)
  | error e =>
      rw [add_of_error hread, Array.toList_push, List.filterMap_append]
      simp [herror, Reading.pick]

theorem filterMap_kind_push_eof (heof : f .eof = none) (t : Tokenization) (loc : Location) :
    (t.push .eof loc).tokens.toList.filterMap (fun token => f token.kind) =
      t.tokens.toList.filterMap (fun token => f token.kind) := by
  rw [push, Array.toList_push, List.filterMap_append]
  simp [heof]

end

theorem literalsOf_add (t : Tokenization) (loc : Location) (l : Lexeme) :
    literalsOf (t.add loc l).tokens.toList =
      literalsOf t.tokens.toList ++ (t.tables.read l).1.literal?.toList := by
  rw [Reading.literal?_eq]
  exact filterMap_kind_add rfl t loc l

theorem tables_add (t : Tokenization) (loc : Location) (l : Lexeme) :
    (t.add loc l).tables = (t.tables.read l).2 := by
  rcases hread : t.tables.read l with ⟨reading, after⟩
  cases reading with
  | trivia => rw [add_of_trivia hread]
  | token kind => rw [add_of_token hread]
  | error e => rw [add_of_error hread]

theorem Numbered.add {t : Tokenization} (h : t.Numbered) (loc : Location) (l : Lexeme) :
    (t.add loc l).Numbered := by
  obtain ⟨hnumbers, hstrings⟩ := t.tables.enters_read l
  refine ⟨?_, ?_⟩
  · rw [literalsOf_add, tables_add, filterMap_append_toList, h.numbers, hnumbers.upTo_eq]
  · rw [literalsOf_add, tables_add, filterMap_append_toList, h.strings, hstrings.upTo_eq]

theorem Numbered.push_eof {t : Tokenization} (h : t.Numbered) (loc : Location) :
    (t.push .eof loc).Numbered := by
  have hliterals : literalsOf (t.push .eof loc).tokens.toList = literalsOf t.tokens.toList :=
    filterMap_kind_push_eof rfl t loc
  exact ⟨hliterals ▸ h.numbers, hliterals ▸ h.strings⟩

end Tokenization

/-- The literals of a source are numbered in source order. -/
theorem tokenize_numbered (source : String) : (tokenize source).Numbered :=
  Tokenization.readFrom_of (fun _ h => h.add) (fun _ h => h.push_eof) ⟨rfl, rfl⟩ .start _

end LoxReader
