/-
  `Proofs.Tokenization.Gist`: what is read of lexemes apart from their places.

  The kinds of the tokens, the tables and the kinds of the errors depend on the lexemes
  that are no trivia only, and on these only through what they denote.
-/
import LoxReader.Proofs.Tokenization.Meaning
import Mathlib.Data.List.Forall2

set_option autoImplicit false

namespace LoxReader

/-! ## Lists in parts -/

/-- What is related to two lists is related to them in two parts. -/
theorem exists_of_forall₂_append {α β : Type} {R : α → β → Prop} {as : List α}
    {first second : List β} (h : List.Forall₂ R as (first ++ second)) :
    ∃ as₁ as₂, as = as₁ ++ as₂ ∧ List.Forall₂ R as₁ first ∧ List.Forall₂ R as₂ second :=
  ⟨as.take first.length, as.drop first.length, (List.take_append_drop _ _).symm,
    List.forall₂_take_append _ _ _ h, List.forall₂_drop_append _ _ _ h⟩

/-- What two lists are related to in turn is related to them in two parts. -/
theorem exists_of_append_forall₂ {α β : Type} {R : α → β → Prop} {first second : List α}
    {bs : List β} (h : List.Forall₂ R (first ++ second) bs) :
    ∃ bs₁ bs₂, bs = bs₁ ++ bs₂ ∧ List.Forall₂ R first bs₁ ∧ List.Forall₂ R second bs₂ := by
  obtain ⟨bs₁, bs₂, rfl, hfirst, hsecond⟩ := exists_of_forall₂_append h.flip
  exact ⟨bs₁, bs₂, rfl, hfirst.flip, hsecond.flip⟩

/-! ## The gist -/

/-- The kinds of tokens, the tables that they refer to and the kinds of errors. -/
structure Gist where
  kinds : List TokenKind
  tables : Tables
  errors : List LexErrorKind
deriving DecidableEq

/-- A tokenization without places. -/
def Tokenization.gist (t : Tokenization) : Gist :=
  ⟨t.tokens.toList.map Token.kind, t.tables, t.errors.toList.map LexError.kind⟩

/-- Add what a lexeme means. -/
def Gist.add (g : Gist) (l : Lexeme) : Gist :=
  match g.tables.read l with
  | (.trivia, tables) => ⟨g.kinds, tables, g.errors⟩
  | (.token kind, tables) => ⟨g.kinds ++ [kind], tables, g.errors⟩
  | (.error e, tables) => ⟨g.kinds ++ [.error], tables, g.errors ++ [e]⟩

/-- Mark the end. -/
def Gist.finish (g : Gist) : Gist :=
  ⟨g.kinds ++ [.eof], g.tables, g.errors⟩

namespace Tokenization

theorem gist_add (t : Tokenization) (loc : Location) (l : Lexeme) :
    (t.add loc l).gist = t.gist.add l := by
  have hgist : t.gist.tables = t.tables := rfl
  rcases hread : t.tables.read l with ⟨reading, after⟩
  cases reading with
  | trivia =>
      rw [add_of_trivia hread, Gist.add, hgist, hread]
      rfl
  | token kind =>
      rw [add_of_token hread, Gist.add, hgist, hread]
      simp [gist]
  | error e =>
      rw [add_of_error hread, Gist.add, hgist, hread]
      simp [gist]

/-- Reading lexemes adds what they mean, whatever their places. -/
theorem gist_readFrom (t : Tokenization) (loc : Location) (ls : List Lexeme) :
    (t.readFrom loc ls).gist = (ls.foldl Gist.add t.gist).finish := by
  induction ls generalizing t loc with
  | nil => simp [readFrom, push, gist, Gist.finish]
  | cons l ls ih => rw [readFrom, ih, gist_add, List.foldl_cons]

end Tokenization

/-! ## Which lexemes matter -/

/-- The lexemes that are no trivia. -/
def Lexeme.proper (ls : List Lexeme) : List Lexeme :=
  ls.filter fun l => !l.isTrivia

theorem Gist.add_of_isTrivia (g : Gist) {l : Lexeme} (h : l.isTrivia = true) : g.add l = g := by
  cases l <;> first | rfl | cases h

/-- Trivia adds nothing. -/
theorem Gist.foldl_add_proper (g : Gist) (ls : List Lexeme) :
    (Lexeme.proper ls).foldl Gist.add g = ls.foldl Gist.add g := by
  induction ls generalizing g with
  | nil => rfl
  | cons l ls ih =>
      cases htrivia : l.isTrivia with
      | true => rw [Lexeme.proper, List.filter_cons_of_neg (by simp [htrivia]), List.foldl_cons,
          g.add_of_isTrivia htrivia, ← ih, Lexeme.proper]
      | false => rw [Lexeme.proper, List.filter_cons_of_pos (by simp [htrivia]), List.foldl_cons,
          List.foldl_cons, ← ih, Lexeme.proper]

/-- Lexemes that denote the same token, other than an error, are read alike. -/
theorem Denotes.read_eq {tables : Tables} {l l' : Lexeme} {kind : TokenKind}
    (h : Denotes tables l kind) (h' : Denotes tables l' kind) (hne : kind ≠ .error)
    (other : Tables) : other.read l = other.read l' := by
  cases h with
  | symbol =>
      cases h'
      rfl
  | keyword _ hword =>
      cases h' with
      | keyword _ hword' => rw [← hword, ← hword']
  | identifier _ hid =>
      cases h' with
      | identifier _ hid' =>
          have hword := String.ofList_injective (Except.ok.inj (hid.symm.trans hid'))
          rw [hword]
  | number hid hvalue =>
      cases h' with
      | number hid' hvalue' =>
          obtain rfl := Except.ok.inj (hid.symm.trans hid')
          simp only [Tables.read, ← hvalue, ← hvalue']
  | string hid =>
      cases h' with
      | string hid' =>
          have hbody := String.ofList_injective (Except.ok.inj (hid.symm.trans hid'))
          rw [hbody]
  | overflow _ => exact absurd rfl hne
  | unclosed => exact absurd rfl hne
  | stray => exact absurd rfl hne

theorem Denotes.isTrivia_eq {tables : Tables} {l : Lexeme} {kind : TokenKind}
    (h : Denotes tables l kind) : l.isTrivia = false := by
  cases h <;> rfl

/-- Lexemes that denote the same tokens, none of them an error, add the same. -/
theorem Gist.foldl_add_eq {tables : Tables} {kinds : List TokenKind}
    (hkinds : TokenKind.error ∉ kinds) {ls ls' : List Lexeme}
    (h : List.Forall₂ (Denotes tables) ls kinds) (h' : List.Forall₂ (Denotes tables) ls' kinds)
    (g : Gist) : ls.foldl Gist.add g = ls'.foldl Gist.add g := by
  induction h generalizing ls' g with
  | nil =>
      cases h'
      rfl
  | @cons l kind ls kinds hl _ ih =>
      cases h' with
      | @cons l' _ ls' _ hl' hls' =>
          rw [List.mem_cons, not_or] at hkinds
          have hread := hl.read_eq hl' (Ne.symm hkinds.1)
          rw [List.foldl_cons, List.foldl_cons, ih hkinds.2 hls', Gist.add, Gist.add, hread]

/-- The tokens of lexemes are denoted by those that are no trivia, and then there is the
end. -/
theorem Reads.forall₂_denotes {tables : Tables} {loc : Location} {ls : List Lexeme}
    {ts : List Token} (h : Reads tables loc ls ts) :
    ∃ init eof, ts = init ++ [eof] ∧ eof.kind = .eof ∧
      List.Forall₂ (Denotes tables) (Lexeme.proper ls) (init.map Token.kind) := by
  induction h with
  | @eof loc => exact ⟨[], ⟨.eof, loc⟩, rfl, rfl, .nil⟩
  | trivia htrivia _ ih =>
      obtain ⟨init, eof, hts, heof, hinit⟩ := ih
      refine ⟨init, eof, hts, heof, ?_⟩
      rwa [Lexeme.proper, List.filter_cons_of_neg (by simp [htrivia])]
  | @token loc l kind ls ts hdenotes _ ih =>
      obtain ⟨init, eof, rfl, heof, hinit⟩ := ih
      refine ⟨⟨kind, loc⟩ :: init, eof, rfl, heof, ?_⟩
      rw [Lexeme.proper, List.filter_cons_of_pos (by simp [hdenotes.isTrivia_eq])]
      exact .cons hdenotes hinit

end LoxReader
