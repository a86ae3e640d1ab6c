/-
  `Proofs.Ast.Printer`: the lexemes of a printed expression.

  An expression is printed as lexemes of which none goes on into the next: operators
  between operands stand between spaces, and where nothing stands between two lexemes one
  of them is a parenthesis or the first an operator before an operand.
-/
import LoxReader.Ast.Printer
import LoxReader.Proofs.Ast.Reading
import LoxReader.Proofs.Expr.Kinds
import LoxReader.Proofs.Lexeme.Separated
import LoxReader.Proofs.Tokenization.Decimal
import LoxReader.Proofs.Tokenization.Gist

set_option autoImplicit false

namespace LoxReader

/-! ## Printed lexemes -/

/-- The lexeme that a literal is printed as: one that denotes it, and for a number the
one without needless zeros. -/
structure Literal.Prints (tables : Tables) (value : Literal) (l : Lexeme) : Prop where
  inGrammar : l.InGrammar
  denotes : Denotes tables l value.kind
  shortest : ∀ digits, l = .digits digits → digits = (digitsValue digits).repr.toList

/-- The lexemes that an expression is printed as. -/
inductive Expr.Prints (tables : Tables) : Expr → List Lexeme → Prop
  | literal {loc : Location} {value : Literal} {l : Lexeme} :
      value.Prints tables l → Prints tables (.literal loc value) [l]
  | group {loc : Location} {inner : Expr} {ls : List Lexeme} :
      Prints tables inner ls →
        Prints tables (.group loc inner) (.symbol .leftParen :: (ls ++ [.symbol .rightParen]))
  | unary {loc : Location} {op : UnaryOp} {operand : Expr} {ls : List Lexeme} :
      Prints tables operand ls → Prints tables (.unary loc op operand) (.symbol op.symbol :: ls)
  | binary {loc : Location} {op : BinaryOp} {left right : Expr} {ls ls' : List Lexeme} :
      Prints tables left ls → Prints tables right ls' →
        Prints tables (.binary loc op left right)
          (ls ++ .blanks [' '] :: .symbol op.symbol :: .blanks [' '] :: ls')

/-! ## The text -/

theorem Literal.Prints.text_eq {tables : Tables} {value : Literal} {l : Lexeme}
    (h : value.Prints tables l) : value.text tables = .ok (String.ofList l.text) := by
  obtain ⟨-, hdenotes, hshortest⟩ := h
  cases value with
  | number id =>
      cases hdenotes with
      | @number digits _ stored hid hvalue =>
          rw [Literal.text, hid, Lexeme.text, hshortest digits rfl, ← hvalue, String.ofList_toList]
          rfl
  | string id =>
      cases hdenotes with
      | string hid =>
          rw [Literal.text, hid]
          refine congrArg Except.ok (String.toList_inj.mp ?_)
          simp [Lexeme.text]
  | bool value =>
      cases value <;> cases hdenotes with
      | keyword _ hword => rw [← hword]; rfl
  | nil =>
      cases hdenotes with
      | keyword _ hword => rw [← hword]; rfl

/-- The printed lexemes that are no trivia denote the tokens of the expression. -/
theorem Expr.Prints.denotes {tables : Tables} {e : Expr} {ls : List Lexeme}
    (h : e.Prints tables ls) : List.Forall₂ (Denotes tables) (Lexeme.proper ls) e.kinds := by
  induction h with
  | literal hvalue =>
      rw [Lexeme.proper, List.filter_cons_of_pos (by simp [hvalue.denotes.isTrivia_eq])]
      exact .cons hvalue.denotes .nil
  | group _ ih =>
      rw [Expr.kinds, Lexeme.proper, List.filter_cons_of_pos rfl, List.filter_append]
      exact .cons .symbol (List.rel_append ih (.cons .symbol .nil))
  | unary _ ih =>
      rw [Expr.kinds, Lexeme.proper, List.filter_cons_of_pos rfl]
      exact .cons .symbol ih
  | binary _ _ ihl ihr =>
      rw [Expr.kinds, Lexeme.proper, List.filter_append]
      exact List.rel_append ihl (.cons .symbol ihr)

/-! ## What stands next to what -/

/-- What a printed expression starts with: nothing that goes on with an operator or with
a space. -/
def Lexeme.StartsOperand (ls : List Lexeme) : Prop :=
  ∃ c rest, ls.flatMap Lexeme.text = c :: rest ∧ Lexeme.isBlank c = false ∧ c ≠ '=' ∧ c ≠ '/'

/-- What stands behind a printed expression: nothing that goes on with an operand. -/
def Lexeme.EndsOperand (ls : List Lexeme) : Prop :=
  ∀ c ∈ (ls.flatMap Lexeme.text).head?, c = ' ' ∨ c = ')'

theorem Lexeme.StartsOperand.append {ls : List Lexeme} (h : StartsOperand ls)
    (more : List Lexeme) : StartsOperand (ls ++ more) := by
  obtain ⟨c, rest, htext, hc⟩ := h
  refine ⟨c, rest ++ more.flatMap text, ?_, hc⟩
  rw [List.flatMap_append, htext, List.cons_append]

/-- A literal is digits, a word or a string. -/
theorem Denotes.literal_cases {tables : Tables} {l : Lexeme} {value : Literal}
    (h : Denotes tables l value.kind) :
    (∃ digits, l = .digits digits) ∨ (∃ word, l = .word word) ∨ ∃ body, l = .quoted body := by
  cases value with
  | number id => cases h with | number _ _ => exact .inl ⟨_, rfl⟩
  | string id => cases h with | string _ => exact .inr (.inr ⟨_, rfl⟩)
  | bool value => cases value <;> cases h with | keyword _ _ => exact .inr (.inl ⟨_, rfl⟩)
  | nil => cases h with | keyword _ _ => exact .inr (.inl ⟨_, rfl⟩)

theorem Literal.Prints.startsOperand {tables : Tables} {value : Literal} {l : Lexeme}
    (h : value.Prints tables l) : Lexeme.StartsOperand [l] := by
  have hl := h.inGrammar
  rcases h.denotes.literal_cases with ⟨digits, rfl⟩ | ⟨word, rfl⟩ | ⟨body, rfl⟩
  · obtain ⟨c, rest, rfl⟩ := List.exists_cons_of_ne_nil hl.1
    have hdigit := hl.2 c List.mem_cons_self
    refine ⟨c, _, rfl, Lexeme.isBlank_of_isDigit hdigit, ?_, ?_⟩
    · rintro rfl
      revert hdigit
      decide
    · rintro rfl
      revert hdigit
      decide
  · obtain ⟨c, rest, rfl, hstart, -⟩ := hl
    refine ⟨c, _, rfl, Lexeme.isBlank_of_isWordStart hstart, ?_, ?_⟩
    · rintro rfl
      revert hstart
      decide
    · rintro rfl
      revert hstart
      decide
  · exact ⟨'"', _, rfl, rfl, by decide, by decide⟩

theorem Literal.Prints.stopsAt {tables : Tables} {value : Literal} {l : Lexeme}
    (h : value.Prints tables l) {more : List Lexeme} (hmore : Lexeme.EndsOperand more) :
    l.StopsAt (more.flatMap Lexeme.text) := by
  rcases h.denotes.literal_cases with ⟨digits, rfl⟩ | ⟨word, rfl⟩ | ⟨body, rfl⟩
  · intro c hc
    rcases hmore c hc with rfl | rfl <;> rfl
  · intro c hc
    rcases hmore c hc with rfl | rfl <;> rfl
  · trivial

theorem Expr.Prints.startsOperand {tables : Tables} {e : Expr} {ls : List Lexeme}
    (h : e.Prints tables ls) : Lexeme.StartsOperand ls := by
  induction h with
  | literal hvalue => exact hvalue.startsOperand
  | group _ _ => exact ⟨'(', _, rfl, rfl, by decide, by decide⟩
  | @unary _ op _ _ _ _ =>
      cases op with
      | not => exact ⟨'!', _, rfl, rfl, by decide, by decide⟩
      | negate => exact ⟨'-', _, rfl, rfl, by decide, by decide⟩
  | binary _ _ ih _ => exact ih.append _

theorem Lexeme.inGrammar_space : (Lexeme.blanks [' ']).InGrammar :=
  ⟨List.cons_ne_nil _ _, List.forall_mem_singleton.mpr rfl⟩

/-- An operator between spaces is separated from the operand behind it. -/
theorem BinaryOp.separated_spaced (op : BinaryOp) {ls : List Lexeme}
    (h : Lexeme.Separated ls) (hstarts : Lexeme.StartsOperand ls) :
    Lexeme.Separated (.blanks [' '] :: .symbol op.symbol :: .blanks [' '] :: ls) := by
  have hlast : Lexeme.Separated (.blanks [' '] :: ls) := by
    refine ⟨Lexeme.inGrammar_space, ?_, h⟩
    obtain ⟨c, rest, htext, hblank, -⟩ := hstarts
    intro d hd
    obtain rfl : c = d := Option.some.inj ((congrArg List.head? htext).symm.trans hd)
    exact hblank
  have hop : Lexeme.Separated (.symbol op.symbol :: .blanks [' '] :: ls) := by
    refine ⟨trivial, ?_, hlast⟩
    intro d hd
    obtain rfl : ' ' = d := Option.some.inj hd
    exact ⟨fun h => absurd h (by decide), fun h => absurd h (by decide)⟩
  refine ⟨Lexeme.inGrammar_space, ?_, hop⟩
  intro d hd
  cases op <;> obtain rfl := Option.some.inj hd <;> rfl

/-- Printed lexemes are separated from each other and from what can stand behind them. -/
theorem Expr.Prints.separated {tables : Tables} {e : Expr} {ls : List Lexeme}
    (h : e.Prints tables ls) {more : List Lexeme} (hmore : Lexeme.Separated more)
    (hends : Lexeme.EndsOperand more) : Lexeme.Separated (ls ++ more) := by
  induction h generalizing more with
  | literal hvalue => exact ⟨hvalue.inGrammar, hvalue.stopsAt hends, hmore⟩
  | @group _ _ ls _ ih =>
      have hclose : Lexeme.Separated (.symbol .rightParen :: more) :=
        ⟨trivial, fun c _ => ⟨fun _ => rfl, fun _ h => by cases h⟩, hmore⟩
      have hinner := ih hclose fun c hc => .inr (Option.some.inj hc).symm
      rw [List.cons_append, List.append_assoc]
      exact ⟨trivial, fun c _ => ⟨fun _ => rfl, fun _ h => by cases h⟩, hinner⟩
  | @unary _ op _ ls hoperand ih =>
      refine ⟨trivial, ?_, ih hmore hends⟩
      obtain ⟨c, rest, htext, -, hequal, hslash⟩ := hoperand.startsOperand.append more
      intro d hd
      obtain rfl : c = d := Option.some.inj ((congrArg List.head? htext).symm.trans hd)
      exact ⟨fun h => absurd h hequal, fun h => absurd h hslash⟩
  | @binary _ op _ _ ls ls' _ hright ihl ihr =>
      rw [List.append_assoc]
      refine ihl ?_ fun c hc => .inl (Option.some.inj hc).symm
      exact op.separated_spaced (ihr hmore hends) (hright.startsOperand.append more)

/-- A printed expression is cut into its printed lexemes. -/
theorem Expr.Prints.lexemes_eq {tables : Tables} {e : Expr} {ls : List Lexeme}
    (h : e.Prints tables ls) : lexemes (ls.flatMap Lexeme.text) = ls := by
  have hnil : Lexeme.Separated [] := trivial
  have hseparated := h.separated hnil (fun c hc => by cases hc)
  rw [List.append_nil] at hseparated
  exact lexemes_of_separated hseparated

/-! ## Every expression that was read can be printed -/

end LoxReader
