/-
  `Proofs.Ast.Term`: what an expression means, apart from where it stands.

  A term is an expression with values in the place of literals, and without places, indices
  and slots.  So two arenas, each with the tables of its literals, have the same shape, the
  same operators and the same values if their terms are equal.
-/
import LoxReader.Proofs.Ast.Complete
import LoxReader.Proofs.Ast.Printer
import LoxReader.Proofs.Expr.Precedence
import LoxReader.Proofs.Tokenization.Inventory

set_option autoImplicit false

namespace LoxReader

/-! ## Values and terms -/

/-- The value of a literal. -/
inductive Value where
  | number (value : UInt64)
  | string (body : String)
  | bool (value : Bool)
  | nil
deriving DecidableEq

/-- An expression of values. -/
inductive Term where
  | literal (value : Value)
  | group (inner : Term)
  | unary (op : UnaryOp) (operand : Term)
  | binary (op : BinaryOp) (left right : Term)
deriving DecidableEq

/-- The value of a literal, which is found in the tables. -/
def Literal.value (tables : Tables) : Literal → Except OutOfRange Value
  | .number id => (tables.number id).map .number
  | .string id => (tables.string id).map .string
  | .bool value => .ok (.bool value)
  | .nil => .ok .nil

/-- The term of a node from those of its parts. -/
def Shape.term (tables : Tables) : Shape Term → Except OutOfRange Term
  | .root expr => .ok expr
  | .binary op left right => .ok (.binary op left right)
  | .paren inner => .ok (.group inner)
  | .unary op operand => .ok (.unary op operand)
  | .literal lit => (lit.value tables).map .literal

/-- The whole expression as a term. -/
def Ast.term (a : Ast) (tables : Tables) : Except AstFault Term :=
  a.foldAt (fun _ shape => ofTable (shape.term tables)) a.root

/-- The expression is this term, with the values of its literals in the tables. -/
inductive Expr.Means (tables : Tables) : Expr → Term → Prop
  | literal {loc : Location} {lit : Literal} {value : Value} :
      lit.value tables = .ok value → Means tables (.literal loc lit) (.literal value)
  | group {loc : Location} {inner : Expr} {m : Term} :
      Means tables inner m → Means tables (.group loc inner) (.group m)
  | unary {loc : Location} {op : UnaryOp} {operand : Expr} {m : Term} :
      Means tables operand m → Means tables (.unary loc op operand) (.unary op m)
  | binary {loc : Location} {op : BinaryOp} {left right : Expr} {m m' : Term} :
      Means tables left m → Means tables right m' →
        Means tables (.binary loc op left right) (.binary op m m')

namespace Expr.Means

variable {tables tables' : Tables} {e e' : Expr} {m : Term}

theorem fold_eq (h : e.Means tables m) :
    e.fold (fun _ shape => Ast.ofTable (shape.term tables)) = .ok m := by
  induction h with
  | literal hvalue =>
      rw [fold, Shape.term, hvalue]
      rfl
  | group _ ih =>
      rw [fold, ih]
      rfl
  | unary _ ih =>
      rw [fold, ih]
      rfl
  | binary _ _ ihl ihr =>
      rw [fold, ihl, ihr]
      rfl

/-- An expression in an arena is the term of the arena. -/
theorem term_eq {a : Ast} (h : e.Means tables m) (htree : a.IsTree e) :
    a.term tables = .ok m :=
  (htree.foldAt_root fun _ _ => rfl).trans h.fold_eq

/-- The precedences of the operators in an expression are those in its term. -/
theorem level_eq (h : e.Means tables m) (h' : e'.Means tables' m) : e.level = e'.level := by
  cases h <;> cases h' <;> rfl

/-- Whether an expression is canonical depends on its term only. -/
theorem canonical (h : e.Means tables m) (h' : e'.Means tables' m) (hcanonical : e.Canonical) :
    e'.Canonical := by
  induction h generalizing e' with
  | literal _ =>
      cases h'
      trivial
  | group _ ih =>
      cases h' with
      | group h' =>
          have hinner := ih h' hcanonical
          exact hinner
  | unary h ih =>
      cases h' with
      | unary h' =>
          obtain ⟨hlevel, hoperand⟩ := hcanonical
          exact ⟨h.level_eq h' ▸ hlevel, ih h' hoperand⟩
  | binary hl hr ihl ihr =>
      cases h' with
      | binary hl' hr' =>
          obtain ⟨hleftLevel, hrightLevel, hleft, hright⟩ := hcanonical
          exact ⟨hl.level_eq hl' ▸ hleftLevel, hr.level_eq hr' ▸ hrightLevel, ihl hl' hleft,
            ihr hr' hright⟩

end Expr.Means

/-! ## Literals that are valid in tables -/

theorem Literal.exists_value {tables : Tables} {lit : Literal} (h : tables.Has lit.kind) :
    ∃ value, lit.value tables = .ok value := by
  cases lit with
  | number id =>
      rw [value, Tables.number, tableGet_of_lt h]
      exact ⟨_, rfl⟩
  | string id =>
      rw [value, Tables.string, tableGet_of_lt h]
      exact ⟨_, rfl⟩
  | bool value => exact ⟨_, rfl⟩
  | nil => exact ⟨_, rfl⟩

/-- An expression is a term if the tables have the payloads of its literals. -/
theorem Expr.exists_means {tables : Tables} (e : Expr)
    (h : ∀ lit ∈ e.literals, tables.Has lit.kind) : ∃ m, e.Means tables m := by
  induction e with
  | literal loc lit =>
      obtain ⟨value, hvalue⟩ := Literal.exists_value (h lit (List.mem_singleton_self lit))
      exact ⟨_, .literal hvalue⟩
  | group loc inner ih =>
      obtain ⟨m, hm⟩ := ih h
      exact ⟨_, .group hm⟩
  | unary loc op operand ih =>
      obtain ⟨m, hm⟩ := ih h
      exact ⟨_, .unary hm⟩
  | binary loc op left right ihl ihr =>
      obtain ⟨m, hm⟩ := ihl fun lit hlit => h lit (List.mem_append_left _ hlit)
      obtain ⟨m', hm'⟩ := ihr fun lit hlit => h lit (List.mem_append_right _ hlit)
      exact ⟨_, .binary hm hm'⟩

/-- The tables have the payload of a node of this form, if it is a literal. -/
def Form.ValidIn (tables : Tables) : Form → Prop
  | .literal lit => tables.Has lit.kind
  | _ => True

/-- Every literal of the arena has its payload in the tables. -/
def Ast.ValidIn (a : Ast) (tables : Tables) : Prop :=
  ∀ (id : NodeId) (n : Node Entry), a.arena.nodes[id]? = some n → n.value.form.ValidIn tables

instance (tables : Tables) (kind : TokenKind) : Decidable (tables.Has kind) :=
  match kind with
  | .identifier id => inferInstanceAs (Decidable (id.index < tables.names.size))
  | .string id => inferInstanceAs (Decidable (id.index < tables.strings.size))
  | .number id => inferInstanceAs (Decidable (id.index < tables.numbers.size))
  | .symbol _ | .keyword _ | .error | .eof => .isTrue trivial

instance (tables : Tables) (form : Form) : Decidable (form.ValidIn tables) :=
  match form with
  | .literal lit => inferInstanceAs (Decidable (tables.Has lit.kind))
  | .root | .binary _ | .paren | .unary _ => .isTrue trivial

instance (a : Ast) (tables : Tables) : Decidable (a.ValidIn tables) :=
  inferInstanceAs (Decidable (∀ (id : NodeId) (n : Node Entry), a.arena.nodes[id]? = some n →
    n.value.form.ValidIn tables))

/-- The literals of an expression in an arena stand at nodes of the arena. -/
theorem Arena.Holds.exists_of_mem_literals {t : Arena Entry} {id : NodeId} {e : Expr}
    (h : t.Holds id e) {lit : Literal} (hlit : lit ∈ e.literals) :
    ∃ (other : NodeId) (n : Node Entry), t.nodes[other]? = some n ∧
      n.value.form = .literal lit := by
  induction h with
  | literal hlists =>
      obtain ⟨n, hn, hvalue, -⟩ := hlists
      obtain rfl := List.mem_singleton.mp hlit
      exact ⟨_, n, hn, by rw [hvalue]⟩
  | group _ _ ih => exact ih hlit
  | unary _ _ ih => exact ih hlit
  | binary _ _ _ ihl ihr =>
      rcases List.mem_append.mp hlit with hleft | hright
      · exact ihl hleft
      · exact ihr hright

/-- A complete arena that was built by hand, with tables that have the payloads of its
literals, is that of an expression with a term. -/
theorem Ast.Complete.exists_means {a : Ast} {tables : Tables} (h : a.Complete)
    (hreach : a.arena.Reachable) (hvalid : a.ValidIn tables) :
    ∃ e m, a.IsTree e ∧ e.Means tables m := by
  obtain ⟨e, htree⟩ := h.exists_isTree hreach
  obtain ⟨m, hm⟩ := e.exists_means fun lit hlit => by
    obtain ⟨id, n, hn, hform⟩ := htree.holds.exists_of_mem_literals hlit
    have hhas := hvalid id n hn
    rwa [hform] at hhas
  exact ⟨e, m, htree, hm⟩

/-! ## Printed values -/

/-- The lexeme that a value is printed as. -/
def Value.lexeme : Value → Lexeme
  | .number value => .digits value.toNat.repr.toList
  | .string body => .quoted body.toList
  | .bool true => .word (Keyword.spelling .true).toList
  | .bool false => .word (Keyword.spelling .false).toList
  | .nil => .word (Keyword.spelling .nil).toList

theorem Value.isTrivia_lexeme (value : Value) : value.lexeme.isTrivia = false := by
  cases value with
  | bool value => cases value <;> rfl
  | _ => rfl

theorem Keyword.inGrammar_spelling (k : Keyword) :
    (Lexeme.word k.spelling.toList).InGrammar := by
  cases k <;> exact ⟨_, _, rfl, rfl, List.all_eq_true.mp rfl⟩

/-- A literal that is a reserved word is printed as this word. -/
theorem Literal.prints_keyword (tables : Tables) {lit : Literal} {k : Keyword}
    (h : lit.kind = .keyword k) : lit.Prints tables (.word k.spelling.toList) :=
  ⟨k.inGrammar_spelling, h ▸ .keyword k.mem_all rfl, fun _ hdigits => by cases hdigits⟩

/-- A literal is printed as its value. -/
theorem Literal.prints_lexeme {tables : Tables} (hquotes : tables.Quoteless) {lit : Literal}
    {value : Value} (h : lit.value tables = .ok value) : lit.Prints tables value.lexeme := by
  cases lit with
  | number id =>
      obtain ⟨stored, hid, rfl⟩ := exists_of_map_eq_ok h
      refine ⟨⟨repr_toList_ne_nil _, fun _ => isDigit_of_mem_repr⟩,
        .number hid (digitsValue_repr _).symm, ?_⟩
      rintro _ ⟨rfl⟩
      rw [digitsValue_repr]
  | string id =>
      obtain ⟨body, hid, rfl⟩ := exists_of_map_eq_ok h
      refine ⟨hquotes id body hid, .string ?_, fun _ heq => by cases heq⟩
      rw [hid, String.ofList_toList]
  | bool value =>
      cases h
      cases value
      · exact prints_keyword tables rfl
      · exact prints_keyword tables rfl
  | nil =>
      cases h
      exact prints_keyword tables rfl

end LoxReader
