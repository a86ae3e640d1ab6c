/-
  `Expr.Parser`: reading an expression from tokens.

  The grammar, with operators from the loosest to the tightest:

    expression -> equality
    equality   -> comparison ( ( "!=" | "==" ) comparison )*
    comparison -> term ( ( ">" | ">=" | "<" | "<=" ) term )*
    term       -> factor ( ( "-" | "+" ) factor )*
    factor     -> unary ( ( "/" | "*" ) unary )*
    unary      -> ( "!" | "-" ) unary | primary
    primary    -> NUMBER | STRING | "true" | "false" | "nil" | "(" expression ")"

  The four rules of chains differ only in the precedence up to which they take
  operators, so one function reads them all: an operator of the chain takes as its
  right operand a chain of tighter operators, and with that becomes the left operand
  of the next.  Every rule takes at least one token, which its result carries along,
  so that reading ends.  Reading stops at the first token that cannot stand where it
  does.
-/
import LoxReader.Expr.Basic
import LoxReader.ParseError

set_option autoImplicit false

namespace LoxReader

/-- An expression and the cursor behind it, with less than `bound` tokens left; or
the first error. -/
abbrev Parsed (bound : Nat) : Type :=
  Except ParseError { result : Expr × Cursor // result.2.remaining < bound }

/-- The precedence of the loosest operators. -/
def loosest : Nat := 4

namespace Cursor

/-- The operator at the cursor between two operands, if it binds at least as
tightly as `level`. -/
def binaryOp? (c : Cursor) (level : Nat) : Option BinaryOp :=
  match c.kind with
  | .symbol s => (BinaryOp.ofSymbol? s).filter (·.precedence ≤ level)
  | _ => none

/-- The operator at the cursor before an operand. -/
def unaryOp? (c : Cursor) : Option UnaryOp :=
  match c.kind with
  | .symbol s => UnaryOp.ofSymbol? s
  | _ => none

theorem kind_ne_eof_of_binaryOp? {c : Cursor} {level : Nat} {op : BinaryOp}
    (h : c.binaryOp? level = some op) : c.kind ≠ .eof := by
  intro hkind
  simp [binaryOp?, hkind] at h

theorem kind_ne_eof_of_unaryOp? {c : Cursor} {op : UnaryOp} (h : c.unaryOp? = some op) :
    c.kind ≠ .eof := by
  intro hkind
  simp [unaryOp?, hkind] at h

theorem kind_ne_eof_of_literal {c : Cursor} {value : Literal}
    (h : Literal.ofToken? c.kind = some value) : c.kind ≠ .eof := by
  intro hkind
  simp [hkind, Literal.ofToken?] at h

theorem kind_ne_eof_of_symbol {c : Cursor} {s : Symbol} (h : c.kind = .symbol s) :
    c.kind ≠ .eof := by
  simp [h]

theorem remaining_next_lt (c : Cursor) (h : c.kind ≠ .eof) :
    (c.next h).remaining < c.remaining := by
  have := c.remaining_next h
  omega

end Cursor

namespace Parser

mutual

/-- An operand and the operators after it that bind at least as tightly as
`level`, with their right operands. -/
def chain (level : Nat) (c : Cursor) : Parsed c.remaining :=
  match unary c with
  | .error e => .error e
  | .ok ⟨(left, c'), h⟩ => chainTail level left c' h
termination_by (c.remaining, 3)

/-- The rest of a chain of which `left` has been read. -/
def chainTail (level : Nat) (left : Expr) {bound : Nat} (c : Cursor)
    (h : c.remaining < bound) : Parsed bound :=
  match hop : c.binaryOp? level with
  | none => .ok ⟨(left, c), h⟩
  | some op =>
    have hnext := c.remaining_next_lt (Cursor.kind_ne_eof_of_binaryOp? hop)
    match chain (op.precedence - 1) (c.next (Cursor.kind_ne_eof_of_binaryOp? hop)) with
    | .error e => .error e
    | .ok ⟨(right, c'), hright⟩ =>
      have hless : c'.remaining < c.remaining := Nat.lt_trans hright hnext
      chainTail level (.binary c.loc op left right) c' (Nat.lt_trans hless h)
termination_by (c.remaining, 0)

/-- An operand, with the operators before it. -/
def unary (c : Cursor) : Parsed c.remaining :=
  match hop : c.unaryOp? with
  | none => primary c
  | some op =>
    have hnext := c.remaining_next_lt (Cursor.kind_ne_eof_of_unaryOp? hop)
    match unary (c.next (Cursor.kind_ne_eof_of_unaryOp? hop)) with
    | .error e => .error e
    | .ok ⟨(operand, c'), h⟩ => .ok ⟨(.unary c.loc op operand, c'), Nat.lt_trans h hnext⟩
termination_by (c.remaining, 2)

/-- A literal, or an expression between parentheses. -/
def primary (c : Cursor) : Parsed c.remaining :=
  match hvalue : Literal.ofToken? c.kind with
  | some value =>
    .ok ⟨(.literal c.loc value, c.next (Cursor.kind_ne_eof_of_literal hvalue)),
      c.remaining_next_lt _⟩
  | none =>
    if hopen : c.kind = .symbol .leftParen then
      group c hopen
    else
      .error (c.error .expectedExpression)
termination_by (c.remaining, 1)

/-- An expression between the parenthesis at the cursor and the one that closes
it. -/
def group (c : Cursor) (hopen : c.kind = .symbol .leftParen) : Parsed c.remaining :=
  have hnext := c.remaining_next_lt (Cursor.kind_ne_eof_of_symbol hopen)
  match chain loosest (c.next (Cursor.kind_ne_eof_of_symbol hopen)) with
  | .error e => .error e
  | .ok ⟨(inner, c'), h⟩ =>
    if hclose : c'.kind = .symbol .rightParen then
      .ok ⟨(.group c.loc inner, c'.next (Cursor.kind_ne_eof_of_symbol hclose)),
        Nat.lt_trans (c'.remaining_next_lt _) (Nat.lt_trans h hnext)⟩
    else
      .error (c'.error (.unclosedParen c.loc))
termination_by (c.remaining, 0)

end

/-- An expression that takes all tokens up to the end. -/
def expression (c : Cursor) : Except ParseError Expr :=
  match chain loosest c with
  | .error e => .error e
  | .ok ⟨(e, c'), _⟩ =>
    if c'.atEnd then .ok e else .error (c'.error .expectedEndOfInput)

end Parser

end LoxReader
