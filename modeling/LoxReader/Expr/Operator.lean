/-
  `Expr.Operator`: the operators of expressions, and how tightly they bind.
-/
import LoxReader.Token.Symbol

set_option autoImplicit false

namespace LoxReader

/-- Operators between two operands. -/
inductive BinaryOp where
  | equal
  | notEqual
  | greater
  | greaterEqual
  | less
  | lessEqual
  | subtract
  | add
  | divide
  | multiply
deriving DecidableEq

/-- Operators before one operand. -/
inductive UnaryOp where
  | not
  | negate
deriving DecidableEq

namespace BinaryOp

/-- Every operator, in catalogue order. -/
def all : List BinaryOp :=
  [.equal, .notEqual, .greater, .greaterEqual, .less, .lessEqual, .subtract, .add, .divide,
    .multiply]

/-- The symbol that stands for the operator. -/
def symbol : BinaryOp → Symbol
  | .equal => .equalEqual
  | .notEqual => .bangEqual
  | .greater => .greater
  | .greaterEqual => .greaterEqual
  | .less => .less
  | .lessEqual => .lessEqual
  | .subtract => .minus
  | .add => .plus
  | .divide => .slash
  | .multiply => .asterisk

/-- The operator as it is written. -/
def spelling (op : BinaryOp) : String :=
  op.symbol.spelling

/-- The operator that a symbol stands for between two operands. -/
def ofSymbol? : Symbol → Option BinaryOp
  | .equalEqual => some .equal
  | .bangEqual => some .notEqual
  | .greater => some .greater
  | .greaterEqual => some .greaterEqual
  | .less => some .less
  | .lessEqual => some .lessEqual
  | .minus => some .subtract
  | .plus => some .add
  | .slash => some .divide
  | .asterisk => some .multiply
  | _ => none

/-- How loosely the operator binds: 1 for products, 2 for sums, 3 for comparisons
and 4 for equations. -/
def precedence : BinaryOp → Nat
  | .multiply => 1
  | .divide => 1
  | .add => 2
  | .subtract => 2
  | .less => 3
  | .lessEqual => 3
  | .greater => 3
  | .greaterEqual => 3
  | .equal => 4
  | .notEqual => 4

/-- The name of the operator in descriptions of nodes. -/
def name : BinaryOp → String
  | .equal => "Eq"
  | .notEqual => "NotEq"
  | .greater => "Gt"
  | .greaterEqual => "GtEq"
  | .less => "Lt"
  | .lessEqual => "LtEq"
  | .subtract => "Sub"
  | .add => "Add"
  | .divide => "Div"
  | .multiply => "Mul"

/-- A symbol stands for at most one operator, and each operator has one symbol. -/
theorem ofSymbol?_eq_some_iff {s : Symbol} {op : BinaryOp} :
    ofSymbol? s = some op ↔ op.symbol = s := by
  cases s <;> cases op <;> simp [ofSymbol?, symbol]

/-- Equations bind most loosely. -/
theorem precedence_le (op : BinaryOp) : op.precedence ≤ 4 := by
  cases op <;> decide

theorem precedence_pos (op : BinaryOp) : 0 < op.precedence := by
  cases op <;> decide

end BinaryOp

namespace UnaryOp

/-- Every operator, in catalogue order. -/
def all : List UnaryOp :=
  [.not, .negate]

/-- The symbol that stands for the operator. -/
def symbol : UnaryOp → Symbol
  | .not => .bang
  | .negate => .minus

/-- The operator as it is written. -/
def spelling (op : UnaryOp) : String :=
  op.symbol.spelling

/-- The operator that a symbol stands for before an operand. -/
def ofSymbol? : Symbol → Option UnaryOp
  | .bang => some .not
  | .minus => some .negate
  | _ => none

/-- The name of the operator in descriptions of nodes. -/
def name : UnaryOp → String
  | .not => "Not"
  | .negate => "Neg"

/-- A symbol stands for at most one operator, and each operator has one symbol. -/
theorem ofSymbol?_eq_some_iff {s : Symbol} {op : UnaryOp} :
    ofSymbol? s = some op ↔ op.symbol = s := by
  cases s <;> cases op <;> simp [ofSymbol?, symbol]

end UnaryOp

end LoxReader
