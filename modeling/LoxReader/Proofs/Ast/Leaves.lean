/-
  `Proofs.Ast.Leaves`: the literals of an expression from the left to the right.

  They are the literals among the tokens that it is derived from, in order.  If those are
  numbered as the entries of a table are, looking them up gives the table.
-/
import LoxReader.Ast.Printer
import LoxReader.Proofs.Ast.Reading
import LoxReader.Proofs.Expr.Kinds
import LoxReader.Proofs.Expr.Soundness
import Mathlib.Data.List.Basic

set_option autoImplicit false

namespace LoxReader

/-! ## Literals -/

/-- The index of a number. -/
def Literal.numberId? : Literal → Option LiteralId
  | .number id => some id
  | _ => none

/-- The index of a string. -/
def Literal.stringId? : Literal → Option LiteralId
  | .string id => some id
  | _ => none

/-- The literals of an expression, from the left to the right. -/
def Expr.literals : Expr → List Literal
  | .literal _ value => [value]
  | .group _ inner => inner.literals
  | .unary _ _ operand => operand.literals
  | .binary _ _ left right => left.literals ++ right.literals

/-- The literals that tokens stand for, in order. -/
def literalsOf (ts : List Token) : List Literal :=
  ts.filterMap fun token => Literal.ofToken? token.kind

theorem Literal.ofToken?_symbol (s : Symbol) : ofToken? (.symbol s) = none :=
  rfl

theorem Expr.filterMap_kinds (e : Expr) : e.kinds.filterMap Literal.ofToken? = e.literals := by
  induction e with
  | literal loc value =>
      rw [kinds, List.filterMap_cons, Literal.ofToken?_eq_some_iff.mpr rfl]
      rfl
  | group loc inner ih =>
      rw [kinds, List.filterMap_cons_none (Literal.ofToken?_symbol _), List.filterMap_append, ih,
        List.filterMap_cons_none (Literal.ofToken?_symbol _), List.filterMap_nil,
        List.append_nil, literals]
  | unary loc op operand ih =>
      rw [kinds, List.filterMap_cons_none (Literal.ofToken?_symbol _), ih, literals]
  | binary loc op left right ihl ihr =>
      rw [kinds, List.filterMap_append, List.filterMap_cons_none (Literal.ofToken?_symbol _), ihl,
        ihr, literals]

/-- The literals of derived tokens are those of their expression, from the left to the
right. -/
theorem Derives.literalsOf_eq {rule : Rule} {ts : List Token} {e : Expr} (h : Derives rule ts e) :
    literalsOf ts = e.literals := by
  rw [← e.filterMap_kinds, ← h.map_kind, List.filterMap_map]
  rfl

/-! ## Collecting -/

/-- What is found for the literals of a node, from what is found for its parts. -/
def Shape.collect {β : Type} (pick : Literal → Except AstFault (Array β)) :
    Shape (Array β) → Except AstFault (Array β)
  | .root expr => .ok expr
  | .binary _ left right => .ok (left ++ right)
  | .paren inner => .ok inner
  | .unary _ operand => .ok operand
  | .literal value => pick value

/-- What is found for the literals of an expression is found from the left to the right. -/
theorem Expr.fold_collect {β : Type} {pick : Literal → Except AstFault (Array β)}
    {found : Literal → List β} (e : Expr)
    (h : ∀ value ∈ e.literals, pick value = .ok (found value).toArray) :
    e.fold (fun _ shape => shape.collect pick) = .ok (e.literals.flatMap found).toArray := by
  induction e with
  | literal loc value =>
      rw [literals, List.flatMap_singleton]
      exact h value (List.mem_singleton_self value)
  | group loc inner ih =>
      rw [fold, ih h]
      rfl
  | unary loc op operand ih =>
      rw [fold, ih h]
      rfl
  | binary loc op left right ihl ihr =>
      have hleft := ihl fun value hvalue => h value (List.mem_append_left _ hvalue)
      have hright := ihr fun value hvalue => h value (List.mem_append_right _ hvalue)
      rw [fold, hleft, hright, literals, List.flatMap_append, ← List.append_toArray]
      rfl

/-- The literals below the top node, from the left to the right. -/
def Ast.literals (a : Ast) : Except AstFault (Array Literal) :=
  a.foldAt (fun _ shape => shape.collect fun value => .ok #[value]) a.root

/-! ## Looking up -/

/-- The indices of a table of this size, in order. -/
def LiteralId.upTo (size : Nat) : List LiteralId :=
  (List.range size).map LiteralId.mk

section Table

variable {β : Type} (select : Literal → Option LiteralId) (table : Array β)

/-- The entry of a literal that is selected; there is none for the others. -/
def pickFrom (value : Literal) : Except AstFault (Array β) :=
  match select value with
  | none => .ok #[]
  | some id => (Ast.ofTable (tableGet table id.index)).map fun entry => #[entry]

/-- The entries of a table under its indices. -/
theorem flatMap_range_getElem? (xs : List β) :
    (List.range xs.length).flatMap (fun index => xs[index]?.toList) = xs := by
  induction xs with
  | nil => rfl
  | cons x xs ih =>
      rw [List.length_cons, List.range_succ_eq_map, List.flatMap_cons, List.flatMap_map]
      exact congrArg (x :: ·) ih

/-- If the selected literals are numbered as the entries are, looking them up from the left
to the right gives the whole table, each entry once. -/
theorem Expr.fold_pickFrom {e : Expr}
    (h : e.literals.filterMap select = LiteralId.upTo table.size) :
    e.fold (fun _ shape => shape.collect (pickFrom select table)) = .ok table := by
  have hpick : ∀ value ∈ e.literals, pickFrom select table value =
      .ok ((select value).toList.flatMap fun id => table[id.index]?.toList).toArray := by
    intro value hvalue
    unfold pickFrom
    cases hid : select value with
    | none => rfl
    | some id =>
        have hmem : id ∈ e.literals.filterMap select := List.mem_filterMap.mpr ⟨value, hvalue, hid⟩
        rw [h] at hmem
        obtain ⟨index, hindex, rfl⟩ := List.mem_map.mp hmem
        obtain ⟨entry, hentry⟩ : ∃ entry, table[index]? = some entry :=
          ⟨_, Array.getElem?_eq_getElem (List.mem_range.mp hindex)⟩
        simp only [tableGet_eq_ok_iff.mpr hentry]
        rw [Option.toList_some, List.flatMap_singleton, hentry]
        rfl
  rw [e.fold_collect hpick]
  have hselect : (e.literals.flatMap fun value =>
      (select value).toList.flatMap fun id => table[id.index]?.toList) = table.toList := by
    rw [← List.flatMap_assoc, ← List.filterMap_eq_flatMap_toList select e.literals, h,
      LiteralId.upTo, List.flatMap_map]
    have hrange := flatMap_range_getElem? table.toList
    simpa using hrange
  rw [hselect]

end Table

theorem Ast.numbersAt_eq (a : Ast) (tables : Tables) (id : NodeId) :
    a.numbersAt tables id =
      a.foldAt (fun _ shape => shape.collect (pickFrom Literal.numberId? tables.numbers)) id := by
  refine congrArg (fun combine => a.foldAt combine id) ?_
  funext loc shape
  cases shape with
  | literal value => cases value <;> rfl
  | _ => rfl

theorem Ast.stringsAt_eq (a : Ast) (tables : Tables) (id : NodeId) :
    a.stringsAt tables id =
      a.foldAt (fun _ shape => shape.collect (pickFrom Literal.stringId? tables.strings)) id := by
  refine congrArg (fun combine => a.foldAt combine id) ?_
  funext loc shape
  cases shape with
  | literal value => cases value <;> rfl
  | _ => rfl

end LoxReader
