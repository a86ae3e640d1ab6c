/-
  `Proofs.Ast.Precedence`: operators in an arena, placed as their precedences have it.

  Which operators stand below each other is told by the lists of children, so that it can be
  asked of any arena, whether it was parsed or built by hand.  For the arena of an expression
  it is asked of the expression (`Ast.IsTree.respectsPrecedence_iff`).  What is parsed respects
  the precedences, although no rule of the grammar looks at them
  (`parse_respectsPrecedence`).
-/
import LoxReader.Proofs.Ast.Complete
import LoxReader.Proofs.Expr.Precedence
import LoxReader.Proofs.Expr.ViablePrefix

set_option autoImplicit false

namespace LoxReader

namespace Arena

/-- The node with this index is this operator between two operands. -/
def IsBinary (t : Arena Entry) (id : NodeId) (op : BinaryOp) : Prop :=
  ∃ n, t.nodes[id]? = some n ∧ n.value.form = .binary op

/-- An operator that is the left child of another binds no more loosely than it, one that is
the right child binds more tightly, and none is the child of an operator before an operand. -/
structure Placed (t : Arena Entry) (n : Node Entry) : Prop where
  left : ∀ op leftOp id, n.value.form = .binary op → n.children[0]? = some id →
    t.IsBinary id leftOp → leftOp.precedence ≤ op.precedence
  right : ∀ op rightOp id, n.value.form = .binary op → n.children[1]? = some id →
    t.IsBinary id rightOp → rightOp.precedence < op.precedence
  operand : ∀ op binaryOp id, n.value.form = .unary op → id ∈ n.children →
    ¬t.IsBinary id binaryOp

end Arena

/-- Every operator stands where its precedence has it. -/
def Ast.RespectsPrecedence (a : Ast) : Prop :=
  ∀ (id : NodeId) (n : Node Entry), a.arena.nodes[id]? = some n → a.arena.Placed n

namespace Arena

variable {t : Arena Entry} {id : NodeId} {n : Node Entry}

/-! ## One node -/

namespace Holds

variable {e : Expr}

theorem exists_node (h : t.Holds id e) : ∃ n, t.nodes[id]? = some n := by
  cases h <;>
    · rename_i hlists
      obtain ⟨n, hn, -⟩ := hlists
      exact ⟨n, hn⟩

theorem isBinary_iff (h : t.Holds id e) {op : BinaryOp} :
    t.IsBinary id op ↔ e.entry.form = .binary op := by
  obtain ⟨n, hn⟩ := h.exists_node
  rw [← (h.node hn).1]
  constructor
  · rintro ⟨m, hm, hform⟩
    obtain rfl := Option.some.inj (hm.symm.trans hn)
    exact hform
  · exact fun hform => ⟨n, hn, hform⟩

theorem level_le_iff (h : t.Holds id e) {level : Nat} :
    e.level ≤ level ↔ ∀ op, t.IsBinary id op → op.precedence ≤ level := by
  simp only [h.isBinary_iff]
  cases e <;> simp [Expr.entry, Expr.level]

theorem level_lt_iff (h : t.Holds id e) {level : Nat} (hlevel : 0 < level) :
    e.level < level ↔ ∀ op, t.IsBinary id op → op.precedence < level := by
  simp only [h.isBinary_iff]
  cases e <;> simp [Expr.entry, Expr.level, hlevel]

theorem level_eq_zero_iff (h : t.Holds id e) : e.level = 0 ↔ ∀ op, ¬t.IsBinary id op := by
  simp only [h.isBinary_iff]
  cases e with
  | binary loc op left right => simp [Expr.entry, Expr.level, Nat.ne_of_gt op.precedence_pos]
  | _ => simp [Expr.entry, Expr.level]

end Holds

theorem placed_binary_iff {op : BinaryOp} {leftId rightId : NodeId} {left right : Expr}
    (hform : n.value.form = .binary op) (hchildren : n.children = [leftId, rightId])
    (hleft : t.Holds leftId left) (hright : t.Holds rightId right) :
    t.Placed n ↔ left.level ≤ op.precedence ∧ right.level < op.precedence := by
  rw [hleft.level_le_iff, hright.level_lt_iff op.precedence_pos]
  constructor
  · intro h
    exact ⟨fun leftOp => h.left op leftOp leftId hform (by rw [hchildren]; rfl),
      fun rightOp => h.right op rightOp rightId hform (by rw [hchildren]; rfl)⟩
  · rintro ⟨hle, hlt⟩
    refine ⟨?_, ?_, ?_⟩
    · intro op' leftOp id hform' hid
      obtain rfl := Form.binary.inj (hform.symm.trans hform')
      rw [hchildren] at hid
      obtain rfl := Option.some.inj hid
      exact hle leftOp
    · intro op' rightOp id hform' hid
      obtain rfl := Form.binary.inj (hform.symm.trans hform')
      rw [hchildren] at hid
      obtain rfl := Option.some.inj hid
      exact hlt rightOp
    · intro op' binaryOp id hform'
      rw [hform] at hform'
      cases hform'

theorem placed_unary_iff {op : UnaryOp} {child : NodeId} {operand : Expr}
    (hform : n.value.form = .unary op) (hchildren : n.children = [child])
    (hoperand : t.Holds child operand) : t.Placed n ↔ operand.level = 0 := by
  rw [hoperand.level_eq_zero_iff]
  constructor
  · exact fun h binaryOp => h.operand op binaryOp child hform (by simp [hchildren])
  · intro hnone
    refine ⟨fun op' _ _ hform' => ?_, fun op' _ _ hform' => ?_, ?_⟩
    · rw [hform] at hform'
      cases hform'
    · rw [hform] at hform'
      cases hform'
    · intro op' binaryOp id _ hid
      rw [hchildren, List.mem_singleton] at hid
      exact hid ▸ hnone binaryOp

/-- Nothing is asked of a node that is no operator. -/
theorem placed_of_not_operator (hbinary : ∀ op, n.value.form ≠ .binary op)
    (hunary : ∀ op, n.value.form ≠ .unary op) : t.Placed n :=
  ⟨fun op _ _ hform => absurd hform (hbinary op), fun op _ _ hform => absurd hform (hbinary op),
    fun op _ _ hform => absurd hform (hunary op)⟩

/-! ## All nodes -/

/-- The operators at and below a node are placed. -/
def AllPlaced (t : Arena Entry) (id : NodeId) : Prop :=
  ∀ other n, t.Below id other → t.nodes[other]? = some n → t.Placed n

theorem allPlaced_iff (hn : t.nodes[id]? = some n) :
    t.AllPlaced id ↔ t.Placed n ∧ ∀ child ∈ n.children, t.AllPlaced child := by
  constructor
  · intro h
    exact ⟨h id n .self hn, fun child hchild other m hother => h other m (.child hn hchild hother)⟩
  · rintro ⟨hself, hchildren⟩ other m hother hm
    rcases hother.eq_or_exists hn with rfl | ⟨child, hchild, hbelow⟩
    · obtain rfl := Option.some.inj (hm.symm.trans hn)
      exact hself
    · exact hchildren child hchild other m hbelow hm

/-- An expression is canonical if the operators at and below its node are placed. -/
theorem Holds.canonical_iff {e : Expr} (h : t.Holds id e) : e.Canonical ↔ t.AllPlaced id := by
  induction h with
  | literal hlists =>
      obtain ⟨n, hn, hvalue, hchildren⟩ := hlists
      simp [allPlaced_iff hn, hchildren, Expr.Canonical, placed_of_not_operator, hvalue]
  | group hlists _ ih =>
      obtain ⟨n, hn, hvalue, hchildren⟩ := hlists
      simp [allPlaced_iff hn, hchildren, Expr.Canonical, placed_of_not_operator, hvalue, ih]
  | unary hlists hoperand ih =>
      obtain ⟨n, hn, hvalue, hchildren⟩ := hlists
      have hplaced := placed_unary_iff (by rw [hvalue]) hchildren hoperand
      simp [allPlaced_iff hn, hchildren, Expr.Canonical, hplaced, ih]
  | binary hlists hleft hright ihl ihr =>
      obtain ⟨n, hn, hvalue, hchildren⟩ := hlists
      have hplaced := placed_binary_iff (by rw [hvalue]) hchildren hleft hright
      simp [allPlaced_iff hn, hchildren, Expr.Canonical, hplaced, ihl, ihr, and_assoc]

end Arena

/-- The arena of an expression respects the precedences if the expression is canonical. -/
theorem Ast.IsTree.respectsPrecedence_iff {a : Ast} {e : Expr} (h : a.IsTree e)
    (hreach : a.arena.Reachable) : a.RespectsPrecedence ↔ e.Canonical := by
  rw [h.holds.canonical_iff]
  constructor
  · exact fun hplaced other n _ hn => hplaced other n hn
  · intro hbelow id n hn
    rcases h.eq_root_or_below hreach hn with rfl | hid
    · obtain ⟨m, hm, hform, -⟩ := a.entry
      obtain rfl := Option.some.inj (hm.symm.trans hn)
      exact Arena.placed_of_not_operator (by simp [hform]) (by simp [hform])
    · exact hbelow id n hid hn

/-! ## What is parsed -/

/-- Whatever tokens are parsed, the arena is complete, its first slot and no other is of the
form `root`, and it is the tree of a derivation from rules of which each lists its operators.
The operators stand where their precedences have them, too. -/
theorem parse_respectsPrecedence {t : Tokenization} {a : Ast} (h : t.parse = .ok (.ok a)) :
    a.RespectsPrecedence ∧ a.Complete ∧ a.root = 0 ∧
      ∃ ts eof rest e, t.tokens.toList = ts ++ eof :: rest ∧ eof.kind = .eof ∧
        Derives .expression ts e ∧ a.IsTree e := by
  obtain ⟨ts, eof, rest, e, loc, htokens, heof, hderives, hofExpr⟩ := exists_derives_of_parse h
  obtain ⟨htree, hroot⟩ := Ast.isTree_of_ofExpr hofExpr
  have hreach := Ast.reachable_of_ofExpr hofExpr
  exact ⟨(htree.respectsPrecedence_iff hreach).mpr hderives.canonical.1, htree.complete hreach,
    hroot, ts, eof, rest, e, htokens, heof, hderives, htree⟩

/-- The product stands below the right difference, and the left one below both. -/
theorem parse_respectsPrecedence_differences :
    ∃ a, (tokenize "1-2-3*-4==nil").parse = .ok (.ok a) ∧ a.RespectsPrecedence ∧ a.Complete := by
  have htokens : (tokenize "1-2-3*-4==nil").tokens.toList =
      (tokenize "1-2-3*-4==nil").tokens.toList.take 10 ++ [⟨.eof, ⟨1, 14, 13⟩⟩] := by
    decide +kernel
  obtain ⟨e, he⟩ : Sentence ((tokenize "1-2-3*-4==nil").tokens.toList.take 10) :=
    sentence_iff_run.mpr (by decide +kernel)
  obtain ⟨a, -, hparse, -⟩ := parse_of_derives htokens rfl (by decide +kernel) he
  obtain ⟨hplaced, hcomplete, -⟩ := parse_respectsPrecedence hparse
  exact ⟨a, hparse, hplaced, hcomplete⟩

end LoxReader
