/-
  `Proofs.Building.Rules`: laying out by the rules of the grammar.

  A chain takes operators of several precedences in one go.  Taken by its rule, it is an
  operand of the rule and then rounds of the operators of the rule: each puts its node,
  moves what has been laid out below it, and lays out one more operand there.  The main
  statement is `Rule.build_eq_goOn`.
-/
import LoxReader.Proofs.Building
import LoxReader.Proofs.Expr.Completeness

set_option autoImplicit false

namespace LoxReader

/-! ## Operators of a rule -/

/-- The operator at the cursor between two operands, if it is one of these. -/
def Cursor.operator? (c : Cursor) (ops : List BinaryOp) : Option BinaryOp :=
  match c.kind with
  | .symbol s => (BinaryOp.ofSymbol? s).filter (· ∈ ops)
  | _ => none

theorem Cursor.operator?_eq_some_iff {c : Cursor} {ops : List BinaryOp} {op : BinaryOp} :
    c.operator? ops = some op ↔ c.kind = .symbol op.symbol ∧ op ∈ ops := by
  unfold operator?
  split
  · rename_i s hkind
    rw [Option.filter_eq_some_iff, BinaryOp.ofSymbol?_eq_some_iff, hkind]
    simp [eq_comm]
  · rename_i hkind
    exact iff_of_false (fun h => by cases h) fun h => hkind _ h.1

/-- The operators of one precedence are those that one level takes and the next tighter one
does not. -/
theorem Cursor.operator?_eq_filter {c : Cursor} {level : Nat} {ops : List BinaryOp}
    (hops : ∀ op, op ∈ ops ↔ op.precedence = level + 1) (htight : c.binaryOp? level = none) :
    c.operator? ops = c.binaryOp? (level + 1) := by
  refine Option.ext fun op => ?_
  rw [operator?_eq_some_iff, binaryOp?_eq_some_iff, hops]
  refine and_congr_right fun hsymbol => ⟨Nat.le_of_eq, fun hle => ?_⟩
  refine Nat.le_antisymm hle (Nat.lt_of_not_le fun hle' => ?_)
  rw [binaryOp?_eq_some_iff.mpr ⟨hsymbol, hle'⟩] at htight
  cases htight

/-! ## Laying out by rules -/

/-- What is laid out where a rule is expected. -/
def Rule.build : Rule → Arena Entry → NodeId → (c : Cursor) → Built c.remaining
  | .primary, t, parent, c => Builder.primary t parent c
  | .unary, t, parent, c => Builder.unary t parent c
  | rule, t, parent, c => Builder.chain rule.level t parent c

namespace Builder

/-- Go on behind what has been laid out. -/
def goOn {bound bound' : Nat}
    (go : NodeId → Arena Entry → (c : Cursor) → c.remaining < bound → Built bound') :
    Built bound → Built bound'
  | .error s => .error s
  | .ok ⟨(id, t, c), h⟩ => go id t c h

/-- Answer with the node below which something has been laid out. -/
def answerWith {bound bound' : Nat} (id : NodeId) (h : bound < bound') : Built bound → Built bound'
  | .error s => .error s
  | .ok ⟨(_, t, c), hless⟩ => .ok ⟨(id, t, c), Nat.lt_trans hless h⟩

/-- Take the operator at the cursor, move the node `left` below it, and lay out its right
operand there. -/
def foldBinary (operand : Rule) (op : BinaryOp) (parent left : NodeId) (t : Arena Entry)
    (c : Cursor) : Built c.remaining :=
  take c fun token next hnext =>
    match put t parent ⟨.binary op, token.loc⟩ with
    | .error s => .error s
    | .ok (id, t) =>
      match t.adopt id left with
      | .error f => .error (.arena f)
      | .ok t => answerWith id hnext (operand.build t id next)

/-- Lay out rounds of operators and operands, of which the node `left` is the first
operand. -/
def rounds (ops : List BinaryOp) (operand : Rule) (parent : NodeId) {bound : Nat}
    (left : NodeId) (t : Arena Entry) (c : Cursor) (h : c.remaining < bound) : Built bound :=
  match c.operator? ops with
  | none => .ok ⟨(left, t, c), h⟩
  | some op =>
    goOn (fun id t c' hless => rounds ops operand parent id t c' (Nat.lt_trans hless h))
      (foldBinary operand op parent left t c)
termination_by c.remaining

/-! ## Chains take rounds -/

theorem goOn_goOn {bound bound' bound'' : Nat} (result : Built bound)
    (go : NodeId → Arena Entry → (c : Cursor) → c.remaining < bound → Built bound')
    (go' : NodeId → Arena Entry → (c : Cursor) → c.remaining < bound' → Built bound'') :
    goOn go' (goOn go result) = goOn (fun id t c h => goOn go' (go id t c h)) result := by
  cases result with
  | error s => rfl
  | ok result => rfl

/-- Without an operator at the cursor, a chain ends. -/
theorem chainTail_of_none {level : Nat} {t : Arena Entry} {parent left : NodeId} {bound : Nat}
    {c : Cursor} {h : c.remaining < bound} (hnone : c.binaryOp? level = none) :
    chainTail level t parent left c h = .ok ⟨(left, t, c), h⟩ := by
  rw [chainTail]
  simp only [hnone]

theorem chain_eq_goOn (level : Nat) (t : Arena Entry) (parent : NodeId) (c : Cursor) :
    chain level t parent c =
      goOn (fun left t c' h => chainTail level t parent left c' h) (unary t parent c) := by
  rw [chain]
  cases unary t parent c with
  | error s => rfl
  | ok result => rfl

theorem chain_zero (t : Arena Entry) (parent : NodeId) (c : Cursor) :
    chain 0 t parent c = unary t parent c := by
  rw [chain_eq_goOn]
  cases unary t parent c with
  | error s => rfl
  | ok result =>
      obtain ⟨⟨left, t', c'⟩, h⟩ := result
      exact chainTail_of_none (Parser.binaryOp?_zero c')

theorem build_ofLevel {level : Nat} (hlevel : level ≤ 4) (t : Arena Entry) (parent : NodeId)
    (c : Cursor) : (Rule.ofLevel level).build t parent c = chain level t parent c := by
  have hcases : level = 0 ∨ level = 1 ∨ level = 2 ∨ level = 3 ∨ level = 4 := by omega
  rcases hcases with rfl | rfl | rfl | rfl | rfl
  · exact (chain_zero t parent c).symm
  all_goals rfl

/-- With an operator at the cursor, a chain goes on behind its right operand. -/
theorem chainTail_of_some {level : Nat} {t : Arena Entry} {parent left : NodeId} {bound : Nat}
    {c : Cursor} {h : c.remaining < bound} {op : BinaryOp} (hop : c.binaryOp? level = some op) :
    chainTail level t parent left c h =
      goOn (fun id t c' hless => chainTail level t parent id c' (Nat.lt_trans hless h))
        (foldBinary (.ofLevel (op.precedence - 1)) op parent left t c) := by
  have hkind := Cursor.kind_ne_eof_of_binaryOp? hop
  have hlevel : op.precedence - 1 ≤ 4 := Nat.le_trans (Nat.sub_le _ _) op.precedence_le
  rw [chainTail, foldBinary]
  simp only [hop, take_eq hkind, build_ofLevel hlevel]
  cases put t parent ⟨.binary op, c.current.loc⟩ with
  | error s => rfl
  | ok added =>
      simp only
      cases added.2.adopt added.1 left with
      | error f => rfl
      | ok t' =>
          simp only
          cases chain (op.precedence - 1) t' added.1 (c.next hkind) with
          | error s => rfl
          | ok result => rfl

/-- A chain has taken all operators that it could. -/
theorem binaryOp?_of_chainTail {level : Nat} {t t' : Arena Entry} {parent left id : NodeId}
    {bound : Nat} {c c' : Cursor} {h : c.remaining < bound} {h' : c'.remaining < bound}
    (htail : chainTail level t parent left c h = .ok ⟨(id, t', c'), h'⟩) :
    c'.binaryOp? level = none := by
  cases hop : c.binaryOp? level with
  | none =>
      rw [chainTail_of_none hop] at htail
      cases htail
      exact hop
  | some op =>
      rw [chainTail_of_some hop] at htail
      cases hfold : foldBinary (.ofLevel (op.precedence - 1)) op parent left t c with
      | error s =>
          rw [hfold] at htail
          cases htail
      | ok result =>
          obtain ⟨⟨binary, t₁, c₁⟩, hless⟩ := result
          rw [hfold] at htail
          exact binaryOp?_of_chainTail htail
termination_by c.remaining

theorem binaryOp?_of_chain {level : Nat} {t t' : Arena Entry} {parent id : NodeId}
    {c c' : Cursor} {h : c'.remaining < c.remaining}
    (hchain : chain level t parent c = .ok ⟨(id, t', c'), h⟩) : c'.binaryOp? level = none := by
  rw [chain] at hchain
  split at hchain
  · cases hchain
  · exact binaryOp?_of_chainTail hchain

/-- So has the right operand of an operator. -/
theorem binaryOp?_of_foldBinary {level : Nat} (hlevel : level ≤ 4) {op : BinaryOp}
    {t t' : Arena Entry} {parent left id : NodeId} {c c' : Cursor}
    {h : c'.remaining < c.remaining}
    (hfold : foldBinary (.ofLevel level) op parent left t c = .ok ⟨(id, t', c'), h⟩) :
    c'.binaryOp? level = none := by
  unfold foldBinary take at hfold
  split at hfold
  · cases hfold
  · dsimp only at hfold
    split at hfold
    · cases hfold
    · split at hfold
      · cases hfold
      · rename_i t₂ _
        rw [build_ofLevel hlevel] at hfold
        cases hright : chain level t₂ _ _ with
        | error s =>
            rw [hright] at hfold
            cases hfold
        | ok result =>
            rw [hright] at hfold
            cases hfold
            exact binaryOp?_of_chain hright

/-- The rest of a chain is the rest of one that is a level tighter, and rounds of the
operators of its own precedence behind it. -/
theorem chainTail_succ {level : Nat} (hlevel : level < 4) {ops : List BinaryOp}
    (hops : ∀ op, op ∈ ops ↔ op.precedence = level + 1) {t : Arena Entry} {parent left : NodeId}
    {bound : Nat} {c : Cursor} (h : c.remaining < bound) :
    chainTail (level + 1) t parent left c h =
      goOn (rounds ops (.ofLevel level) parent) (chainTail level t parent left c h) := by
  cases htight : c.binaryOp? level with
  | some op =>
      -- Both chains take the operator, and by induction agree behind it.
      rw [chainTail_of_some htight, goOn_goOn,
        chainTail_of_some (Cursor.binaryOp?_mono (Nat.le_succ level) htight)]
      congr 1
      funext id t' c' hless
      exact chainTail_succ hlevel hops _
  | none =>
      rw [chainTail_of_none htight, goOn, rounds, Cursor.operator?_eq_filter hops htight]
      cases hloose : c.binaryOp? (level + 1) with
      | none => exact chainTail_of_none hloose
      | some op =>
          have hmem := (Cursor.operator?_eq_filter hops htight).trans hloose
          have hprecedence := (hops op).mp (Cursor.operator?_eq_some_iff.mp hmem).2
          rw [chainTail_of_some hloose, hprecedence, Nat.add_sub_cancel]
          simp only
          cases hfold : foldBinary (.ofLevel level) op parent left t c with
          | error s => rfl
          | ok result =>
              -- The tighter chain has nothing to take behind the right operand.
              obtain ⟨⟨id, t', c'⟩, hless⟩ := result
              have hnone := binaryOp?_of_foldBinary (Nat.le_of_lt hlevel) hfold
              simp only [goOn]
              rw [chainTail_succ hlevel hops, chainTail_of_none hnone, goOn]
termination_by c.remaining

theorem chain_succ {level : Nat} (hlevel : level < 4) {ops : List BinaryOp}
    (hops : ∀ op, op ∈ ops ↔ op.precedence = level + 1) (t : Arena Entry) (parent : NodeId)
    (c : Cursor) :
    chain (level + 1) t parent c =
      goOn (rounds ops (.ofLevel level) parent) (chain level t parent c) := by
  rw [chain_eq_goOn, chain_eq_goOn, goOn_goOn]
  congr 1
  funext left t' c' h
  exact chainTail_succ hlevel hops h

end Builder

/-- A rule with a repetition lays out an operand, and then rounds of its operators. -/
theorem Rule.build_eq_goOn {rule operand : Rule} {ops : List BinaryOp}
    (h : rule.chain? = some (ops, operand)) (t : Arena Entry) (parent : NodeId) (c : Cursor) :
    rule.build t parent c =
      Builder.goOn (Builder.rounds ops operand parent) (operand.build t parent c) := by
  obtain ⟨level, hlevel, rfl, rfl, -⟩ := Rule.exists_level h
  obtain ⟨ops', hchain, hops⟩ := Rule.chain?_ofLevel hlevel
  obtain ⟨rfl, -⟩ := Prod.mk.inj (Option.some.inj (hchain.symm.trans h))
  rw [Builder.build_ofLevel hlevel, Builder.build_ofLevel (Nat.le_of_lt hlevel)]
  exact Builder.chain_succ hlevel hops t parent c

end LoxReader
