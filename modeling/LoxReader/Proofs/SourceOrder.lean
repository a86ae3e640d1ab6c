/-
  `Proofs.SourceOrder`: a parsed expression is stored in the order of its source.

  Slot by slot the arena has a top node and then one node for each token but those that
  close a parenthesis, whatever moves were made while it was laid out.  So indices compare
  as places do, and the literals of the tree come in the order of their tables.
-/
import LoxReader.Proofs.Ast.Order
import LoxReader.Proofs.Parse
import LoxReader.Proofs.Tokenization.Munch
import LoxReader.Proofs.Tokenization.Numbering

set_option autoImplicit false

namespace LoxReader

variable {t : Tokenization} {ts : List Token} {eof : Token}

/-- The arena has the order of the tokens. -/
structure Ast.InOrder (a : Ast) (ts : List Token) : Prop where
  /-- The first slot is the top node, at the place of the first token. -/
  top : a.root = 0 ∧ ∃ first n, ts.head? = some first ∧ a.arena.nodes[0]? = some n ∧
    n.value = ⟨.root, first.loc⟩
  /-- There is one more node than tokens that close no parenthesis. -/
  size : a.size = 1 + ts.countP fun token => token.kind ≠ .symbol .rightParen
  /-- The node of a token stands behind those of the tokens before it, at its place, and is
  what the token stands for there. -/
  slots : ∀ before token after, ts = before ++ token :: after →
    token.kind ≠ .symbol .rightParen → ∃ n,
      a.arena.nodes[1 + before.countP fun token => token.kind ≠ .symbol .rightParen]? = some n ∧
        n.value.loc = token.loc ∧
          Form.ofToken? (operandDue before) token.kind = some n.value.form
  /-- The left operand of a node lies before it, and everything else below it behind it. -/
  ordered : ∀ id n, a.arena.nodes[id]? = some n → a.arena.Ordered id n
  /-- The literals of the tree from the left to the right are those among the tokens. -/
  literals : a.literals = .ok (literalsOf ts).toArray

theorem Ast.inOrder_of_arena {a : Ast} {e : Expr} {first : Token} (h : Derives .expression ts e)
    (hfirst : ts.head? = some first) (harena : a.arena = e.arena first.loc) (hroot : a.root = 0)
    (hexpr : a.expr = 1 + e.lead) : a.InOrder ts := by
  have hgives := h.gives
  have hvalues := e.values_arena first.loc
  rw [← harena] at hvalues
  have hvalue : ∀ {index : Nat} {entry : Entry},
      (⟨.root, first.loc⟩ :: e.entries)[index]? = some entry →
        ∃ n, a.arena.nodes[index]? = some n ∧ n.value = entry := by
    intro index entry hentry
    rw [← hvalues, List.getElem?_map, Array.getElem?_toList, Option.map_eq_some_iff] at hentry
    exact hentry
  refine ⟨⟨hroot, ?_⟩, ?_, ?_, ?_, ?_⟩
  · have hzero : (⟨.root, first.loc⟩ :: e.entries)[0]? = some ⟨.root, first.loc⟩ := rfl
    obtain ⟨n, hn, htop⟩ := hvalue hzero
    exact ⟨first, n, hfirst, hn, htop⟩
  · rw [size, harena, e.size_arena, ← e.length_entries, hgives.length_eq, Nat.add_comm]
  · intro before token after hts hopen
    obtain ⟨form, hform, hentry⟩ := hgives.getElem?_eq hts hopen
    rw [← List.getElem?_cons_succ (a := ⟨.root, first.loc⟩), Nat.add_comm] at hentry
    obtain ⟨n, hn, hvalue⟩ := hvalue hentry
    exact ⟨n, hn, by rw [hvalue], by rw [hvalue, hform]⟩
  · intro id n hn
    rw [harena] at hn ⊢
    exact e.ordered_arena first.loc hn
  · have hpick : ∀ value ∈ e.literals, (Except.ok #[value] : Except AstFault (Array Literal)) =
        .ok [value].toArray := fun _ _ => rfl
    rw [literals, (isTree_of_arena harena hroot hexpr).foldAt_root fun _ _ => rfl,
      e.fold_collect hpick, List.flatMap_singleton', h.literalsOf_eq]

/-- The tree has the literals of the tables, from the left to the right, each once. -/
structure Ast.Numbered (a : Ast) (tables : Tables) : Prop where
  /-- The literals of each sort are numbered from the left to the right. -/
  literals : ∃ literals, a.literals = .ok literals ∧
    literals.toList.filterMap Literal.numberId? = LiteralId.upTo tables.numbers.size ∧
      literals.toList.filterMap Literal.stringId? = LiteralId.upTo tables.strings.size
  numbers : a.numbersAt tables a.root = .ok tables.numbers
  strings : a.stringsAt tables a.root = .ok tables.strings

theorem Ast.IsTree.numbered {a : Ast} {e : Expr} (h : a.IsTree e) {tables : Tables}
    (hliterals : a.literals = .ok e.literals.toArray)
    (hnumbers : e.literals.filterMap Literal.numberId? = LiteralId.upTo tables.numbers.size)
    (hstrings : e.literals.filterMap Literal.stringId? = LiteralId.upTo tables.strings.size) :
    a.Numbered tables := by
  refine ⟨⟨_, hliterals, hnumbers, hstrings⟩, ?_, ?_⟩
  · rw [numbersAt_eq, h.foldAt_root fun _ _ => rfl, Expr.fold_pickFrom _ _ hnumbers]
  · rw [stringsAt_eq, h.foldAt_root fun _ _ => rfl, Expr.fold_pickFrom _ _ hstrings]

/-- Whenever tokens are parsed, the arena has their order, and if they are those of a source,
the tree has the literals of its tables in order. -/
theorem parse_inOrder (htokens : t.tokens.toList = ts ++ [eof]) (heof : eof.kind = .eof)
    (hts : ∀ token ∈ ts, token.kind ≠ .eof) {a : Ast} (hparse : t.parse = .ok (.ok a)) :
    a.InOrder ts ∧ ∀ source, lex source = .ok t → a.Numbered t.tables := by
  obtain ⟨e, he⟩ := sentence_of_parse htokens heof hts hparse
  obtain ⟨first, a', hfirst, hparse', harena, hroot, hexpr⟩ :=
    parse_eq_of_derives htokens heof hts he
  obtain rfl : a' = a := Except.ok.inj (Except.ok.inj (hparse'.symm.trans hparse))
  have horder := Ast.inOrder_of_arena he hfirst harena hroot hexpr
  refine ⟨horder, ?_⟩
  intro source hlex
  obtain ⟨hnumbers, hstrings⟩ := eq_tokenize_of_lex hlex ▸ tokenize_numbered source
  have hliterals : literalsOf t.tokens.toList = e.literals := by
    rw [htokens, literalsOf_concat, heof, ← he.literalsOf_eq]
    exact List.append_nil _
  rw [hliterals] at hnumbers hstrings
  exact (Ast.isTree_of_arena harena hroot hexpr).numbered (he.literalsOf_eq ▸ horder.literals)
    hnumbers hstrings

/-- The left operand moves below its operator, and keeps its slot before it. -/
theorem parse_inOrder_equation :
    ∃ ts a, (tokenize "1==-\"s\"").parse = .ok (.ok a) ∧ a.InOrder ts ∧
      a.Numbered (tokenize "1==-\"s\"").tables := by
  have hnumber := @Derives.literal ⟨.number ⟨0⟩, ⟨1, 1, 0⟩⟩ (.number ⟨0⟩) rfl
  have hstring := @Derives.literal ⟨.string ⟨0⟩, ⟨1, 5, 4⟩⟩ (.string ⟨0⟩) rfl
  have hnegated := @Derives.operator ⟨.symbol .minus, ⟨1, 4, 3⟩⟩ .negate _ _ rfl
    (.operand hstring)
  have hwhole := @Derives.snoc .equal ⟨.symbol .equalEqual, ⟨1, 2, 1⟩⟩ _ _ _ _ rfl
    (.lift (Nat.zero_le 4) (Nat.le_refl 4) (.operand hnumber))
    (.lift (Nat.zero_le 3) (by decide) hnegated)
  have htokens : (tokenize "1==-\"s\"").tokens.toList =
      [⟨.number ⟨0⟩, ⟨1, 1, 0⟩⟩, ⟨.symbol .equalEqual, ⟨1, 2, 1⟩⟩, ⟨.symbol .minus, ⟨1, 4, 3⟩⟩,
        ⟨.string ⟨0⟩, ⟨1, 5, 4⟩⟩] ++ [⟨.eof, ⟨1, 8, 7⟩⟩] := by
    decide +kernel
  obtain ⟨a, -, hparse, -⟩ := parse_of_derives htokens rfl (by decide) (.expression hwhole)
  obtain ⟨horder, hnumbered⟩ := parse_inOrder htokens rfl (by decide) hparse
  exact ⟨_, a, hparse, horder, hnumbered _ (lex_of_lt (by decide))⟩

end LoxReader
