/-
  `Proofs.Ast.Sexp`: the list of an expression tells it apart from all others.

  A list is written as lexemes of which none goes on into the next, so that its text falls
  into just these again, whatever stands between the quotes of its strings.  And a list of
  lexemes starts with one term at most (`Term.readable`): a list with one item behind its
  head ends where a list with two goes on.  The main statement is `sexp_eq_iff`.
-/
import LoxReader.Proofs.Ast.Term

set_option autoImplicit false

namespace LoxReader

/-! ## Lists as lexemes -/

/-- The lexemes of a list with this head and these items. -/
def Lexeme.list (head : Lexeme) (items : List (List Lexeme)) : List Lexeme :=
  .symbol .leftParen :: head ::
    (items.flatMap (fun item => .blanks [' '] :: item) ++ [.symbol .rightParen])

/-- The lexemes of the list that a term is written as. -/
def Term.listed : Term → List Lexeme
  | .literal value => [value.lexeme]
  | .group inner => Lexeme.list (.word "group".toList) [inner.listed]
  | .unary op operand => Lexeme.list (.symbol op.symbol) [operand.listed]
  | .binary op left right => Lexeme.list (.symbol op.symbol) [left.listed, right.listed]

/-- The list of an expression is that of its term. -/
theorem Expr.Means.fold_sexp {tables : Tables} (hquotes : tables.Quoteless) {e : Expr} {m : Term}
    (h : e.Means tables m) :
    e.fold (fun _ shape => Ast.ofTable (shape.sexp tables)) =
      .ok (String.ofList (m.listed.flatMap Lexeme.text)) := by
  induction h with
  | literal hvalue =>
      rw [Expr.fold, Shape.sexp, (Literal.prints_lexeme hquotes hvalue).text_eq, Term.listed,
        List.flatMap_singleton]
      rfl
  | group _ ih =>
      rw [Expr.fold, ih]
      refine congrArg Except.ok (String.toList_inj.mp ?_)
      simp [Term.listed, Lexeme.list, Lexeme.text, Symbol.chars]
  | unary _ ih =>
      rw [Expr.fold, ih]
      refine congrArg Except.ok (String.toList_inj.mp ?_)
      simp [Term.listed, Lexeme.list, Lexeme.text, Symbol.chars, UnaryOp.spelling, Symbol.spelling]
  | binary _ _ ihl ihr =>
      rw [Expr.fold, ihl, ihr]
      refine congrArg Except.ok (String.toList_inj.mp ?_)
      simp [Term.listed, Lexeme.list, Lexeme.text, Symbol.chars, BinaryOp.spelling,
        Symbol.spelling]

/-! ## Cutting a list into its lexemes -/

namespace Lexeme

/-- Lexemes that stay apart from each other wherever an operand can stand. -/
structure Item (item : List Lexeme) : Prop where
  starts : StartsOperand item
  separated : ∀ {more : List Lexeme}, Separated more → EndsOperand more → Separated (item ++ more)

/-- The items of a list are separated from each other and from its end. -/
theorem separated_items {items : List (List Lexeme)} (h : ∀ item ∈ items, Item item)
    {more : List Lexeme} (hmore : Separated more) :
    Separated (items.flatMap (fun item => .blanks [' '] :: item) ++ .symbol .rightParen :: more) ∧
      EndsOperand (items.flatMap (fun item => .blanks [' '] :: item) ++
        .symbol .rightParen :: more) := by
  induction items with
  | nil =>
      refine ⟨⟨trivial, fun c _ => ⟨fun _ => rfl, fun _ h => by cases h⟩, hmore⟩, ?_⟩
      exact fun c hc => .inr (Option.some.inj hc).symm
  | cons item items ih =>
      obtain ⟨hitem, hitems⟩ := List.forall_mem_cons.mp h
      obtain ⟨hseparated, hends⟩ := ih hitems
      rw [List.flatMap_cons, List.append_assoc, List.cons_append]
      refine ⟨⟨inGrammar_space, ?_, hitem.separated hseparated hends⟩, ?_⟩
      · obtain ⟨c, rest, htext, hblank, -⟩ := hitem.starts.append
          (items.flatMap (fun item => .blanks [' '] :: item) ++ .symbol .rightParen :: more)
        intro d hd
        obtain rfl : c = d := Option.some.inj ((congrArg List.head? htext).symm.trans hd)
        exact hblank
      · exact fun c hc => .inl (Option.some.inj hc).symm

/-- A list is an item if its items are and nothing that stands behind its head goes on with
the head. -/
theorem item_list {head : Lexeme} (hhead : head.InGrammar)
    (hstops : ∀ more, EndsOperand more → head.StopsAt (more.flatMap text))
    {items : List (List Lexeme)} (h : ∀ item ∈ items, Item item) : Item (list head items) := by
  refine ⟨⟨'(', _, rfl, rfl, by decide, by decide⟩, fun hmore _ => ?_⟩
  obtain ⟨hseparated, hends⟩ := separated_items h hmore
  rw [list, List.cons_append, List.cons_append, List.append_assoc]
  exact ⟨trivial, fun c _ => ⟨fun _ => rfl, fun _ h => by cases h⟩, hhead, hstops _ hends,
    hseparated⟩

theorem stopsAt_symbol_of_endsOperand (s : Symbol) {more : List Lexeme} (h : EndsOperand more) :
    StopsAt (.symbol s) (more.flatMap text) := by
  intro c hc
  rcases h c hc with rfl | rfl <;>
    exact ⟨fun h => absurd h (by decide), fun h => absurd h (by decide)⟩

end Lexeme

theorem Expr.Means.item {tables : Tables} (hquotes : tables.Quoteless) {e : Expr} {m : Term}
    (h : e.Means tables m) : Lexeme.Item m.listed := by
  induction h with
  | literal hvalue =>
      have hprints := Literal.prints_lexeme hquotes hvalue
      exact ⟨hprints.startsOperand, fun hmore hends =>
        ⟨hprints.inGrammar, hprints.stopsAt hends, hmore⟩⟩
  | group _ ih =>
      have hhead : Lexeme.InGrammar (.word "group".toList) :=
        ⟨'g', _, rfl, rfl, List.all_eq_true.mp rfl⟩
      rw [Term.listed]
      refine Lexeme.item_list hhead ?_ (List.forall_mem_singleton.mpr ih)
      intro more hends c hc
      rcases hends c hc with rfl | rfl <;> rfl
  | @unary _ op _ _ _ ih =>
      have hhead : Lexeme.InGrammar (.symbol op.symbol) := trivial
      exact Lexeme.item_list hhead (fun _ => Lexeme.stopsAt_symbol_of_endsOperand _)
        (List.forall_mem_singleton.mpr ih)
  | @binary _ op _ _ _ _ _ _ ihl ihr =>
      have hhead : Lexeme.InGrammar (.symbol op.symbol) := trivial
      exact Lexeme.item_list hhead (fun _ => Lexeme.stopsAt_symbol_of_endsOperand _)
        (List.forall_mem_cons.mpr ⟨ihl, List.forall_mem_singleton.mpr ihr⟩)

theorem Expr.Means.lexemes_listed {tables : Tables} (hquotes : tables.Quoteless) {e : Expr}
    {m : Term} (h : e.Means tables m) : lexemes (m.listed.flatMap Lexeme.text) = m.listed := by
  have hnil : Lexeme.Separated [] := trivial
  have hseparated := (h.item hquotes).separated hnil (fun c hc => by cases hc)
  rw [List.append_nil] at hseparated
  exact lexemes_of_separated hseparated

/-! ## Unique readability -/

theorem Value.lexeme_injective : Function.Injective Value.lexeme := by
  rintro (value | body | (_ | _) | _) (value' | body' | (_ | _) | _) h
  case number.number =>
    have hvalue := congrArg digitsValue (Lexeme.digits.inj h)
    rw [digitsValue_repr, digitsValue_repr] at hvalue
    rw [UInt64.toNat_inj.mp hvalue]
  case string.string => rw [String.toList_inj.mp (Lexeme.quoted.inj h)]
  all_goals first | rfl | exact absurd h (by decide) | cases h

theorem Value.lexeme_ne_symbol (value : Value) (s : Symbol) : value.lexeme ≠ .symbol s := by
  rcases value with _ | _ | (_ | _) | _ <;> exact fun h => by cases h

theorem UnaryOp.symbol_injective : Function.Injective UnaryOp.symbol := fun _ _ h =>
  Option.some.inj ((ofSymbol?_eq_some_iff.mpr h).symm.trans (ofSymbol?_eq_some_iff.mpr rfl))

theorem BinaryOp.symbol_injective : Function.Injective BinaryOp.symbol := fun _ _ h =>
  Option.some.inj ((ofSymbol?_eq_some_iff.mpr h).symm.trans (ofSymbol?_eq_some_iff.mpr rfl))

namespace Term

/-- Lexemes start with this term in one way only. -/
def Readable (m : Term) : Prop :=
  ∀ ⦃m' : Term⦄ ⦃rest rest' : List Lexeme⦄,
    m.listed ++ rest = m'.listed ++ rest' → m = m' ∧ rest = rest'

/-- The items of a list can be read off, up to the parenthesis that closes it. -/
theorem items_inj {ms ms' : List Term} (h : ∀ m ∈ ms, m.Readable) {rest rest' : List Lexeme}
    (heq : (ms.map listed).flatMap (fun item => .blanks [' '] :: item) ++
        .symbol .rightParen :: rest =
      (ms'.map listed).flatMap (fun item => .blanks [' '] :: item) ++
        .symbol .rightParen :: rest') : ms = ms' ∧ rest = rest' := by
  induction ms generalizing ms' with
  | nil =>
      cases ms' with
      | nil => exact ⟨rfl, (List.cons.inj heq).2⟩
      | cons m' ms' => cases (List.cons.inj heq).1
  | cons m ms ih =>
      cases ms' with
      | nil => cases (List.cons.inj heq).1
      | cons m' ms' =>
          obtain ⟨hm, hms⟩ := List.forall_mem_cons.mp h
          simp only [List.map_cons, List.flatMap_cons, List.cons_append, List.append_assoc] at heq
          obtain ⟨rfl, hitems⟩ := hm (List.cons.inj heq).2
          obtain ⟨rfl, hrest⟩ := ih hms hitems
          exact ⟨rfl, hrest⟩

theorem list_inj {ms ms' : List Term} (h : ∀ m ∈ ms, m.Readable) {head head' : Lexeme}
    {rest rest' : List Lexeme}
    (heq : Lexeme.list head (ms.map listed) ++ rest = Lexeme.list head' (ms'.map listed) ++ rest') :
    head = head' ∧ ms = ms' ∧ rest = rest' := by
  simp only [Lexeme.list, List.cons_append, List.append_assoc, List.nil_append,
    List.cons.injEq, true_and] at heq
  exact ⟨heq.1, items_inj h heq.2⟩

/-- No term's list is the start of that of another one, or of its own with more behind it. -/
theorem readable (m : Term) : m.Readable := by
  intro m' rest rest' heq
  induction m generalizing m' rest rest' with
  | literal value =>
      cases m' with
      | literal value' =>
          obtain ⟨hvalue, hrest⟩ := List.cons.inj heq
          exact ⟨congrArg literal (Value.lexeme_injective hvalue), hrest⟩
      | _ => exact absurd (List.cons.inj heq).1 (value.lexeme_ne_symbol _)
  | group inner ih =>
      have hitems : ∀ m ∈ [inner], m.Readable := List.forall_mem_singleton.mpr ih
      cases m' with
      | literal value' => exact absurd (List.cons.inj heq).1.symm (value'.lexeme_ne_symbol _)
      | group inner' =>
          obtain ⟨-, hinner, hrest⟩ := @list_inj _ [inner'] hitems _ _ _ _ heq
          exact ⟨congrArg group (List.cons.inj hinner).1, hrest⟩
      | unary op' operand' => cases (@list_inj _ [operand'] hitems _ _ _ _ heq).1
      | binary op' left' right' => cases (@list_inj _ [left', right'] hitems _ _ _ _ heq).1
  | unary op operand ih =>
      have hitems : ∀ m ∈ [operand], m.Readable := List.forall_mem_singleton.mpr ih
      cases m' with
      | literal value' => exact absurd (List.cons.inj heq).1.symm (value'.lexeme_ne_symbol _)
      | group inner' => cases (@list_inj _ [inner'] hitems _ _ _ _ heq).1
      | unary op' operand' =>
          obtain ⟨hop, hoperand, hrest⟩ := @list_inj _ [operand'] hitems _ _ _ _ heq
          rw [UnaryOp.symbol_injective (Lexeme.symbol.inj hop), (List.cons.inj hoperand).1]
          exact ⟨rfl, hrest⟩
      -- A minus heads lists of both kinds, but their lengths differ.
      | binary op' left' right' =>
          cases (@list_inj _ [left', right'] hitems _ _ _ _ heq).2.1
  | binary op left right ihl ihr =>
      have hitems : ∀ m ∈ [left, right], m.Readable :=
        List.forall_mem_cons.mpr ⟨ihl, List.forall_mem_singleton.mpr ihr⟩
      cases m' with
      | literal value' => exact absurd (List.cons.inj heq).1.symm (value'.lexeme_ne_symbol _)
      | group inner' => cases (@list_inj _ [inner'] hitems _ _ _ _ heq).1
      | unary op' operand' => cases (@list_inj _ [operand'] hitems _ _ _ _ heq).2.1
      | binary op' left' right' =>
          obtain ⟨hop, hparts, hrest⟩ := @list_inj _ [left', right'] hitems _ _ _ _ heq
          obtain ⟨rfl, hright⟩ := List.cons.inj hparts
          rw [BinaryOp.symbol_injective (Lexeme.symbol.inj hop), (List.cons.inj hright).1]
          exact ⟨rfl, hrest⟩

/-- A term is told by its list. -/
theorem listed_injective : Function.Injective listed := fun m _ h =>
  (m.readable (congrArg (· ++ []) h)).1

end Term

/-- The lists of two expressions are the same text exactly if the expressions are the same
term. -/
theorem Expr.Means.list_eq_iff {tables tables' : Tables} (hquotes : tables.Quoteless)
    (hquotes' : tables'.Quoteless) {e e' : Expr} {m m' : Term} (h : e.Means tables m)
    (h' : e'.Means tables' m') :
    m.listed.flatMap Lexeme.text = m'.listed.flatMap Lexeme.text ↔ m = m' := by
  refine ⟨fun htext => Term.listed_injective ?_, fun hterm => hterm ▸ rfl⟩
  rw [← h.lexemes_listed hquotes, htext, h'.lexemes_listed hquotes']

/-- Two complete arenas that were built by hand, each with literals that are valid for the
tokens of some source, are written as the same list exactly if they have the same term. -/
theorem sexp_eq_iff {source source' : String} {t t' : Tokenization} (hlex : lex source = .ok t)
    (hlex' : lex source' = .ok t') {a a' : Ast} (hreach : a.arena.Reachable)
    (hreach' : a'.arena.Reachable) (hcomplete : a.Complete) (hcomplete' : a'.Complete)
    (hvalid : a.ValidIn t.tables) (hvalid' : a'.ValidIn t'.tables) :
    ∃ text text' m m', a.sexp t.tables = .ok text ∧ a'.sexp t'.tables = .ok text' ∧
      a.term t.tables = .ok m ∧ a'.term t'.tables = .ok m' ∧ (text = text' ↔ m = m') := by
  obtain ⟨e, m, htree, hm⟩ := hcomplete.exists_means hreach hvalid
  obtain ⟨e', m', htree', hm'⟩ := hcomplete'.exists_means hreach' hvalid'
  have hquotes := quoteless_of_lex hlex
  have hquotes' := quoteless_of_lex hlex'
  refine ⟨_, _, m, m', (htree.foldAt_root fun _ _ => rfl).trans (hm.fold_sexp hquotes),
    (htree'.foldAt_root fun _ _ => rfl).trans (hm'.fold_sexp hquotes'), hm.term_eq htree,
    hm'.term_eq htree', ?_⟩
  rw [String.ofList_inj]
  exact hm.list_eq_iff hquotes hquotes' hm'

/-- A number with its sign, less a string, built from the top down. -/
def differenceDown : Ast where
  arena := Arena.empty.afterAll [.addRoot ⟨.root, .start⟩,
    .addChild 0 ⟨.binary .subtract, .start⟩, .addChild 1 ⟨.unary .negate, .start⟩,
    .addChild 2 ⟨.literal (.number ⟨0⟩), .start⟩, .addChild 1 ⟨.literal (.string ⟨0⟩), .start⟩]
  root := 0
  expr := 1
  root_eq := rfl
  entry := ⟨_, rfl, rfl, rfl⟩

/-- The same difference from the number up, with another index for the number. -/
def differenceUp : Ast where
  arena := Arena.empty.afterAll [.addRoot ⟨.literal (.number ⟨1⟩), .start⟩,
    .addRoot ⟨.unary .negate, .start⟩, .addRoot ⟨.binary .subtract, .start⟩,
    .addChild 2 ⟨.literal (.string ⟨0⟩), .start⟩, .addRoot ⟨.root, .start⟩]
  root := 4
  expr := 2
  root_eq := rfl
  entry := ⟨_, rfl, rfl, rfl⟩

/-- How a tree was built and how its literals are numbered does not show in its list. -/
theorem sexp_eq_iff_differences :
    differenceDown.Complete ∧ differenceUp.Complete ∧
      ∃ t t' text, lex "7 \"a b\"" = .ok t ∧ lex "8 \"a b\" 7" = .ok t' ∧
        differenceDown.ValidIn t.tables ∧ differenceUp.ValidIn t'.tables ∧
        differenceDown.sexp t.tables = .ok text ∧ differenceUp.sexp t'.tables = .ok text := by
  have hdown : differenceDown.Complete := by decide +kernel
  have hup : differenceUp.Complete := by decide +kernel
  have hdownValid : differenceDown.ValidIn (tokenize "7 \"a b\"").tables := by decide +kernel
  have hupValid : differenceUp.ValidIn (tokenize "8 \"a b\" 7").tables := by decide +kernel
  have hterms : differenceDown.term (tokenize "7 \"a b\"").tables =
      differenceUp.term (tokenize "8 \"a b\" 7").tables := by decide +kernel
  obtain ⟨text, text', m, m', htext, htext', hm, hm', hiff⟩ :=
    sexp_eq_iff (lex_of_lt (by decide)) (lex_of_lt (by decide)) ⟨_, rfl⟩ ⟨_, rfl⟩ hdown hup
      hdownValid hupValid
  rw [hm, hm'] at hterms
  obtain rfl := hiff.mpr (Except.ok.inj hterms)
  exact ⟨hdown, hup, _, _, text, lex_of_lt (by decide), lex_of_lt (by decide), hdownValid,
    hupValid, htext, htext'⟩

end LoxReader
