/-
  `Proofs.Expr.Relocation`: the same tokens in other places.

  Whether tokens are an expression, and which of them cannot stand where it does, depends on
  their kinds only.  So tokens of the same kinds are refused at the same token and for the
  same reason (`ParseError.IsFirst.alike`).
-/
import LoxReader.Proofs.Expr.Kinds
import LoxReader.Proofs.Expr.Order
import LoxReader.Proofs.Expr.ViablePrefix
import Mathlib.Data.List.Forall2

set_option autoImplicit false

namespace LoxReader

variable {ts ts' : List Token}

/-! ## What depends on kinds only -/

theorem Sentence.of_kinds (h : Sentence ts) (hkinds : ts'.map Token.kind = ts.map Token.kind) :
    Sentence ts' := by
  obtain ⟨e, he⟩ := h
  obtain ⟨e', he', -⟩ := he.of_kinds hkinds
  exact ⟨e', he'⟩

theorem Viable.of_kinds (h : Viable ts) (hkinds : ts'.map Token.kind = ts.map Token.kind) :
    Viable ts' := by
  obtain ⟨more, hmore⟩ := h
  exact ⟨more, hmore.of_kinds (by rw [List.map_append, List.map_append, hkinds])⟩

theorem OperandDue.of_kinds (h : OperandDue ts)
    (hkinds : ts'.map Token.kind = ts.map Token.kind) : OperandDue ts' := by
  intro token htoken
  have hlast : (ts.map Token.kind).getLast? = some token.kind := by
    rw [← hkinds, List.getLast?_map, htoken]
    rfl
  rw [List.getLast?_map, Option.map_eq_some_iff] at hlast
  obtain ⟨other, hother, hkind⟩ := hlast
  have hcalls := h other hother
  unfold Token.CallsForOperand at hcalls ⊢
  rwa [← hkind]

/-! ## Places that correspond -/

/-- The tokens of some number stand at the two places. -/
def Corresponds (ts ts' : List Token) (loc loc' : Location) : Prop :=
  ∃ (i : Nat) (token token' : Token), ts[i]? = some token ∧ ts'[i]? = some token' ∧
    loc = token.loc ∧ loc' = token'.loc

theorem forall₂_corresponds (hkinds : ts'.map Token.kind = ts.map Token.kind) :
    List.Forall₂ (fun a b => b.kind = a.kind ∧ Corresponds ts ts' a.loc b.loc) ts ts' := by
  have hlength : ts.length = ts'.length := by simpa using congrArg List.length hkinds.symm
  refine List.forall₂_iff_get.mpr ⟨hlength, fun i hi hi' => ⟨?_, i, _, _,
    List.getElem?_eq_getElem hi, List.getElem?_eq_getElem hi', rfl, rfl⟩⟩
  have hkind := congrArg (fun kinds => kinds[i]?) hkinds
  simpa [hi, hi'] using hkind

section Openings

variable {R : Location → Location → Prop} {openings openings' : List Location}

theorem forall₂_openingsAfter (hopen : List.Forall₂ R openings openings') {token token' : Token}
    (hkind : token'.kind = token.kind) (hloc : R token.loc token'.loc) :
    List.Forall₂ R (openingsAfter openings token) (openingsAfter openings' token') := by
  unfold openingsAfter
  rw [hkind]
  split
  · exact .cons hloc hopen
  · cases hopen with
    | nil => exact .nil
    | cons _ houter => exact houter
  · exact hopen

/-- Parentheses that are left open in tokens of the same kinds correspond. -/
theorem forall₂_foldl_openingsAfter (hopen : List.Forall₂ R openings openings')
    (hts : List.Forall₂ (fun a b => b.kind = a.kind ∧ R a.loc b.loc) ts ts') :
    List.Forall₂ R (ts.foldl openingsAfter openings) (ts'.foldl openingsAfter openings') := by
  induction hts generalizing openings openings' with
  | nil => exact hopen
  | cons hfirst _ ih => exact ih (forall₂_openingsAfter hopen hfirst.1 hfirst.2)

end Openings

/-- Tokens of the same kinds give nodes of the same forms, in places that correspond. -/
theorem Gives.forall₂ {R : Location → Location → Prop} {due due' due'' : Bool}
    {es es' : List Entry} (h : Gives due ts es due') (h' : Gives due ts' es' due'')
    (hts : List.Forall₂ (fun a b => b.kind = a.kind ∧ R a.loc b.loc) ts ts') :
    List.Forall₂ (fun a b => b.form = a.form ∧ R a.loc b.loc) es es' := by
  -- No token that closes a parenthesis gives a node.
  have hclosing : ∀ due, Form.ofToken? due (.symbol .rightParen) = none := fun due => by
    cases due <;> rfl
  induction h generalizing ts' es' with
  | nil =>
      cases hts
      cases h'
      exact .nil
  | close hclose _ ih =>
      obtain ⟨token', rest', hfirst, hrest, rfl⟩ := List.forall₂_cons_left_iff.mp hts
      cases h' with
      | close _ h' => exact ih h' hrest
      | node hform' _ =>
          rw [hfirst.1, hclose, hclosing] at hform'
          cases hform'
  | node hform _ ih =>
      obtain ⟨token', rest', hfirst, hrest, rfl⟩ := List.forall₂_cons_left_iff.mp hts
      cases h' with
      | close hclose' _ =>
          rw [← hfirst.1, hclose', hclosing] at hform
          cases hform
      | node hform' h' =>
          rw [hfirst.1, hform] at hform'
          rw [hfirst.1] at h'
          exact .cons ⟨(Option.some.inj hform').symm, hfirst.2⟩ (ih h' hrest)

/-! ## Errors that correspond -/

/-- The same was needed, and where it is the parenthesis that closes another, the places of
these correspond. -/
inductive ParseErrorKind.Alike (same : Location → Location → Prop) :
    ParseErrorKind → ParseErrorKind → Prop
  | expectedExpression : Alike same .expectedExpression .expectedExpression
  | unclosedParen {opening opening' : Location} :
      same opening opening' → Alike same (.unclosedParen opening) (.unclosedParen opening')
  | expectedEndOfInput : Alike same .expectedEndOfInput .expectedEndOfInput

theorem ParseErrorKind.Alike.mono {R S : Location → Location → Prop} {kind kind' : ParseErrorKind}
    (h : kind.Alike R kind') (hsub : ∀ {a b}, R a b → S a b) : kind.Alike S kind' := by
  cases h with
  | expectedExpression => exact .expectedExpression
  | unclosedParen hsame => exact .unclosedParen (hsub hsame)
  | expectedEndOfInput => exact .expectedEndOfInput

/-- The errors are at tokens of the same number and tag, and the same was needed. -/
structure ParseError.Alike (err err' : ParseError) (ts ts' : List Token) : Prop where
  position : err'.position = err.position
  found : err'.found = err.found
  kind : err.kind.Alike (Corresponds ts ts') err'.kind
  loc : Corresponds ts ts' err.loc err'.loc

namespace ParseError.IsFirst

variable {eof eof' : Token} {err err' : ParseError}

theorem position_le_of_kinds (h : err.IsFirst ts eof) (h' : err'.IsFirst ts' eof')
    (hkinds : ts'.map Token.kind = ts.map Token.kind) : err.position ≤ err'.position := by
  have hlength : ts'.length = ts.length := by simpa using congrArg List.length hkinds
  have hviable := (h.viable_iff _ h.position_le).mpr (Nat.le_refl _)
  refine (h'.viable_iff _ (hlength ▸ h.position_le)).mp (hviable.of_kinds ?_)
  rw [List.map_take, List.map_take, hkinds]

/-- The first tokens that cannot stand where they do have the same number in tokens of the
same kinds, and the same was needed. -/
theorem alike (h : err.IsFirst ts eof) (h' : err'.IsFirst ts' eof')
    (hkinds : ts'.map Token.kind = ts.map Token.kind) (heof : eof'.kind = eof.kind) :
    err.Alike err' (ts ++ [eof]) (ts' ++ [eof']) := by
  -- Up to the one error an expression can start with the tokens before the other.
  have hposition : err'.position = err.position :=
    Nat.le_antisymm (h'.position_le_of_kinds h hkinds.symm) (h.position_le_of_kinds h' hkinds)
  have hall : (ts' ++ [eof']).map Token.kind = (ts ++ [eof]).map Token.kind := by
    rw [List.map_append, List.map_append, hkinds, List.map_singleton, heof, List.map_singleton]
  have htake : (ts'.take err'.position).map Token.kind =
      (ts.take err.position).map Token.kind := by
    rw [hposition, List.map_take, List.map_take, hkinds]
  -- So the same parentheses are open there, and the innermost ones correspond.
  have hopen : List.Forall₂ (Corresponds (ts ++ [eof]) (ts' ++ [eof']))
      (unmatched (ts.take err.position)) (unmatched (ts'.take err'.position)) := by
    have htokens := List.forall₂_take err.position (forall₂_corresponds hall)
    rw [List.take_append_of_le_length h.position_le,
      List.take_append_of_le_length (hposition ▸ h'.position_le)] at htokens
    rw [hposition]
    exact forall₂_foldl_openingsAfter .nil htokens
  obtain ⟨token, htoken, hfound, hloc⟩ := h.token
  obtain ⟨token', htoken', hfound', hloc'⟩ := h'.token
  rw [hposition] at htoken'
  refine ⟨hposition, ?_, ?_, err.position, token, token', htoken, htoken', hloc, hloc'⟩
  · have hkind := congrArg (fun kinds => kinds[err.position]?) hall
    simp only [List.getElem?_map, htoken, htoken', Option.map_some, Option.some.injEq] at hkind
    rw [hfound, hfound', Token.tag, Token.tag, hkind]
  · cases hkind : err.kind with
    | expectedExpression =>
        rw [h'.expectedExpression_iff.mpr ((h.expectedExpression_iff.mp hkind).of_kinds htake)]
        exact .expectedExpression
    | unclosedParen opening =>
        obtain ⟨hdue, hhead⟩ := (h.unclosedParen_iff opening).mp hkind
        obtain ⟨outer, houter⟩ := List.head?_eq_some_iff.mp hhead
        rw [houter] at hopen
        obtain ⟨opening', outer', hsame, -, hcons⟩ := List.forall₂_cons_left_iff.mp hopen
        have hhead' : (unmatched (ts'.take err'.position)).head? = some opening' := by
          rw [hcons]
          rfl
        rw [(h'.unclosedParen_iff opening').mpr
          ⟨fun hdue' => hdue (hdue'.of_kinds htake.symm), hhead'⟩]
        exact .unclosedParen hsame
    | expectedEndOfInput =>
        obtain ⟨hdue, hnone⟩ := h.expectedEndOfInput_iff.mp hkind
        rw [hnone, List.forall₂_nil_left_iff] at hopen
        rw [h'.expectedEndOfInput_iff.mpr ⟨fun hdue' => hdue (hdue'.of_kinds htake.symm), hopen⟩]
        exact .expectedEndOfInput

end ParseError.IsFirst

end LoxReader
