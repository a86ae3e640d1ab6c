/-
  `Proofs.Cursor`: the tokens that a cursor takes on its way.
-/
import LoxReader.Cursor

set_option autoImplicit false

namespace LoxReader

/-- The last of tokens is the last of those behind some of them. -/
theorem endsWithEof_append (ts : List Token) (token : Token) (rest : List Token) :
    endsWithEof (ts ++ token :: rest) = endsWithEof (token :: rest) := by
  induction ts with
  | nil => rfl
  | cons first more ih =>
      cases more with
      | nil => rfl
      | cons second more => exact ih

/-- Tokens behind which the mark of the end is put end with it. -/
theorem endsWithEof_concat {eof : Token} (h : eof.kind = .eof) (ts : List Token) :
    endsWithEof (ts ++ [eof]) = true := by
  rw [endsWithEof_append]
  simp [endsWithEof, Token.isEof, h]

namespace Cursor

/-- The tokens from the cursor on. -/
def tokens (c : Cursor) : List Token :=
  c.current :: c.upcoming

/-- Taking the tokens `ts` one by one leads from one cursor to the other. -/
structure Takes (c : Cursor) (ts : List Token) (c' : Cursor) : Prop where
  tokens_eq : c.tokens = ts ++ c'.tokens
  position_eq : c'.position = c.position + ts.length

/-- A cursor is what it has in front of it and the number of tokens behind it. -/
theorem eq_of_tokens {c c' : Cursor} (htokens : c.tokens = c'.tokens)
    (hposition : c.position = c'.position) : c = c' := by
  cases c
  cases c'
  simp_all [tokens]

namespace Takes

variable {c c' c'' : Cursor} {ts ts' : List Token}

theorem refl (c : Cursor) : c.Takes [] c :=
  ⟨rfl, rfl⟩

/-- A step takes the current token. -/
theorem next (h : c.kind ≠ .eof) : c.Takes [c.current] (c.next h) :=
  ⟨by simp [tokens, c.upcoming_eq h], by simp⟩

theorem trans (h : c.Takes ts c') (h' : c'.Takes ts' c'') : c.Takes (ts ++ ts') c'' := by
  refine ⟨?_, ?_⟩
  · rw [h.tokens_eq, h'.tokens_eq, List.append_assoc]
  · rw [h'.position_eq, h.position_eq, List.length_append, Nat.add_assoc]

/-- A step and what is taken after it. -/
theorem cons (h : c.kind ≠ .eof) (h' : (c.next h).Takes ts c') :
    c.Takes (c.current :: ts) c' :=
  (next h).trans h'

/-- The first token that is taken is the current one. -/
theorem current_eq {token : Token} (h : c.Takes (token :: ts) c') : c.current = token :=
  (List.cons.inj h.tokens_eq).1

/-- What is taken after a step, if more than a step is taken. -/
theorem of_cons {token : Token} (h : c.kind ≠ .eof) (h' : c.Takes (token :: ts) c') :
    (c.next h).Takes ts c' := by
  have htokens := h'.tokens_eq
  rw [(next h).tokens_eq, List.singleton_append, List.cons_append, List.cons.injEq] at htokens
  refine ⟨htokens.2, ?_⟩
  have hposition := h'.position_eq
  rw [List.length_cons] at hposition
  rw [position_next]
  omega

/-- What is taken leads to one cursor. -/
theorem unique (h : c.Takes ts c') (h' : c.Takes ts c'') : c' = c'' := by
  apply eq_of_tokens
  · exact List.append_cancel_left (h.tokens_eq.symm.trans h'.tokens_eq)
  · rw [h.position_eq, h'.position_eq]

/-- Nothing is taken on the way to where the cursor is. -/
theorem eq_of_nil (h : c.Takes [] c') : c = c' :=
  (refl c).unique h

/-- There is a cursor wherever tokens are left. -/
theorem exists_of_tokens_eq {token : Token} {rest : List Token}
    (h : c.tokens = ts ++ token :: rest) : ∃ c', c.Takes ts c' ∧ c'.tokens = token :: rest := by
  have hends : endsWithEof (token :: rest) = true := by
    rw [← endsWithEof_append ts token rest, ← h]
    exact c.ends
  exact ⟨⟨c.position + ts.length, token, rest, hends⟩, ⟨h, rfl⟩, rfl⟩

/-- What is taken can be taken in two parts. -/
theorem split (h : c.Takes (ts ++ ts') c') : ∃ c₁, c.Takes ts c₁ ∧ c₁.Takes ts' c' := by
  have htokens := h.tokens_eq
  rw [List.append_assoc] at htokens
  obtain ⟨token, rest, hrest⟩ : ∃ token rest, ts' ++ c'.tokens = token :: rest :=
    List.exists_cons_of_ne_nil (List.append_ne_nil_of_right_ne_nil ts' (List.cons_ne_nil _ _))
  rw [hrest] at htokens
  obtain ⟨c₁, htakes, hc₁⟩ := exists_of_tokens_eq htokens
  refine ⟨c₁, htakes, hc₁.trans hrest.symm, ?_⟩
  rw [h.position_eq, htakes.position_eq, List.length_append, Nat.add_assoc]

/-- What is taken up to the mark of the end is all there is, if the mark is the last of
the tokens only. -/
theorem eq_of_eof {eof : Token} (htokens : c.tokens = ts' ++ [eof])
    (hts' : ∀ token ∈ ts', token.kind ≠ .eof) (h : c.Takes ts c') (heof : c'.kind = .eof) :
    ts = ts' := by
  have heq : ts' ++ [eof] = ts ++ c'.current :: c'.upcoming := htokens.symm.trans h.tokens_eq
  rcases List.append_eq_append_iff.mp heq with ⟨more, hmore, htail⟩ | ⟨more, hmore, htail⟩
  · cases more with
    | nil => rw [hmore, List.append_nil]
    | cons first rest =>
        have hlength := congrArg List.length htail
        simp at hlength
  · cases more with
    | nil => rw [hmore, List.append_nil]
    | cons first rest =>
        rw [List.cons_append, List.cons.injEq] at htail
        refine absurd heof (hts' c'.current ?_)
        rw [hmore, htail.1]
        simp

end Takes

/-- A cursor is at the end if the current token marks it. -/
theorem atEnd_iff {c : Cursor} : c.atEnd = true ↔ c.kind = .eof := by
  unfold atEnd tag kind Token.tag
  cases c.current.kind <;> simp [TokenKind.tag]

/-! ## Moving -/

section Advance

variable {c c' : Cursor} {token : Token}

theorem loc_current (c : Cursor) : c.current.loc = c.loc :=
  rfl

theorem advance_eq_ok (h : c.kind ≠ .eof) : c.advance = .ok (c.current, c.next h) := by
  rw [advance, dif_neg h]

/-- Moving leaves fewer tokens. -/
theorem remaining_of_advance (h : c.advance = .ok (token, c')) :
    c'.remaining < c.remaining := by
  unfold advance at h
  split at h
  · cases h
  · rename_i hkind
    cases h
    have hnext := c.remaining_next hkind
    omega

end Advance

/-! ## Starting -/

/-- A cursor is made at the first of the tokens. -/
theorem tokens_of_ofTokens {ts : List Token} {c : Cursor} (h : ofTokens ts = .ok c) :
    c.tokens = ts := by
  unfold ofTokens at h
  split at h
  · cases h
  · split at h
    · cases h
      rfl
    · cases h

/-- A cursor is made at the first of tokens that end with the mark of the end. -/
theorem ofTokens_of_ends {token : Token} {rest : List Token}
    (h : endsWithEof (token :: rest) = true) :
    ofTokens (token :: rest) = .ok ⟨0, token, rest, h⟩ := by
  rw [ofTokens, dif_pos h]

/-- A cursor is made before tokens and the mark of the end. -/
theorem exists_ofTokens {eof : Token} (h : eof.kind = .eof) (ts : List Token) :
    ∃ c, ofTokens (ts ++ [eof]) = .ok c ∧ c.tokens = ts ++ [eof] ∧ c.position = 0 := by
  have hends := endsWithEof_concat h ts
  cases hts : ts ++ [eof] with
  | nil => simp at hts
  | cons token rest =>
      rw [hts] at hends
      exact ⟨_, ofTokens_of_ends hends, rfl, rfl⟩

end Cursor

end LoxReader
