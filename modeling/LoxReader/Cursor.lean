/-
  `Cursor`: a place in a list of tokens that ends with the end of the source.

  A cursor only moves forward, one token at a time, and never past the mark of the
  end; its type knows that there is such a mark ahead.
-/
import LoxReader.Token.Basic

set_option autoImplicit false

namespace LoxReader

/-- Why a cursor cannot be made or moved. -/
inductive CursorFault where
  /-- The tokens do not end with the mark of the end. -/
  | missingEof
  /-- The cursor stands at the mark of the end. -/
  | pastEnd
deriving DecidableEq

/-- The fault in words. -/
def CursorFault.message : CursorFault → String
  | .missingEof => "token stream must end with Eof"
  | .pastEnd => "advance past end of token stream"

/-- Whether the last of the tokens is the mark of the end. -/
def endsWithEof : List Token → Bool
  | [] => false
  | [token] => token.isEof
  | _ :: next :: rest => endsWithEof (next :: rest)

/-- A single token that ends a list of tokens is the mark of the end. -/
theorem kind_of_endsWithEof {token : Token} (h : endsWithEof [token] = true) :
    token.kind = .eof := by
  simpa [endsWithEof, Token.isEof] using h

/-- The current token, those after it, and the number of those before it. -/
structure Cursor where
  position : Nat
  current : Token
  upcoming : List Token
  ends : endsWithEof (current :: upcoming) = true

namespace Cursor

/-- A cursor at the first token. -/
def ofTokens : List Token → Except CursorFault Cursor
  | [] => .error .missingEof
  | token :: rest =>
    if ends : endsWithEof (token :: rest) = true then
      .ok ⟨0, token, rest, ends⟩
    else
      .error .missingEof

/-- The number of tokens after the current one. -/
def remaining (c : Cursor) : Nat :=
  c.upcoming.length

/-- The kind of the current token. -/
def kind (c : Cursor) : TokenKind :=
  c.current.kind

/-- The kind of the current token without its payload. -/
def tag (c : Cursor) : TokenTag :=
  c.current.tag

/-- The place of the current token. -/
def loc (c : Cursor) : Location :=
  c.current.loc

/-- Whether the current token has this tag. -/
def check (c : Cursor) (tag : TokenTag) : Bool :=
  c.tag == tag

/-- Whether the current token marks the end. -/
def atEnd (c : Cursor) : Bool :=
  c.tag == .eof

/-- The cursor at the next token, which there is if this is not the last. -/
def next (c : Cursor) (h : c.kind ≠ .eof) : Cursor :=
  match c, h with
  | ⟨_, _, [], ends⟩, h => absurd (kind_of_endsWithEof ends) h
  | ⟨position, _, token :: rest, ends⟩, _ => ⟨position + 1, token, rest, ends⟩

/-- The current token, and the cursor at the next. -/
def advance (c : Cursor) : Except CursorFault (Token × Cursor) :=
  if h : c.kind = .eof then .error .pastEnd else .ok (c.current, c.next h)

@[simp] theorem position_next (c : Cursor) (h : c.kind ≠ .eof) :
    (c.next h).position = c.position + 1 := by
  unfold next
  split
  · rename_i ends h'
    exact absurd (kind_of_endsWithEof ends) h'
  · rfl

/-- The tokens ahead of the next cursor are those ahead of this one without the
current one. -/
theorem upcoming_eq (c : Cursor) (h : c.kind ≠ .eof) :
    c.upcoming = (c.next h).current :: (c.next h).upcoming := by
  unfold next
  split
  · rename_i ends h'
    exact absurd (kind_of_endsWithEof ends) h'
  · rfl

/-- A step leaves one token less. -/
theorem remaining_next (c : Cursor) (h : c.kind ≠ .eof) :
    (c.next h).remaining + 1 = c.remaining := by
  simp [remaining, c.upcoming_eq h]

/-- A cursor can be moved unless it stands at the mark of the end. -/
theorem advance_eq_error_iff {c : Cursor} {f : CursorFault} :
    c.advance = .error f ↔ c.kind = .eof ∧ f = .pastEnd := by
  unfold advance
  split
  · rename_i h
    simp [h, eq_comm]
  · rename_i h
    simp [h]

end Cursor

end LoxReader
