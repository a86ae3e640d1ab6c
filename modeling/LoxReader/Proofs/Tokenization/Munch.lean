/-
  `Proofs.Tokenization.Munch`: the tokens of a source are those of its maximal munch.

  The main statement is `lex_maximalMunch`.  A source is cut in the only way that
  maximal munch allows, nothing between two pieces is left out, and each piece that is
  no trivia gives the one token that it denotes.  A source that is shorter than the
  largest offset is never refused.
-/
import LoxReader.Proofs.Lexeme.Munch
import LoxReader.Proofs.Source.Extent
import LoxReader.Proofs.Tokenization.Meaning

set_option autoImplicit false

namespace LoxReader

/-! ## The end of the tokens -/

theorem Denotes.ne_eof {tables : Tables} {l : Lexeme} {kind : TokenKind}
    (h : Denotes tables l kind) : kind ≠ .eof := by
  cases h <;> simp

/-- The tokens of lexemes end with one mark of the end, behind the last lexeme. -/
theorem Reads.exists_eof {tables : Tables} {loc : Location} {ls : List Lexeme}
    {ts : List Token} (h : Reads tables loc ls ts) :
    ∃ init, ts = init ++ [⟨.eof, loc.advance (ls.flatMap Lexeme.text)⟩] ∧
      ∀ t ∈ init, t.kind ≠ .eof := by
  induction h with
  | eof => exact ⟨[], rfl, by simp⟩
  | trivia _ _ ih =>
      obtain ⟨init, rfl, hinit⟩ := ih
      refine ⟨init, ?_, hinit⟩
      rw [List.flatMap_cons, Location.advance_append]
  | @token loc l kind ls ts hdenotes _ ih =>
      obtain ⟨init, rfl, hinit⟩ := ih
      refine ⟨⟨kind, loc⟩ :: init, ?_, List.forall_mem_cons.mpr ⟨hdenotes.ne_eof, hinit⟩⟩
      rw [List.flatMap_cons, Location.advance_append, List.cons_append]

/-! ## Which sources are read -/

/-- A source is read if its bytes and the places in it can be counted. -/
theorem lex_eq_ok_iff {source : String} {t : Tokenization} :
    lex source = .ok t ↔ source.utf8ByteSize ≤ SourceFault.maxBytes ∧
      (Location.start.advance source.toList).Fits ∧ t = tokenize source := by
  unfold lex
  split
  · rename_i hlong
    simp [Nat.not_le.mpr hlong]
  · rename_i hshort
    split
    · rename_i hfits
      simp [Nat.not_lt.mp hshort, hfits, eq_comm]
    · rename_i hfits
      simp [hfits]

/-- A source that is read at all has the tokens of its lexemes. -/
theorem eq_tokenize_of_lex {source : String} {t : Tokenization} (h : lex source = .ok t) :
    t = tokenize source :=
  (lex_eq_ok_iff.mp h).2.2

/-- A source with fewer bytes than the largest offset is read. -/
theorem lex_of_lt {source : String} (h : source.utf8ByteSize < SourceFault.maxBytes) :
    lex source = .ok (tokenize source) := by
  have hfits : (Location.start.advance source.toList).Fits := by
    apply Location.fits_advance
    rw [byteSize_toList]
    exact h
  unfold lex
  rw [if_neg (Nat.not_lt.mpr (Nat.le_of_lt h)), if_pos hfits]

/-! ## The tokens of a source -/

/-- The tokens of a source by maximal munch: its only such lexemes are all of it, each
lexeme that is no trivia gives the token that it denotes, and the last token is the
only mark of the end and stands behind the last byte. -/
structure Tokenization.IsMunch (t : Tokenization) (source : String) (ls : List Lexeme) :
    Prop where
  lexemes_iff : ∀ other, MaximalMunch source.toList other ↔ other = ls
  text_eq : ls.flatMap Lexeme.text = source.toList
  reads : Reads t.tables .start ls t.tokens.toList
  ends : ∃ init loc, t.tokens.toList = init ++ [⟨.eof, loc⟩] ∧
    (∀ token ∈ init, token.kind ≠ .eof) ∧ loc.offset = source.utf8ByteSize

theorem tokenize_reads (source : String) :
    Reads (tokenize source).tables .start (lexemes source.toList)
      (tokenize source).tokens.toList := by
  obtain ⟨ts, htokens, hreads, -⟩ :=
    Tokenization.readFrom_reads (.unread source) .start (lexemes source.toList)
  have hts : (tokenize source).tokens.toList = ts := htokens
  rw [hts]
  exact hreads

theorem tokenize_isMunch (source : String) :
    (tokenize source).IsMunch source (lexemes source.toList) := by
  have hreads := tokenize_reads source
  obtain ⟨init, htokens, hinit⟩ := hreads.exists_eof
  rw [text_lexemes] at htokens
  refine ⟨fun other => maximalMunch_iff, text_lexemes _, hreads, init, _, htokens, hinit, ?_⟩
  rw [Location.offset_advance, byteSize_toList]
  exact Nat.zero_add _

/-- Whenever a source is read, its tokens are those of its maximal munch, and every
source with fewer bytes than the largest offset is read. -/
theorem lex_maximalMunch (source : String) :
    (∀ t, lex source = .ok t → ∃ ls, t.IsMunch source ls) ∧
      (source.utf8ByteSize < SourceFault.maxBytes → ∃ t, lex source = .ok t) := by
  constructor
  · intro t ht
    rw [eq_tokenize_of_lex ht]
    exact ⟨_, tokenize_isMunch source⟩
  · intro h
    exact ⟨_, lex_of_lt h⟩

/-- A comment that starts where an operator could, next to a string that is left open,
in a text with characters of more than one byte. -/
theorem lex_maximalMunch_comment :
    ∃ t ls, lex "!=é///=\n\"1//" = .ok t ∧ t.IsMunch "!=é///=\n\"1//" ls := by
  obtain ⟨t, ht⟩ := (lex_maximalMunch "!=é///=\n\"1//").2 (by decide)
  obtain ⟨ls, hls⟩ := (lex_maximalMunch "!=é///=\n\"1//").1 t ht
  exact ⟨t, ls, ht, hls⟩

end LoxReader
