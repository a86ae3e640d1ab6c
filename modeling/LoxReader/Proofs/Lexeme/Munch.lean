/-
  `Proofs.Lexeme.Munch`: cutting a text is maximal munch.

  A text is cut by maximal munch when every piece is the longest lexeme of the
  grammar that stands at its head, or one stray character where no lexeme of the
  grammar does.  The main statement is `maximalMunch_iff`: there is exactly one such
  way to cut a text, and `lexemes` is it.
-/
import LoxReader.Proofs.Lexeme.Grammar

set_option autoImplicit false

namespace LoxReader

namespace Lexeme

/-- A lexeme of the grammar that stands at the head of a text, where no longer one
does. -/
structure LongestAt (l : Lexeme) (text : List Char) : Prop where
  inGrammar : l.InGrammar
  isPrefix : l.text <+: text
  longest : ∀ other : Lexeme, other.InGrammar → other.text <+: text →
    other.text.length ≤ l.text.length

/-- A text at the head of which no lexeme of the grammar stands. -/
def NoneAt (text : List Char) : Prop :=
  ∀ other : Lexeme, other.InGrammar → ¬ other.text <+: text

end Lexeme

/-- The lexemes of a text by maximal munch, with nothing left out between them. -/
inductive MaximalMunch : List Char → List Lexeme → Prop
  | nil : MaximalMunch [] []
  | lexeme {l : Lexeme} {rest : List Char} {ls : List Lexeme} :
      l.LongestAt (l.text ++ rest) → MaximalMunch rest ls →
        MaximalMunch (l.text ++ rest) (l :: ls)
  | stray {c : Char} {rest : List Char} {ls : List Lexeme} :
      Lexeme.NoneAt (c :: rest) → MaximalMunch rest ls →
        MaximalMunch (c :: rest) (.stray c :: ls)

namespace Lexeme

/-! ## What is cut off is in the grammar -/

theorem inGrammar_nextString (rest : List Char) : (nextString rest).1.InGrammar := by
  unfold nextString
  split
  · rename_i h
    intro hquote
    have := List.dropWhile_eq_nil_iff.mp h '"' hquote
    simp at this
  · intro hquote
    have := List.mem_takeWhile_imp hquote
    simp at this

theorem inGrammar_nextSymbol (s : Symbol) (rest : List Char) :
    (nextSymbol s rest).1.InGrammar := by
  unfold nextSymbol
  split
  · intro hfeed
    have := List.mem_takeWhile_imp hfeed
    simp at this
  · trivial

section Runs

variable {c : Char}

theorem inGrammar_blanks (h : isBlank c = true) (rest : List Char) :
    (blanks (c :: rest.takeWhile isBlank)).InGrammar := by
  refine ⟨List.cons_ne_nil _ _, List.forall_mem_cons.mpr ⟨h, ?_⟩⟩
  intro d hd
  exact List.mem_takeWhile_imp hd

theorem inGrammar_digits (h : c.isDigit = true) (rest : List Char) :
    (digits (c :: rest.takeWhile Char.isDigit)).InGrammar := by
  refine ⟨List.cons_ne_nil _ _, List.forall_mem_cons.mpr ⟨h, ?_⟩⟩
  intro d hd
  exact List.mem_takeWhile_imp hd

theorem inGrammar_word (h : isWordStart c = true) (rest : List Char) :
    (word (c :: rest.takeWhile isWordChar)).InGrammar := by
  refine ⟨c, _, rfl, h, ?_⟩
  intro d hd
  exact List.mem_takeWhile_imp hd

end Runs

/-- What is cut off a text is a lexeme of the grammar or a stray character. -/
theorem inGrammar_next (c : Char) (rest : List Char) :
    (next c rest).1.InGrammar ∨ next c rest = (.stray c, rest) := by
  unfold next
  split
  · rename_i hblank
    exact .inl (inGrammar_blanks hblank rest)
  split
  · rename_i hdigit
    exact .inl (inGrammar_digits hdigit rest)
  split
  · rename_i hstart
    exact .inl (inGrammar_word hstart rest)
  split
  · exact .inl (inGrammar_nextString rest)
  split
  · exact .inl (inGrammar_nextSymbol _ rest)
  · exact .inr rfl

/-- A lexeme that is cut off a text starts with its first character. -/
theorem exists_tail_of_next {c : Char} {rest : List Char} (h : (next c rest).1.InGrammar) :
    ∃ tail, (next c rest).1.text = c :: tail ∧ tail ++ (next c rest).2 = rest := by
  obtain ⟨d, tail, htext⟩ := List.exists_cons_of_ne_nil (text_ne_nil h)
  have hcut := text_next c rest
  rw [htext, List.cons_append] at hcut
  obtain ⟨rfl, hrest⟩ := List.cons.inj hcut
  exact ⟨tail, htext, hrest⟩

/-! ## What is cut off is longest -/

/-- A run stays in the longest run of a text that goes on behind it. -/
theorem length_le_takeWhile_append {p : Char → Bool} {run : List Char}
    (h : ∀ c ∈ run, p c = true) (rest : List Char) :
    run.length ≤ ((run ++ rest).takeWhile p).length := by
  rw [List.takeWhile_append_of_pos h, List.length_append]
  exact Nat.le_add_right _ _

theorem length_le_nextString {body : List Char} (h : '"' ∉ body) (rest : List Char) :
    (unclosed body).text.length ≤ (nextString (body ++ rest)).1.text.length := by
  have hrun := length_le_takeWhile_append (bne_of_not_mem h) rest
  unfold nextString
  split
  · simp [text]
  · simp only [text, List.cons_append, List.length_cons, List.length_append]
    omega

/-- Where a lexeme of the grammar stands at the head of a text, one that is no shorter
is cut off. -/
theorem length_le_next {other : Lexeme} {c : Char} {tail : List Char} (h : other.InGrammar)
    (htext : other.text = c :: tail) (rest : List Char) :
    (next c (tail ++ rest)).1.InGrammar ∧
      other.text.length ≤ (next c (tail ++ rest)).1.text.length := by
  cases other with
  | blanks run =>
      have hrun : run = c :: tail := htext
      subst hrun
      have hall := List.forall_mem_cons.mp h.2
      rw [next_of_isBlank hall.1]
      refine ⟨inGrammar_blanks hall.1 _, ?_⟩
      exact Nat.succ_le_succ (length_le_takeWhile_append hall.2 rest)
  | comment body =>
      simp only [text, List.cons.injEq] at htext
      obtain ⟨rfl, rfl⟩ := htext
      have hlength := length_le_takeWhile_append (bne_of_not_mem h) rest
      rw [next_of_ofChar? (s := .slash) rfl]
      refine ⟨inGrammar_nextSymbol _ _, ?_⟩
      simp only [nextSymbol, List.cons_append, text, List.length_cons]
      omega
  | symbol s =>
      rcases chars_eq_cons htext with ⟨rfl, hs⟩ | ⟨base, rfl, hbase, hlonger⟩
      · rw [next_of_ofChar? hs, htext]
        refine ⟨inGrammar_nextSymbol _ _, ?_⟩
        exact List.length_pos_iff.mpr (text_ne_nil (inGrammar_nextSymbol _ _))
      · rw [next_of_ofChar? hbase]
        simp only [List.cons_append, List.nil_append, nextSymbol_of_withEqual? hlonger]
        exact ⟨trivial, Nat.le_refl _⟩
  | digits run =>
      have hrun : run = c :: tail := htext
      subst hrun
      have hall := List.forall_mem_cons.mp h.2
      rw [next_of_isDigit hall.1]
      refine ⟨inGrammar_digits hall.1 _, ?_⟩
      exact Nat.succ_le_succ (length_le_takeWhile_append hall.2 rest)
  | word run =>
      have hrun : run = c :: tail := htext
      subst hrun
      obtain ⟨first, more, heq, hstart, hmore⟩ := h
      obtain ⟨rfl, rfl⟩ := List.cons.inj heq
      rw [next_of_isWordStart hstart]
      refine ⟨inGrammar_word hstart _, ?_⟩
      exact Nat.succ_le_succ (length_le_takeWhile_append hmore rest)
  | quoted body =>
      simp only [text, List.cons_append, List.cons.injEq] at htext
      obtain ⟨rfl, rfl⟩ := htext
      rw [List.append_assoc, next_quote, List.singleton_append, nextString_of_quoted h rest]
      exact ⟨h, Nat.le_refl _⟩
  | unclosed body =>
      simp only [text, List.cons.injEq] at htext
      obtain ⟨rfl, rfl⟩ := htext
      exact ⟨inGrammar_nextString _, length_le_nextString h rest⟩
  | stray c => exact h.elim

/-- What is cut off a text is the longest lexeme at its head, or a stray character
where no lexeme of the grammar stands. -/
theorem longestAt_next (c : Char) (rest : List Char) :
    (next c rest).1.LongestAt (c :: rest) ∨
      (next c rest = (.stray c, rest) ∧ NoneAt (c :: rest)) := by
  have hall : ∀ other : Lexeme, other.InGrammar → other.text <+: c :: rest →
      (next c rest).1.InGrammar ∧ other.text.length ≤ (next c rest).1.text.length := by
    intro other hother hpre
    obtain ⟨d, tail, htext⟩ := List.exists_cons_of_ne_nil (text_ne_nil hother)
    obtain ⟨after, hafter⟩ := hpre
    rw [htext, List.cons_append, List.cons.injEq] at hafter
    obtain ⟨rfl, rfl⟩ := hafter
    exact length_le_next hother htext after
  rcases inGrammar_next c rest with hin | hstray
  · refine .inl ⟨hin, ⟨(next c rest).2, text_next c rest⟩, ?_⟩
    intro other hother hpre
    exact (hall other hother hpre).2
  · refine .inr ⟨hstray, ?_⟩
    intro other hother hpre
    have hin := (hall other hother hpre).1
    rw [hstray] at hin
    exact hin

/-- The longest lexeme at the head of a text is the one that is cut off. -/
theorem LongestAt.next_eq {l : Lexeme} {c : Char} {rest after : List Char}
    (h : l.LongestAt (c :: rest)) (hafter : l.text ++ after = c :: rest) :
    next c rest = (l, after) := by
  rcases longestAt_next c rest with hnext | ⟨-, hnone⟩
  · -- Both are heads of the same text, and neither is longer than the other.
    have hlength : l.text.length = (next c rest).1.text.length :=
      Nat.le_antisymm (hnext.longest l h.inGrammar h.isPrefix)
        (h.longest _ hnext.inGrammar hnext.isPrefix)
    have hsplit : l.text ++ after = (next c rest).1.text ++ (next c rest).2 := by
      rw [hafter, text_next]
    obtain ⟨htext, hrest⟩ := List.append_inj hsplit hlength
    exact Prod.ext (eq_of_text_eq hnext.inGrammar h.inGrammar htext.symm) hrest.symm
  · exact absurd h.isPrefix (hnone l h.inGrammar)

end Lexeme

/-! ## The lexemes of a text -/

/-- The lexemes of a text are its maximal munch. -/
theorem maximalMunch_lexemes (text : List Char) : MaximalMunch text (lexemes text) := by
  induction text using lexemes_induction with
  | nil =>
      rw [lexemes_nil]
      exact .nil
  | cons c rest ih =>
      rw [lexemes_cons]
      rcases Lexeme.longestAt_next c rest with hlongest | ⟨hstray, hnone⟩
      · rw [← Lexeme.text_next c rest] at hlongest
        have hmunch := MaximalMunch.lexeme hlongest ih
        rwa [Lexeme.text_next] at hmunch
      · rw [hstray] at ih ⊢
        exact .stray hnone ih

/-- There is no other way to cut a text by maximal munch. -/
theorem MaximalMunch.eq_lexemes {text : List Char} {ls : List Lexeme}
    (h : MaximalMunch text ls) : ls = lexemes text := by
  induction h with
  | nil => exact lexemes_nil.symm
  | @lexeme l rest ls hlongest _ ih =>
      obtain ⟨c, tail, htext⟩ :=
        List.exists_cons_of_ne_nil (Lexeme.text_ne_nil hlongest.inGrammar)
      have hcons : l.text ++ rest = c :: (tail ++ rest) := by
        rw [htext, List.cons_append]
      rw [hcons] at hlongest ⊢
      rw [lexemes_cons, hlongest.next_eq hcons, ih]
  | @stray c rest ls hnone _ ih =>
      rcases Lexeme.longestAt_next c rest with hlongest | ⟨hstray, -⟩
      · exact absurd hlongest.isPrefix (hnone _ hlongest.inGrammar)
      · rw [lexemes_cons, hstray, ih]

/-- Cutting a text by maximal munch has one result, its lexemes. -/
theorem maximalMunch_iff {text : List Char} {ls : List Lexeme} :
    MaximalMunch text ls ↔ ls = lexemes text := by
  constructor
  · exact MaximalMunch.eq_lexemes
  · rintro rfl
    exact maximalMunch_lexemes text

end LoxReader
