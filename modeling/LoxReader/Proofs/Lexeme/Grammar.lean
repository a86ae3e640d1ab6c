/-
  `Proofs.Lexeme.Grammar`: the lexical grammar, stated apart from the cutting of
  texts.

  The grammar says which lexemes there are, and for each of them which texts may
  follow it without going on with it (`StopsAt`).  The main statements are
  `next_of_stopsAt`, by which a lexeme is cut off whole from such a text, and
  `eq_of_text_eq`, by which a text is at most one lexeme.
-/
import LoxReader.Lexeme
import Mathlib.Data.List.TakeWhile

set_option autoImplicit false

namespace LoxReader.Lexeme

/-! ## Character classes

The classes of the characters that start lexemes have nothing in common. -/

theorem isBlank_iff {c : Char} : isBlank c = true ↔ c = ' ' ∨ c = '\t' ∨ c = '\r' ∨ c = '\n' := by
  simp [isBlank, or_assoc]

theorem isBlank_of_isDigit {c : Char} (h : c.isDigit = true) : isBlank c = false := by
  rw [Bool.eq_false_iff]
  intro hblank
  rcases isBlank_iff.mp hblank with rfl | rfl | rfl | rfl <;> revert h <;> decide

theorem isBlank_of_isWordStart {c : Char} (h : isWordStart c = true) : isBlank c = false := by
  rw [Bool.eq_false_iff]
  intro hblank
  rcases isBlank_iff.mp hblank with rfl | rfl | rfl | rfl <;> revert h <;> decide

theorem toNat_le_of_isDigit {c : Char} (h : c.isDigit = true) : c.toNat ≤ 57 := by
  simp only [Char.isDigit, ge_iff_le, UInt32.le_iff_toNat_le, Bool.and_eq_true,
    decide_eq_true_eq] at h
  exact h.2

theorem le_toNat_of_isAlpha {c : Char} (h : c.isAlpha = true) : 65 ≤ c.toNat := by
  have hclass : (c.isUpper || c.isLower) = true := h
  rw [Bool.or_eq_true] at hclass
  rcases hclass with hupper | hlower
  · have hbounds : decide ('A'.val ≤ c.val ∧ c.val ≤ 'Z'.val) = true := hupper
    exact UInt32.le_iff_toNat_le.mp (of_decide_eq_true hbounds).1
  · have hbounds : (decide ('a'.val ≤ c.val) && decide (c.val ≤ 'z'.val)) = true := hlower
    rw [Bool.and_eq_true, decide_eq_true_eq, decide_eq_true_eq] at hbounds
    exact Nat.le_trans (by decide) (UInt32.le_iff_toNat_le.mp hbounds.1)

theorem isDigit_of_isWordStart {c : Char} (h : isWordStart c = true) : c.isDigit = false := by
  rw [Bool.eq_false_iff]
  intro hdigit
  have hle := toNat_le_of_isDigit hdigit
  rw [isWordStart, Bool.or_eq_true, beq_iff_eq] at h
  rcases h with halpha | rfl
  · have hge := le_toNat_of_isAlpha halpha
    omega
  · revert hdigit
    decide

/-! ## The grammar -/

/-- A lexeme that a rule of the lexical grammar describes; a stray character is
none. -/
def InGrammar : Lexeme → Prop
  | .blanks text => text ≠ [] ∧ ∀ c ∈ text, isBlank c = true
  | .comment text => '\n' ∉ text
  | .symbol _ => True
  | .digits text => text ≠ [] ∧ ∀ c ∈ text, c.isDigit = true
  | .word text => ∃ c rest, text = c :: rest ∧ isWordStart c = true ∧ ∀ d ∈ rest, isWordChar d = true
  | .quoted body => '"' ∉ body
  | .unclosed body => '"' ∉ body
  | .stray _ => False

/-- A text that does not go on with the lexeme before it. -/
def StopsAt : Lexeme → List Char → Prop
  | .blanks _, rest => ∀ c ∈ rest.head?, isBlank c = false
  | .comment _, rest => ∀ c ∈ rest.head?, c = '\n'
  | .symbol s, rest =>
      ∀ c ∈ rest.head?, (c = '=' → s.withEqual? = none) ∧ (c = '/' → s ≠ .slash)
  | .digits _, rest => ∀ c ∈ rest.head?, c.isDigit = false
  | .word _, rest => ∀ c ∈ rest.head?, isWordChar c = false
  | .quoted _, _ => True
  | .unclosed _, rest => rest = []
  | .stray _, _ => True

/-- The end of a text goes on with nothing. -/
theorem stopsAt_nil (l : Lexeme) : l.StopsAt [] := by
  cases l <;> simp [StopsAt]

/-- Every lexeme has at least one character. -/
theorem text_ne_nil {l : Lexeme} (h : l.InGrammar) : l.text ≠ [] := by
  cases l with
  | blanks text => exact h.1
  | digits text => exact h.1
  | word text =>
      obtain ⟨c, rest, rfl, -, -⟩ := h
      simp [text]
  | symbol s => cases s <;> simp [text, Symbol.chars]
  | _ => simp [text]

/-! ## Cutting a lexeme off a text that does not go on with it -/

/-- A run that the text behind it does not go on with is the whole run. -/
theorem takeWhile_append_of_head {p : Char → Bool} {run rest : List Char}
    (hrun : ∀ c ∈ run, p c = true) (hrest : ∀ c ∈ rest.head?, p c = false) :
    (run ++ rest).takeWhile p = run ∧ (run ++ rest).dropWhile p = rest := by
  rw [List.takeWhile_append_of_pos hrun, List.dropWhile_append_of_pos hrun]
  cases rest with
  | nil => simp
  | cons c rest =>
      have hc : p c = false := hrest c rfl
      simp [hc]

/-- A run without a character `q` is one of characters other than `q`. -/
theorem bne_of_not_mem {q : Char} {run : List Char} (h : q ∉ run) :
    ∀ c ∈ run, (c != q) = true := by
  intro c hc
  rw [bne_iff_ne]
  rintro rfl
  exact h hc

theorem nextString_of_quoted {body : List Char} (h : '"' ∉ body) (rest : List Char) :
    nextString (body ++ '"' :: rest) = (.quoted body, rest) := by
  have hstop : ∀ c ∈ ('"' :: rest).head?, (c != '"') = false := by simp
  obtain ⟨htake, hdrop⟩ := takeWhile_append_of_head (bne_of_not_mem h) hstop
  simp only [nextString, htake, hdrop]

theorem nextString_of_unclosed {body : List Char} (h : '"' ∉ body) :
    nextString body = (.unclosed body, []) := by
  have hdrop : body.dropWhile (· != '"') = [] :=
    List.dropWhile_eq_nil_iff.mpr (bne_of_not_mem h)
  simp only [nextString, hdrop]

theorem nextSymbol_of_comment {body rest : List Char} (hbody : '\n' ∉ body)
    (hrest : ∀ c ∈ rest.head?, c = '\n') :
    nextSymbol .slash ('/' :: (body ++ rest)) = (.comment body, rest) := by
  have hstop : ∀ c ∈ rest.head?, (c != '\n') = false := by simpa using hrest
  obtain ⟨htake, hdrop⟩ := takeWhile_append_of_head (bne_of_not_mem hbody) hstop
  simp only [nextSymbol, htake, hdrop]

theorem next_of_isBlank {c : Char} (h : isBlank c = true) (rest : List Char) :
    next c rest = (.blanks (c :: rest.takeWhile isBlank), rest.dropWhile isBlank) := by
  simp only [next, h, if_true]

theorem next_of_isDigit {c : Char} (h : c.isDigit = true) (rest : List Char) :
    next c rest = (.digits (c :: rest.takeWhile Char.isDigit), rest.dropWhile Char.isDigit) := by
  simp [next, isBlank_of_isDigit h, h]

theorem next_of_isWordStart {c : Char} (h : isWordStart c = true) (rest : List Char) :
    next c rest = (.word (c :: rest.takeWhile isWordChar), rest.dropWhile isWordChar) := by
  simp [next, isBlank_of_isWordStart h, isDigit_of_isWordStart h, h]

theorem next_quote (rest : List Char) : next '"' rest = nextString rest := rfl

/-- A character that spells a symbol starts a symbol or a comment. -/
theorem next_of_ofChar? {c : Char} {s : Symbol} (h : Symbol.ofChar? c = some s)
    (rest : List Char) : next c rest = nextSymbol s rest := by
  unfold Symbol.ofChar? at h
  split at h <;> simp only [reduceCtorEq, Option.some.injEq] at h <;> subst h <;> rfl

/-- A symbol is one character, or a shorter symbol and an equals sign. -/
theorem chars_eq_cons {s : Symbol} {c : Char} {tail : List Char} (h : s.chars = c :: tail) :
    (tail = [] ∧ Symbol.ofChar? c = some s) ∨
      ∃ base, tail = ['='] ∧ Symbol.ofChar? c = some base ∧ base.withEqual? = some s := by
  cases s <;> simp only [Symbol.chars, List.cons.injEq] at h <;> obtain ⟨rfl, rfl⟩ := h <;>
    simp [Symbol.ofChar?, Symbol.withEqual?]

theorem nextSymbol_of_stopsAt {s : Symbol} {rest : List Char} (h : StopsAt (.symbol s) rest) :
    nextSymbol s rest = (.symbol s, rest) := by
  unfold nextSymbol
  split
  · exact absurd rfl ((h '/' rfl).2 rfl)
  · unfold Symbol.extend
    split
    · rename_i hlonger hslash
      rw [(h '=' rfl).1 rfl] at hlonger
      cases hlonger
    · rfl

theorem nextSymbol_of_withEqual? {base s : Symbol} (h : base.withEqual? = some s)
    (rest : List Char) : nextSymbol base ('=' :: rest) = (.symbol s, rest) := by
  unfold nextSymbol
  split
  · rename_i heq
    cases heq
  · simp only [Symbol.extend, h]

/-- A symbol that the text behind it does not go on with is cut off whole. -/
theorem next_of_symbol {s : Symbol} {c : Char} {tail rest : List Char}
    (hstops : StopsAt (.symbol s) rest) (htext : s.chars = c :: tail) :
    next c (tail ++ rest) = (.symbol s, rest) := by
  rcases chars_eq_cons htext with ⟨rfl, hs⟩ | ⟨base, rfl, hbase, hlonger⟩
  · rw [next_of_ofChar? hs]
    exact nextSymbol_of_stopsAt hstops
  · rw [next_of_ofChar? hbase]
    exact nextSymbol_of_withEqual? hlonger rest

/-- A lexeme is cut off whole from a text behind it that does not go on with it. -/
theorem next_of_stopsAt {l : Lexeme} {c : Char} {tail rest : List Char} (hl : l.InGrammar)
    (hstops : l.StopsAt rest) (htext : l.text = c :: tail) :
    next c (tail ++ rest) = (l, rest) := by
  cases l with
  | blanks run =>
      have hrun : run = c :: tail := htext
      subst hrun
      obtain ⟨-, hall⟩ := hl
      simp only [List.forall_mem_cons] at hall
      obtain ⟨htake, hdrop⟩ := takeWhile_append_of_head hall.2 hstops
      rw [next_of_isBlank hall.1, htake, hdrop]
  | comment body =>
      simp only [text, List.cons.injEq] at htext
      obtain ⟨rfl, rfl⟩ := htext
      exact nextSymbol_of_comment hl hstops
  | symbol s => exact next_of_symbol hstops htext
  | digits run =>
      have hrun : run = c :: tail := htext
      subst hrun
      obtain ⟨-, hall⟩ := hl
      simp only [List.forall_mem_cons] at hall
      obtain ⟨htake, hdrop⟩ := takeWhile_append_of_head hall.2 hstops
      rw [next_of_isDigit hall.1, htake, hdrop]
  | word run =>
      have hrun : run = c :: tail := htext
      subst hrun
      obtain ⟨first, more, heq, hstart, hmore⟩ := hl
      obtain ⟨rfl, rfl⟩ := List.cons.inj heq
      obtain ⟨htake, hdrop⟩ := takeWhile_append_of_head hmore hstops
      rw [next_of_isWordStart hstart, htake, hdrop]
  | quoted body =>
      simp only [text, List.cons_append, List.cons.injEq] at htext
      obtain ⟨rfl, rfl⟩ := htext
      rw [List.append_assoc, next_quote]
      exact nextString_of_quoted hl rest
  | unclosed body =>
      simp only [text, List.cons.injEq] at htext
      obtain ⟨rfl, rfl⟩ := htext
      have hrest : rest = [] := hstops
      rw [hrest, List.append_nil, next_quote]
      exact nextString_of_unclosed hl
  | stray c => exact hl.elim

/-! ## A text is at most one lexeme -/

/-- A lexeme is cut off whole from its own text. -/
theorem next_self {l : Lexeme} {c : Char} {tail : List Char} (hl : l.InGrammar)
    (htext : l.text = c :: tail) : next c tail = (l, []) := by
  have h := next_of_stopsAt hl (stopsAt_nil l) htext
  rwa [List.append_nil] at h

/-- No two lexemes of the grammar have the same text, so that the text of a lexeme
determines what it is. -/
theorem eq_of_text_eq {a b : Lexeme} (ha : a.InGrammar) (hb : b.InGrammar)
    (h : a.text = b.text) : a = b := by
  obtain ⟨c, tail, hc⟩ := List.exists_cons_of_ne_nil (text_ne_nil ha)
  have hfirst : next c tail = (a, []) := next_self ha hc
  have hsecond : next c tail = (b, []) := next_self hb (h ▸ hc)
  rw [hfirst] at hsecond
  exact congrArg Prod.fst hsecond

end LoxReader.Lexeme
