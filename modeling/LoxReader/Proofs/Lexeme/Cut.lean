/-
  `Proofs.Lexeme.Cut`: where the lexemes of a text start, and which characters are theirs.

  Before and behind a place where a lexeme starts, a text is cut as its two parts are on their
  own (`IsCut.lexemes_append`).  Each character stands in one lexeme (`StandsIn.unique`).  One that starts no lexeme of the grammar
  and stands in no string, comment or run of blanks is a lexeme by itself
  (`standsIn_stray_iff`).
-/
import LoxReader.Proofs.Lexeme.LineBreak
import LoxReader.Proofs.Lexeme.Separated

set_option autoImplicit false

namespace LoxReader

/-! ## Cuts -/

/-- A lexeme of the text starts behind `before`, or the text ends there. -/
def IsCut (before rest : List Char) : Prop :=
  ∃ first second, MaximalMunch (before ++ rest) (first ++ second) ∧
    before = first.flatMap Lexeme.text

/-- The last lexemes of a text are the lexemes of its end. -/
theorem lexemes_flatMap_of_append {text : List Char} {first second : List Lexeme}
    (h : lexemes text = first ++ second) : lexemes (second.flatMap Lexeme.text) = second := by
  induction first generalizing text with
  | nil =>
      rw [List.nil_append] at h
      rw [← h, text_lexemes, h]
  | cons l first ih =>
      cases text with
      | nil => cases lexemes_nil.symm.trans h
      | cons c rest =>
          rw [lexemes_cons, List.cons_append] at h
          exact ih (List.cons.inj h).2

/-- Behind its first lexemes a text is cut as it is on its own. -/
theorem MaximalMunch.lexemes_eq_of_append {rest : List Char} {first second : List Lexeme}
    (h : MaximalMunch (first.flatMap Lexeme.text ++ rest) (first ++ second)) :
    lexemes rest = second := by
  have hlexemes := h.eq_lexemes.symm
  have htext := text_lexemes (first.flatMap Lexeme.text ++ rest)
  rw [hlexemes, List.flatMap_append] at htext
  rw [← List.append_cancel_left htext]
  exact lexemes_flatMap_of_append hlexemes

theorem isCut_iff {before rest : List Char} :
    IsCut before rest ↔ ∃ front, before = front.flatMap Lexeme.text ∧
      lexemes (before ++ rest) = front ++ lexemes rest := by
  constructor
  · rintro ⟨first, second, hmunch, rfl⟩
    exact ⟨first, rfl, by rw [hmunch.lexemes_eq_of_append, hmunch.eq_lexemes]⟩
  · rintro ⟨front, hbefore, hlexemes⟩
    exact ⟨front, lexemes rest, maximalMunch_iff.mpr hlexemes.symm, hbefore⟩

/-- What stops in front of a text stops in front of the first part of it. -/
theorem Lexeme.StopsAt.of_append {l : Lexeme} {front back : List Char}
    (h : l.StopsAt (front ++ back)) : l.StopsAt front := by
  cases front with
  | nil => exact stopsAt_nil l
  | cons c front =>
      cases l with
      | unclosed body => cases h
      | _ => exact h

/-- A lexeme is also cut off from the first part of what it is cut off from. -/
theorem Lexeme.next_of_append {l : Lexeme} {c : Char} {tail front back : List Char}
    (h : next c (tail ++ (front ++ back)) = (l, front ++ back)) (htext : l.text = c :: tail) :
    next c (tail ++ front) = (l, front) := by
  have hstops := stopsAt_next c (tail ++ (front ++ back))
  rcases inGrammar_next c (tail ++ (front ++ back)) with hin | hstray
  · rw [h] at hin hstops
    exact next_of_stopsAt hin hstops.of_append htext
  · obtain ⟨rfl, -⟩ := Prod.mk.inj (h.symm.trans hstray)
    obtain ⟨-, rfl⟩ := List.cons.inj htext
    exact next_of_stray hstray front

/-- The first lexemes of a text are the lexemes of its beginning. -/
theorem lexemes_flatMap_of_append_left {rest : List Char} {first second : List Lexeme}
    (h : lexemes (first.flatMap Lexeme.text ++ rest) = first ++ second) :
    lexemes (first.flatMap Lexeme.text) = first := by
  induction first with
  | nil => exact lexemes_nil
  | cons l first ih =>
      have hmem : l ∈ lexemes ((l :: first).flatMap Lexeme.text ++ rest) := by
        rw [h]
        exact List.mem_cons_self
      obtain ⟨c, tail, htext⟩ := List.exists_cons_of_ne_nil <| by
        rcases inGrammar_of_mem_lexemes hmem with hin | ⟨c, rfl⟩
        · exact Lexeme.text_ne_nil hin
        · exact List.cons_ne_nil c []
      rw [List.flatMap_cons, List.append_assoc, htext, List.cons_append, lexemes_cons,
        List.cons_append] at h
      obtain ⟨hl, hrest⟩ := List.cons.inj h
      have hcut := Lexeme.text_next c (tail ++ (first.flatMap Lexeme.text ++ rest))
      rw [hl, htext, List.cons_append, List.cons.injEq, List.append_cancel_left_eq] at hcut
      have hnext := Lexeme.next_of_append (Prod.ext hl hcut.2) htext
      rw [hcut.2] at hrest
      rw [List.flatMap_cons, htext, List.cons_append, lexemes_cons, hnext, ih hrest]

/-- At a cut a text is cut as its two parts are on their own. -/
theorem IsCut.lexemes_append {before rest : List Char} (h : IsCut before rest) :
    lexemes (before ++ rest) = lexemes before ++ lexemes rest := by
  obtain ⟨front, rfl, hlexemes⟩ := isCut_iff.mp h
  rw [hlexemes, lexemes_flatMap_of_append_left hlexemes]

/-! ## The lexeme of a character -/

/-- The character `c` between `before` and `after` is one of the characters of the lexeme `l` of
this text. -/
def StandsIn (before : List Char) (c : Char) (after : List Char) (l : Lexeme) : Prop :=
  ∃ first second front back, MaximalMunch (before ++ c :: after) (first ++ l :: second) ∧
    before = first.flatMap Lexeme.text ++ front ∧ l.text = front ++ c :: back

/-- A place in a text is inside of one lexeme. -/
theorem lexeme_eq_of_place_eq {first second first' second' : List Lexeme} {l l' : Lexeme}
    {front front' : List Char} (hls : first ++ l :: second = first' ++ l' :: second')
    (hplace : first.flatMap Lexeme.text ++ front = first'.flatMap Lexeme.text ++ front')
    (hfront : front.length < l.text.length) (hfront' : front'.length < l'.text.length) :
    l = l' := by
  induction first generalizing first' with
  | nil =>
      cases first' with
      | nil => exact (List.cons.inj hls).1
      | cons a first' =>
          obtain ⟨rfl, -⟩ := List.cons.inj hls
          have hlength := congrArg List.length hplace
          simp only [List.flatMap_nil, List.nil_append, List.flatMap_cons,
            List.length_append] at hlength
          omega
  | cons a first ih =>
      cases first' with
      | nil =>
          obtain ⟨rfl, -⟩ := List.cons.inj hls
          have hlength := congrArg List.length hplace
          simp only [List.flatMap_nil, List.nil_append, List.flatMap_cons,
            List.length_append] at hlength
          omega
      | cons a' first' =>
          obtain ⟨rfl, hrest⟩ := List.cons.inj hls
          rw [List.flatMap_cons, List.flatMap_cons, List.append_assoc, List.append_assoc] at hplace
          exact ih hrest (List.append_cancel_left hplace)

/-- A character stands in no more than one lexeme. -/
theorem StandsIn.unique {before after : List Char} {c : Char} {l l' : Lexeme}
    (h : StandsIn before c after l) (h' : StandsIn before c after l') : l = l' := by
  obtain ⟨first, second, front, back, hmunch, hbefore, htext⟩ := h
  obtain ⟨first', second', front', back', hmunch', hbefore', htext'⟩ := h'
  have hls := hmunch.eq_lexemes.trans hmunch'.eq_lexemes.symm
  refine lexeme_eq_of_place_eq hls (hbefore.symm.trans hbefore') ?_ ?_
  · simp [htext]
  · simp [htext']

/-- The characters of a lexeme that starts behind a cut stand in it. -/
theorem IsCut.standsIn {before rest front back : List Char} {c d : Char}
    (h : IsCut before (c :: rest)) (htext : (Lexeme.next c rest).1.text = front ++ d :: back) :
    StandsIn (before ++ front) d (back ++ (Lexeme.next c rest).2) (Lexeme.next c rest).1 := by
  obtain ⟨first, hbefore, hlexemes⟩ := isCut_iff.mp h
  have hparts : before ++ front ++ d :: (back ++ (Lexeme.next c rest).2) = before ++ c :: rest := by
    rw [← Lexeme.text_next c rest, htext]
    simp
  refine ⟨first, lexemes (Lexeme.next c rest).2, front, back, ?_, by rw [hbefore], htext⟩
  rw [hparts, maximalMunch_iff, hlexemes, lexemes_cons]

/-- The place behind a lexeme that starts behind a cut is a cut. -/
theorem IsCut.next {before rest : List Char} {c : Char} (h : IsCut before (c :: rest)) :
    IsCut (before ++ (Lexeme.next c rest).1.text) (Lexeme.next c rest).2 := by
  obtain ⟨first, hbefore, hlexemes⟩ := isCut_iff.mp h
  refine isCut_iff.mpr ⟨first ++ [(Lexeme.next c rest).1], ?_, ?_⟩
  · rw [List.flatMap_append, ← hbefore, List.flatMap_singleton]
  · rw [List.append_assoc before, Lexeme.text_next, hlexemes, lexemes_cons, List.append_assoc]
    rfl

/-! ## Stray characters -/

namespace Lexeme

/-- Whether the lexeme is a string, a comment or a run of blanks. -/
def isEnclosing : Lexeme → Bool
  | .blanks _ => true
  | .comment _ => true
  | .quoted _ => true
  | .unclosed _ => true
  | _ => false

/-- Each character of a symbol spells a symbol. -/
theorem exists_ofChar?_of_mem_chars {s : Symbol} {c : Char} (h : c ∈ s.chars) :
    ∃ s', Symbol.ofChar? c = some s' := by
  obtain ⟨first, tail, hchars⟩ :=
    List.exists_cons_of_ne_nil (text_ne_nil (l := .symbol s) trivial)
  have hmem : c ∈ first :: tail := hchars ▸ h
  rcases chars_eq_cons hchars with ⟨rfl, hfirst⟩ | ⟨base, rfl, hfirst, -⟩
  · obtain rfl := List.mem_singleton.mp hmem
    exact ⟨s, hfirst⟩
  · rcases List.mem_cons.mp hmem with rfl | hequal
    · exact ⟨base, hfirst⟩
    · obtain rfl := List.mem_singleton.mp hequal
      exact ⟨.equal, rfl⟩

/-- Each character of a symbol, a number or a word starts a lexeme. -/
theorem not_noneAt_of_mem_text {l : Lexeme} (hl : l.InGrammar) (henclosing : l.isEnclosing = false)
    {c : Char} (hc : c ∈ l.text) (after : List Char) : ¬ NoneAt (c :: after) := by
  have hdigits : c.isDigit = true → ¬ NoneAt (c :: after) := fun hdigit hnone =>
    hnone (.digits [c]) ⟨List.cons_ne_nil c [], List.forall_mem_singleton.mpr hdigit⟩ ⟨after, rfl⟩
  have hword : isWordStart c = true → ¬ NoneAt (c :: after) := fun hstart hnone =>
    hnone (.word [c]) ⟨c, [], rfl, hstart, List.forall_mem_nil _⟩ ⟨after, rfl⟩
  cases l with
  | symbol s =>
      obtain ⟨s', hs'⟩ := exists_ofChar?_of_mem_chars hc
      intro hnone
      exact hnone (.symbol s') trivial ⟨after, by rw [text, Symbol.chars_of_ofChar? hs']; rfl⟩
  | digits run => exact hdigits (hl.2 c hc)
  | word run =>
      obtain ⟨first, more, rfl, hstart, hmore⟩ := hl
      rcases List.mem_cons.mp hc with rfl | hc
      · exact hword hstart
      · have hclass := hmore c hc
        rw [isWordChar, Char.isAlphanum, Bool.or_eq_true, Bool.or_eq_true] at hclass
        rcases hclass with (halpha | hdigit) | hunderscore
        · exact hword (by rw [isWordStart, halpha, Bool.true_or])
        · exact hdigits hdigit
        · exact hword (by rw [isWordStart, hunderscore, Bool.or_true])
  | stray d => exact hl.elim
  | _ => cases henclosing

end Lexeme

/-- A stray character is cut off as such behind a cut. -/
theorem standsIn_stray_iff_next {before after : List Char} {c : Char} :
    StandsIn before c after (.stray c) ↔
      IsCut before (c :: after) ∧ Lexeme.next c after = (.stray c, after) := by
  constructor
  · rintro ⟨first, second, front, back, hmunch, rfl, htext⟩
    have hfront : front = [] := by
      have hlength := congrArg List.length htext
      simp only [Lexeme.text, List.length_append, List.length_cons, List.length_nil] at hlength
      exact List.length_eq_zero_iff.mp (by omega)
    rw [hfront, List.append_nil] at hmunch ⊢
    have hnext := hmunch.lexemes_eq_of_append
    rw [lexemes_cons] at hnext
    refine ⟨⟨first, _, hmunch, rfl⟩, ?_⟩
    rcases Lexeme.inGrammar_next c after with hin | hstray
    · rw [(List.cons.inj hnext).1] at hin
      exact hin.elim
    · exact hstray
  · rintro ⟨hcut, hnext⟩
    have htext : (Lexeme.next c after).1.text = [] ++ c :: [] := by rw [hnext]; rfl
    have hstands := hcut.standsIn htext
    rwa [hnext, List.append_nil] at hstands

/-- The stray characters are those that start no lexeme of the grammar, outside of strings,
comments and blanks. -/
theorem standsIn_stray_iff {before after : List Char} {c : Char} :
    StandsIn before c after (.stray c) ↔
      (∃ l, StandsIn before c after l ∧ l.isEnclosing = false) ∧ Lexeme.NoneAt (c :: after) := by
  constructor
  · intro h
    refine ⟨⟨_, h, rfl⟩, ?_⟩
    rcases Lexeme.longestAt_next c after with hlongest | ⟨-, hnone⟩
    · have hin := hlongest.inGrammar
      rw [(standsIn_stray_iff_next.mp h).2] at hin
      exact hin.elim
    · exact hnone
  · rintro ⟨⟨l, h, henclosing⟩, hnone⟩
    obtain ⟨first, second, front, back, hmunch, -, htext⟩ := id h
    have hmem : l ∈ lexemes (before ++ c :: after) := by
      rw [← hmunch.eq_lexemes]
      exact List.mem_append_right _ List.mem_cons_self
    have hc : c ∈ l.text := by
      rw [htext]
      exact List.mem_append_right _ List.mem_cons_self
    rcases inGrammar_of_mem_lexemes hmem with hin | ⟨d, rfl⟩
    · exact absurd hnone (Lexeme.not_noneAt_of_mem_text hin henclosing hc after)
    · obtain rfl := List.mem_singleton.mp hc
      exact h

end LoxReader
