/-
  `Proofs.Tokenization.Blanking`: writing a space over each unexpected character.

  What stands in front of a stray character stops there as it does in front of a space, and
  what stands behind it starts there (`StopsAt.blankStrays`).  So the other lexemes are cut off as
  before, in the same lines and columns, and they are read alike.  The main statement is
  `lex_recovers`.
-/
import LoxReader.Proofs.Tokenization.Errors

set_option autoImplicit false

namespace LoxReader

/-! ## Unexpected characters -/

/-- Whether the error is that of a character that starts no token. -/
def LexErrorKind.isUnexpected : LexErrorKind → Bool
  | .unexpectedCharacter _ => true
  | _ => false

namespace Tokenization

/-- Whether there is an unexpected character at the place. -/
def isUnexpectedAt (t : Tokenization) (loc : Location) : Bool :=
  t.errors.toList.any fun e => e.kind.isUnexpected && e.loc = loc

/-- The text from the place on, with a space over each unexpected character. -/
def blank (t : Tokenization) (loc : Location) : List Char → List Char
  | [] => []
  | c :: text => (if t.isUnexpectedAt loc then ' ' else c) :: t.blank (loc.step c) text

theorem isUnexpectedAt_iff {t : Tokenization} {loc : Location} :
    t.isUnexpectedAt loc = true ↔ ∃ c, ⟨.unexpectedCharacter c, loc⟩ ∈ t.errors.toList := by
  rw [isUnexpectedAt, List.any_eq_true]
  constructor
  · rintro ⟨⟨kind, place⟩, he, hboth⟩
    simp only [Bool.and_eq_true, decide_eq_true_eq] at hboth
    obtain ⟨hkind, rfl⟩ := hboth
    cases kind with
    | unexpectedCharacter c => exact ⟨c, he⟩
    | _ => cases hkind
  · rintro ⟨c, he⟩
    exact ⟨_, he, by simp [LexErrorKind.isUnexpected]⟩

theorem blank_append (t : Tokenization) (loc : Location) (first second : List Char) :
    t.blank loc (first ++ second) = t.blank loc first ++ t.blank (loc.advance first) second := by
  induction first generalizing loc with
  | nil => rfl
  | cons c first ih =>
      rw [List.cons_append, blank, blank, ih, Location.advance_cons, List.cons_append]

/-- A text without unexpected characters stays as it is. -/
theorem blank_eq_self {t : Tokenization} {loc : Location} {text : List Char}
    (h : ∀ front c back, text = front ++ c :: back → t.isUnexpectedAt (loc.advance front) = false) :
    t.blank loc text = text := by
  induction text generalizing loc with
  | nil => rfl
  | cons c text ih =>
      have hc : t.isUnexpectedAt loc = false := h [] c text rfl
      have hrest := ih fun front d back htext =>
        h (c :: front) d back (by rw [htext, List.cons_append])
      rw [blank, hc, hrest]
      rfl

end Tokenization

/-- The unexpected characters of a source are its stray ones. -/
theorem isUnexpectedAt_tokenize_iff {source : String} {before after : List Char} {c : Char}
    (hsource : source.toList = before ++ c :: after) :
    (tokenize source).isUnexpectedAt (Location.start.advance before) = true ↔
      StandsIn before c after (.stray c) := by
  rw [Tokenization.isUnexpectedAt_iff]
  constructor
  · rintro ⟨d, herror⟩
    obtain ⟨before', after', hsource', hstands, hloc⟩ := mem_errors_unexpected_iff.mp herror
    obtain ⟨rfl, hrest⟩ := eq_of_start_advance_eq (hsource.symm.trans hsource')
      (Location.isBehind_iff.mp hloc)
    obtain ⟨rfl, rfl⟩ := List.cons.inj hrest
    exact hstands
  · intro hstands
    exact ⟨c, mem_errors_unexpected_iff.mpr
      ⟨before, after, hsource, hstands, Location.isBehind_iff.mpr rfl⟩⟩

/-! ## Spaces over stray characters -/

namespace Lexeme

/-- Whether the lexeme is a character that starts no other. -/
def isStray : Lexeme → Bool
  | .stray _ => true
  | _ => false

/-- The characters of a lexeme, with a space over a stray one. -/
def blanked : Lexeme → List Char
  | .stray _ => [' ']
  | l => l.text

theorem InGrammar.isStray_eq {l : Lexeme} (h : l.InGrammar) : l.isStray = false := by
  cases l with
  | stray c => exact h.elim
  | _ => rfl

theorem blanked_of_isStray {l : Lexeme} (h : l.isStray = false) : l.blanked = l.text := by
  cases l with
  | stray c => cases h
  | _ => rfl

end Lexeme

/-- A text with a space over each stray character. -/
def blankStrays (text : List Char) : List Char :=
  (lexemes text).flatMap Lexeme.blanked

@[simp] theorem blankStrays_nil : blankStrays [] = [] := by
  rw [blankStrays, lexemes_nil, List.flatMap_nil]

theorem blankStrays_cons (c : Char) (rest : List Char) :
    blankStrays (c :: rest) =
      (Lexeme.next c rest).1.blanked ++ blankStrays (Lexeme.next c rest).2 := by
  rw [blankStrays, lexemes_cons, List.flatMap_cons, blankStrays]

/-- The first lexeme is written over if it is a stray character, and else it stays. -/
theorem blank_next {source : String} {before rest : List Char} {c : Char}
    (hsource : source.toList = before ++ c :: rest) (hcut : IsCut before (c :: rest)) :
    (tokenize source).blank (Location.start.advance before) (Lexeme.next c rest).1.text =
      (Lexeme.next c rest).1.blanked := by
  have hiff : ∀ front d back, (Lexeme.next c rest).1.text = front ++ d :: back →
      ((tokenize source).isUnexpectedAt (Location.start.advance (before ++ front)) = true ↔
        (Lexeme.next c rest).1 = .stray d) := by
    intro front d back htext
    have hstands := hcut.standsIn htext
    have hparts : source.toList = before ++ front ++ d :: (back ++ (Lexeme.next c rest).2) := by
      rw [hsource, ← Lexeme.text_next c rest, htext]
      simp
    rw [isUnexpectedAt_tokenize_iff hparts]
    constructor
    · exact fun hstray => hstands.unique hstray
    · intro hstray
      rwa [hstray] at hstands
  cases hnext : (Lexeme.next c rest).1 with
  | stray d =>
      have hd := (hiff [] d [] (by rw [hnext]; rfl)).mpr hnext
      rw [List.append_nil] at hd
      simp [Lexeme.text, Lexeme.blanked, Tokenization.blank, hd]
  | _ =>
      rw [← hnext, Lexeme.blanked_of_isStray (by rw [hnext]; rfl)]
      apply Tokenization.blank_eq_self
      intro front d back htext
      rw [← Location.advance_append, Bool.eq_false_iff, ne_eq, hiff front d back htext, hnext]
      simp

/-- Behind a cut the spaces are over the stray characters. -/
theorem blank_eq_blankStrays {source : String} {before rest : List Char}
    (hsource : source.toList = before ++ rest) (hcut : IsCut before rest) :
    (tokenize source).blank (Location.start.advance before) rest = blankStrays rest := by
  induction rest using lexemes_induction generalizing before with
  | nil => simp [Tokenization.blank]
  | cons c rest ih =>
      have hrest : source.toList =
          before ++ (Lexeme.next c rest).1.text ++ (Lexeme.next c rest).2 := by
        rw [List.append_assoc, Lexeme.text_next, hsource]
      have hblank := (tokenize source).blank_append (Location.start.advance before)
        (Lexeme.next c rest).1.text (Lexeme.next c rest).2
      rw [Lexeme.text_next, blank_next hsource hcut, ← Location.advance_append,
        ih hrest hcut.next] at hblank
      rw [hblank, blankStrays_cons]

theorem blank_tokenize (source : String) :
    (tokenize source).blank .start source.toList = blankStrays source.toList := by
  have hcut : IsCut [] source.toList := isCut_iff.mpr ⟨[], rfl, rfl⟩
  exact blank_eq_blankStrays (List.nil_append _).symm hcut

/-! ## Places in both texts -/

/-- The same line and column, whatever the offsets. -/
structure Location.SameSpot (a b : Location) : Prop where
  line : b.line = a.line
  column : b.column = a.column

namespace Location

theorem SameSpot.refl (a : Location) : a.SameSpot a := ⟨rfl, rfl⟩

variable {a b : Location}

theorem SameSpot.step (h : a.SameSpot b) {c d : Char} (hfeed : c = '\n' ↔ d = '\n') :
    (a.step c).SameSpot (b.step d) := by
  unfold Location.step
  by_cases hc : c = '\n'
  · rw [if_pos hc, if_pos (hfeed.mp hc)]
    exact ⟨congrArg (· + 1) h.line, rfl⟩
  · rw [if_neg hc, if_neg (mt hfeed.mpr hc)]
    exact ⟨h.line, congrArg (· + 1) h.column⟩

theorem SameSpot.advance (h : a.SameSpot b) (text : List Char) :
    (a.advance text).SameSpot (b.advance text) := by
  induction text generalizing a b with
  | nil => exact h
  | cons c text ih => exact ih (h.step Iff.rfl)

/-- Writing a space over a stray character does not move what stands behind it. -/
theorem SameSpot.advance_next (h : a.SameSpot b) (c : Char) (rest : List Char) :
    (a.advance (Lexeme.next c rest).1.text).SameSpot
      (b.advance (Lexeme.next c rest).1.blanked) := by
  rcases Lexeme.inGrammar_next c rest with hin | hstray
  · rw [Lexeme.blanked_of_isStray hin.isStray_eq]
    exact h.advance _
  · have hfeed : c ≠ '\n' := by
      rintro rfl
      rw [Lexeme.next_of_isBlank rfl] at hstray
      cases hstray
    have hspace : ' ' ≠ '\n' := by decide
    rw [hstray]
    exact h.step (iff_of_false hfeed hspace)

theorem SameSpot.advance_blankStrays (h : a.SameSpot b) (text : List Char) :
    (a.advance text).SameSpot (b.advance (blankStrays text)) := by
  induction text using lexemes_induction generalizing a b with
  | nil => simpa using h
  | cons c rest ih =>
      have hrest := ih (h.advance_next c rest)
      rwa [← advance_append, ← advance_append, Lexeme.text_next, ← blankStrays_cons] at hrest

end Location

/-- Spaces take no more bytes than what they are written over. -/
theorem byteSize_blankStrays_le (text : List Char) :
    byteSize (blankStrays text) ≤ byteSize text := by
  induction text using lexemes_induction with
  | nil => simp
  | cons c rest ih =>
      have hfirst : byteSize (Lexeme.next c rest).1.blanked ≤
          byteSize (Lexeme.next c rest).1.text := by
        rcases Lexeme.inGrammar_next c rest with hin | hstray
        · rw [Lexeme.blanked_of_isStray hin.isStray_eq]
        · rw [hstray]
          exact c.utf8Size_pos
      rw [blankStrays_cons, byteSize_append, ← Lexeme.text_next c rest, byteSize_append]
      exact Nat.add_le_add hfirst ih

/-- The source with spaces over its stray characters is read if the source is. -/
theorem lex_blankStrays {source : String} {t : Tokenization} (h : lex source = .ok t) :
    lex (String.ofList (blankStrays source.toList)) =
      .ok (tokenize (String.ofList (blankStrays source.toList))) := by
  obtain ⟨hsize, ⟨hline, hcolumn, hoffset⟩, -⟩ := lex_eq_ok_iff.mp h
  have hle := byteSize_blankStrays_le source.toList
  have hspot := (Location.SameSpot.refl .start).advance_blankStrays source.toList
  rw [lex_eq_ok_iff, utf8ByteSize_ofList, String.toList_ofList]
  refine ⟨?_, ⟨?_, ?_, ?_⟩, rfl⟩
  · exact Nat.le_trans hle (byteSize_toList source ▸ hsize)
  · exact hspot.line ▸ hline
  · exact hspot.column ▸ hcolumn
  · rw [Location.offset_start_advance] at hoffset ⊢
    exact Nat.lt_of_le_of_lt hle hoffset

/-! ## The lexemes of both texts -/

/-- The text with spaces starts with the same character, or with a space over a stray one. -/
theorem head?_blankStrays (c : Char) (rest : List Char) :
    (blankStrays (c :: rest)).head? = some c ∨
      (blankStrays (c :: rest)).head? = some ' ' ∧ Lexeme.next c rest = (.stray c, rest) := by
  rw [blankStrays_cons]
  rcases Lexeme.inGrammar_next c rest with hin | hstray
  · obtain ⟨tail, htext, -⟩ := Lexeme.exists_tail_of_next hin
    rw [Lexeme.blanked_of_isStray hin.isStray_eq, htext]
    exact .inl rfl
  · rw [hstray]
    exact .inr ⟨rfl, rfl⟩

/-- A lexeme that is no run of blanks also stops in front of the text with spaces over its
stray characters. -/
theorem Lexeme.StopsAt.blankStrays {l : Lexeme} {rest : List Char} (h : l.StopsAt rest)
    (hl : ∀ run, l ≠ .blanks run) : l.StopsAt (blankStrays rest) := by
  cases rest with
  | nil => rwa [blankStrays_nil]
  | cons c rest =>
      cases l with
      | blanks run => exact absurd rfl (hl run)
      | unclosed body => cases h
      | quoted body => trivial
      | stray d => trivial
      | comment text =>
          -- A comment stops at a line feed, which is no stray character.
          have hfeed : c = '\n' := h c rfl
          rcases head?_blankStrays c rest with hsame | ⟨-, hstray⟩
          · rw [StopsAt, hsame]
            exact h
          · rw [hfeed, next_of_isBlank rfl] at hstray
            cases hstray
      | symbol s =>
          rcases head?_blankStrays c rest with hsame | ⟨hspace, -⟩
          · rw [StopsAt, hsame]
            exact h
          · simp [StopsAt, hspace]
      | _ =>
          rcases head?_blankStrays c rest with hsame | ⟨hspace, -⟩
          · rw [StopsAt, hsame]
            exact h
          · rw [StopsAt, hspace]
            simp only [Option.mem_some_iff, forall_eq']
            decide

/-- The same lexeme, in the same line and column. -/
structure Occurrence.SameSpot (o o' : Occurrence) : Prop where
  lexeme : o'.lexeme = o.lexeme
  place : (Location.start.advance o.before).SameSpot (Location.start.advance o'.before)

/-- With spaces over the stray characters a text has its other lexemes in the same lines and
columns. -/
theorem occurrencesFrom_blankStrays {before before' : List Char} (text : List Char)
    (h : (Location.start.advance before).SameSpot (Location.start.advance before')) :
    List.Forall₂ Occurrence.SameSpot
      ((occurrencesFrom before (lexemes text)).filter fun o => !o.lexeme.isStray)
      (occurrencesFrom before' (lexemes (blankStrays text))) := by
  induction text using lexemes_induction generalizing before before' with
  | nil => simp [occurrencesFrom]
  | cons c rest ih =>
      have hplace := h.advance_next c rest
      rw [← Location.advance_append, ← Location.advance_append] at hplace
      have hrest := ih hplace
      have hstops := Lexeme.stopsAt_next c rest
      rw [lexemes_cons, blankStrays_cons]
      rcases Lexeme.inGrammar_next c rest with hin | hstray
      · obtain ⟨tail, htext, -⟩ := Lexeme.exists_tail_of_next hin
        rw [Lexeme.blanked_of_isStray hin.isStray_eq] at hrest ⊢
        generalize (Lexeme.next c rest).1 = l at *
        generalize (Lexeme.next c rest).2 = rest' at *
        by_cases hblanks : ∃ run, l = .blanks run
        · -- Blanks take in the space over a stray character behind them.
          obtain ⟨run, rfl⟩ := hblanks
          rw [Lexeme.text, occurrencesFrom_blanks hin.2]
          exact hrest
        · have hstops' := hstops.blankStrays fun run hrun => hblanks ⟨run, hrun⟩
          rw [htext, List.cons_append, lexemes_cons, Lexeme.next_of_stopsAt hin hstops' htext,
            occurrencesFrom, occurrencesFrom]
          split
          · exact hrest
          · rw [List.filter_cons_of_pos (by simp [hin.isStray_eq])]
            exact .cons ⟨rfl, h⟩ hrest
      · have hspace : ∀ c ∈ [' '], Lexeme.isBlank c = true := List.forall_mem_singleton.mpr rfl
        rw [hstray] at hrest ⊢
        rw [Lexeme.blanked, occurrencesFrom_blanks hspace]
        exact hrest

/-! ## The tokens of both texts -/

/-- The same kind, in the same line and column. -/
structure Token.SameSpot (a b : Token) : Prop where
  kind : b.kind = a.kind
  place : a.loc.SameSpot b.loc

/-- The same error, in the same line and column. -/
structure LexError.SameSpot (a b : LexError) : Prop where
  kind : b.kind = a.kind
  place : a.loc.SameSpot b.loc

namespace Tokenization

/-- The second has the tables of the first, and the tokens and errors of the first that are at
other places than those that are left out. -/
structure KeepsBut (left : Location → Bool) (t t' : Tokenization) : Prop where
  tables : t'.tables = t.tables
  tokens : List.Forall₂ Token.SameSpot
    (t.tokens.toList.filter fun token => !left token.loc) t'.tokens.toList
  errors : List.Forall₂ LexError.SameSpot
    (t.errors.toList.filter fun e => !left e.loc) t'.errors.toList

namespace KeepsBut

variable {left : Location → Bool} {t t' : Tokenization}

/-- A lexeme is read alike in both, unless it is at a place that is left out. -/
theorem add (h : KeepsBut left t t') {loc loc' : Location} (hloc : left loc = false)
    (hspot : loc.SameSpot loc') (l : Lexeme) : KeepsBut left (t.add loc l) (t'.add loc' l) := by
  obtain ⟨htables, htokens, herrors⟩ := h
  have hread' : t'.tables.read l = t.tables.read l := by rw [htables]
  rcases hread : t.tables.read l with ⟨reading, after⟩
  rw [hread] at hread'
  cases reading with
  | trivia =>
      rw [add_of_trivia hread, add_of_trivia hread']
      exact ⟨rfl, htokens, herrors⟩
  | token kind =>
      rw [add_of_token hread, add_of_token hread']
      refine ⟨rfl, ?_, herrors⟩
      rw [Array.toList_push, Array.toList_push, List.filter_append,
        List.filter_cons_of_pos (by simp [hloc])]
      exact List.rel_append htokens (.cons ⟨rfl, hspot⟩ .nil)
  | error e =>
      rw [add_of_error hread, add_of_error hread']
      refine ⟨rfl, ?_, ?_⟩
      · rw [Array.toList_push, Array.toList_push, List.filter_append,
          List.filter_cons_of_pos (by simp [hloc])]
        exact List.rel_append htokens (.cons ⟨rfl, hspot⟩ .nil)
      · rw [Array.toList_push, Array.toList_push, List.filter_append,
          List.filter_cons_of_pos (by simp [hloc])]
        exact List.rel_append herrors (.cons ⟨rfl, hspot⟩ .nil)

/-- A stray character at a place that is left out adds nothing that is kept. -/
theorem add_stray (h : KeepsBut left t t') {loc : Location} (hloc : left loc = true) (c : Char) :
    KeepsBut left (t.add loc (.stray c)) t' := by
  obtain ⟨htables, htokens, herrors⟩ := h
  have hread : t.tables.read (.stray c) = (.error (.unexpectedCharacter c), t.tables) := rfl
  rw [add_of_error hread]
  refine ⟨htables, ?_, ?_⟩
  · rw [Array.toList_push, List.filter_append, List.filter_cons_of_neg (by simp [hloc])]
    simpa using htokens
  · rw [Array.toList_push, List.filter_append, List.filter_cons_of_neg (by simp [hloc])]
    simpa using herrors

theorem push_eof (h : KeepsBut left t t') {loc loc' : Location} (hloc : left loc = false)
    (hspot : loc.SameSpot loc') : KeepsBut left (t.push .eof loc) (t'.push .eof loc') := by
  refine ⟨h.tables, ?_, h.errors⟩
  rw [push, push, Array.toList_push, Array.toList_push, List.filter_append,
    List.filter_cons_of_pos (by simp [hloc])]
  exact List.rel_append h.tokens (.cons ⟨rfl, hspot⟩ .nil)

/-- If the places that are left out are those of the stray characters, then reading the other
lexemes alone keeps everything else. -/
theorem foldl_addIn (h : KeepsBut left t t') {os os' : List Occurrence}
    (hleft : ∀ o ∈ os, left (Location.start.advance o.before) = o.lexeme.isStray)
    (hos : List.Forall₂ Occurrence.SameSpot (os.filter fun o => !o.lexeme.isStray) os') :
    KeepsBut left (os.foldl addIn t) (os'.foldl addIn t') := by
  induction os generalizing t t' os' with
  | nil =>
      cases hos
      exact h
  | cons o os ih =>
      obtain ⟨ho, hrest⟩ := List.forall_mem_cons.mp hleft
      obtain ⟨before, l⟩ := o
      cases hstray : l.isStray with
      | true =>
          rw [List.filter_cons_of_neg (by simp [hstray])] at hos
          cases l with
          | stray c => exact ih (h.add_stray ho c) hrest hos
          | _ => cases hstray
      | false =>
          rw [List.filter_cons_of_pos (by simp [hstray])] at hos
          cases hos with
          | @cons _ o' _ os' hfirst hos =>
              obtain ⟨hlexeme, hplace⟩ := hfirst
              rw [List.foldl_cons, List.foldl_cons, addIn, addIn, hlexeme]
              exact ih (h.add (ho.trans hstray) hplace l) hrest hos

end KeepsBut

end Tokenization

/-- The unexpected characters of a source are at the places of its stray lexemes. -/
theorem isUnexpectedAt_of_mem_occurrences {source : String} {o : Occurrence}
    (h : o ∈ occurrences source.toList) :
    (tokenize source).isUnexpectedAt (Location.start.advance o.before) = o.lexeme.isStray := by
  obtain ⟨-, c, rest, hsource, hcut, hnext⟩ := mem_occurrences_iff.mp h
  rw [Bool.eq_iff_iff, isUnexpectedAt_tokenize_iff hsource, standsIn_stray_iff_next, ← hnext]
  constructor
  · rintro ⟨-, hstray⟩
    rw [hstray]
    rfl
  · intro hstray
    refine ⟨hcut, (Lexeme.inGrammar_next c rest).resolve_left fun hin => ?_⟩
    cases hin.isStray_eq.symm.trans hstray

/-- There is no unexpected character behind the source. -/
theorem isUnexpectedAt_end (source : String) :
    (tokenize source).isUnexpectedAt (Location.start.advance source.toList) = false := by
  rw [Bool.eq_false_iff]
  intro hend
  obtain ⟨c, herror⟩ := Tokenization.isUnexpectedAt_iff.mp hend
  obtain ⟨before, after, hsource, -, hloc⟩ := mem_errors_unexpected_iff.mp herror
  have hparts : source.toList ++ [] = before ++ c :: after := by rw [List.append_nil, hsource]
  cases (eq_of_start_advance_eq hparts (Location.isBehind_iff.mp hloc)).2

theorem tokenize_keepsBut (source : String) :
    Tokenization.KeepsBut (tokenize source).isUnexpectedAt (tokenize source)
      (tokenize (String.ofList (blankStrays source.toList))) := by
  have hstart := Location.SameSpot.refl .start
  have hos := @occurrencesFrom_blankStrays [] [] source.toList hstart
  have hunread : Tokenization.KeepsBut (tokenize source).isUnexpectedAt (.unread source)
      (.unread (String.ofList (blankStrays source.toList))) := ⟨rfl, .nil, .nil⟩
  have hread := hunread.foldl_addIn (fun o => isUnexpectedAt_of_mem_occurrences) hos
  have hend := hread.push_eof (isUnexpectedAt_end source)
    (hstart.advance_blankStrays source.toList)
  have hblank := tokenize_eq_foldl (String.ofList (blankStrays source.toList))
  rw [String.toList_ofList] at hblank
  rw [hblank]
  nth_rewrite 2 [tokenize_eq_foldl source]
  exact hend

/-- Whenever a source is read, its errors are those that its text has; and with spaces over its
unexpected characters it is read with all else as it was.  Every source with fewer bytes than
the largest offset is read. -/
theorem lex_recovers (source : String) :
    (∀ t, lex source = .ok t → t.ListsErrors source.toList ∧
      ∃ t', lex (String.ofList (t.blank .start source.toList)) = .ok t' ∧
        t.KeepsBut t.isUnexpectedAt t') ∧
      (source.utf8ByteSize < SourceFault.maxBytes → ∃ t, lex source = .ok t) := by
  refine ⟨fun t ht => ?_, fun h => ⟨_, lex_of_lt h⟩⟩
  have hblank := lex_blankStrays ht
  obtain rfl := eq_tokenize_of_lex ht
  rw [blank_tokenize]
  exact ⟨tokenize_listsErrors source, _, hblank, tokenize_keepsBut source⟩

/-- Stray characters inside of what could be one operator, one word or one number, next to a
string and in front of one that is left open. -/
theorem lex_recovers_adjacent :
    ∃ t t', lex "!é=a#b\"@\"λ99999999999999999999$9~\"x" = .ok t ∧
      t.errors.toList.map LexError.kind =
        [.unexpectedCharacter 'é', .unexpectedCharacter '#', .unexpectedCharacter 'λ',
          .integerTooLarge, .unexpectedCharacter '$', .unexpectedCharacter '~',
          .unterminatedString] ∧
      t.ListsErrors "!é=a#b\"@\"λ99999999999999999999$9~\"x".toList ∧
      lex "! =a b\"@\" 99999999999999999999 9 \"x" = .ok t' ∧ t.KeepsBut t.isUnexpectedAt t' := by
  obtain ⟨t, ht⟩ := (lex_recovers "!é=a#b\"@\"λ99999999999999999999$9~\"x").2 (by decide)
  obtain ⟨herrors, t', ht', hkeeps⟩ :=
    (lex_recovers "!é=a#b\"@\"λ99999999999999999999$9~\"x").1 t ht
  obtain rfl := eq_tokenize_of_lex ht
  have hblank : String.ofList ((tokenize "!é=a#b\"@\"λ99999999999999999999$9~\"x").blank .start
      "!é=a#b\"@\"λ99999999999999999999$9~\"x".toList) =
        "! =a b\"@\" 99999999999999999999 9 \"x" := by decide +kernel
  rw [hblank] at ht'
  exact ⟨_, t', ht, by decide +kernel, herrors, ht', hkeeps⟩

end LoxReader
