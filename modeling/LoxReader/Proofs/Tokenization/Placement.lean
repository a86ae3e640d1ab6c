/-
  `Proofs.Tokenization.Placement`: where the tokens and errors of a source stand.

  Each token and each error stands where its lexeme starts, on the line and in the column
  that counting in the text before it gives.  Later lexemes start at larger offsets, and
  places of one source compare as their offsets do.  The main statement is `lex_placed`.
-/
import LoxReader.Proofs.Tokenization.Inventory
import LoxReader.Proofs.Tokenization.Occurrences
import LoxReader.Proofs.Tokenization.Tracking

set_option autoImplicit false

namespace LoxReader

/-! ## Places of one source -/

namespace Location

/-- Places of one source compare as their offsets do. -/
theorem IsIn.lt_iff {a b : Location} {source : List Char} (ha : a.IsIn source)
    (hb : b.IsIn source) : a < b ↔ a.offset < b.offset := by
  obtain ⟨first, _, hfirst, rfl⟩ := ha
  obtain ⟨second, _, hsecond, rfl⟩ := hb
  exact advance_lt_advance_iff
    (List.prefix_or_prefix_of_prefix ⟨_, hfirst.symm⟩ ⟨_, hsecond.symm⟩)

theorem IsIn.le_iff {a b : Location} {source : List Char} (ha : a.IsIn source)
    (hb : b.IsIn source) : a ≤ b ↔ a.offset ≤ b.offset := by
  constructor
  · rintro (rfl | hlt)
    · exact Nat.le_refl _
    · exact Nat.le_of_lt ((ha.lt_iff hb).mp hlt)
  · intro hle
    by_cases hlt : a < b
    · exact .inr hlt
    · refine .inl (eq_of_not_lt hlt ?_)
      rw [hb.lt_iff ha]
      exact Nat.not_lt.mpr hle

end Location

/-! ## Offsets along the tokens -/

/-- A token of lexemes that have characters starts behind those before it. -/
theorem Reads.pairwise_offset {tables : Tables} {loc : Location} {ls : List Lexeme}
    {ts : List Token} (h : Reads tables loc ls ts) (hls : ∀ l ∈ ls, l.text ≠ []) :
    ts.Pairwise (fun a b => a.loc.offset < b.loc.offset) ∧
      ∀ token ∈ ts, loc.offset ≤ token.loc.offset := by
  induction h with
  | @eof loc =>
      refine ⟨List.pairwise_singleton _ _, fun token htoken => ?_⟩
      obtain rfl := List.mem_singleton.mp htoken
      exact Nat.le_refl _
  | @trivia loc l ls ts _ _ ih =>
      obtain ⟨hl, hrest⟩ := List.forall_mem_cons.mp hls
      obtain ⟨hpairwise, hle⟩ := ih hrest
      have hlt := Nat.le_of_lt (Location.offset_lt_advance loc hl)
      exact ⟨hpairwise, fun token htoken => Nat.le_trans hlt (hle token htoken)⟩
  | @token loc l kind ls ts _ _ ih =>
      obtain ⟨hl, hrest⟩ := List.forall_mem_cons.mp hls
      obtain ⟨hpairwise, hle⟩ := ih hrest
      have hlt : ∀ token ∈ ts, loc.offset < token.loc.offset := fun token htoken =>
        Nat.lt_of_lt_of_le (Location.offset_lt_advance loc hl) (hle token htoken)
      refine ⟨List.pairwise_cons.mpr ⟨hlt, hpairwise⟩, List.forall_mem_cons.mpr ⟨?_, ?_⟩⟩
      · exact Nat.le_refl _
      · exact fun token htoken => Nat.le_of_lt (hlt token htoken)

theorem text_ne_nil_of_mem_lexemes {text : List Char} {l : Lexeme} (h : l ∈ lexemes text) :
    l.text ≠ [] := by
  rcases inGrammar_of_mem_lexemes h with hgrammar | ⟨c, rfl⟩
  · exact Lexeme.text_ne_nil hgrammar
  · exact List.cons_ne_nil c []

/-- A lexeme that is no trivia does not start with a blank. -/
theorem exists_head_of_mem_lexemes {text : List Char} {l : Lexeme} (h : l ∈ lexemes text)
    (htrivia : l.isTrivia = false) : ∃ c, l.text.head? = some c ∧ Lexeme.isBlank c = false := by
  have hne := text_ne_nil_of_mem_lexemes h
  induction text using lexemes_induction with
  | nil => simp at h
  | cons c rest ih =>
      rw [lexemes_cons, List.mem_cons] at h
      rcases h with rfl | hrest
      · have hcut := Lexeme.text_next c rest
        have hhead : (c :: rest).head? = (Lexeme.next c rest).1.text.head? := by
          rw [← hcut]
          exact List.head?_append_of_ne_nil _ hne
        rw [← hhead]
        cases hc : Lexeme.isBlank c with
        | true =>
            rw [Lexeme.next_of_isBlank hc] at htrivia
            cases htrivia
        | false => exact ⟨c, rfl, hc⟩
      · exact ih hrest

/-! ## All of a source -/

/-- Where the tokens come from and where the errors do. -/
def Tokenization.places (t : Tokenization) : List Location :=
  t.tokens.toList.map Token.loc ++ t.errors.toList.map LexError.loc

/-- The tokens and errors stand where their lexemes start in the source, and the mark of
the end behind all of it. -/
structure Tokenization.Placed (t : Tokenization) (source : String) : Prop where
  splits : ∀ o ∈ occurrences source.toList,
    ∃ after, source.toList = o.before ++ o.lexeme.text ++ after
  tokens : ∃ ts eof, t.tokens.toList = ts ++ [eof] ∧
    List.Forall₂ (Occurrence.Gives t.tables) (occurrences source.toList) ts ∧
      eof.kind = .eof ∧ eof.loc.IsBehind source.toList ∧ eof.loc.offset = source.utf8ByteSize
  errors : List.Forall₂ Occurrence.Fails
    ((occurrences source.toList).filter fun o => o.lexeme.problem?.isSome) t.errors.toList
  increasing : t.tokens.toList.Pairwise fun a b => a.loc.offset < b.loc.offset
  lt_iff : ∀ a ∈ t.places, ∀ b ∈ t.places, a < b ↔ a.offset < b.offset
  le_iff : ∀ a ∈ t.places, ∀ b ∈ t.places, a ≤ b ↔ a.offset ≤ b.offset

theorem tokenize_errors_fail (source : String) :
    List.Forall₂ Occurrence.Fails
      ((occurrences source.toList).filter fun o => o.lexeme.problem?.isSome)
      (tokenize source).errors.toList := by
  obtain ⟨es, herrors, hes⟩ := Tokenization.exists_fails (.unread source)
    (Location.advance_nil .start).symm (lexemes source.toList)
  have htokenize : (tokenize source).errors.toList = es := herrors
  rw [htokenize]
  exact hes

theorem isIn_of_mem_places {source : String} {loc : Location}
    (h : loc ∈ (tokenize source).places) : loc.IsIn source.toList := by
  rw [Tokenization.places, List.mem_append] at h
  rcases h with hplace | hplace
  · obtain ⟨token, htoken, rfl⟩ := List.mem_map.mp hplace
    exact tokenize_isIn source token htoken
  · obtain ⟨e, he, rfl⟩ := List.mem_map.mp hplace
    exact tokenize_isIn source _ ((tokenize_accounted source).errors e he)

theorem tokenize_placed (source : String) : (tokenize source).Placed source := by
  have hreads := tokenize_reads source
  obtain ⟨ts, htokens, hgives⟩ := hreads.exists_gives (Location.advance_nil _).symm
  rw [List.nil_append, text_lexemes] at htokens
  have hend : (Location.start.advance source.toList).IsBehind source.toList :=
    Location.isBehind_iff.mpr rfl
  refine ⟨fun o => exists_after_of_mem_occurrences, ⟨ts, _, htokens, hgives, rfl, hend, ?_⟩,
    tokenize_errors_fail source, ?_, ?_, ?_⟩
  · rw [hend.offset, String.ofList_toList]
  · exact (hreads.pairwise_offset fun l => text_ne_nil_of_mem_lexemes).1
  · exact fun a ha b hb => (isIn_of_mem_places ha).lt_iff (isIn_of_mem_places hb)
  · exact fun a ha b hb => (isIn_of_mem_places ha).le_iff (isIn_of_mem_places hb)

/-- A token of a source stands where a character does that is no blank, or the source ends. -/
theorem exists_parts_of_token {source : String} {token : Token}
    (h : token ∈ (tokenize source).tokens.toList) :
    ∃ before after, source.toList = before ++ after ∧ token.loc.IsBehind before ∧
      ∀ c ∈ after.head?, Lexeme.isBlank c = false := by
  obtain ⟨ts, eof, htokens, hgives, -, heof, -⟩ := (tokenize_placed source).tokens
  rw [htokens, List.mem_append, List.mem_singleton] at h
  rcases h with hmem | rfl
  · obtain ⟨i, hi, rfl⟩ := List.mem_iff_getElem.mp hmem
    have hlength := hgives.length_eq
    obtain ⟨hdenotes, hplace⟩ := hgives.get (hlength ▸ hi) hi
    have ho : (occurrences source.toList)[i] ∈ occurrences source.toList := List.getElem_mem _
    obtain ⟨after, hafter⟩ := exists_after_of_mem_occurrences ho
    have hl := mem_lexemes_of_mem_occurrences ho
    obtain ⟨c, hhead, hc⟩ := exists_head_of_mem_lexemes hl hdenotes.isTrivia_eq
    refine ⟨_, _, hafter.trans (List.append_assoc _ _ _), hplace, fun d hd => ?_⟩
    rw [List.head?_append_of_ne_nil _ (text_ne_nil_of_mem_lexemes hl)] at hd
    obtain rfl := Option.some.inj (hhead.symm.trans hd)
    exact hc
  · exact ⟨source.toList, [], (List.append_nil _).symm, heof, by simp⟩

/-- Every source with fewer bytes than the largest offset is read, a tracker that goes from
lexeme to lexeme finds the same places, and the tokens and errors are placed by counting. -/
theorem lex_placed {source : String} (h : source.utf8ByteSize < SourceFault.maxBytes) :
    ∃ t, lex source = .ok t ∧ Tokenization.track source = .ok t ∧ t.Placed source :=
  ⟨_, lex_of_lt h, Tokenization.track_eq_tokenize h, tokenize_placed source⟩

/-- A string over two lines and stray characters of more than one byte, before a number that
is too large. -/
theorem lex_placed_multiline :
    ("\"é\n\" // ÿ\r\n\t#λ99999999999999999999 x".utf8ByteSize < SourceFault.maxBytes) ∧
      ∃ t, lex "\"é\n\" // ÿ\r\n\t#λ99999999999999999999 x" = .ok t ∧
        Tokenization.track "\"é\n\" // ÿ\r\n\t#λ99999999999999999999 x" = .ok t ∧
          t.Placed "\"é\n\" // ÿ\r\n\t#λ99999999999999999999 x" :=
  ⟨by decide, lex_placed (by decide)⟩

end LoxReader
