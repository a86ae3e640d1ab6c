/-
  `Proofs.Tokenization.Payloads`: what each token refers to.

  An identifier refers to its spelling, which no other index has and no reserved word; the
  strings and the numbers refer to one entry each, in order.  The main statement is
  `lex_payloads`.
-/
import LoxReader.Proofs.Tokenization.Interning

set_option autoImplicit false

namespace LoxReader

/-! ## What is entered for denoted tokens -/

namespace Denotes

variable {tables : Tables} {l : Lexeme} {kind : TokenKind}

/-- Identifiers are the words that are not reserved. -/
theorem isSome_nameId? (h : Denotes tables l kind) : kind.nameId?.isSome = l.name?.isSome := by
  cases h with
  | @keyword word k _ hword =>
      have hreserved : Keyword.ofSpelling? (String.ofList word) = some k := by
        rw [← hword, String.ofList_toList, Keyword.ofSpelling?_spelling]
      simp only [Lexeme.name?, hreserved]
      rfl
  | @identifier word id hword _ =>
      have hfree : Keyword.ofSpelling? (String.ofList word) = none := by
        rw [Option.eq_none_iff_forall_ne_some]
        intro k hk
        refine hword k (Keyword.mem_all k) ?_
        rw [Keyword.spelling_of_ofSpelling? hk, String.toList_ofList]
      simp only [Lexeme.name?, hfree]
      rfl
  | _ => rfl

/-- The spelling of an identifier is the text of its lexeme. -/
theorem name_eq (h : Denotes tables l kind) {id : NameId} (hid : kind.nameId? = some id) :
    tables.name id = .ok (String.ofList l.text) := by
  cases h with
  | identifier _ hname =>
      obtain rfl := Option.some.inj hid
      exact hname
  | _ => cases hid

theorem exists_quoted {id : LiteralId} (h : Denotes tables l (.string id)) :
    ∃ body, l = .quoted body ∧ tables.string id = .ok (String.ofList body) := by
  cases h with
  | string hbody => exact ⟨_, rfl, hbody⟩

theorem exists_digits {id : LiteralId} (h : Denotes tables l (.number id)) :
    ∃ run value, l = .digits run ∧ tables.number id = .ok value ∧
      value.toNat = digitsValue run := by
  cases h with
  | number hid hvalue => exact ⟨_, _, rfl, hid, hvalue⟩

/-- Nothing is entered for errors. -/
theorem entries_of_error (h : Denotes tables l .error) :
    l.name? = none ∧ l.string? = none ∧ l.number? = none := by
  cases h with
  | overflow hvalue => exact ⟨rfl, rfl, if_neg (Nat.not_lt.mpr hvalue)⟩
  | unclosed => exact ⟨rfl, rfl, rfl⟩
  | stray => exact ⟨rfl, rfl, rfl⟩

end Denotes

/-- No spelling is found under two indices of a table without repetitions. -/
theorem Tables.name_injective {tables : Tables} (h : tables.names.toList.Nodup) {id id' : NameId}
    {word : String} (hid : tables.name id = .ok word) (hid' : tables.name id' = .ok word) :
    id = id' := by
  rw [name, tableGet_eq_ok_iff, ← Array.getElem?_toList] at hid hid'
  have hlt := (List.getElem?_eq_some_iff.mp hid).1
  have hindex := (List.getElem?_inj hlt h).mp (hid.trans hid'.symm)
  cases id
  exact congrArg NameId.mk hindex

/-! ## Tokens and their lexemes -/

namespace TokenKind

/-- The index of the body, for a string. -/
def stringId? : TokenKind → Option LiteralId
  | .string id => some id
  | _ => none

/-- The index of the value, for a number. -/
def numberId? : TokenKind → Option LiteralId
  | .number id => some id
  | _ => none

theorem stringId?_eq (kind : TokenKind) :
    kind.stringId? = (Literal.ofToken? kind).bind Literal.stringId? := by
  cases kind with
  | keyword k => cases k <;> rfl
  | _ => rfl

theorem numberId?_eq (kind : TokenKind) :
    kind.numberId? = (Literal.ofToken? kind).bind Literal.numberId? := by
  cases kind with
  | keyword k => cases k <;> rfl
  | _ => rfl

end TokenKind

namespace Tokenization

/-- The indices of the strings among the tokens. -/
def stringIds (t : Tokenization) : List LiteralId :=
  t.tokens.toList.filterMap fun token => token.kind.stringId?

/-- The indices of the numbers among the tokens. -/
def numberIds (t : Tokenization) : List LiteralId :=
  t.tokens.toList.filterMap fun token => token.kind.numberId?

/-- The lexemes of a source that are no trivia, each with its token. -/
def pairs (t : Tokenization) (source : String) : List (Lexeme × Token) :=
  (Lexeme.proper (lexemes source.toList)).zip t.tokens.toList

/-- There is one token for each lexeme that is no trivia, which denotes it, and then there is
the end. -/
structure Matches (t : Tokenization) (source : String) : Prop where
  size : t.tokens.size = (Lexeme.proper (lexemes source.toList)).length + 1
  eof : t.tokens.back?.map Token.kind = some .eof
  denotes : ∀ p ∈ t.pairs source, Denotes t.tables p.1 p.2.kind

/-- The table of identifiers is exact. -/
structure NamesExact (t : Tokenization) (source : String) : Prop where
  /-- Identifiers are the tokens that carry the index of a spelling. -/
  tag : ∀ token ∈ t.tokens.toList, token.kind.nameId?.isSome ↔ token.tag = .identifier
  /-- They stand for the words that are not reserved. -/
  isSome_eq : ∀ p ∈ t.pairs source, p.2.kind.nameId?.isSome = p.1.name?.isSome
  /-- The table has the spelling of each token that carries the index. -/
  name : ∀ p ∈ t.pairs source, ∀ id, p.2.kind.nameId? = some id →
    t.tables.name id = .ok (String.ofList p.1.text)
  /-- Two tokens carry the same index exactly if they are spelled alike. -/
  eq_iff : ∀ p ∈ t.pairs source, ∀ q ∈ t.pairs source, ∀ id id',
    p.2.kind.nameId? = some id → q.2.kind.nameId? = some id' → (id = id' ↔ p.1.text = q.1.text)
  /-- The indices are numbered in the order in which they first appear. -/
  order : t.nameIds.eraseDups = NameId.upTo t.tables.names.size
  nodup : t.tables.names.toList.Nodup
  entries : t.tables.names.toList = ((lexemes source.toList).filterMap Lexeme.name?).eraseDups
  not_keyword : ∀ k : Keyword, k.spelling ∉ t.tables.names.toList

/-- The tables of strings and of numbers are exact. -/
structure LiteralsExact (t : Tokenization) (source : String) : Prop where
  stringIds : t.stringIds = LiteralId.upTo t.tables.strings.size
  string : ∀ p ∈ t.pairs source, ∀ id, p.2.kind = .string id →
    ∃ body, p.1 = .quoted body ∧ t.tables.string id = .ok (String.ofList body)
  strings : t.tables.strings.toList = (lexemes source.toList).filterMap Lexeme.string?
  numberIds : t.numberIds = LiteralId.upTo t.tables.numbers.size
  number : ∀ p ∈ t.pairs source, ∀ id, p.2.kind = .number id →
    ∃ run value, p.1 = .digits run ∧ t.tables.number id = .ok value ∧
      value.toNat = digitsValue run
  numbers : t.tables.numbers.toList = (lexemes source.toList).filterMap Lexeme.number?
  /-- Nothing is entered for errors. -/
  error : ∀ p ∈ t.pairs source, p.2.kind = .error →
    p.1.name? = none ∧ p.1.string? = none ∧ p.1.number? = none

theorem nameId?_isSome_iff (token : Token) :
    token.kind.nameId?.isSome ↔ token.tag = .identifier := by
  obtain ⟨kind, loc⟩ := token
  cases kind <;> simp [TokenKind.nameId?, Token.tag, TokenKind.tag]

end Tokenization

/-! ## The tables of a source -/

theorem tokenize_matches (source : String) : (tokenize source).Matches source := by
  obtain ⟨init, eof, htokens, heof, hdenotes⟩ := (tokenize_reads source).forall₂_denotes
  have hlength := hdenotes.length_eq
  rw [List.length_map] at hlength
  refine ⟨?_, ?_, fun p hp => ?_⟩
  · rw [← Array.length_toList, htokens, List.length_append, hlength]
    rfl
  · rw [← Array.getLast?_toList, htokens, List.getLast?_concat, Option.map_some, heof]
  · have hzip : ∀ ls : List Lexeme, ls.length = init.length →
        ls.zip (init ++ [eof]) = ls.zip init := by
      intro ls hls
      have happend := @List.zip_append _ _ ls [] init [eof] hls
      rwa [List.append_nil, List.zip_nil_left, List.append_nil] at happend
    rw [Tokenization.pairs, htokens, hzip _ hlength] at hp
    exact (List.forall₂_iff_zip.mp (List.forall₂_map_right_iff.mp hdenotes)).2 hp

theorem tokenize_namesExact (source : String) : (tokenize source).NamesExact source := by
  have hdenotes := (tokenize_matches source).denotes
  have hnames := (tokenize_areOf source).names
  have hnodup : (tokenize source).tables.names.toList.Nodup := hnames ▸ nodup_eraseDups _
  refine ⟨fun token _ => Tokenization.nameId?_isSome_iff token,
    fun p hp => (hdenotes p hp).isSome_nameId?, fun p hp id => (hdenotes p hp).name_eq, ?_,
    tokenize_inOrder source, hnodup, hnames, fun k hk => ?_⟩
  · intro p hp q hq id id' hid hid'
    have hname := (hdenotes p hp).name_eq hid
    have hname' := (hdenotes q hq).name_eq hid'
    constructor
    · rintro rfl
      exact String.ofList_injective (Except.ok.inj (hname.symm.trans hname'))
    · intro htext
      rw [← htext] at hname'
      exact Tables.name_injective hnodup hname hname'
  · rw [hnames, List.mem_eraseDups, List.mem_filterMap] at hk
    obtain ⟨l, -, hl⟩ := hk
    cases l with
    | word word =>
        simp only [Lexeme.name?] at hl
        split at hl
        · cases hl
        · rename_i hfree
          exact Keyword.spelling_ne_of_ofSpelling? hfree k (Option.some.inj hl).symm
    | _ => cases hl

theorem tokenize_literalsExact (source : String) : (tokenize source).LiteralsExact source := by
  have hdenotes := (tokenize_matches source).denotes
  have hnumbered := tokenize_numbered source
  have htables := tokenize_areOf source
  refine ⟨?_, fun p hp id hid => ?_, htables.strings, ?_, fun p hp id hid => ?_, htables.numbers,
    fun p hp herror => ?_⟩
  · rw [← hnumbered.strings, literalsOf, List.filterMap_filterMap]
    exact List.filterMap_congr fun token _ => token.kind.stringId?_eq
  · exact (hid ▸ hdenotes p hp).exists_quoted
  · rw [← hnumbered.numbers, literalsOf, List.filterMap_filterMap]
    exact List.filterMap_congr fun token _ => token.kind.numberId?_eq
  · exact (hid ▸ hdenotes p hp).exists_digits
  · exact (herror ▸ hdenotes p hp).entries_of_error

/-- Whenever a source is read, each of its tokens refers to what its lexeme is, the tables
have no other entries, and indices are given in order; and every source with fewer bytes
than the largest offset is read. -/
theorem lex_payloads (source : String) :
    (∀ t, lex source = .ok t →
      t.Matches source ∧ t.NamesExact source ∧ t.LiteralsExact source) ∧
      (source.utf8ByteSize < SourceFault.maxBytes → ∃ t, lex source = .ok t) := by
  refine ⟨fun t hlex => ?_, fun h => ⟨_, lex_of_lt h⟩⟩
  rw [eq_tokenize_of_lex hlex]
  exact ⟨tokenize_matches source, tokenize_namesExact source, tokenize_literalsExact source⟩

/-- A spelling that comes back behind a reserved word, a number that is too large and a string
that is left open, between those that are entered. -/
theorem lex_payloads_interleaved :
    ∃ t, lex "b 99999999999999999999 fun \"b\" a 007 b \"c" = .ok t ∧
      t.nameIds = [⟨0⟩, ⟨1⟩, ⟨0⟩] ∧
        t.Matches "b 99999999999999999999 fun \"b\" a 007 b \"c" ∧
        t.NamesExact "b 99999999999999999999 fun \"b\" a 007 b \"c" ∧
        t.LiteralsExact "b 99999999999999999999 fun \"b\" a 007 b \"c" := by
  obtain ⟨t, ht⟩ := (lex_payloads "b 99999999999999999999 fun \"b\" a 007 b \"c").2 (by decide)
  have hids : (tokenize "b 99999999999999999999 fun \"b\" a 007 b \"c").nameIds =
      [⟨0⟩, ⟨1⟩, ⟨0⟩] := by decide +kernel
  refine ⟨t, ht, ?_, (lex_payloads "b 99999999999999999999 fun \"b\" a 007 b \"c").1 t ht⟩
  rw [eq_tokenize_of_lex ht, hids]

end LoxReader
