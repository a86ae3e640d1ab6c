/-
  `Proofs.Tokenization.Inventory`: what the tokens of a source refer to.

  Each token stands at a place of the source and has its payload in the tables, and each
  error has its token.  There is no more than one token for each character, besides the
  mark of the end, and no more than one entry for each token.  No string that is entered has
  a quote in it.
-/
import LoxReader.Proofs.Lexeme.Separated
import LoxReader.Proofs.Tokenization.Munch
import LoxReader.Proofs.Tokenization.Numbering
import LoxReader.Tokenization.Listing

set_option autoImplicit false

namespace LoxReader

/-! ## Places -/

/-- Some character of the source stands at the place, or the source ends there. -/
def Location.IsIn (loc : Location) (source : List Char) : Prop :=
  ∃ before after, source = before ++ after ∧ loc = start.advance before

/-- The places of a short source can be stored. -/
theorem Location.IsIn.fits {loc : Location} {source : List Char} (h : loc.IsIn source)
    (hsize : byteSize source < fieldLimit - 1) : loc.Fits := by
  obtain ⟨before, after, rfl, rfl⟩ := h
  apply fits_advance
  rw [byteSize_append] at hsize
  omega

/-- The tokens of a source stand at places of the source. -/
theorem Reads.isIn {tables : Tables} {loc : Location} {ls : List Lexeme} {ts : List Token}
    (h : Reads tables loc ls ts) {before : List Char} (hloc : loc = Location.start.advance before) :
    ∀ token ∈ ts, token.loc.IsIn (before ++ ls.flatMap Lexeme.text) := by
  induction h generalizing before with
  | @eof loc =>
      intro token htoken
      obtain rfl := List.mem_singleton.mp htoken
      exact ⟨before, [], rfl, hloc⟩
  | @trivia loc l ls ts _ _ ih =>
      have hrest := @ih (before ++ l.text) (by rw [hloc, Location.advance_append])
      rwa [List.append_assoc, ← List.flatMap_cons] at hrest
  | @token loc l kind ls ts _ _ ih =>
      have hrest := @ih (before ++ l.text) (by rw [hloc, Location.advance_append])
      rw [List.append_assoc, ← List.flatMap_cons] at hrest
      exact List.forall_mem_cons.mpr ⟨⟨before, _, rfl, hloc⟩, hrest⟩

theorem tokenize_isIn (source : String) :
    ∀ token ∈ (tokenize source).tokens.toList, token.loc.IsIn source.toList := by
  have hplaces := (tokenize_reads source).isIn (Location.advance_nil _).symm
  rwa [List.nil_append, text_lexemes] at hplaces

/-! ## Payloads -/

/-- The tables have the payload of a token of this kind, if it has one. -/
def Tables.Has (tables : Tables) : TokenKind → Prop
  | .identifier id => id.index < tables.names.size
  | .string id => id.index < tables.strings.size
  | .number id => id.index < tables.numbers.size
  | _ => True

theorem lt_size_of_tableGet {α : Type} {table : Array α} {index : Nat} {entry : α}
    (h : tableGet table index = .ok entry) : index < table.size :=
  (Array.getElem?_eq_some_iff.mp (tableGet_eq_ok_iff.mp h)).1

/-- What a lexeme denotes has its payload in the tables. -/
theorem Denotes.has {tables : Tables} {l : Lexeme} {kind : TokenKind}
    (h : Denotes tables l kind) : tables.Has kind := by
  cases h with
  | identifier _ hid => exact lt_size_of_tableGet hid
  | number hid _ => exact lt_size_of_tableGet hid
  | string hid => exact lt_size_of_tableGet hid
  | _ => exact trivial

theorem Reads.has {tables : Tables} {loc : Location} {ls : List Lexeme} {ts : List Token}
    (h : Reads tables loc ls ts) : ∀ token ∈ ts, tables.Has token.kind := by
  induction h with
  | eof =>
      intro token htoken
      obtain rfl := List.mem_singleton.mp htoken
      exact trivial
  | trivia _ _ ih => exact ih
  | token hdenotes _ ih => exact List.forall_mem_cons.mpr ⟨hdenotes.has, ih⟩

/-- The tables that have the payloads of tokens have those of the literals in their
expression. -/
theorem Derives.has_of_mem_literals {tables : Tables} {rule : Rule} {ts : List Token} {e : Expr}
    (h : Derives rule ts e) (hts : ∀ token ∈ ts, tables.Has token.kind) {lit : Literal}
    (hlit : lit ∈ e.literals) : tables.Has lit.kind := by
  rw [← h.literalsOf_eq] at hlit
  obtain ⟨token, htoken, hkind⟩ := List.mem_filterMap.mp hlit
  rw [← Literal.ofToken?_eq_some_iff.mp hkind]
  exact hts token htoken

/-- A literal whose payload the tables have can be written. -/
theorem Literal.exists_text {tables : Tables} {value : Literal} (h : tables.Has value.kind) :
    ∃ text, value.text tables = .ok text := by
  cases value with
  | number id =>
      rw [text, Tables.number, tableGet_of_lt h]
      exact ⟨_, rfl⟩
  | string id =>
      rw [text, Tables.string, tableGet_of_lt h]
      exact ⟨_, rfl⟩
  | bool value => cases value <;> exact ⟨_, rfl⟩
  | nil => exact ⟨_, rfl⟩

namespace Tokenization

theorem exists_payloadText {t : Tokenization} {kind : TokenKind} (h : t.tables.Has kind) :
    ∃ text, t.payloadText kind = .ok text := by
  cases kind with
  | identifier id =>
      simp only [payloadText, Tables.name, tableGet_of_lt h]
      exact ⟨_, rfl⟩
  | string id =>
      simp only [payloadText, Tables.string, tableGet_of_lt h]
      exact ⟨_, rfl⟩
  | number id =>
      simp only [payloadText, Tables.number, tableGet_of_lt h]
      exact ⟨_, rfl⟩
  | _ => exact ⟨_, rfl⟩

theorem exists_renderLines {t : Tokenization} {ts : List Token}
    (h : ∀ token ∈ ts, t.tables.Has token.kind) (out : String) :
    ∃ text, t.renderLines out ts = .ok text := by
  induction ts generalizing out with
  | nil => exact ⟨out, rfl⟩
  | cons token rest ih =>
      obtain ⟨htoken, hrest⟩ := List.forall_mem_cons.mp h
      obtain ⟨payload, hpayload⟩ := exists_payloadText htoken
      simp only [renderLines, render, hpayload]
      exact ih hrest _

/-- Tokens whose payloads the tables have can be listed. -/
theorem exists_listing {t : Tokenization}
    (h : ∀ token ∈ t.tokens.toList, t.tables.Has token.kind) :
    ∃ text, t.listing = .ok text := by
  obtain ⟨lines, hlines⟩ := exists_renderLines h ""
  simp only [listing, hlines]
  exact ⟨_, rfl⟩

end Tokenization

/-! ## Errors and entries -/

/-- The number of entries of all tables. -/
def Tables.entries (tables : Tables) : Nat :=
  tables.names.size + tables.strings.size + tables.numbers.size

theorem Tables.entries_intern_le (tables : Tables) (word : String) :
    (tables.intern word).2.entries ≤ tables.entries + 1 := by
  obtain ⟨names, strings, numbers⟩ := tables
  simp only [intern]
  split
  · exact Nat.le_succ _
  · simp only [entries, Array.size_push]
    omega

/-- At most one entry is made for a lexeme. -/
theorem Tables.entries_read_le (tables : Tables) (l : Lexeme) :
    (tables.read l).2.entries ≤ tables.entries + 1 := by
  unfold read
  split
  · exact Nat.le_succ _
  · exact Nat.le_succ _
  · exact Nat.le_succ _
  · split
    · simp only [addNumber, entries, Array.size_push]
      exact Nat.le_refl _
    · exact Nat.le_succ _
  · split
    · exact Nat.le_succ _
    · exact tables.entries_intern_le _
  · simp only [addString, entries, Array.size_push]
    omega
  · exact Nat.le_succ _
  · exact Nat.le_succ _

/-- No entry is made for what means nothing. -/
theorem Tables.eq_of_read_trivia {tables after : Tables} {l : Lexeme}
    (h : tables.read l = (.trivia, after)) : after = tables := by
  unfold read at h
  split at h
  · exact (Prod.mk.inj h).2.symm
  · exact (Prod.mk.inj h).2.symm
  · cases h
  · split at h <;> cases h
  · split at h <;> cases h
  · cases h
  · cases h
  · cases h

/-- Each error has its token, and so has each entry. -/
structure Tokenization.Accounted (t : Tokenization) : Prop where
  errors : ∀ e ∈ t.errors.toList, ⟨.error, e.loc⟩ ∈ t.tokens.toList
  entries : t.tables.entries ≤ t.tokens.size

namespace Tokenization.Accounted

variable {t : Tokenization}

theorem add (h : t.Accounted) (loc : Location) (l : Lexeme) : (t.add loc l).Accounted := by
  have hle := t.tables.entries_read_le l
  rcases hread : t.tables.read l with ⟨reading, after⟩
  rw [hread] at hle
  have hold : ∀ token e, e ∈ t.errors.toList → (⟨.error, e.loc⟩ : Token) ∈
      (t.tokens.push token).toList := by
    intro token e he
    rw [Array.toList_push]
    exact List.mem_append_left _ (h.errors e he)
  have hentries : ∀ token, after.entries ≤ (t.tokens.push token).size := by
    intro token
    rw [Array.size_push]
    exact Nat.le_trans hle (Nat.succ_le_succ h.entries)
  cases reading with
  | trivia =>
      rw [add_of_trivia hread, Tables.eq_of_read_trivia hread]
      exact h
  | token kind =>
      rw [add_of_token hread]
      exact ⟨hold _, hentries _⟩
  | error kind =>
      rw [add_of_error hread]
      refine ⟨fun e he => ?_, hentries _⟩
      rw [Array.toList_push, List.mem_append, List.mem_singleton] at he
      rcases he with he | rfl
      · exact hold _ e he
      · simp

theorem push_eof (h : t.Accounted) (loc : Location) : (t.push .eof loc).Accounted := by
  refine ⟨fun e he => ?_, ?_⟩
  · rw [push, Array.toList_push]
    exact List.mem_append_left _ (h.errors e he)
  · rw [push, Array.size_push]
    exact Nat.le_succ_of_le h.entries

end Tokenization.Accounted

theorem tokenize_accounted (source : String) : (tokenize source).Accounted := by
  have hunread : (Tokenization.unread source).Accounted :=
    ⟨fun e he => (by cases he), Nat.le_refl 0⟩
  exact Tokenization.readFrom_of (fun _ h => h.add) (fun _ h => h.push_eof) hunread .start _

/-! ## Bodies of strings -/

/-- No string of the tables has a quote in it. -/
def Tables.Quoteless (tables : Tables) : Prop :=
  ∀ id body, tables.string id = .ok body → '"' ∉ body.toList

namespace Tables.Quoteless

variable {tables : Tables}

theorem of_strings_eq {other : Tables} (h : tables.Quoteless)
    (heq : other.strings = tables.strings) : other.Quoteless := by
  intro id body hbody
  rw [Tables.string, heq] at hbody
  exact h id body hbody

theorem addString (h : tables.Quoteless) {body : List Char} (hbody : '"' ∉ body) :
    (tables.addString (String.ofList body)).2.Quoteless := by
  intro id entry hentry
  rw [Tables.string, tableGet_eq_ok_iff, Tables.addString, Array.getElem?_push] at hentry
  split at hentry
  · obtain rfl := Option.some.inj hentry
    rwa [String.toList_ofList]
  · exact h id entry (tableGet_eq_ok_iff.mpr hentry)

/-- What is read of a text puts no quote into the tables. -/
theorem read (h : tables.Quoteless) {text : List Char} {l : Lexeme} (hl : l ∈ lexemes text) :
    (tables.read l).2.Quoteless := by
  cases l with
  | quoted body =>
      rcases inGrammar_of_mem_lexemes hl with hbody | ⟨c, hc⟩
      · exact h.addString hbody
      · cases hc
  | digits digits =>
      simp only [Tables.read]
      split
      · exact h.of_strings_eq rfl
      · exact h
  | word word =>
      simp only [Tables.read]
      split
      · exact h
      · exact h.of_strings_eq (tables.enters_intern _).2
  | _ => exact h

end Tables.Quoteless

/-- A string ends at the first quote behind its opening one. -/
theorem tokenize_quoteless (source : String) : (tokenize source).tables.Quoteless := by
  have hfrom : ∀ (ls : List Lexeme) (t : Tokenization) (loc : Location),
      (∀ l ∈ ls, l ∈ lexemes source.toList) → t.tables.Quoteless →
        (t.readFrom loc ls).tables.Quoteless := by
    intro ls
    induction ls with
    | nil => exact fun _ _ _ h => h
    | cons l ls ih =>
        intro t loc hls h
        obtain ⟨hl, hrest⟩ := List.forall_mem_cons.mp hls
        refine ih _ _ hrest ?_
        rw [Tokenization.tables_add]
        exact h.read hl
  refine hfrom _ (.unread source) .start (fun _ hl => hl) fun id body hbody => ?_
  rw [Tables.string, tableGet_eq_ok_iff] at hbody
  cases hbody

theorem quoteless_of_lex {source : String} {t : Tokenization} (h : lex source = .ok t) :
    t.tables.Quoteless :=
  eq_tokenize_of_lex h ▸ tokenize_quoteless source

/-! ## The number of tokens -/

/-- A text has no more lexemes than characters. -/
theorem length_lexemes_le (text : List Char) : (lexemes text).length ≤ text.length := by
  induction text using lexemes_induction with
  | nil => simp
  | cons c rest ih =>
      rw [lexemes_cons, List.length_cons, List.length_cons]
      exact Nat.succ_le_succ (Nat.le_trans ih (Lexeme.length_next c rest))

theorem Reads.length_le {tables : Tables} {loc : Location} {ls : List Lexeme} {ts : List Token}
    (h : Reads tables loc ls ts) : ts.length ≤ ls.length + 1 := by
  induction h with
  | eof => exact Nat.le_refl 1
  | trivia _ _ ih => exact Nat.le_succ_of_le ih
  | token _ _ ih => exact Nat.succ_le_succ ih

/-- A source has no more than one token for each byte, besides the mark of the end. -/
theorem size_tokens_le (source : String) :
    (tokenize source).tokens.size ≤ source.utf8ByteSize + 1 := by
  have htokens := (tokenize_reads source).length_le
  have hlexemes := length_lexemes_le source.toList
  have hbytes := length_le_byteSize source.toList
  rw [byteSize_toList] at hbytes
  rw [Array.length_toList] at htokens
  omega

end LoxReader
