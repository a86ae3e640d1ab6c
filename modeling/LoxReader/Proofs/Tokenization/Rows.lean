/-
  `Proofs.Tokenization.Rows`: what the listing of a source tells of its tokens.

  A row has what a token stands for and its line and column, but neither its offset nor an
  index into a table.  A listing is written from the rows of the tokens and from whether there
  is an error, and from nothing else (`exists_rows_of_listing`).
-/
import LoxReader.Proofs.Tokenization.Interning
import LoxReader.Proofs.Tokenization.Inventory

set_option autoImplicit false

namespace LoxReader

/-! ## Rows -/

/-- What a token stands for, with its payload in place of an index. -/
inductive Content where
  | symbol (symbol : Symbol)
  | identifier (spelling : String)
  | string (body : String)
  | number (value : UInt64)
  | keyword (keyword : Keyword)
  | error
  | eof
deriving DecidableEq

namespace Content

/-- The tag of the tokens that stand for this. -/
def tag : Content → TokenTag
  | .symbol s => .symbol s
  | .identifier _ => .identifier
  | .string _ => .string
  | .number _ => .number
  | .keyword k => .keyword k
  | .error => .error
  | .eof => .eof

/-- The payload as it is written in a listing. -/
def payloadText : Content → String
  | .identifier spelling => ", identifier: " ++ spelling
  | .string body => ", literal: \"" ++ body ++ "\""
  | .number value => ", literal: " ++ value.toNat.repr
  | _ => ""

end Content

/-- What is told of a token. -/
structure Row where
  content : Content
  line : Nat
  column : Nat
deriving DecidableEq

namespace Row

/-- The row as it is written in a listing. -/
def text (r : Row) : String :=
  "\x7bkind: " ++ r.content.tag.name ++ ", line: " ++ r.line.repr ++ ", column: " ++
    r.column.repr ++ r.content.payloadText ++ "\x7d"

/-- Each row followed by a line feed, and then a line that tells whether there is an error. -/
def listing (rows : List Row) (hasError : Bool) : List Char :=
  rows.flatMap (fun r => r.text.toList ++ ['\n']) ++ [if hasError then '1' else '0', '\n']

end Row

/-! ## The rows of tokens -/

namespace Tables

/-- What a token of this kind stands for. -/
def content (tables : Tables) : TokenKind → Except OutOfRange Content
  | .symbol s => .ok (.symbol s)
  | .identifier id => (tables.name id).map .identifier
  | .string id => (tables.string id).map .string
  | .number id => (tables.number id).map .number
  | .keyword k => .ok (.keyword k)
  | .error => .ok .error
  | .eof => .ok .eof

/-- What is told of a token. -/
def row (tables : Tables) (token : Token) : Except OutOfRange Row :=
  (tables.content token.kind).map fun content => ⟨content, token.loc.line, token.loc.column⟩

theorem tag_of_content {tables : Tables} {kind : TokenKind} {content : Content}
    (h : tables.content kind = .ok content) : content.tag = kind.tag := by
  cases kind with
  | identifier id =>
      obtain ⟨spelling, -, rfl⟩ := exists_of_map_eq_ok h
      rfl
  | string id =>
      obtain ⟨body, -, rfl⟩ := exists_of_map_eq_ok h
      rfl
  | number id =>
      obtain ⟨value, -, rfl⟩ := exists_of_map_eq_ok h
      rfl
  | _ =>
      obtain rfl := Except.ok.inj h
      rfl

end Tables

namespace Tokenization

/-- The rows are those of the tokens, one for one. -/
def Shows (t : Tokenization) (rows : List Row) : Prop :=
  List.Forall₂ (fun token row => t.tables.row token = .ok row) t.tokens.toList rows

variable {t : Tokenization}

theorem payloadText_eq (t : Tokenization) (kind : TokenKind) :
    t.payloadText kind = (t.tables.content kind).map Content.payloadText := by
  cases kind with
  | identifier id =>
      simp only [payloadText, Tables.content]
      cases t.tables.name id <;> rfl
  | string id =>
      simp only [payloadText, Tables.content]
      cases t.tables.string id <;> rfl
  | number id =>
      simp only [payloadText, Tables.content]
      cases t.tables.number id <;> rfl
  | _ => rfl

/-- A token is rendered as its row. -/
theorem render_eq (t : Tokenization) (token : Token) :
    t.render token = (t.tables.row token).map Row.text := by
  rw [render, payloadText_eq, Tables.row]
  cases hcontent : t.tables.content token.kind with
  | error e => rfl
  | ok content =>
      rw [TokenKind.name, ← Tables.tag_of_content hcontent]
      rfl

/-- The lines of tokens are those of their rows. -/
theorem exists_rows_of_renderLines {ts : List Token} {out text : String}
    (h : t.renderLines out ts = .ok text) : ∃ rows,
      List.Forall₂ (fun token row => t.tables.row token = .ok row) ts rows ∧
        text.toList = out.toList ++ rows.flatMap fun r => r.text.toList ++ ['\n'] := by
  induction ts generalizing out with
  | nil =>
      obtain rfl : out = text := Except.ok.inj h
      exact ⟨[], .nil, (List.append_nil _).symm⟩
  | cons token ts ih =>
      rw [renderLines, render_eq] at h
      cases hrow : t.tables.row token with
      | error e =>
          rw [hrow] at h
          cases h
      | ok row =>
          rw [hrow] at h
          obtain ⟨rows, hrows, htext⟩ := ih h
          have hfeed : "\n".toList = ['\n'] := rfl
          rw [String.toList_append, String.toList_append, hfeed] at htext
          refine ⟨row :: rows, .cons hrow hrows, ?_⟩
          rw [htext, List.flatMap_cons, List.append_assoc, List.append_assoc, List.append_assoc]

/-- A listing is written from the rows of the tokens and from whether there is an error. -/
theorem exists_rows_of_listing {text : String} (h : t.listing = .ok text) :
    ∃ rows, t.Shows rows ∧ text.toList = Row.listing rows t.hasError := by
  rw [listing] at h
  cases hlines : t.renderLines "" t.tokens.toList with
  | error e =>
      rw [hlines] at h
      cases h
  | ok lines =>
      rw [hlines] at h
      obtain rfl := Except.ok.inj h
      obtain ⟨rows, hrows, htext⟩ := exists_rows_of_renderLines hlines
      have hflag : (if t.hasError then "1\n" else "0\n").toList =
          [if t.hasError then '1' else '0', '\n'] := by
        cases t.hasError <;> rfl
      refine ⟨rows, hrows, ?_⟩
      rw [String.toList_append, htext, hflag]
      rfl

end Tokenization

/-! ## The rows of a source -/

/-- An identifier is made of the characters of words, and a string has no quote in it. -/
def Content.Plain : Content → Prop
  | .identifier spelling => ∀ c ∈ spelling.toList, Lexeme.isWordChar c = true
  | .string body => '"' ∉ body.toList
  | _ => True

theorem Lexeme.isWordChar_of_isWordStart {c : Char} (h : isWordStart c = true) :
    isWordChar c = true := by
  rw [isWordStart, Bool.or_eq_true] at h
  rw [isWordChar, Char.isAlphanum, Bool.or_eq_true, Bool.or_eq_true]
  exact h.imp_left .inl

/-- The identifiers of a source are made of the characters of words. -/
theorem isWordChar_of_name {source : String} {id : NameId} {spelling : String}
    (h : (tokenize source).tables.name id = .ok spelling) :
    ∀ c ∈ spelling.toList, Lexeme.isWordChar c = true := by
  have hmem : spelling ∈ (tokenize source).tables.names.toList := by
    rw [Tables.name, tableGet_eq_ok_iff] at h
    exact Array.mem_toList_iff.mpr (Array.mem_of_getElem? h)
  rw [(tokenize_areOf source).names, List.mem_eraseDups, List.mem_filterMap] at hmem
  obtain ⟨l, hl, hname⟩ := hmem
  cases l with
  | word word =>
      rw [Lexeme.name?] at hname
      split at hname
      · cases hname
      · obtain rfl := Option.some.inj hname
        rw [String.toList_ofList]
        rcases inGrammar_of_mem_lexemes hl with ⟨c, rest, rfl, hc, hrest⟩ | ⟨c, hc⟩
        · exact List.forall_mem_cons.mpr ⟨Lexeme.isWordChar_of_isWordStart hc, hrest⟩
        · cases hc
  | _ => cases hname

theorem plain_of_content {source : String} {kind : TokenKind} {content : Content}
    (h : (tokenize source).tables.content kind = .ok content) : content.Plain := by
  cases kind with
  | identifier id =>
      obtain ⟨spelling, hname, rfl⟩ := exists_of_map_eq_ok h
      exact isWordChar_of_name hname
  | string id =>
      obtain ⟨body, hbody, rfl⟩ := exists_of_map_eq_ok h
      exact tokenize_quoteless source id body hbody
  | number id =>
      obtain ⟨value, -, rfl⟩ := exists_of_map_eq_ok h
      trivial
  | _ =>
      obtain rfl := Except.ok.inj h
      trivial

theorem plain_of_shows {source : String} {rows : List Row} (h : (tokenize source).Shows rows) :
    ∀ row ∈ rows, row.content.Plain := by
  rw [Tokenization.Shows] at h
  generalize (tokenize source).tokens.toList = ts at h
  induction h with
  | nil => exact List.forall_mem_nil _
  | cons hrow _ ih =>
      obtain ⟨content, hcontent, rfl⟩ := exists_of_map_eq_ok hrow
      exact List.forall_mem_cons.mpr ⟨plain_of_content hcontent, ih⟩

/-- The rows of a source are those of the tokens that its lexemes denote, and then the one of
the end. -/
theorem exists_rows_of_shows {source : String} {rows : List Row}
    (h : (tokenize source).Shows rows) : ∃ ts eof front last,
      (tokenize source).tokens.toList = ts ++ [eof] ∧ rows = front ++ [last] ∧
        last.content = .eof ∧
        List.Forall₂ (Denotes (tokenize source).tables) (Lexeme.proper (lexemes source.toList))
          (ts.map Token.kind) ∧
        List.Forall₂ (fun token row => (tokenize source).tables.row token = .ok row) ts front := by
  obtain ⟨ts, eof, htokens, heof, hdenotes⟩ := (tokenize_reads source).forall₂_denotes
  rw [Tokenization.Shows, htokens] at h
  obtain ⟨front, back, rfl, hfront, hback⟩ := exists_of_append_forall₂ h
  obtain ⟨last, _, hlast, hnil, rfl⟩ := List.forall₂_cons_left_iff.mp hback
  cases hnil
  obtain ⟨content, hcontent, rfl⟩ := exists_of_map_eq_ok hlast
  rw [heof] at hcontent
  exact ⟨ts, eof, front, _, htokens, rfl, (Except.ok.inj hcontent).symm, hdenotes, hfront⟩

end LoxReader
