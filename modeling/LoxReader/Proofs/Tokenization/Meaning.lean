/-
  `Proofs.Tokenization.Meaning`: what lexemes mean, stated apart from the reading of
  them.

  A lexeme denotes the kind of token that its text determines; the payload of the
  token is found in tables.  Tables only grow, so that what a lexeme denotes when it
  is read it denotes ever after.  The main statement is `readFrom_reads`: reading
  gives one token for each lexeme that is no trivia, in order, and then the end.
-/
import LoxReader.Proofs.Token.Keyword
import LoxReader.Tokenization.Basic

set_option autoImplicit false

namespace LoxReader

/-- Whether a lexeme only separates others. -/
def Lexeme.isTrivia : Lexeme → Bool
  | .blanks _ => true
  | .comment _ => true
  | _ => false

/-- The kind of token that a lexeme is, with its payload in the tables.  A word is
reserved exactly if it is in the catalogue; digits are a number if their value fits
in 64 bits; what is no token is an error. -/
inductive Denotes (tables : Tables) : Lexeme → TokenKind → Prop
  | symbol {s : Symbol} : Denotes tables (.symbol s) (.symbol s)
  | keyword {word : List Char} {k : Keyword} :
      k ∈ Keyword.all → k.spelling.toList = word → Denotes tables (.word word) (.keyword k)
  | identifier {word : List Char} {id : NameId} :
      (∀ k ∈ Keyword.all, k.spelling.toList ≠ word) →
        tables.name id = .ok (String.ofList word) → Denotes tables (.word word) (.identifier id)
  | number {digits : List Char} {id : LiteralId} {value : UInt64} :
      tables.number id = .ok value → value.toNat = digitsValue digits →
        Denotes tables (.digits digits) (.number id)
  | overflow {digits : List Char} :
      UInt64.size ≤ digitsValue digits → Denotes tables (.digits digits) .error
  | string {body : List Char} {id : LiteralId} :
      tables.string id = .ok (String.ofList body) → Denotes tables (.quoted body) (.string id)
  | unclosed {body : List Char} : Denotes tables (.unclosed body) .error
  | stray {c : Char} : Denotes tables (.stray c) .error

/-- The tokens that lexemes stand for, the first of which starts at the given place:
one for each lexeme that is no trivia, where that lexeme starts, and then the end. -/
inductive Reads (tables : Tables) : Location → List Lexeme → List Token → Prop
  | eof {loc : Location} : Reads tables loc [] [⟨.eof, loc⟩]
  | trivia {loc : Location} {l : Lexeme} {ls : List Lexeme} {ts : List Token} :
      l.isTrivia = true → Reads tables (loc.advance l.text) ls ts → Reads tables loc (l :: ls) ts
  | token {loc : Location} {l : Lexeme} {kind : TokenKind} {ls : List Lexeme}
      {ts : List Token} :
      Denotes tables l kind → Reads tables (loc.advance l.text) ls ts →
        Reads tables loc (l :: ls) (⟨kind, loc⟩ :: ts)

/-! ## Tables grow -/

/-- Tables that hold at least what others do, under the same indices. -/
structure Tables.Grows (old new : Tables) : Prop where
  names : ∃ more, new.names = old.names ++ more
  strings : ∃ more, new.strings = old.strings ++ more
  numbers : ∃ more, new.numbers = old.numbers ++ more

/-- What is found in a table is found in the table with more entries behind it. -/
theorem tableGet_append {α : Type} {table : Array α} {index : Nat} {entry : α}
    (h : tableGet table index = .ok entry) (more : Array α) :
    tableGet (table ++ more) index = .ok entry := by
  rw [tableGet_eq_ok_iff] at h ⊢
  obtain ⟨hlt, -⟩ := Array.getElem?_eq_some_iff.mp h
  rwa [Array.getElem?_append_left hlt]

namespace Tables.Grows

theorem refl (tables : Tables) : Grows tables tables :=
  ⟨⟨#[], by simp⟩, ⟨#[], by simp⟩, ⟨#[], by simp⟩⟩

theorem trans {a b c : Tables} (hab : Grows a b) (hbc : Grows b c) : Grows a c := by
  obtain ⟨⟨n₁, hn₁⟩, ⟨s₁, hs₁⟩, ⟨v₁, hv₁⟩⟩ := hab
  obtain ⟨⟨n₂, hn₂⟩, ⟨s₂, hs₂⟩, ⟨v₂, hv₂⟩⟩ := hbc
  exact ⟨⟨n₁ ++ n₂, by rw [hn₂, hn₁, Array.append_assoc]⟩,
    ⟨s₁ ++ s₂, by rw [hs₂, hs₁, Array.append_assoc]⟩,
    ⟨v₁ ++ v₂, by rw [hv₂, hv₁, Array.append_assoc]⟩⟩

variable {old new : Tables}

theorem name_eq (h : Grows old new) {id : NameId} {word : String} (hid : old.name id = .ok word) :
    new.name id = .ok word := by
  obtain ⟨more, hmore⟩ := h.names
  rw [Tables.name, hmore]
  exact tableGet_append hid more

theorem string_eq (h : Grows old new) {id : LiteralId} {body : String}
    (hid : old.string id = .ok body) : new.string id = .ok body := by
  obtain ⟨more, hmore⟩ := h.strings
  rw [Tables.string, hmore]
  exact tableGet_append hid more

theorem number_eq (h : Grows old new) {id : LiteralId} {value : UInt64}
    (hid : old.number id = .ok value) : new.number id = .ok value := by
  obtain ⟨more, hmore⟩ := h.numbers
  rw [Tables.number, hmore]
  exact tableGet_append hid more

end Tables.Grows

/-- What a lexeme denotes it still denotes when tables have grown. -/
theorem Denotes.grow {old new : Tables} {l : Lexeme} {kind : TokenKind}
    (h : Denotes old l kind) (hgrows : old.Grows new) : Denotes new l kind := by
  cases h with
  | symbol => exact .symbol
  | keyword hk hword => exact .keyword hk hword
  | identifier hword hid => exact .identifier hword (hgrows.name_eq hid)
  | number hid hvalue => exact .number (hgrows.number_eq hid) hvalue
  | overflow hvalue => exact .overflow hvalue
  | string hid => exact .string (hgrows.string_eq hid)
  | unclosed => exact .unclosed
  | stray => exact .stray

namespace Tables

theorem grows_intern (tables : Tables) (word : String) : tables.Grows (tables.intern word).2 := by
  obtain ⟨names, strings, numbers⟩ := tables
  unfold intern
  simp only
  split
  · exact Grows.refl _
  · exact ⟨⟨#[word], by simp⟩, ⟨#[], by simp⟩, ⟨#[], by simp⟩⟩

theorem grows_addString (tables : Tables) (body : String) :
    tables.Grows (tables.addString body).2 :=
  ⟨⟨#[], by simp [addString]⟩, ⟨#[body], by simp [addString]⟩, ⟨#[], by simp [addString]⟩⟩

theorem grows_addNumber (tables : Tables) (value : UInt64) :
    tables.Grows (tables.addNumber value).2 :=
  ⟨⟨#[], by simp [addNumber]⟩, ⟨#[], by simp [addNumber]⟩, ⟨#[value], by simp [addNumber]⟩⟩

/-- Reading a lexeme takes nothing out of the tables. -/
theorem grows_read (tables : Tables) (l : Lexeme) : tables.Grows (tables.read l).2 := by
  unfold read
  split
  · exact Grows.refl _
  · exact Grows.refl _
  · exact Grows.refl _
  · split
    · exact grows_addNumber tables _
    · exact Grows.refl _
  · split
    · exact Grows.refl _
    · exact grows_intern tables _
  · exact grows_addString tables _
  · exact Grows.refl _
  · exact Grows.refl _

/-! ## Reading one lexeme -/

/-- What is read of a lexeme agrees with what it is: trivia is read as nothing, and
any other lexeme as the kind of token that it denotes. -/
def Agrees (tables : Tables) (l : Lexeme) : Reading → Prop
  | .trivia => l.isTrivia = true
  | .token kind => Denotes tables l kind
  | .error _ => Denotes tables l .error

theorem agrees_word (tables : Tables) (word : List Char) :
    (tables.read (.word word)).2.Agrees (.word word) (tables.read (.word word)).1 := by
  simp only [read]
  split
  · rename_i k hk
    have hspelling := Keyword.spelling_of_ofSpelling? hk
    exact .keyword (Keyword.mem_all k) (by rw [hspelling, String.toList_ofList])
  · rename_i hnone
    refine .identifier ?_ (name_intern tables _)
    intro k _ hk
    apply Keyword.spelling_ne_of_ofSpelling? hnone k
    rw [← hk, String.ofList_toList]

theorem agrees_digits (tables : Tables) (digits : List Char) :
    (tables.read (.digits digits)).2.Agrees (.digits digits) (tables.read (.digits digits)).1 := by
  simp only [read]
  split
  · rename_i hvalue
    exact .number (number_addNumber tables _) (UInt64.toNat_ofNat_of_lt' hvalue)
  · rename_i hvalue
    exact .overflow (Nat.le_of_not_lt hvalue)

/-- A lexeme is read as what it is. -/
theorem agrees_read (tables : Tables) (l : Lexeme) :
    (tables.read l).2.Agrees l (tables.read l).1 := by
  cases l with
  | blanks text => exact rfl
  | comment text => exact rfl
  | symbol s => exact .symbol
  | digits digits => exact agrees_digits tables digits
  | word word => exact agrees_word tables word
  | quoted body => exact .string (string_addString tables _)
  | unclosed body => exact .unclosed
  | stray c => exact .stray

end Tables

/-! ## Reading lexemes one after the other -/

namespace Tokenization

section

variable {t : Tokenization} {loc : Location} {l : Lexeme} {after : Tables}

theorem add_of_trivia (h : t.tables.read l = (.trivia, after)) :
    t.add loc l = ⟨t.source, t.tokens, after, t.errors⟩ := by
  cases t
  simp only [add]
  rw [h]

theorem add_of_token {kind : TokenKind} (h : t.tables.read l = (.token kind, after)) :
    t.add loc l = ⟨t.source, t.tokens.push ⟨kind, loc⟩, after, t.errors⟩ := by
  cases t
  simp only [add]
  rw [h]

theorem add_of_error {e : LexErrorKind} (h : t.tables.read l = (.error e, after)) :
    t.add loc l = ⟨t.source, t.tokens.push ⟨.error, loc⟩, after, t.errors.push ⟨e, loc⟩⟩ := by
  cases t
  simp only [add]
  rw [h]

end

/-- Reading a lexeme adds no token for trivia and else the one that it denotes. -/
theorem add_cases (t : Tokenization) (loc : Location) (l : Lexeme) :
    t.tables.Grows (t.add loc l).tables ∧
      ((l.isTrivia = true ∧ (t.add loc l).tokens = t.tokens) ∨
        ∃ kind, Denotes (t.add loc l).tables l kind ∧
          (t.add loc l).tokens = t.tokens.push ⟨kind, loc⟩) := by
  have hagrees := t.tables.agrees_read l
  have hgrows := t.tables.grows_read l
  rcases hread : t.tables.read l with ⟨reading, after⟩
  rw [hread] at hagrees hgrows
  cases reading with
  | trivia =>
      rw [add_of_trivia hread]
      exact ⟨hgrows, .inl ⟨hagrees, rfl⟩⟩
  | token kind =>
      rw [add_of_token hread]
      exact ⟨hgrows, .inr ⟨kind, hagrees, rfl⟩⟩
  | error e =>
      rw [add_of_error hread]
      exact ⟨hgrows, .inr ⟨.error, hagrees, rfl⟩⟩

/-- What each lexeme and the mark of the end keep is kept by reading. -/
theorem readFrom_of {P : Tokenization → Prop}
    (hadd : ∀ t, P t → ∀ (loc : Location) (l : Lexeme), P (t.add loc l))
    (hend : ∀ t, P t → ∀ loc : Location, P (t.push .eof loc)) {t : Tokenization} (h : P t)
    (loc : Location) (ls : List Lexeme) : P (t.readFrom loc ls) := by
  induction ls generalizing t loc with
  | nil => exact hend t h loc
  | cons l ls ih => exact ih (hadd t h loc l) _

/-- Reading gives one token for each lexeme that is no trivia, and then the end. -/
theorem readFrom_reads (t : Tokenization) (loc : Location) (ls : List Lexeme) :
    ∃ ts, (t.readFrom loc ls).tokens.toList = t.tokens.toList ++ ts ∧
      Reads (t.readFrom loc ls).tables loc ls ts ∧ t.tables.Grows (t.readFrom loc ls).tables := by
  induction ls generalizing t loc with
  | nil => exact ⟨[⟨.eof, loc⟩], by simp [readFrom, push], .eof, Tables.Grows.refl _⟩
  | cons l ls ih =>
      obtain ⟨ts, htokens, hreads, hgrows⟩ := ih (t.add loc l) (loc.advance l.text)
      rw [readFrom]
      obtain ⟨hfirst, ⟨htrivia, hadd⟩ | ⟨kind, hdenotes, hadd⟩⟩ := t.add_cases loc l
      · rw [hadd] at htokens
        exact ⟨ts, htokens, .trivia htrivia hreads, hfirst.trans hgrows⟩
      · rw [hadd, Array.toList_push, List.append_assoc] at htokens
        exact ⟨⟨kind, loc⟩ :: ts, htokens, .token (hdenotes.grow hgrows) hreads,
          hfirst.trans hgrows⟩

end Tokenization

end LoxReader
