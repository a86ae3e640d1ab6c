/-
  `Proofs.Tokenization.Numerals`: runs of digits in a source.

  A run of digits is read by its value alone, however many digits it has.  The digits are read
  one after the other, with a test at each of them whether 64 bits are still enough, and no
  test fails exactly if they are enough for the whole run (`foldlM_appendDigit?`).  A run of at
  most 64 bits is one number, which is found again when it is printed; any other is one error.
  The main statement is `lex_readsRun`.
-/
import LoxReader.Proofs.Tokenization.Decimal
import LoxReader.Proofs.Tokenization.Errors
import LoxReader.Proofs.Tokenization.Interning

set_option autoImplicit false

namespace LoxReader

/-! ## Digit by digit -/

/-- The value of 64 bits with one more decimal digit behind it, if that still has 64 bits. -/
def appendDigit? (value : UInt64) (digit : Char) : Option UInt64 :=
  let next := 10 * value.toNat + (digit.toNat - '0'.toNat)
  if next < UInt64.size then some (UInt64.ofNat next) else none

/-- More digits do not make a value smaller. -/
theorem le_ofDigitChars (digits : List Char) (value : Nat) :
    value ≤ Nat.ofDigitChars 10 digits value := by
  induction digits generalizing value with
  | nil => exact Nat.le_refl value
  | cons digit rest ih =>
      rw [Nat.ofDigitChars_cons]
      have hrest := ih (10 * value + (digit.toNat - '0'.toNat))
      omega

/-- Digits are read one after the other behind a value exactly if the value with all of them
behind it has 64 bits: what is too large at one digit is not smaller at the end. -/
theorem foldlM_appendDigit? (digits : List Char) (value : UInt64) :
    digits.foldlM appendDigit? value =
      if Nat.ofDigitChars 10 digits value.toNat < UInt64.size then
        some (UInt64.ofNat (Nat.ofDigitChars 10 digits value.toNat))
      else none := by
  induction digits generalizing value with
  | nil =>
      have hvalue : Nat.ofDigitChars 10 [] value.toNat = value.toNat := rfl
      rw [hvalue, if_pos value.toNat_lt_size, UInt64.ofNat_toNat]
      rfl
  | cons digit rest ih =>
      rw [List.foldlM_cons, appendDigit?, Nat.ofDigitChars_cons]
      by_cases hnext : 10 * value.toNat + (digit.toNat - '0'.toNat) < UInt64.size
      · have hrest := ih (UInt64.ofNat (10 * value.toNat + (digit.toNat - '0'.toNat)))
        rw [UInt64.toNat_ofNat_of_lt' hnext] at hrest
        rw [if_pos hnext]
        exact hrest
      · have hrest := le_ofDigitChars rest (10 * value.toNat + (digit.toNat - '0'.toNat))
        rw [if_neg hnext, if_neg fun hlt => hnext (Nat.lt_of_le_of_lt hrest hlt)]
        rfl

/-! ## Printed numbers -/

/-- The tokens of a source that is one number and nothing else. -/
structure Tokenization.IsNumber (t : Tokenization) (value : UInt64) : Prop where
  tokens : ∃ loc, t.tokens = #[⟨.number ⟨0⟩, .start⟩, ⟨.eof, loc⟩]
  tables : t.tables = ⟨#[], #[], #[value]⟩
  errors : t.errors = #[]

theorem lexemes_of_isDigit {digits : List Char} (hne : digits ≠ [])
    (h : ∀ c ∈ digits, c.isDigit = true) : lexemes digits = [.digits digits] := by
  have hseparated : Lexeme.Separated [.digits digits] :=
    ⟨⟨hne, h⟩, Lexeme.stopsAt_nil _, trivial⟩
  have hlexemes := lexemes_of_separated hseparated
  rwa [List.flatMap_singleton] at hlexemes

/-- A number that is printed is read as one number, of the same value. -/
theorem exists_isNumber_repr (value : UInt64) :
    ∃ t, lex value.toNat.repr = .ok t ∧ t.IsNumber value := by
  have hdigits : ∀ c ∈ value.toNat.repr.toList, c.isDigit = true := fun _ => isDigit_of_mem_repr
  have hlexemes := lexemes_of_isDigit (repr_toList_ne_nil value.toNat) hdigits
  -- A value of 64 bits has no more than 20 digits.
  have hlength : value.toNat.repr.toList.length ≤ 20 := by
    rw [Nat.toList_repr, Nat.length_toDigits_le_iff (by decide) (by decide)]
    exact Nat.lt_trans value.toNat_lt_size (by decide)
  have hsize : value.toNat.repr.utf8ByteSize < SourceFault.maxBytes := by
    rw [← byteSize_toList, byteSize_of_isDigit hdigits]
    exact Nat.lt_of_le_of_lt hlength (by decide)
  refine ⟨_, lex_of_lt hsize, ?_⟩
  have hvalue : digitsValue value.toNat.repr.toList = value.toNat := digitsValue_repr _
  have hread : Tables.empty.read (.digits value.toNat.repr.toList) =
      (.token (.number ⟨0⟩), ⟨#[], #[], #[value]⟩) := by
    simp only [Tables.read, hvalue, if_pos value.toNat_lt_size, UInt64.ofNat_toNat]
    rfl
  have hadd : (Tokenization.unread value.toNat.repr).add .start
      (.digits value.toNat.repr.toList) = _ := Tokenization.add_of_token hread
  rw [tokenize, hlexemes, Tokenization.readFrom, hadd]
  exact ⟨⟨_, rfl⟩, rfl, rfl⟩

/-! ## Runs of digits -/

/-- The tokens of lexemes are those of the first of them and then those of the rest, which
stand behind these. -/
theorem Reads.exists_append {tables : Tables} {loc : Location} {first second : List Lexeme}
    {ts : List Token} (h : Reads tables loc (first ++ second) ts) :
    ∃ front back, ts = front ++ back ∧
      Reads tables (loc.advance (first.flatMap Lexeme.text)) second back := by
  induction first generalizing loc ts with
  | nil => exact ⟨[], ts, rfl, h⟩
  | cons l first ih =>
      rw [List.flatMap_cons, Location.advance_append]
      cases h with
      | trivia _ hrest => exact ih hrest
      | token _ hrest =>
          obtain ⟨front, back, rfl, hback⟩ := ih hrest
          exact ⟨_ :: front, back, rfl, hback⟩

/-- What the token of a run of digits is: a number with the value of the run if this has 64
bits, and else an error and no number. -/
structure Tokenization.ReadsDigits (t : Tokenization) (run : List Char) (token : Token) :
    Prop where
  fits : digitsValue run < 2 ^ 64 → ∃ id value, token.kind = .number id ∧
    t.tables.number id = .ok value ∧ value.toNat = digitsValue run ∧
    run.foldlM appendDigit? 0 = some value ∧
    ∃ printed, (Literal.number id).text t.tables = .ok printed ∧
      ∃ t', lex printed = .ok t' ∧ t'.IsNumber value
  overflows : 2 ^ 64 ≤ digitsValue run →
    token.kind = .error ∧ run.foldlM appendDigit? 0 = none
  /-- The only thing that can be wrong there is that the number is too large. -/
  error_iff : ∀ kind, ⟨kind, token.loc⟩ ∈ t.errors.toList ↔
    kind = .integerTooLarge ∧ 2 ^ 64 ≤ digitsValue run

/-- What is read of a text with a run of digits between `before` and `after`. -/
structure Tokenization.ReadsRun (t : Tokenization) (before run after : List Char) : Prop where
  /-- Nothing else is cut off with the run, and what is on its sides is cut as on its own. -/
  lexemes_eq : lexemes (before ++ (run ++ after)) =
    lexemes before ++ .digits run :: lexemes after
  /-- The run has one token, where it starts, and reading goes on right behind the run. -/
  token : ∃ front token back, t.tokens.toList = front ++ token :: back ∧
    token.loc.IsBehind before ∧ t.ReadsDigits run token ∧
    (∀ other ∈ front, other.loc.offset < token.loc.offset) ∧
    Reads t.tables (token.loc.advance run) (lexemes after) back
  /-- The table of numbers gets the value of the run if this has 64 bits, and else nothing. -/
  numbers : t.tables.numbers.toList =
    (tokenize (String.ofList before)).tables.numbers.toList ++
      (if digitsValue run < 2 ^ 64 then [UInt64.ofNat (digitsValue run)] else []) ++
        (tokenize (String.ofList after)).tables.numbers.toList

section

variable {source : String} {before run after : List Char}

/-- A run of digits behind a cut is a lexeme. -/
theorem IsCut.lexemes_digits (h : IsCut before (run ++ after))
    (hrun : Lexeme.IsDigitRun run after) :
    lexemes (before ++ (run ++ after)) = lexemes before ++ .digits run :: lexemes after := by
  obtain ⟨c, rest, htext⟩ := List.exists_cons_of_ne_nil hrun.ne_nil
  have hnext : Lexeme.next c (rest ++ after) = (.digits run, after) :=
    hrun.next_eq (by rw [htext, List.cons_append])
  rw [h.lexemes_append, htext, List.cons_append, lexemes_cons, hnext, htext]

/-- What is wrong at a run of digits is that its value is too large. -/
theorem mem_errors_at_run_iff (hsource : source.toList = before ++ (run ++ after))
    (hcut : IsCut before (run ++ after)) (hrun : Lexeme.IsDigitRun run after) {loc : Location}
    (hloc : loc.IsBehind before) (kind : LexErrorKind) :
    ⟨kind, loc⟩ ∈ (tokenize source).errors.toList ↔
      kind = .integerTooLarge ∧ 2 ^ 64 ≤ digitsValue run := by
  constructor
  · intro h
    obtain ⟨before', c, rest, hsource', -, hproblem, hloc'⟩ := mem_errors_iff.mp h
    obtain ⟨rfl, hrest⟩ := eq_of_start_advance_eq (hsource'.symm.trans hsource)
      ((Location.isBehind_iff.mp hloc').symm.trans (Location.isBehind_iff.mp hloc))
    rw [hrun.next_eq hrest] at hproblem
    rcases Lexeme.problem?_eq_some_iff.mp hproblem with
      ⟨digits, hdigits, hvalue, hkind⟩ | ⟨_, hbody, -⟩ | ⟨_, hstray, -⟩
    · obtain rfl := Lexeme.digits.inj hdigits
      exact ⟨hkind, hvalue⟩
    · cases hbody
    · cases hstray
  · rintro ⟨rfl, hvalue⟩
    exact mem_errors_tooLarge_iff.mpr ⟨before, run, after, hsource, hcut, hrun, hvalue, hloc⟩

theorem Denotes.readsDigits {t : Tokenization} {token : Token}
    (h : Denotes t.tables (.digits run) token.kind)
    (herror : ∀ kind, ⟨kind, token.loc⟩ ∈ t.errors.toList ↔
      kind = .integerTooLarge ∧ 2 ^ 64 ≤ digitsValue run) : t.ReadsDigits run token := by
  have hchecked : run.foldlM appendDigit? 0 =
      if digitsValue run < UInt64.size then some (UInt64.ofNat (digitsValue run)) else none :=
    foldlM_appendDigit? run 0
  obtain ⟨kind, loc⟩ := token
  cases h with
  | @number _ id value hid hvalue =>
      have hlt : digitsValue run < UInt64.size := hvalue ▸ value.toNat_lt_size
      refine ⟨fun _ => ⟨id, value, rfl, hid, hvalue, ?_, ?_⟩, fun hle => ?_, herror⟩
      · rw [hchecked, if_pos hlt, ← hvalue, UInt64.ofNat_toNat]
      · refine ⟨value.toNat.repr, ?_, exists_isNumber_repr value⟩
        rw [Literal.text, hid]
        rfl
      · exact absurd hlt (Nat.not_lt.mpr hle)
  | overflow hvalue =>
      refine ⟨fun hlt => ?_, fun _ => ⟨rfl, ?_⟩, herror⟩
      · exact absurd hlt (Nat.not_lt.mpr hvalue)
      · rw [hchecked, if_neg (Nat.not_lt.mpr hvalue)]

theorem tokenize_readsRun (hsource : source.toList = before ++ (run ++ after))
    (hcut : IsCut before (run ++ after)) (hrun : Lexeme.IsDigitRun run after) :
    (tokenize source).ReadsRun before run after := by
  have hlexemes := hcut.lexemes_digits hrun
  have hreads := tokenize_reads source
  have hincreasing := (tokenize_placed source).increasing
  rw [hsource, hlexemes] at hreads
  refine ⟨hlexemes, ?_, ?_⟩
  · obtain ⟨front, rest, htokens, hrest⟩ := hreads.exists_append
    rw [text_lexemes] at hrest
    rw [htokens] at hincreasing
    cases hrest with
    | trivia htrivia _ => cases htrivia
    | @token _ _ kind _ back hdenotes hback =>
        have hloc : (Location.start.advance before).IsBehind before :=
          Location.isBehind_iff.mpr rfl
        refine ⟨front, ⟨kind, _⟩, back, htokens, hloc, ?_, ?_, hback⟩
        · exact Denotes.readsDigits hdenotes (mem_errors_at_run_iff hsource hcut hrun hloc)
        · exact fun other hother =>
            (List.pairwise_append.mp hincreasing).2.2 other hother _ List.mem_cons_self
  · have hbefore := (tokenize_areOf (String.ofList before)).numbers
    have hafter := (tokenize_areOf (String.ofList after)).numbers
    rw [String.toList_ofList] at hbefore hafter
    rw [(tokenize_areOf source).numbers, hsource, hlexemes, hbefore, hafter,
      List.filterMap_append, List.append_assoc]
    by_cases hvalue : digitsValue run < 2 ^ 64
    · have hnumber : (Lexeme.digits run).number? = some (UInt64.ofNat (digitsValue run)) :=
        if_pos hvalue
      rw [if_pos hvalue, List.filterMap_cons_some hnumber, List.singleton_append]
    · have hnumber : (Lexeme.digits run).number? = none := if_neg hvalue
      rw [if_neg hvalue, List.filterMap_cons_none hnumber, List.nil_append]

end

/-- A run of digits at a place where a lexeme starts, of any length and with any zeros at its
front: if its value has 64 bits it is one number with this value, which is found again when it
is printed and read; if not, it is one error at its first digit, and no number is entered.
Reading goes on right behind the run; and every source with fewer bytes than the largest
offset is read. -/
theorem lex_readsRun {source : String} {before run after : List Char}
    (hsource : source.toList = before ++ (run ++ after)) (hcut : IsCut before (run ++ after))
    (hrun : Lexeme.IsDigitRun run after) :
    (∀ t, lex source = .ok t → t.ReadsRun before run after) ∧
      (source.utf8ByteSize < SourceFault.maxBytes → ∃ t, lex source = .ok t) := by
  refine ⟨fun t hlex => ?_, fun h => ⟨_, lex_of_lt h⟩⟩
  rw [eq_tokenize_of_lex hlex]
  exact tokenize_readsRun hsource hcut hrun

/-- Zeros in front of a small value, and then the smallest value that is too large. -/
theorem lex_readsRun_limit :
    IsCut ['x', ' '] "007/18446744073709551616".toList ∧
      IsCut "x 007/".toList "18446744073709551616".toList ∧
        ∃ t, lex "x 007/18446744073709551616" = .ok t ∧
          t.ReadsRun ['x', ' '] ['0', '0', '7'] "/18446744073709551616".toList ∧
            t.ReadsRun "x 007/".toList "18446744073709551616".toList [] := by
  have hzeros : IsCut ['x', ' '] (['0', '0', '7'] ++ "/18446744073709551616".toList) :=
    isCut_iff.mpr ⟨[.word ['x'], .blanks [' ']], rfl, by decide +kernel⟩
  have hlarge : IsCut "x 007/".toList ("18446744073709551616".toList ++ []) :=
    isCut_iff.mpr ⟨[.word ['x'], .blanks [' '], .digits ['0', '0', '7'], .symbol .slash], rfl,
      by decide +kernel⟩
  have hfirst : "x 007/18446744073709551616".toList =
      ['x', ' '] ++ (['0', '0', '7'] ++ "/18446744073709551616".toList) := rfl
  have hsecond : "x 007/18446744073709551616".toList =
      "x 007/".toList ++ ("18446744073709551616".toList ++ []) := rfl
  have hslash : ∀ c ∈ "/18446744073709551616".toList.head?, c.isDigit = false :=
    fun c hc => Option.some.inj hc ▸ rfl
  have hseven := lex_readsRun hfirst hzeros ⟨by decide, List.all_eq_true.mp rfl, hslash⟩
  have hlimit := lex_readsRun hsecond hlarge
    ⟨by decide, List.all_eq_true.mp rfl, fun _ hnone => by cases hnone⟩
  obtain ⟨t, ht⟩ := hseven.2 (by decide)
  exact ⟨hzeros, hlarge, t, ht, hseven.1 t ht, hlimit.1 t ht⟩

end LoxReader
