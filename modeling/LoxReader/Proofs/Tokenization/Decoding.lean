/-
  `Proofs.Tokenization.Decoding`: a listing can be read in one way only.

  Each part of a row is a run of characters of one class in front of a character of another:
  a name goes on to what is no letter, a number to what is no digit, an identifier to what stands
  in no word, and the body of a string to a quote.  So a row is found at the front of a text in one
  way, whatever the bodies of strings look like (`Row.text_append_inj`).  Behind the rows there
  is a digit where another row would have a brace (`Row.listing_inj`).
-/
import LoxReader.Proofs.Tokenization.Decimal
import LoxReader.Proofs.Tokenization.Rows

set_option autoImplicit false

namespace LoxReader

/-! ## Runs -/

/-- A text starts with one run of a class only, if what stands behind the run is not of the
class. -/
theorem run_append_inj {p : Char → Bool} {run run' rest rest' : List Char}
    (hrun : ∀ c ∈ run, p c = true) (hrun' : ∀ c ∈ run', p c = true)
    (hrest : ∀ c ∈ rest.head?, p c = false) (hrest' : ∀ c ∈ rest'.head?, p c = false)
    (h : run ++ rest = run' ++ rest') : run = run' ∧ rest = rest' := by
  obtain ⟨htake, hdrop⟩ := Lexeme.takeWhile_append_of_head hrun hrest
  obtain ⟨htake', hdrop'⟩ := Lexeme.takeWhile_append_of_head hrun' hrest'
  rw [h] at htake hdrop
  exact ⟨htake.symm.trans htake', hdrop.symm.trans hdrop'⟩

theorem repr_append_inj {n n' : Nat} {rest rest' : List Char}
    (hrest : ∀ c ∈ rest.head?, c.isDigit = false) (hrest' : ∀ c ∈ rest'.head?, c.isDigit = false)
    (h : n.repr.toList ++ rest = n'.repr.toList ++ rest') : n = n' ∧ rest = rest' := by
  obtain ⟨hdigits, hrest⟩ := run_append_inj (fun _ => isDigit_of_mem_repr)
    (fun _ => isDigit_of_mem_repr) hrest hrest' h
  have hvalue := congrArg digitsValue hdigits
  rw [digitsValue_repr, digitsValue_repr] at hvalue
  exact ⟨hvalue, hrest⟩

/-! ## Names of tags -/

namespace TokenTag

theorem ofName?_name (tag : TokenTag) : ofName? tag.name = some tag := by
  cases tag with
  | symbol s => cases s <;> rfl
  | keyword k => cases k <;> rfl
  | _ => rfl

theorem name_injective : Function.Injective name := by
  intro tag tag' h
  have hname := tag.ofName?_name
  rw [h, ofName?_name] at hname
  exact (Option.some.inj hname).symm

theorem isAlpha_of_mem_name (tag : TokenTag) : ∀ c ∈ tag.name.toList, c.isAlpha = true := by
  have hall : tag.name.toList.all Char.isAlpha = true := by
    cases tag with
    | symbol s => cases s <;> rfl
    | keyword k => cases k <;> rfl
    | _ => rfl
  exact List.all_eq_true.mp hall

end TokenTag

/-! ## Rows -/

theorem toList_append_append (a b : String) (rest : List Char) :
    (a ++ b).toList ++ rest = a.toList ++ (b.toList ++ rest) := by
  rw [String.toList_append, List.append_assoc]

theorem append_left_cancel {a b b' : String} {rest rest' : List Char}
    (h : (a ++ b).toList ++ rest = (a ++ b').toList ++ rest') :
    b.toList ++ rest = b'.toList ++ rest' := by
  rwa [toList_append_append, toList_append_append, List.append_cancel_left_eq] at h

/-- The payload of a content with a given tag is found in a row in one way. -/
theorem Content.payloadText_append_inj {content content' : Content} {rest rest' : List Char}
    (h : content.Plain) (h' : content'.Plain) (htag : content.tag = content'.tag)
    (htext : content.payloadText.toList ++ '\x7d' :: rest =
      content'.payloadText.toList ++ '\x7d' :: rest') : content = content' ∧ rest = rest' := by
  cases content with
  | identifier spelling =>
      cases content' with
      | identifier spelling' =>
          have htext := append_left_cancel htext
          have hbrace : ∀ {rest : List Char}, ∀ c ∈ ('\x7d' :: rest).head?,
              Lexeme.isWordChar c = false := fun c hc => Option.some.inj hc ▸ rfl
          obtain ⟨hspelling, hrest⟩ := run_append_inj h h' hbrace hbrace htext
          exact ⟨congrArg identifier (String.toList_inj.mp hspelling), (List.cons.inj hrest).2⟩
      | _ => cases htag
  | string body =>
      cases content' with
      | string body' =>
          have hassoc : ∀ body rest, (string body).payloadText.toList ++ rest =
              (", literal: \"" ++ (body ++ "\"")).toList ++ rest :=
            fun _ _ => by rw [payloadText, String.append_assoc]
          have htext := append_left_cancel ((hassoc _ _).symm.trans (htext.trans (hassoc _ _)))
          rw [toList_append_append body, toList_append_append body'] at htext
          have hquote : ∀ {rest : List Char}, ∀ c ∈ ("\"".toList ++ rest).head?,
              (c != '"') = false := fun c hc => Option.some.inj hc ▸ rfl
          obtain ⟨hbody, hrest⟩ := run_append_inj (Lexeme.bne_of_not_mem h)
            (Lexeme.bne_of_not_mem h') hquote hquote htext
          rw [List.append_cancel_left_eq] at hrest
          exact ⟨congrArg string (String.toList_inj.mp hbody), (List.cons.inj hrest).2⟩
      | _ => cases htag
  | number value =>
      cases content' with
      | number value' =>
          have htext := append_left_cancel htext
          have hbrace : ∀ {rest : List Char}, ∀ c ∈ ('\x7d' :: rest).head?,
              c.isDigit = false := fun c hc => Option.some.inj hc ▸ rfl
          obtain ⟨hvalue, hrest⟩ := repr_append_inj hbrace hbrace htext
          exact ⟨congrArg number (UInt64.toNat_inj.mp hvalue), (List.cons.inj hrest).2⟩
      | _ => cases htag
  | _ =>
      cases content' <;> cases htag
      exact ⟨rfl, (List.cons.inj htext).2⟩

/-- What stands behind the column of a row starts with no digit. -/
theorem Content.isDigit_head (content : Content) (rest : List Char) :
    ∀ c ∈ (content.payloadText.toList ++ '\x7d' :: rest).head?, c.isDigit = false := by
  cases content <;> simp [payloadText]

namespace Row

theorem toList_text (r : Row) (rest : List Char) :
    r.text.toList ++ rest = "\x7bkind: ".toList ++ (r.content.tag.name.toList ++
      (", line: ".toList ++ (r.line.repr.toList ++ (", column: ".toList ++
        (r.column.repr.toList ++ (r.content.payloadText.toList ++ '\x7d' :: rest)))))) := by
  have happend : ∀ a b c d e f g : String, ∀ rest : List Char,
      (a ++ b ++ c ++ d ++ e ++ f ++ g).toList ++ rest = a.toList ++ (b.toList ++ (c.toList ++
        (d.toList ++ (e.toList ++ (f.toList ++ (g.toList ++ rest)))))) := by
    intro a b c d e f g rest
    rw [toList_append_append, toList_append_append, toList_append_append, toList_append_append,
      toList_append_append, toList_append_append]
  exact (toList_append_append _ _ rest).trans (happend _ _ _ _ _ _ _ _)

/-- A row is found at the front of a text in one way. -/
theorem text_append_inj {r r' : Row} {rest rest' : List Char} (h : r.content.Plain)
    (h' : r'.content.Plain) (htext : r.text.toList ++ rest = r'.text.toList ++ rest') :
    r = r' ∧ rest = rest' := by
  rw [toList_text, toList_text, List.append_cancel_left_eq] at htext
  have halpha : ∀ {rest : List Char}, ∀ c ∈ (", line: ".toList ++ rest).head?,
      c.isAlpha = false := fun c hc => Option.some.inj hc ▸ rfl
  have hdigit : ∀ {rest : List Char}, ∀ c ∈ (", column: ".toList ++ rest).head?,
      c.isDigit = false := fun c hc => Option.some.inj hc ▸ rfl
  obtain ⟨hname, htext⟩ := run_append_inj r.content.tag.isAlpha_of_mem_name
    r'.content.tag.isAlpha_of_mem_name halpha halpha htext
  rw [List.append_cancel_left_eq] at htext
  obtain ⟨hline, htext⟩ := repr_append_inj hdigit hdigit htext
  rw [List.append_cancel_left_eq] at htext
  obtain ⟨hcolumn, htext⟩ := repr_append_inj (r.content.isDigit_head _)
    (r'.content.isDigit_head _) htext
  have htag := TokenTag.name_injective (String.toList_inj.mp hname)
  obtain ⟨hcontent, hrest⟩ := Content.payloadText_append_inj h h' htag htext
  cases r
  cases r'
  exact ⟨Row.mk.injEq .. ▸ ⟨hcontent, hline, hcolumn⟩, hrest⟩

/-- A row starts with a brace. -/
theorem head?_text (r : Row) (rest : List Char) :
    (r.text.toList ++ rest).head? = some '\x7b' := by
  rw [toList_text]
  rfl

/-- A listing is that of its rows only, and tells of an error or tells of none. -/
theorem listing_inj {rows rows' : List Row} {hasError hasError' : Bool}
    (h : ∀ r ∈ rows, r.content.Plain) (h' : ∀ r ∈ rows', r.content.Plain)
    (hlisting : listing rows hasError = listing rows' hasError') :
    rows = rows' ∧ hasError = hasError' := by
  -- The last line starts with a digit, and so with no row.
  have hflag : ∀ (r : Row) (rest : List Char) (flag : Bool),
      r.text.toList ++ rest ≠ [if flag then '1' else '0', '\n'] := by
    intro r rest flag heq
    have hhead := congrArg List.head? heq
    rw [head?_text] at hhead
    cases flag <;> cases hhead
  induction rows generalizing rows' with
  | nil =>
      cases rows' with
      | nil => cases hasError <;> cases hasError' <;> first | exact ⟨rfl, rfl⟩ | cases hlisting
      | cons r' rows' =>
          rw [listing, listing, List.flatMap_cons, List.append_assoc, List.append_assoc] at hlisting
          exact absurd hlisting.symm (hflag _ _ _)
  | cons r rows ih =>
      rw [listing, List.flatMap_cons, List.append_assoc, List.append_assoc] at hlisting
      cases rows' with
      | nil => exact absurd hlisting (hflag _ _ _)
      | cons r' rows' =>
          rw [listing, List.flatMap_cons, List.append_assoc, List.append_assoc] at hlisting
          obtain ⟨hr, hrows⟩ := List.forall_mem_cons.mp h
          obtain ⟨hr', hrows'⟩ := List.forall_mem_cons.mp h'
          obtain ⟨rfl, hrest⟩ := text_append_inj hr hr' hlisting
          rw [List.append_cancel_left_eq] at hrest
          obtain ⟨rfl, hsame⟩ := ih hrows hrows' hrest
          exact ⟨rfl, hsame⟩

end Row

end LoxReader
