/-
  `Proofs.Token.Keyword`: reserved words and their spellings determine each other.

  Words are looked up by their size first, and by their spelling among the reserved words of
  that size.  The main statement is `reserved_iff_mem_table`: this finds what stands in the
  table and nothing else.
-/
import LoxReader.Token.Keyword

set_option autoImplicit false

namespace LoxReader.Keyword

/-- Every reserved word is in the catalogue. -/
theorem mem_all (k : Keyword) : k ∈ all := by
  cases k <;> decide

/-- The table has each reserved word under its spelling. -/
theorem mem_table_iff {word : String} {k : Keyword} : (word, k) ∈ table ↔ k.spelling = word := by
  rw [table, List.mem_map]
  constructor
  · rintro ⟨k', -, heq⟩
    cases heq
    rfl
  · rintro rfl
    exact ⟨k, mem_all k, rfl⟩

/-! ## Looking up -/

/-- A reserved word is found under its spelling. -/
theorem ofSpelling?_spelling (k : Keyword) : ofSpelling? k.spelling = some k := by
  cases k <;> rfl

/-- What is found under a word is spelled like it. -/
theorem spelling_of_ofSpelling? {word : String} {k : Keyword} (h : ofSpelling? word = some k) :
    k.spelling = word := by
  unfold ofSpelling? at h
  -- One case for each size that a reserved word has, and in it one for each word of that size.
  split at h
  case h_6 => cases h
  all_goals split at h <;> simp only [reduceCtorEq, Option.some.injEq] at h <;> subst h <;> rfl

/-- Nothing is found under a word that is not reserved. -/
theorem spelling_ne_of_ofSpelling? {word : String} (h : ofSpelling? word = none) (k : Keyword) :
    k.spelling ≠ word := by
  rintro rfl
  rw [ofSpelling?_spelling] at h
  cases h

/-! ## Words that are nearly reserved -/

/-- The word with small letters in place of capital ones. -/
def lowered (word : String) : List Char :=
  word.toList.map Char.toLower

/-- The word is another one, but starts it, goes on behind it, or differs from it in capital
letters only. -/
structure Resembles (word other : String) : Prop where
  ne : word ≠ other
  alike : word.toList <+: other.toList ∨ other.toList <+: word.toList ∨
    lowered word = lowered other

/-- No reserved word starts another one. -/
theorem eq_of_prefix_spelling {k k' : Keyword} (h : k.spelling.toList <+: k'.spelling.toList) : k = k' := by
  revert h
  cases k <;> cases k' <;> decide

/-- Reserved words have small letters only. -/
theorem lowered_spelling (k : Keyword) : lowered k.spelling = k.spelling.toList := by
  cases k <;> decide

theorem eq_of_lowered {k k' : Keyword} (h : lowered k.spelling = lowered k'.spelling) : k = k' := by
  rw [lowered_spelling, lowered_spelling] at h
  exact eq_of_prefix_spelling (h ▸ List.prefix_refl _)

/-- No reserved word resembles another one. -/
theorem not_resembles (k k' : Keyword) : ¬Resembles k.spelling k'.spelling := by
  rintro ⟨hne, hstart | hend | hletters⟩
  · exact hne (congrArg spelling (eq_of_prefix_spelling hstart))
  · exact hne (congrArg spelling (eq_of_prefix_spelling hend).symm)
  · exact hne (congrArg spelling (eq_of_lowered hletters))

/-- Under any word the reserved word is found with which it stands in the table, if there is
one; so nothing is found under a word that only resembles a reserved one. -/
theorem reserved_iff_mem_table (word : String) :
    (∀ k, ofSpelling? word = some k ↔ (word, k) ∈ table) ∧
      ∀ k : Keyword, Resembles word k.spelling → ofSpelling? word = none := by
  refine ⟨fun k => ?_, fun k hword => ?_⟩
  · rw [mem_table_iff]
    constructor
    · exact spelling_of_ofSpelling?
    · rintro rfl
      exact ofSpelling?_spelling k
  · cases hfound : ofSpelling? word with
    | none => rfl
    | some k' =>
        obtain rfl := spelling_of_ofSpelling? hfound
        exact absurd hword (not_resembles k' k)

/-- A part of a reserved word, one that goes on behind it, and one with capital letters. -/
theorem reserved_iff_mem_table_near :
    ofSpelling? "clas" = none ∧ ofSpelling? "orchid" = none ∧ ofSpelling? "While" = none := by
  refine ⟨(reserved_iff_mem_table _).2 .class ⟨by decide, .inl (by decide)⟩,
    (reserved_iff_mem_table _).2 .or ⟨by decide, .inr (.inl (by decide))⟩,
    (reserved_iff_mem_table _).2 .while ⟨by decide, .inr (.inr (by decide))⟩⟩

end LoxReader.Keyword
