/-
  `Proofs.Tokenization.Decimal`: numbers in decimal digits.

  The shortest digits of a value have this value, and no other digits of the value are
  fewer.
-/
import LoxReader.Proofs.Lexeme.Grammar
import LoxReader.Proofs.Source.Extent
import LoxReader.Tokenization.Tables
import Mathlib.Algebra.Group.Nat.Defs

set_option autoImplicit false

namespace LoxReader

/-- A digit has one byte. -/
theorem byteSize_of_isDigit {digits : List Char} (h : ∀ c ∈ digits, c.isDigit = true) :
    byteSize digits = digits.length := by
  induction digits with
  | nil => rfl
  | cons c rest ih =>
      obtain ⟨hc, hrest⟩ := List.forall_mem_cons.mp h
      have hle : c.val.toNat ≤ 57 := Lexeme.toNat_le_of_isDigit hc
      have hsize : c.utf8Size = 1 := by
        rw [Char.utf8Size_eq_one_iff, UInt32.le_iff_toNat_le]
        exact Nat.le_trans hle (by decide)
      rw [byteSize_cons, ih hrest, hsize, List.length_cons, Nat.add_comm]

/-- The shortest digits of a value have this value. -/
theorem digitsValue_repr (n : Nat) : digitsValue n.repr.toList = n := by
  rw [digitsValue, Nat.toList_repr, Nat.ofDigitChars_ten_toDigits]

theorem isDigit_of_mem_repr {n : Nat} {c : Char} (h : c ∈ n.repr.toList) : c.isDigit = true := by
  rw [Nat.toList_repr] at h
  exact Nat.isDigit_of_mem_toDigits (by decide) (by decide) h

theorem repr_toList_ne_nil (n : Nat) : n.repr.toList ≠ [] := by
  rw [Nat.toList_repr]
  exact Nat.toDigits_ne_nil

end LoxReader
