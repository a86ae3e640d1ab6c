/-
  `Table`: reading a table by index, where an index past the end is a fault.
-/

set_option autoImplicit false

namespace LoxReader

/-- An index that is not below the size of what it should point into. -/
structure OutOfRange where
  size : Nat
  index : Nat
deriving DecidableEq

/-- The fault in words. -/
def OutOfRange.message (e : OutOfRange) : String :=
  s!"index out of bounds: the len is {e.size} but the index is {e.index}"

/-- The entry of the table at an index. -/
def tableGet {α : Type} (table : Array α) (index : Nat) : Except OutOfRange α :=
  match table[index]? with
  | some entry => .ok entry
  | none => .error ⟨table.size, index⟩

theorem tableGet_of_lt {α : Type} {table : Array α} {index : Nat} (h : index < table.size) :
    tableGet table index = .ok table[index] := by
  simp [tableGet, h]

theorem tableGet_of_le {α : Type} {table : Array α} {index : Nat} (h : table.size ≤ index) :
    tableGet table index = .error ⟨table.size, index⟩ := by
  simp [tableGet, h]

/-- An index is refused exactly when it is past the end. -/
theorem tableGet_eq_error_iff {α : Type} {table : Array α} {index : Nat} {e : OutOfRange} :
    tableGet table index = .error e ↔ table.size ≤ index ∧ e = ⟨table.size, index⟩ := by
  rcases Nat.lt_or_ge index table.size with h | h
  · rw [tableGet_of_lt h]
    simp [Nat.not_le.mpr h]
  · rw [tableGet_of_le h]
    simp [h, eq_comm]

theorem tableGet_eq_ok_iff {α : Type} {table : Array α} {index : Nat} {entry : α} :
    tableGet table index = .ok entry ↔ table[index]? = some entry := by
  unfold tableGet
  split <;> simp_all

/-- What is made of an answer is made of an answer. -/
theorem exists_of_map_eq_ok {ε α β : Type} {f : α → β} {x : Except ε α} {b : β}
    (h : x.map f = .ok b) : ∃ a, x = .ok a ∧ f a = b := by
  cases x with
  | error e => cases h
  | ok a => exact ⟨a, rfl, Except.ok.inj h⟩

end LoxReader
