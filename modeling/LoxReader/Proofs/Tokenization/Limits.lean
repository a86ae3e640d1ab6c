/-
  `Proofs.Tokenization.Limits`: which of the longest sources have a place that cannot be stored.

  A source may have as many bytes as an offset can count.  That is one too many for its lines and
  columns, which start at 1: a source of line feeds only, or of one long line, is not refused for
  its size, but its end cannot be stored.  The main statement is `lex_counts`.
-/
import LoxReader.Proofs.Tokenization.Munch
import LoxReader.Proofs.Tokenization.Tracking

set_option autoImplicit false

namespace LoxReader

open Location (start)

section

variable {source : String} (h : source.utf8ByteSize ≤ SourceFault.maxBytes)

include h in
theorem byteSize_toList_le : byteSize source.toList ≤ Location.fieldLimit - 1 := by
  rw [byteSize_toList]
  exact h

include h in
/-- A source that does not fill a field is read. -/
theorem lex_of_not_fills (hfills : ¬Location.Fills source.toList) :
    lex source = .ok (tokenize source) :=
  lex_eq_ok_iff.mpr ⟨h, (Location.fits_advance_iff (byteSize_toList_le h)).mpr hfills, rfl⟩

include h in
/-- A source that fills a field is not too long, but is not read. -/
theorem lex_of_fills (hfills : Location.Fills source.toList) :
    lex source = .error .uncountable := by
  have hfits : ¬(start.advance source.toList).Fits := fun hall =>
    (Location.fits_advance_iff (byteSize_toList_le h)).mp hall hfills
  rw [lex, if_neg (Nat.not_lt.mpr h), if_neg hfits]

end

/-- Of a source that is not too long all places can be stored unless it fills a field.  If they
can, a tracker finds them and the source is read; if not, the tracker is refused and the source
is not read. -/
theorem lex_counts {source : String} (h : source.utf8ByteSize ≤ SourceFault.maxBytes) :
    (start.Counts source.toList ↔ ¬Location.Fills source.toList) ∧
      (¬Location.Fills source.toList →
        Tokenization.track source = .ok (tokenize source) ∧ lex source = .ok (tokenize source)) ∧
      (Location.Fills source.toList →
        Tokenization.track source = .error .overflow ∧ lex source = .error .uncountable) := by
  have hcounts := Location.counts_iff_not_fills (byteSize_toList_le h)
  refine ⟨hcounts, fun hfills => ⟨?_, lex_of_not_fills h hfills⟩,
    fun hfills => ⟨?_, lex_of_fills h hfills⟩⟩
  · exact Tokenization.track_of_counts (hcounts.mpr hfills)
  · exact Tokenization.track_of_not_counts fun hall => hcounts.mp hall hfills

/-! ## Sources of one character -/

theorem byteSize_replicate (n : Nat) (c : Char) :
    byteSize (List.replicate n c) = n * c.utf8Size := by
  induction n with
  | zero => exact (Nat.zero_mul _).symm
  | succ n ih => rw [List.replicate_succ, byteSize_cons, ih, Nat.add_one_mul, Nat.add_comm]

/-- A source that is one character over and over again. -/
def repeated (n : Nat) (c : Char) : String :=
  String.ofList (List.replicate n c)

theorem utf8ByteSize_repeated {n : Nat} {c : Char} (hc : c.utf8Size = 1) :
    (repeated n c).utf8ByteSize = n := by
  rw [repeated, utf8ByteSize_ofList, byteSize_replicate, hc, Nat.mul_one]

theorem fills_repeated (c : Char) : Location.Fills (repeated SourceFault.maxBytes c).toList := by
  rw [repeated, String.toList_ofList]
  refine ⟨List.length_replicate, ?_⟩
  by_cases hc : c = '\n'
  · exact .inl fun c' hc' => (List.eq_of_mem_replicate hc').trans hc
  · exact .inr fun hfeed => hc (List.eq_of_mem_replicate hfeed).symm

/-- One line with as many spaces as a source may have bytes is not read. -/
theorem lex_counts_spaces :
    (repeated SourceFault.maxBytes ' ').utf8ByteSize ≤ SourceFault.maxBytes ∧
      lex (repeated SourceFault.maxBytes ' ') = .error .uncountable := by
  have hsize : (repeated SourceFault.maxBytes ' ').utf8ByteSize ≤ SourceFault.maxBytes :=
    Nat.le_of_eq (utf8ByteSize_repeated rfl)
  exact ⟨hsize, ((lex_counts hsize).2.2 (fills_repeated ' ')).2⟩

/-- As many line feeds as a source may have bytes lead to a line whose number cannot be stored. -/
theorem not_counts_feeds :
    (repeated SourceFault.maxBytes '\n').utf8ByteSize = SourceFault.maxBytes ∧
      (start.advance (repeated SourceFault.maxBytes '\n').toList).line = Location.fieldLimit ∧
      ¬start.Counts (repeated SourceFault.maxBytes '\n').toList ∧
      lex (repeated SourceFault.maxBytes '\n') = .error .uncountable := by
  have hsize : (repeated SourceFault.maxBytes '\n').utf8ByteSize = SourceFault.maxBytes :=
    utf8ByteSize_repeated rfl
  have hfills := fills_repeated '\n'
  refine ⟨hsize, ?_, fun hall => ?_, lex_of_fills (Nat.le_of_eq hsize) hfills⟩
  · rw [Location.line_advance, repeated, String.toList_ofList, List.count_replicate_self]
    decide
  · exact (Location.counts_iff_not_fills (byteSize_toList_le (Nat.le_of_eq hsize))).mp hall hfills

end LoxReader
