/-
  `Proofs.Text.Utf8`: line feeds among the bytes of a text.

  In UTF-8 the byte of the line feed is a part of no other character, so that bytes can be cut
  behind it without a look at what they stand for: if both parts together are a text, then each
  of them is (`exists_of_decode?_append_feed`).
-/
import LoxReader.Proofs.Source.Extent
import LoxReader.Session

set_option autoImplicit false

namespace LoxReader

/-- The UTF-8 bytes of a text. -/
def utf8 (text : List Char) : List UInt8 :=
  text.flatMap String.utf8EncodeChar

@[simp] theorem utf8_nil : utf8 [] = [] := rfl

@[simp] theorem utf8_cons (c : Char) (text : List Char) :
    utf8 (c :: text) = String.utf8EncodeChar c ++ utf8 text := rfl

@[simp] theorem utf8_append (first second : List Char) :
    utf8 (first ++ second) = utf8 first ++ utf8 second :=
  List.flatMap_append

theorem length_utf8 (text : List Char) : (utf8 text).length = byteSize text := by
  induction text with
  | nil => rfl
  | cons c text ih =>
      rw [utf8_cons, List.length_append, String.length_utf8EncodeChar, ih, byteSize_cons]

theorem toByteArray_eq_iff {bytes : List UInt8} {text : String} :
    text.toByteArray = ⟨bytes.toArray⟩ ↔ utf8 text.toList = bytes := by
  rw [← String.utf8Encode_toList, List.utf8Encode, ByteArray.ext_iff, List.data_toByteArray, utf8]
  exact ⟨List.toArray_inj, congrArg _⟩

/-- Bytes stand for a text exactly if they are its bytes. -/
theorem Session.decode?_eq_some_iff {bytes : List UInt8} {text : String} :
    decode? bytes = some text ↔ utf8 text.toList = bytes := by
  rw [← toByteArray_eq_iff, decode?, String.fromUTF8?]
  split
  · rename_i hvalid
    rw [Option.some.injEq, ← String.toByteArray_inj]
    exact eq_comm
  · rename_i hinvalid
    refine ⟨fun h => (by cases h), fun h => ?_⟩
    exact absurd (h ▸ text.isValidUTF8) hinvalid

/-! ## Line feeds -/

theorem ten_ne_ofNat_add {n high : Nat} (hhigh : 128 ≤ high) (h : n + high < 256) :
    (10 : UInt8) ≠ UInt8.ofNat (n + high) := by
  intro heq
  have hnat := congrArg UInt8.toNat heq
  rw [UInt8.toNat_ofNat_of_lt' h] at hnat
  have hten : (10 : UInt8).toNat = 10 := rfl
  omega

/-- The byte of the line feed is that of no other character: all bytes of a character with more
than one are larger. -/
theorem eq_feed_of_mem_utf8EncodeChar {c : Char} (h : 10 ∈ String.utf8EncodeChar c) : c = '\n' := by
  simp only [String.utf8EncodeChar] at h
  split at h
  · rename_i hsmall
    rw [List.mem_singleton] at h
    have hnat := congrArg UInt8.toNat h
    rw [UInt8.toNat_ofNat_of_lt' (Nat.lt_of_le_of_lt hsmall (by decide))] at hnat
    exact Char.toNat_inj.mp hnat.symm
  · exfalso
    split at h
    · simp only [List.mem_cons, List.not_mem_nil, or_false] at h
      rcases h with h | h <;> exact ten_ne_ofNat_add (by decide) (by omega) h
    split at h
    · simp only [List.mem_cons, List.not_mem_nil, or_false] at h
      rcases h with h | h | h <;> exact ten_ne_ofNat_add (by decide) (by omega) h
    · simp only [List.mem_cons, List.not_mem_nil, or_false] at h
      rcases h with h | h | h | h <;> exact ten_ne_ofNat_add (by decide) (by omega) h

/-- A text whose bytes can be cut behind a line feed can itself be cut there. -/
theorem exists_of_utf8_eq_append_feed {text : List Char} {front rest : List UInt8}
    (h : utf8 text = front ++ 10 :: rest) :
    ∃ first second, text = first ++ '\n' :: second ∧ utf8 first = front ∧ utf8 second = rest := by
  induction text generalizing front with
  | nil => simp at h
  | cons c text ih =>
      rw [utf8_cons, List.append_eq_append_iff] at h
      have hbehind : ∀ more, front = String.utf8EncodeChar c ++ more →
          utf8 text = more ++ 10 :: rest → ∃ first second, c :: text = first ++ '\n' :: second ∧
            utf8 first = front ∧ utf8 second = rest := by
        rintro more rfl hmore
        obtain ⟨first, second, rfl, rfl, hsecond⟩ := ih hmore
        exact ⟨c :: first, second, rfl, rfl, hsecond⟩
      rcases h with ⟨more, hfront, hmore⟩ | ⟨more, hchar, hmore⟩
      · exact hbehind more hfront hmore
      · cases more with
        | nil => exact hbehind [] (by simpa using hchar.symm) hmore.symm
        | cons b more =>
            -- The line feed is a byte of the first character, and so it is all of it.
            obtain ⟨rfl, hrest⟩ := List.cons.inj hmore
            have hten : 10 ∈ String.utf8EncodeChar c := by
              rw [hchar]
              exact List.mem_append_right _ List.mem_cons_self
            obtain rfl := eq_feed_of_mem_utf8EncodeChar hten
            have hfeed : [10] = front ++ 10 :: more := hchar
            obtain ⟨rfl, hnone⟩ | ⟨_, hnone⟩ := List.singleton_eq_append_iff.mp hfeed
            · obtain rfl := (List.cons.inj hnone).2
              exact ⟨[], text, rfl, rfl, hrest.symm⟩
            · cases hnone

/-- If bytes stand for a text, then so do those up to a line feed and those behind it. -/
theorem Session.exists_of_decode?_append_feed {front rest : List UInt8} {text : String}
    (h : decode? (front ++ 10 :: rest) = some text) :
    ∃ first second, decode? (front ++ [10]) = some (first ++ "\n") ∧
      decode? rest = some second ∧ text = first ++ "\n" ++ second := by
  rw [decode?_eq_some_iff] at h
  obtain ⟨first, second, htext, rfl, rfl⟩ := exists_of_utf8_eq_append_feed h
  refine ⟨String.ofList first, String.ofList second, ?_, ?_, ?_⟩
  · rw [decode?_eq_some_iff, String.toList_append, String.toList_ofList, utf8_append]
    rfl
  · rw [decode?_eq_some_iff, String.toList_ofList]
  · rw [← String.toList_inj, htext]
    simp

end LoxReader
