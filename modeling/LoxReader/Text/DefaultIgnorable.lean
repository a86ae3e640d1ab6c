/-
  `Text.DefaultIgnorable`: the characters with the property
  `Default_Ignorable_Code_Point` of Unicode 17.0, which leave no mark where they are
  not supported.
-/
import LoxReader.Text.CodeRange

set_option autoImplicit false

namespace LoxReader

/-- The code points that have the property `Default_Ignorable_Code_Point`, in
ascending order. -/
def defaultIgnorableRanges : List CodeRange := [
    ⟨0x00ad, 0x00ad⟩, ⟨0x034f, 0x034f⟩, ⟨0x061c, 0x061c⟩, ⟨0x115f, 0x1160⟩, ⟨0x17b4, 0x17b5⟩,
    ⟨0x180b, 0x180f⟩, ⟨0x200b, 0x200f⟩, ⟨0x202a, 0x202e⟩, ⟨0x2060, 0x206f⟩, ⟨0x3164, 0x3164⟩,
    ⟨0xfe00, 0xfe0f⟩, ⟨0xfeff, 0xfeff⟩, ⟨0xffa0, 0xffa0⟩, ⟨0xfff0, 0xfff8⟩, ⟨0x1bca0, 0x1bca3⟩,
    ⟨0x1d173, 0x1d17a⟩, ⟨0xe0000, 0xe0fff⟩
  ]

/-- A character that is not shown unless it is supported, such as the fillers of
Hangul syllables. -/
def isDefaultIgnorable (c : Char) : Bool :=
  CodeRange.anyContains defaultIgnorableRanges c

end LoxReader
