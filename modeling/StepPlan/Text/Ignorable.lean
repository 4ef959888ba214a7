import StepPlan.Text.Ranges

/-! Code points that show nothing where they are not given a meaning, such as joiners, fillers and
variation selectors: those with the property Default_Ignorable_Code_Point, as of Unicode 17. Some
of them are letters: the fillers that hold the place of a missing part of a Hangul syllable.
-/

namespace StepPlan.Text

/-- The code points that show nothing by default, in ascending ranges. -/
def ignorableRanges : List (Nat × Nat) :=
  [(0xad, 0xad), (0x34f, 0x34f), (0x61c, 0x61c), (0x115f, 0x1160), (0x17b4, 0x17b5),
    (0x180b, 0x180f), (0x200b, 0x200f), (0x202a, 0x202e), (0x2060, 0x206f), (0x3164, 0x3164),
    (0xfe00, 0xfe0f), (0xfeff, 0xfeff), (0xffa0, 0xffa0), (0xfff0, 0xfff8), (0x1bca0, 0x1bca3),
    (0x1d173, 0x1d17a), (0xe0000, 0xe0fff)]

/-- Whether a character shows nothing by default. -/
def isIgnorable (c : Char) : Bool :=
  inRanges c.toNat ignorableRanges

end StepPlan.Text
