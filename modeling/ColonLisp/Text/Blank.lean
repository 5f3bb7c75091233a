/-
# Text.Blank -- the characters that separate tokens

The blank characters are those with the Unicode property `White_Space`: the
ASCII blanks and line breaks, the next-line control, the no-break spaces and the
typographic spaces and separators.  Of them only the line feed starts a line.
-/
import ColonLisp.Text.Ranges

set_option autoImplicit false

namespace ColonLisp.Text

/-- The code points with the property `White_Space`, in ascending order. -/
def blankRanges : List (Nat × Nat) :=
  [(0x9, 0xd), (0x20, 0x20), (0x85, 0x85), (0xa0, 0xa0), (0x1680, 0x1680), (0x2000, 0x200a),
   (0x2028, 0x2029), (0x202f, 0x202f), (0x205f, 0x205f), (0x3000, 0x3000)]

/-- Whether a character separates tokens and belongs to none. -/
def isBlank (c : Char) : Bool := inRanges blankRanges c

end ColonLisp.Text
