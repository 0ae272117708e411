import Typeahead.Text.Ranges

/-!
# Blank characters

Two sets of blanks occur.  `Text.isSpace` is the Unicode property White_Space;
`Text.isBlank` adds the four information separators, which text trimming counts
as blank as well.  `Text.trimWith` cuts a set of characters from both ends.
-/

namespace Typeahead

namespace Text

/-- The runs of the Unicode property White_Space. -/
def spaceRanges : Ranges :=
  [(0x9, 0xD), (0x20, 0x20), (0x85, 0x85), (0xA0, 0xA0), (0x1680, 0x1680),
   (0x2000, 0x200A), (0x2028, 0x2029), (0x202F, 0x202F), (0x205F, 0x205F),
   (0x3000, 0x3000)]

/-- The Unicode property White_Space. -/
def isSpace (c : Char) : Bool := inRanges spaceRanges c

/-- A blank is white space or one of the separators U+001C to U+001F. -/
def isBlank (c : Char) : Bool := isSpace c || inRanges [(0x1C, 0x1F)] c

/-- Drops the characters of a set from both ends. -/
def trimWith (drop : Char → Bool) (cs : List Char) : List Char :=
  ((cs.dropWhile drop).reverse.dropWhile drop).reverse

/-- A text is blank when nothing is left of it after trimming. -/
def isBlankText (s : String) : Bool := s.toList.all isBlank

end Text

end Typeahead
