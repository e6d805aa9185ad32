import AccessControl.Text.Ranges

/-!
Blank characters: what separates words, and what a name inside a permission must not contain.
-/

namespace AccessControl.Text

def blankRanges : Ranges :=
  [(0x09, 0x0D), (0x1C, 0x20), (0x85, 0x85), (0xA0, 0xA0), (0x1680, 0x1680), (0x2000, 0x200A),
   (0x2028, 0x2029), (0x202F, 0x202F), (0x205F, 0x205F), (0x3000, 0x3000)]

/-- The Unicode white space characters, and the four information separators of ASCII. -/
def isBlank (c : Char) : Bool :=
  blankRanges.contains c

def lastWord (s : List Char) : List Char :=
  ((s.reverse.dropWhile isBlank).takeWhile (!isBlank ·)).reverse

end AccessControl.Text
