/-!
# Blank characters

The characters with the White_Space property, and texts with the blank characters at both ends removed.
-/

namespace ChunkedStorage.Text

/-- Whether a character has the White_Space property. -/
def isBlank (c : Char) : Bool :=
  let n := c.toNat
  (0x9 ≤ n && n ≤ 0xD) || n == 0x20 || n == 0x85 || n == 0xA0 || n == 0x1680 || (0x2000 ≤ n && n ≤ 0x200A)
    || n == 0x2028 || n == 0x2029 || n == 0x202F || n == 0x205F || n == 0x3000

/-- The text without the blank characters at its start. -/
def trimLeft (s : List Char) : List Char := s.dropWhile isBlank

/-- The text without the blank characters at its end. -/
def trimRight (s : List Char) : List Char := (s.reverse.dropWhile isBlank).reverse

/-- The text without the blank characters at its two ends. -/
def trim (s : List Char) : List Char := trimRight (trimLeft s)

end ChunkedStorage.Text
