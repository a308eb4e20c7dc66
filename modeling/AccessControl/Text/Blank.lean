/-! # Blank characters

A character is blank when it has the Unicode property `White_Space`.  A text is
*trimmed* by dropping the blanks at both ends and keeping every other character,
blanks in the middle included.
-/
namespace AccessControl

/-- The characters with the Unicode property `White_Space`. -/
def isBlank (c : Char) : Bool :=
  let n := c.toNat
  (0x09 ≤ n && n ≤ 0x0D) || n == 0x20 || n == 0x85 || n == 0xA0 || n == 0x1680 ||
    (0x2000 ≤ n && n ≤ 0x200A) || n == 0x2028 || n == 0x2029 || n == 0x202F ||
    n == 0x205F || n == 0x3000

/-- The characters left when the blanks at both ends are dropped. -/
def trimChars (cs : List Char) : List Char :=
  ((cs.dropWhile isBlank).reverse.dropWhile isBlank).reverse

/-- A text without the blanks at its ends. -/
def trim (s : String) : String := String.ofList (trimChars s.toList)

/-- Whether a text consists of blanks only; the empty text does. -/
def isBlankText (s : String) : Bool := s.toList.all isBlank

/-- A text equal to another up to the case of the letters A to Z. -/
def sameIgnoringCase (s t : String) : Bool :=
  s.toList.map Char.toLower == t.toList.map Char.toLower

end AccessControl
