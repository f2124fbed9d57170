/-!
# Blank characters

The characters that count as white space: the control characters used for layout, the separators
of information, and the space characters of Unicode.  Numerals may be surrounded by a smaller set
without the information separators.
-/

namespace ToolCatalog.Text

/-- Code points of white space outside ASCII. -/
def wideBlanks : List Nat :=
  [0x85, 0xA0, 0x1680, 0x2000, 0x2001, 0x2002, 0x2003, 0x2004, 0x2005, 0x2006, 0x2007, 0x2008,
   0x2009, 0x200A, 0x2028, 0x2029, 0x202F, 0x205F, 0x3000]

/-- White space that may surround a numeral. -/
def isNumeralBlank (c : Char) : Bool :=
  (9 ≤ c.toNat && c.toNat ≤ 13) || c == ' ' || wideBlanks.contains c.toNat

/-- White space: what may surround a numeral, and the four information separators. -/
def isBlank (c : Char) : Bool :=
  isNumeralBlank c || (0x1C ≤ c.toNat && c.toNat ≤ 0x1F)

/-- Whether a text is empty or all white space. -/
def allBlank (s : String) : Bool := s.toList.all isBlank

/-- The text without the characters at its two ends that satisfy `p`. -/
def trimBoth (p : Char → Bool) (cs : List Char) : List Char :=
  ((cs.dropWhile p).reverse.dropWhile p).reverse

/-- The text without the characters at its end that equal `c`. -/
def trimEndOf (c : Char) (s : String) : String :=
  String.ofList ((s.toList.reverse.dropWhile (· == c)).reverse)

end ToolCatalog.Text
