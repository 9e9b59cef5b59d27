import Gleaner.Text.Basic

/-! # White space

Which characters separate words, and what is left of a text without them at its ends. The set is that
of Unicode's separators of all kinds together with the tab, line and information separators among
the control characters; zero-width characters do not belong to it.
-/

namespace Gleaner.Text

/-- Whether the character is white space. -/
def isBlank (c : Char) : Bool :=
  let n := c.toNat
  (0x09 ≤ n && n ≤ 0x0d) || (0x1c ≤ n && n ≤ 0x20) || n == 0x85 || n == 0xa0 || n == 0x1680 ||
    (0x2000 ≤ n && n ≤ 0x200a) || n == 0x2028 || n == 0x2029 || n == 0x202f || n == 0x205f ||
    n == 0x3000

/-- The text from its first character that is not blank. -/
def trimLeft (s : Text) : Text := s.dropWhile isBlank

/-- The text up to its last character that is not blank. -/
def trimRight (s : Text) : Text := (s.reverse.dropWhile isBlank).reverse

/-- The text without the white space at its ends. -/
def trim (s : Text) : Text := trimRight (trimLeft s)

/-- The maximal runs of characters that are not blank, in order. -/
def words (s : Text) : List Text := (s.splitOnP isBlank).filter (!·.isEmpty)

/-- Whether the character ends a line wherever a text is broken into lines. -/
def isLineEnd (c : Char) : Bool :=
  let n := c.toNat
  (0x0a ≤ n && n ≤ 0x0d) || (0x1c ≤ n && n ≤ 0x1e) || n == 0x85 || n == 0x2028 || n == 0x2029

/-- The text broken into lines, of which `line` is read so far. A carriage return and the line feed behind
it end one line together. -/
def brokenFrom (line : Text) : Text → List Text
  | [] => if line.isEmpty then [] else [line]
  | '\r' :: '\n' :: s => line :: brokenFrom [] s
  | c :: s => if isLineEnd c then line :: brokenFrom [] s else brokenFrom (line ++ [c]) s

def brokenLines (s : Text) : List Text := brokenFrom [] s

theorem length_trimLeft_le (s : Text) : (trimLeft s).length ≤ s.length :=
  length_dropWhile_le isBlank s

example : words " a  bc d ".toList = ["a".toList, "bc".toList, "d".toList] := by decide
example : trim "\u00a0 x y\n".toList = "x y".toList := by decide

end Gleaner.Text
