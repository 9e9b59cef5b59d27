import Gleaner.Text.Printable

/-! # Quoted texts

How a message spells a text that it repeats: between quotes, with the quote and the backslash
escaped and every unprintable character shown by its number. Also the decimal and hexadecimal
numerals that messages contain.
-/

namespace Gleaner.Text

/-- The decimal numeral of a natural number. -/
def ofNat (n : Nat) : Text := Nat.toDigits 10 n

/-- The decimal numeral of an integer. -/
def ofInt : Int → Text
  | .ofNat n => ofNat n
  | .negSucc n => '-' :: ofNat (n + 1)

/-- The hexadecimal numeral of `n` in small letters, filled up with zeros to `width` digits. -/
def hex (width n : Nat) : Text := (Nat.toDigits 16 n).leftpad width '0'

/-- A name applied to arguments. -/
def applied (name : String) (arguments : List Text) : Text :=
  name.toList ++ '(' :: [',', ' '].intercalate arguments ++ [')']

/-- The quote around a text: the double one only if the text holds the single one alone. -/
def quoteMark (s : Text) : Char := if '\'' ∈ s ∧ '"' ∉ s then '"' else '\''

/-- A character as it stands between quotes `mark`. -/
def escapeChar (mark c : Char) : Text :=
  if c = mark ∨ c = '\\' then ['\\', c]
  else if c = '\n' then ['\\', 'n']
  else if c = '\r' then ['\\', 'r']
  else if c = '\t' then ['\\', 't']
  else if isPrintable c then [c]
  else if c.toNat ≤ 0xff then '\\' :: 'x' :: hex 2 c.toNat
  else if c.toNat ≤ 0xffff then '\\' :: 'u' :: hex 4 c.toNat
  else '\\' :: 'U' :: hex 8 c.toNat

def quote (s : Text) : Text :=
  let mark := quoteMark s
  mark :: s.flatMap (escapeChar mark) ++ [mark]

example : quote "it's\n".toList = "\"it's\\n\"".toList := by decide +kernel
example : quote "\u00a0\"'".toList = "'\\xa0\"\\''".toList := by decide +kernel

end Gleaner.Text
