import Gleaner.Yaml.Cursor
import Gleaner.Yaml.Fault

/-! # Scalars in quotes

Between single quotes everything stands for itself, except that a quote is written twice. Between double
quotes a backslash begins an escape. In both, an end of line counts as a space, of several in a row
all but the first count, and white space around them does not.
-/

namespace Gleaner.Yaml.Quoted

/-- The character that a letter behind a backslash stands for. -/
def simpleEscape? (c : Char) : Option Char :=
  match c with
  | '0' => some '\u0000'
  | 'a' => some '\u0007'
  | 'b' => some '\u0008'
  | 't' | '\t' => some '\t'
  | 'n' => some '\n'
  | 'v' => some '\u000b'
  | 'f' => some '\u000c'
  | 'r' => some '\r'
  | 'e' => some '\u001b'
  | ' ' => some ' '
  | '"' => some '"'
  | '/' => some '/'
  | '\\' => some '\\'
  | 'N' => some '\u0085'
  | '_' => some '\u00a0'
  | 'L' => some '\u2028'
  | 'P' => some '\u2029'
  | _ => none

/-- The number of hexadecimal digits behind a letter that announces a code point. -/
def hexWidth? (c : Char) : Option Nat :=
  match c with
  | 'x' => some 2
  | 'u' => some 4
  | 'U' => some 8
  | _ => none

def isHexDigit (c : Char) : Bool :=
  c.isDigit || ('a' ≤ c && c ≤ 'f') || ('A' ≤ c && c ≤ 'F')

/-- The value of a digit in any base up to sixteen. -/
def digitValue (c : Char) : Nat :=
  if c.isDigit then c.toNat - '0'.toNat else c.toLower.toNat - 'a'.toNat + 10

def valueIn (base : Nat) (digits : Text) : Nat :=
  digits.foldl (fun value c => base * value + digitValue c) 0

/-- The first number that is too large for a code point in any system. -/
def codePointLimit : Nat := Nat.pow 2 31

/-- The character with a code point. -/
def charOf (n : Nat) : Except Fault Char :=
  if codePointLimit ≤ n then .error .hugeCodePoint
  else if 0x110000 ≤ n then .error .codePoint
  else .ok (Char.ofNat n)

/-- The ends of lines that come next, as `join` puts them together, and what follows them. No mark between
documents may stand within a scalar. -/
def readBreaks (join : Text → Text) (s : Text) : Except Fault (Text × Text) :=
  match takeBreaks true true s with
  | ⟨value, marked, rest⟩ => if marked then .error .malformed else .ok (join value, rest)

theorem length_of_readBreaks {join : Text → Text} {s value rest : Text}
    (hbreaks : readBreaks join s = .ok (value, rest)) : rest.length ≤ s.length := by
  have hlength := length_takeBreaks_le true true s
  unfold readBreaks at hbreaks
  split at hbreaks
  rename_i htake
  rw [htake] at hlength
  split at hbreaks
  · simp at hbreaks
  · cases hbreaks
    exact hlength

/-- The character whose code point the next `width` hexadecimal digits are, and what follows them. -/
def readCodePoint (width : Nat) (s : Text) : Except Fault (Text × Text) :=
  if (s.take width).length = width ∧ (s.take width).all isHexDigit then
    match charOf (valueIn 16 (s.take width)) with
    | .error fault => .error fault
    | .ok c => .ok ([c], s.drop width)
  else .error .malformed

theorem length_of_readCodePoint {width : Nat} {s value rest : Text}
    (hcode : readCodePoint width s = .ok (value, rest)) : rest.length ≤ s.length := by
  unfold readCodePoint at hcode
  split at hcode
  · split at hcode
    · simp at hcode
    · cases hcode
      simp
  · simp at hcode

/-- What an escape stands for, read from behind its backslash, and what follows it. A backslash at the end
of a line stands for the ends of the empty lines behind that line. -/
def readEscape : Text → Except Fault (Text × Text)
  | [] => .error .malformed
  | c :: s =>
    match simpleEscape? c, hexWidth? c with
    | some value, _ => .ok ([value], s)
    | none, some width => readCodePoint width s
    | none, none => if isBreak c then readBreaks id s else .error .malformed

theorem length_of_readEscape {s value rest : Text} (hescape : readEscape s = .ok (value, rest)) :
    rest.length < s.length := by
  unfold readEscape at hescape
  split at hescape
  · simp at hescape
  · simp only [List.length_cons]
    split at hescape
    · cases hescape
      omega
    · have := length_of_readCodePoint hescape
      omega
    · split at hescape
      · have := length_of_readBreaks hescape
        omega
      · simp at hescape

def isSpace (c : Char) : Bool := c == ' ' || c == '\t'

/-- What white space stands for that begins with the character in front of `s`, and what follows it. -/
def readSpace (c : Char) (s : Text) : Except Fault (Text × Text) :=
  if isBreak c then readBreaks (foldBreaks c) s
  else
    match s.dropWhile isSpace with
    | [] => .error .malformed
    | d :: rest =>
      if isBreak d then readBreaks (foldBreaks d) rest
      else .ok (c :: s.takeWhile isSpace, d :: rest)

theorem length_of_readSpace {c : Char} {s value rest : Text}
    (hspace : readSpace c s = .ok (value, rest)) : rest.length ≤ s.length := by
  have hlength := Text.length_dropWhile_le isSpace s
  unfold readSpace at hspace
  split at hspace
  · exact length_of_readBreaks hspace
  · split at hspace
    · simp at hspace
    · rename_i d more hmore
      rw [hmore] at hlength
      simp only [List.length_cons] at hlength
      split at hspace
      · have := length_of_readBreaks hspace
        omega
      · cases hspace
        exact hlength

/-- The content of a scalar in quotes, read from behind its opening quote, and what follows the closing
one. -/
def read (double : Bool) : Text → Except Fault (Text × Text)
  | [] => .error .malformed
  | c :: s =>
    if c = '\'' ∧ !double then
      if s.head? = some '\'' then (read double s.tail).map fun (t, rest) => ('\'' :: t, rest)
      else .ok ([], s)
    else if c = '"' ∧ double then .ok ([], s)
    else if c = '\\' ∧ double then
      match _hescape : readEscape s with
      | .error fault => .error fault
      | .ok (value, more) => (read double more).map fun (t, rest) => (value ++ t, rest)
    else if isSpace c || isBreak c then
      match _hspace : readSpace c s with
      | .error fault => .error fault
      | .ok (value, more) => (read double more).map fun (t, rest) => (value ++ t, rest)
    else (read double s).map fun (t, rest) => (c :: t, rest)
termination_by s => s.length
decreasing_by
  · simp only [List.length_tail, List.length_cons]
    omega
  · have := length_of_readEscape _hescape
    simp only [List.length_cons]
    omega
  · have := length_of_readSpace _hspace
    simp only [List.length_cons]
    omega
  · simp only [List.length_cons]
    omega

end Gleaner.Yaml.Quoted
