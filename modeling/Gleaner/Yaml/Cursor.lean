import Gleaner.Text.Basic

/-! # Places in a document

A place in a document is the rest of the text together with what has been passed: how many characters,
how many lines, and how many characters of the line. Structure is shown by indentation, so the last of
these, the column, decides what belongs together.
-/

namespace Gleaner.Yaml

/-- The mark that may stand at the beginning of a file and takes up no column. -/
def orderMark : Char := '\ufeff'

/-- The rest of a document and what stands before it. -/
structure Cursor where
  rest : Text
  index : Nat
  line : Nat
  column : Nat
deriving DecidableEq

namespace Cursor

def start (s : Text) : Cursor := ⟨s, 0, 0, 0⟩

/-- The place behind the next character. -/
def next (c : Cursor) : Cursor :=
  match c.rest with
  | [] => c
  | ch :: s =>
    if ch = '\n' then ⟨s, c.index + 1, c.line + 1, 0⟩
    else ⟨s, c.index + 1, c.line, if ch = orderMark then c.column else c.column + 1⟩

/-- The place behind the next `count` characters. -/
def advance (c : Cursor) : (count : Nat) → Cursor
  | 0 => c
  | count + 1 => c.next.advance count

/-- The place where `rest` is left of the text. -/
def advanceTo (c : Cursor) (rest : Text) : Cursor := c.advance (c.rest.length - rest.length)

end Cursor

/-- Whether the character ends a line of a scalar. -/
def isBreak (c : Char) : Bool := c == '\n' || c == '\u0085' || c == '\u2028' || c == '\u2029'

/-- The end of a line as it counts in a scalar. -/
def breakValue (c : Char) : Char := if c = '\u0085' then '\n' else c

/-- Whether a mark ends here: at white space or at the end of the text. -/
def endsMark : Text → Bool
  | [] => true
  | c :: _ => c == ' ' || c == '\n' || c == '\t' || c == '\u0085'

/-- The marks between documents, which stand at the beginning of a line. -/
def documentStart : Text := ['-', '-', '-']

def documentEnd : Text := ['.', '.', '.']

def beginsWith (mark s : Text) : Bool := mark.isPrefixOf s && endsMark (s.drop mark.length)

def atDocumentMark (s : Text) : Bool := beginsWith documentStart s || beginsWith documentEnd s

/-- The gap in front of a token: spaces, comments and ends of lines, and within brackets tabs. `comment`
tells whether a comment is being passed. The answer tells whether a line ends in the gap, and what
follows it. -/
def skipGap (brackets : Bool) (comment crossed : Bool) : Text → Bool × Text
  | [] => (crossed, [])
  | c :: s =>
    if comment && c != '\n' && c != '\u0085' then skipGap brackets true crossed s
    else if isBreak c then skipGap brackets false true s
    else if c == ' ' || (brackets && c == '\t') then skipGap brackets false crossed s
    else if c = '#' then skipGap brackets true crossed s
    else (crossed, c :: s)

/-- Ends of lines with white space between them. -/
structure Breaks where
  /-- The ends of lines as they count in a scalar. -/
  value : Text
  /-- Whether a mark between documents follows at the beginning of a line. -/
  marked : Bool
  rest : Text
deriving DecidableEq

/-- The ends of lines that come next, where `tabs` tells whether tabs may stand between them and `fresh`
whether the text is the beginning of a line. -/
def takeBreaks (tabs : Bool) (fresh : Bool) : Text → Breaks
  | [] => ⟨[], false, []⟩
  | c :: s =>
    if fresh && atDocumentMark (c :: s) then ⟨[], true, c :: s⟩
    else if isBreak c then
      let more := takeBreaks tabs true s
      { more with value := breakValue c :: more.value }
    else if c == ' ' || (tabs && c == '\t') then takeBreaks tabs false s
    else ⟨[], false, c :: s⟩

/-- What the end `first` of a line and the ends of the empty lines behind it become in a scalar. A single
line feed becomes a space, and of several the first is dropped. -/
def foldBreaks (first : Char) (more : Text) : Text :=
  (if breakValue first ≠ '\n' then [first] else if more.isEmpty then [' '] else []) ++ more

theorem length_takeBreaks_le (tabs fresh : Bool) (s : Text) :
    (takeBreaks tabs fresh s).rest.length ≤ s.length := by
  induction s generalizing fresh with
  | nil => simp [takeBreaks]
  | cons c s ih =>
    have hfresh := ih true
    have hinside := ih false
    rw [takeBreaks]
    split
    · simp
    · split
      · simp only [List.length_cons]
        omega
      · split <;> simp only [List.length_cons] <;> omega

end Gleaner.Yaml
