import Gleaner.Yaml.Cursor

/-! # Scalars without quotes

A plain scalar ends at a mark or a comment, or where its line ends and the next one does not belong to
it. Within brackets every line belongs to it; elsewhere a line has to be indented far enough. Ends of
lines inside are folded as between quotes, but tabs have no place in a plain scalar.
-/

namespace Gleaner.Yaml.Plain

/-- Characters that have a meaning of their own within brackets. -/
def isFlowMark (c : Char) : Bool := c == ',' || c == '[' || c == ']' || c == '{' || c == '}'

/-- Characters that no plain scalar begins with. -/
def reserved : Text := "-?:,[]{}#&*!|>'\"%@".toList ++ ['\x60']

/-- Whether nothing comes next that a plain scalar can hold behind a mark: the end, white space or the end
of a line. -/
def endsWord : Text → Bool
  | [] => true
  | c :: _ => c == ' ' || c == '\t' || isBreak c

/-- Whether a plain scalar can begin with the text. Some marks can begin one if no white space follows. -/
def begins (brackets : Bool) : Text → Bool
  | [] => false
  | c :: s =>
    if !endsWord (c :: s) && !reserved.contains c then true
    else if c = '-' then !endsWord s
    else if c = ':' ∧ brackets then !s.isEmpty && s.head? != some ' ' && s.head? != some '\t'
    else if c = ':' ∨ c = '?' then !brackets && !endsWord s
    else false

/-- The text up to the first character that cannot belong to a word, and what follows. -/
def takeWord (brackets : Bool) : Text → Text × Text
  | [] => ([], [])
  | c :: s =>
    if endsMark (c :: s) || (c == ':' && endsMark s) || (brackets && isFlowMark c) then ([], c :: s)
    else
      let (word, rest) := takeWord brackets s
      (c :: word, rest)

/-- What stands between two words. -/
structure Gap where
  /-- What the gap stands for; nothing if the scalar cannot go on behind it. -/
  value : Text
  /-- Whether a line ends in the gap. -/
  crossed : Bool
  rest : Text
deriving DecidableEq

def takeGap (s : Text) : Gap :=
  let spaces := s.takeWhile (· == ' ')
  match s.dropWhile (· == ' ') with
  | [] => ⟨spaces, false, []⟩
  | c :: rest =>
    if isBreak c then
      let breaks := takeBreaks false true rest
      ⟨if breaks.marked then [] else foldBreaks c breaks.value, true, breaks.rest⟩
    else ⟨spaces, false, c :: rest⟩

/-- A plain scalar that has been read. -/
structure Reading where
  value : Text
  /-- Whether its last line has been left, so that a key may come next. -/
  crossed : Bool
  next : Cursor
deriving DecidableEq

/-- The part of a plain scalar from `here` on, where `gap` stands before it. Outside of brackets further
lines have to begin in column `least` or behind it. `fuel` bounds the number of words. -/
def readFrom (brackets : Bool) (least : Nat) (gap : Text) (crossed : Bool) : (fuel : Nat) → Cursor → Reading
  | 0, here => ⟨[], crossed, here⟩
  | fuel + 1, here =>
    let (word, behind) := takeWord brackets here.rest
    if word.isEmpty then ⟨[], crossed, here⟩
    else
      let following := takeGap behind
      let next := here.advanceTo following.rest
      if following.value.isEmpty ∨ next.rest.head? = some '#' ∨ (!brackets ∧ next.column < least) then
        ⟨gap ++ word, following.crossed, next⟩
      else
        let more := readFrom brackets least following.value following.crossed fuel next
        { more with value := gap ++ word ++ more.value }

/-- The plain scalar that begins at a place. -/
def read (brackets : Bool) (least : Nat) (here : Cursor) : Reading :=
  readFrom brackets least [] false (here.rest.length + 1) here

end Gleaner.Yaml.Plain
