import Gleaner.Yaml.Plain
import Gleaner.Yaml.Quoted
import Gleaner.Yaml.Token

/-! # Looking ahead for tokens

Only the colon behind it shows that something is a key, and with the first key a block begins. So tokens
are found before they can be handed on: what may turn out to be a key waits until the colon is there,
or until it is clear that there will be none, because the line ends or is too long.

Tokens are looked for only as far as the next one needs it. A fault in a text therefore stands behind as
many tokens as can be told without it, and whoever needs no more tokens than these does not see it.
-/

namespace Gleaner.Yaml

/-- Something that is a key if a colon follows on the same line. -/
structure PossibleKey where
  number : Nat
  /-- Whether nothing but a key can stand here. -/
  required : Bool
  index : Nat
  line : Nat
  column : Nat
deriving DecidableEq

/-- How far tokens have been looked for. -/
structure Lookahead where
  cursor : Cursor
  /-- The tokens that are found but not handed on, in order. -/
  waiting : List Token
  /-- The number of tokens that have been handed on. -/
  taken : Nat
  /-- Whether the end of the text has been found. -/
  ended : Bool
  /-- The columns of the blocks around, the innermost first. -/
  blocks : List Nat
  /-- The brackets around, the innermost first. -/
  brackets : List Bracket
  /-- Whether a key can begin here. -/
  keyAllowed : Bool
  /-- The last possible key for every number of brackets around. -/
  keys : List (Nat × PossibleKey)
deriving DecidableEq

namespace Lookahead

def start (s : Text) : Lookahead := ⟨.start s, [], 0, false, [], [], true, []⟩

/-- Keys reach over this many characters at most. -/
def longestKey : Nat := 1024

def inBrackets (q : Lookahead) : Bool := !q.brackets.isEmpty

def emit (t : Token) (q : Lookahead) : Lookahead := { q with waiting := q.waiting ++ [t] }

/-- Passes over the characters of a token. -/
def pass (count : Nat) (t : Token) (q : Lookahead) : Lookahead :=
  { q.emit t with cursor := q.cursor.advance count }

def key? (q : Lookahead) : Option PossibleKey := q.keys.lookup q.brackets.length

/-- Gives up the possible key within the innermost brackets. -/
def forgetKey (q : Lookahead) : Except Fault Lookahead :=
  if q.key?.any (·.required) then .error .malformed
  else .ok { q with keys := q.keys.filter (·.1 != q.brackets.length) }

/-- Remembers that a key may begin here, if one is allowed. In the column of the block around nothing but
a key can stand. -/
def rememberKey (q : Lookahead) : Except Fault Lookahead :=
  if q.keyAllowed then
    q.forgetKey.map fun q =>
      { q with keys := (q.brackets.length, {
          number := q.taken + q.waiting.length
          required := !q.inBrackets && q.blocks.head? == some q.cursor.column
          index := q.cursor.index
          line := q.cursor.line
          column := q.cursor.column }) :: q.keys }
  else .ok q

/-- Whether a possible key has turned out to be none: it is on another line or too long. -/
def isStale (q : Lookahead) (key : PossibleKey) : Bool :=
  key.line != q.cursor.line || longestKey < q.cursor.index - key.index

/-- Gives up the possible keys that have turned out to be none. -/
def forgetStale (q : Lookahead) : Except Fault Lookahead :=
  if q.keys.any fun key => q.isStale key.2 && key.2.required then .error .malformed
  else .ok { q with keys := q.keys.filter fun key => !q.isStale key.2 }

/-- Whether the next token has yet to be found, or may still turn out to be part of a key. -/
def isUnsettled (q : Lookahead) : Bool :=
  !q.ended && (q.waiting.isEmpty || q.keys.any fun key => key.2.number == q.taken)

/-- Ends the blocks that `leaves` tells are left. Brackets hold all blocks open. -/
def endBlocks (leaves : Nat → Bool) (q : Lookahead) : Lookahead :=
  if q.inBrackets then q
  else
    { q with
      waiting := q.waiting ++ List.replicate (q.blocks.takeWhile leaves).length .blockEnd
      blocks := q.blocks.dropWhile leaves }

def isInside (q : Lookahead) (column : Nat) : Bool := q.blocks.head?.all (· < column)

/-- Begins a block here if the column lies inside of all others. -/
def beginBlock (t : Token) (q : Lookahead) : Lookahead :=
  if q.isInside q.cursor.column then { q.emit t with blocks := q.cursor.column :: q.blocks } else q

/-- Finds a mark that stands before a part of a block. Outside of brackets it is allowed where a key is,
and a block may begin with it. -/
def findMark (mark block : Token) (keyBehind : Bool) (q : Lookahead) : Except Fault Lookahead :=
  if !q.inBrackets && !q.keyAllowed then .error .malformed
  else
    let q := if q.inBrackets then q else q.beginBlock block
    { q with keyAllowed := keyBehind }.forgetKey.map (pass 1 mark)

/-- Finds the dash in front of an item. -/
def findItem (q : Lookahead) : Except Fault Lookahead := q.findMark .item .sequenceStart true

def findKey (q : Lookahead) : Except Fault Lookahead := q.findMark .key .mappingStart !q.inBrackets

/-- Puts a token in front of the waiting ones from a number on. -/
def insertAt (number : Nat) (t : Token) (q : Lookahead) : Lookahead :=
  { q with waiting := q.waiting.insertIdx (number - q.taken) t }

/-- Finds the colon in front of a value. What is possibly a key before it is one, and a block may begin
with it. -/
def findValue (q : Lookahead) : Except Fault Lookahead :=
  match q.key? with
  | none => q.findMark .value .mappingStart !q.inBrackets
  | some key =>
    let q := { q.insertAt key.number .key with
      keys := q.keys.filter (·.1 != q.brackets.length)
      keyAllowed := false }
    let q :=
      if !q.inBrackets && q.isInside key.column then
        { q.insertAt key.number .mappingStart with blocks := key.column :: q.blocks }
      else q
    .ok (q.pass 1 .value)

/-- Finds an opening bracket, with which a key may begin. -/
def findOpening (bracket : Bracket) (q : Lookahead) : Except Fault Lookahead :=
  q.rememberKey.map fun q =>
    { q with brackets := bracket :: q.brackets, keyAllowed := true }.pass 1 (.opening bracket)

def findClosing (bracket : Bracket) (q : Lookahead) : Except Fault Lookahead :=
  q.forgetKey.map fun q =>
    { q with brackets := q.brackets.tail, keyAllowed := false }.pass 1 (.closing bracket)

def findComma (q : Lookahead) : Except Fault Lookahead :=
  { q with keyAllowed := true }.forgetKey.map (pass 1 .comma)

/-- Finds a mark between documents, which ends all blocks. -/
def findDocumentMark (t : Token) (q : Lookahead) : Except Fault Lookahead :=
  { q.endBlocks (fun _ => true) with keyAllowed := false }.forgetKey.map (pass documentStart.length t)

/-- Finds the end of the text, which ends all blocks. -/
def findEnd (q : Lookahead) : Except Fault Lookahead :=
  (q.endBlocks fun _ => true).forgetKey.map fun q =>
    { q.emit .textEnd with keyAllowed := false, keys := [], ended := true }

/-- Finds a scalar in quotes, which may be a key. -/
def findQuoted (double : Bool) (q : Lookahead) : Except Fault Lookahead :=
  match q.rememberKey with
  | .error fault => .error fault
  | .ok q =>
    (Quoted.read double q.cursor.rest.tail).map fun (content, rest) =>
      { q.emit (.scalar ⟨content, false⟩) with
        cursor := q.cursor.advanceTo rest
        keyAllowed := false }

/-- Finds a plain scalar, which may be a key. -/
def findPlain (q : Lookahead) : Except Fault Lookahead :=
  q.rememberKey.map fun q =>
    let reading := Plain.read q.inBrackets ((q.blocks.head?.map (· + 1)).getD 0) q.cursor
    { q.emit (.scalar ⟨reading.value, true⟩) with
      cursor := reading.next
      keyAllowed := reading.crossed }

/-- Whether a colon comes next that stands in front of a value, when `s` follows it. White space has to
follow as well, but not within curly brackets unless a colon came right before. -/
def isValueMark (q : Lookahead) (s : Text) : Bool :=
  match q.brackets.head? with
  | some .curly => q.waiting.getLast? != some .value || endsMark s
  | _ => endsMark s

/-- Finds the token that begins here. -/
def findHere (q : Lookahead) : Except Fault Lookahead :=
  match q.cursor.rest with
  | [] => q.findEnd
  | c :: s =>
    if q.cursor.column = 0 ∧ c = '%' then .error .malformed
    else if q.cursor.column = 0 ∧ beginsWith documentStart (c :: s) then
      q.findDocumentMark .documentStart
    else if q.cursor.column = 0 ∧ beginsWith documentEnd (c :: s) then q.findDocumentMark .documentEnd
    else if c = '[' then q.findOpening .square
    else if c = '{' then q.findOpening .curly
    else if c = ']' then q.findClosing .square
    else if c = '}' then q.findClosing .curly
    else if c = ',' then q.findComma
    else if c = '-' ∧ endsMark s then q.findItem
    else if c = '?' ∧ (q.inBrackets || endsMark s) then q.findKey
    else if c = ':' ∧ q.isValueMark s then q.findValue
    else if c = '\'' ∨ c = '"' then q.findQuoted (c == '"')
    else if Plain.begins q.inBrackets (c :: s) then q.findPlain
    else .error .malformed

/-- Finds the next token. At the beginning of a line a key is allowed, and what stands further to the left
than the blocks around ends them. -/
def find (q : Lookahead) : Except Fault Lookahead :=
  let (crossed, rest) := skipGap q.inBrackets false false q.cursor.rest
  let q := { q with
    cursor := q.cursor.advanceTo rest
    keyAllowed := q.keyAllowed || (crossed && !q.inBrackets) }
  q.forgetStale.bind fun q => (q.endBlocks (q.cursor.column < ·)).findHere

end Lookahead

/-- The tokens of a text. If it has a fault, the tokens are those that can be told without it. -/
structure Tokens where
  tokens : List Token
  fault : Option Fault
deriving DecidableEq

/-- The tokens that are still to be handed on. `fuel` bounds the number of steps, each of which finds
tokens or hands one on. -/
def Lookahead.tokensFrom : (fuel : Nat) → Lookahead → Tokens
  | 0, _ => ⟨[], some .malformed⟩
  | fuel + 1, q =>
    match if q.ended || q.waiting.isEmpty then .ok q else q.forgetStale with
    | .error fault => ⟨[], some fault⟩
    | .ok q =>
      if q.isUnsettled then
        match q.find with
        | .error fault => ⟨[], some fault⟩
        | .ok q => q.tokensFrom fuel
      else
        match q.waiting with
        | [] => ⟨[], none⟩
        | t :: waiting =>
          let more := { q with waiting := waiting, taken := q.taken + 1 }.tokensFrom fuel
          { more with tokens := t :: more.tokens }

/-- The tokens of a text. Every character gives less than six tokens. -/
def Tokens.ofText (s : Text) : Tokens := (Lookahead.start s).tokensFrom (8 * s.length + 16)

end Gleaner.Yaml
