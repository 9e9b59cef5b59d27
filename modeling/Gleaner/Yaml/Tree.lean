import Gleaner.Yaml.Lookahead
import Gleaner.Yaml.Node

/-! # Trees from tokens

The tree of the only document of a text. In a block an item, a key or a value may be left out, and so may
the key or the value of an entry in curly brackets. In square brackets a key makes an item a mapping with
one entry.

Every reader answers with a node and the tokens that follow it, and fails with `missing` where the tokens
end, which they do only in front of a fault. `fuel` bounds the number of nodes and collections that are
read; every one of them has a token of its own.
-/

namespace Gleaner.Yaml.Tree

/-- What reading tokens gives: a node, and the tokens behind it. -/
abbrev Found := Except Fault (Node × List Token)

/-- A node, unless a token comes next that stands behind it. The node is left out then. -/
def readUnless (missing : Fault) (stops : List Token) (read : List Token → Found) :
    List Token → Found
  | [] => .error missing
  | t :: rest => if stops.contains t then .ok (.empty, t :: rest) else read (t :: rest)

/-- The value of an entry, if a colon comes next. -/
def readValue (missing : Fault) (stops : List Token) (read : List Token → Found) :
    List Token → Found
  | [] => .error missing
  | .value :: rest => readUnless missing stops read rest
  | tokens => .ok (.empty, tokens)

/-- What follows the comma between two parts of something in brackets. The first part has none. -/
def skipComma (missing : Fault) (first : Bool) : List Token → Except Fault (List Token)
  | [] => .error missing
  | t :: rest => if first then .ok (t :: rest) else if t = .comma then .ok rest else .error .malformed

mutual

/-- A node. Where `loose` allows it, a sequence may stand in the column of the block around it. -/
def readNode (missing : Fault) (loose : Bool) : (fuel : Nat) → List Token → Found
  | 0, _ => .error .malformed
  | fuel + 1, tokens =>
    match tokens with
    | [] => .error missing
    | .scalar s :: rest => .ok (.scalar s, rest)
    | .opening .square :: rest => readBracketItems missing fuel true [] rest
    | .opening .curly :: rest => readBracketEntries missing fuel true [] rest
    | .sequenceStart :: rest => readItems missing fuel [] rest
    | .mappingStart :: rest => readEntries missing fuel [] rest
    | .item :: rest => if loose then readLooseItems missing fuel [] (.item :: rest) else .error .malformed
    | _ => .error .malformed

/-- The rest of a sequence that is a block, behind the items read so far. -/
def readItems (missing : Fault) : (fuel : Nat) → List Node → List Token → Found
  | 0, _, _ => .error .malformed
  | fuel + 1, items, tokens =>
    match tokens with
    | [] => .error missing
    | .blockEnd :: rest => .ok (.sequence items, rest)
    | .item :: rest => do
      let (item, rest) ← readUnless missing [.item, .blockEnd] (readNode missing false fuel) rest
      readItems missing fuel (items ++ [item]) rest
    | _ => .error .malformed

/-- The rest of a sequence in the column of the block around it. It has no end of its own. -/
def readLooseItems (missing : Fault) : (fuel : Nat) → List Node → List Token → Found
  | 0, _, _ => .error .malformed
  | fuel + 1, items, tokens =>
    match tokens with
    | [] => .error missing
    | .item :: rest => do
      let (item, rest) ←
        readUnless missing [.item, .key, .value, .blockEnd] (readNode missing false fuel) rest
      readLooseItems missing fuel (items ++ [item]) rest
    | tokens => .ok (.sequence items, tokens)

/-- The rest of a mapping that is a block, behind the entries read so far. -/
def readEntries (missing : Fault) : (fuel : Nat) → List (Node × Node) → List Token → Found
  | 0, _, _ => .error .malformed
  | fuel + 1, entries, tokens =>
    let part (tokens : List Token) : Found := readNode missing true fuel tokens
    let stops : List Token := [.key, .value, .blockEnd]
    match tokens with
    | [] => .error missing
    | .blockEnd :: rest => .ok (.ofEntries entries, rest)
    | .key :: rest => do
      let (key, rest) ← readUnless missing stops part rest
      let (value, rest) ← readValue missing stops part rest
      readEntries missing fuel (entries ++ [(key, value)]) rest
    | .value :: rest => do
      let (value, rest) ← readUnless missing stops part rest
      readEntries missing fuel (entries ++ [(.empty, value)]) rest
    | _ => .error .malformed

/-- The rest of a sequence in brackets, behind the items read so far. -/
def readBracketItems (missing : Fault) : (fuel : Nat) → (first : Bool) → List Node → List Token → Found
  | 0, _, _, _ => .error .malformed
  | fuel + 1, first, items, tokens =>
    let part (tokens : List Token) : Found := readNode missing false fuel tokens
    match tokens with
    | .closing .square :: rest => .ok (.sequence items, rest)
    | tokens => do
      match ← skipComma missing first tokens with
      | [] => .error missing
      | .closing .square :: rest => .ok (.sequence items, rest)
      | .key :: rest => do
        let (key, rest) ← readUnless missing [.value, .comma, .closing .square] part rest
        let (value, rest) ← readValue missing [.comma, .closing .square] part rest
        readBracketItems missing fuel false (items ++ [.ofEntries [(key, value)]]) rest
      | tokens => do
        let (item, rest) ← part tokens
        readBracketItems missing fuel false (items ++ [item]) rest

/-- The rest of a mapping in brackets, behind the entries read so far. -/
def readBracketEntries (missing : Fault) :
    (fuel : Nat) → (first : Bool) → List (Node × Node) → List Token → Found
  | 0, _, _, _ => .error .malformed
  | fuel + 1, first, entries, tokens =>
    let part (tokens : List Token) : Found := readNode missing false fuel tokens
    match tokens with
    | .closing .curly :: rest => .ok (.ofEntries entries, rest)
    | tokens => do
      match ← skipComma missing first tokens with
      | [] => .error missing
      | .closing .curly :: rest => .ok (.ofEntries entries, rest)
      | .key :: rest => do
        let (key, rest) ← readUnless missing [.value, .comma, .closing .curly] part rest
        let (value, rest) ← readValue missing [.comma, .closing .curly] part rest
        readBracketEntries missing fuel false (entries ++ [(key, value)]) rest
      | .value :: rest => do
        let (value, rest) ← readUnless missing [.comma, .closing .curly] part rest
        readBracketEntries missing fuel false (entries ++ [(.empty, value)]) rest
      | tokens => do
        let (key, rest) ← part tokens
        readBracketEntries missing fuel false (entries ++ [(key, .empty)]) rest

end

/-- Whether nothing but the end of the text follows a document, perhaps behind a mark for its end. -/
def checkEnd (missing : Fault) : List Token → Except Fault Unit
  | [] => .error missing
  | .textEnd :: _ => .ok ()
  | .documentEnd :: rest =>
    match rest with
    | [] => .error missing
    | t :: _ => if t = .textEnd then .ok () else .error .malformed
  | _ => .error .malformed

/-- The tree of the only document. There is none where the text holds nothing. -/
def ofTokens (t : Tokens) : Except Fault (Option Node) := do
  let missing := t.fault.getD .malformed
  let read (tokens : List Token) : Found := readNode missing false (3 * t.tokens.length + 8) tokens
  match t.tokens with
  | .textEnd :: _ => return none
  | tokens =>
    let (n, rest) ←
      match tokens with
      | .documentStart :: rest =>
        readUnless missing [.documentStart, .documentEnd, .textEnd] read rest
      | tokens => read tokens
    checkEnd missing rest
    return some n

end Gleaner.Yaml.Tree
