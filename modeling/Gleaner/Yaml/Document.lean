import Gleaner.Yaml.Tree

/-! # Documents

The datum that a document stands for. A text that holds more than one document, or a mapping with one key
twice, has none.

A collection is filled only after the one that holds it, and collections that lie equally deep are filled
in order. Of several faults the one that is met first in this way is reported. What makes up a key is
an exception: it has to be there before the entry can be made.
-/

namespace Gleaner.Yaml

/-- A datum, or a fault and how many collections have to be entered before it is met. -/
abbrev Ranked := Except (Nat × Fault) Datum

/-- What a collection is filled with so far, and the fault that is met first, if there is one. -/
structure Filling (α : Type) where
  made : List α
  fault : Option (Nat × Fault)

namespace Filling

variable {α : Type}

def empty : Filling α := ⟨[], none⟩

/-- Notes a fault, unless one has been noted that is met before it. -/
def blame (rank : Nat) (fault : Fault) (filling : Filling α) : Filling α :=
  if filling.fault.any (·.1 ≤ rank) then filling else { filling with fault := some (rank, fault) }

/-- Notes the fault of a part, if it has one. -/
def check (part : Ranked) (filling : Filling α) : Filling α :=
  match part with
  | .ok _ => filling
  | .error (rank, fault) => filling.blame rank fault

def addItem (item : Ranked) (filling : Filling Datum) : Filling Datum :=
  { filling.check item with made := filling.made ++ item.toOption.toList }

/-- A datum as a key. A list becomes a tuple, and a dictionary is none. -/
def keyOf? : Datum → Option Datum
  | .list items => some (.tuple items)
  | .dict _ => none
  | d => some d

/-- Whether a value is there at once, as scalars are. -/
def isScalar : Datum → Bool
  | .list _ => false
  | .dict _ => false
  | _ => true

/-- The fault of a key that is there already. It has to name the key and both values, collections among
them with what they are filled with so far. -/
def repetition (inPlace : Bool) (key : Datum) (values : List Datum) : Fault :=
  if key.holdsLong || values.any fun d => (inPlace || isScalar d) && d.holdsLong then .longInteger
  else .malformed

/-- Adds an entry. Where keys have to be `unique`, one that is there already is a fault. -/
def addEntry (inPlace unique : Bool) (key value : Ranked) (filling : Filling (Datum × Datum)) :
    Filling (Datum × Datum) :=
  match key with
  | .error (_, fault) => filling.blame 0 fault
  | .ok key =>
    match keyOf? key with
    | none => filling.blame 0 .malformed
    | some key =>
      let checked := filling.check value
      match key.keyless? with
      | some type => checked.blame 0 (.keyless type)
      | none =>
        match filling.made.find? fun entry => unique && entry.1.sameKey key with
        | some (_, held) => checked.blame 0 (repetition inPlace key (held :: value.toOption.toList))
        | none =>
          { checked with
            made := Datum.insertEntry key (value.toOption.getD .null) filling.made }

/-- The collection, as part of one that is entered before it unless it is filled in place. -/
def close (make : List α → Datum) (inPlace : Bool) (filling : Filling α) : Ranked :=
  match filling.fault with
  | none => .ok (make filling.made)
  | some (rank, fault) => .error (if inPlace then rank else rank + 1, fault)

end Filling

namespace Node

mutual

/-- The datum of a node. `inPlace` tells whether collections within it are filled in place. -/
def datum (inPlace : Bool) : Node → Ranked
  | scalar s => s.value.mapError fun fault => (0, fault)
  | sequence items => (fillItems inPlace items .empty).close .list inPlace
  | mapping merged own =>
    (fillEntries inPlace merged.isEmpty own (fillEntries inPlace false merged .empty)).close .dict inPlace
  | overloaded => (Filling.empty.blame 0 .malformed).close .dict inPlace

def fillItems (inPlace : Bool) : List Node → Filling Datum → Filling Datum
  | [], filling => filling
  | item :: more, filling => fillItems inPlace more (filling.addItem (item.datum inPlace))

/-- Adds the entries of a mapping. Where keys have to be `unique`, one that is there already is a
fault. -/
def fillEntries (inPlace unique : Bool) :
    List (Node × Node) → Filling (Datum × Datum) → Filling (Datum × Datum)
  | [], filling => filling
  | (key, value) :: more, filling =>
    fillEntries inPlace unique more
      (filling.addEntry inPlace unique (key.datum true) (value.datum inPlace))

end

end Node

/-- Whether a document may hold the character. -/
def isAllowed (c : Char) : Bool :=
  let n := c.toNat
  n == 0x09 || n == 0x0a || n == 0x0d || (0x20 ≤ n && n ≤ 0x7e) || n == 0x85 ||
    (0xa0 ≤ n && n ≤ 0xd7ff) || (0xe000 ≤ n && n ≤ 0xfffd) || 0x10000 ≤ n

/-- The text with a line feed as the end of every line. -/
def normalizeLines : Text → Text
  | [] => []
  | '\r' :: '\n' :: s => '\n' :: normalizeLines s
  | '\r' :: s => '\n' :: normalizeLines s
  | c :: s => c :: normalizeLines s

/-- The text without the mark at its beginning, if there is one. -/
def dropOrderMark (s : Text) : Text := if s.head? = some orderMark then s.tail else s

/-- The datum of the only document of a text. A text without one stands for null. -/
def read (s : Text) : Except Fault Datum :=
  let s := dropOrderMark (normalizeLines s)
  if !s.all isAllowed then .error .malformed
  else
    match Tree.ofTokens (.ofText s) with
    | .error fault => .error fault
    | .ok none => .ok .null
    | .ok (some n) => (n.datum false).mapError (·.2)

end Gleaner.Yaml
