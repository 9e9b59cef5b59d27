import Gleaner.Extract.Coerce
import Gleaner.Markup.Element

/-! # Text patterns

The segments of a slot's text form a pattern: the words of literals with white space between them, and
captures for bindings, with or without white space between neighbours. A binding at either end reaches
to that end of the text, while literals at the ends may stand anywhere. Every capture and every run of
white space is as long as it can be, earlier ones first.
-/

namespace Gleaner

/-- One piece of a text pattern. -/
inductive Piece where
  | word (w : Text)
  /-- A run of white space, which must not be empty if `required`. -/
  | blanks (required : Bool)
  /-- Any text, which must not be empty if `required`. -/
  | capture (required : Bool)
  | textEnd
deriving DecidableEq

/-- A text pattern; if it is anchored it has to match from the beginning of the text. -/
structure TextPattern where
  anchored : Bool
  pieces : List Piece
deriving DecidableEq

namespace TextPattern

open Text

/-- The pieces of a literal: its words with white space between them. -/
def literalPieces (t : Text) : List Piece := ((words t).map Piece.word).intersperse (.blanks true)

def segmentPieces : Segment → List Piece
  | .literal t => literalPieces t
  | .field binding => [.capture (!binding.nullable)]

def isField (segment : Segment) : Bool := segment.binding?.isSome

def ofSegments (segments : List Segment) : TextPattern :=
  let pieces := [Piece.blanks false].intercalate (segments.map segmentPieces)
  let atStart := segments.head?.any isField
  let atEnd := segments.getLast?.any isField
  ⟨atStart, (if atStart then [.blanks false] else []) ++ pieces ++
    (if atEnd then [.blanks false, .textEnd] else [])⟩

/-- The characters that are written with a backslash before them. -/
def specials : Text := "\t\n\u000b\u000c\r #$&()*+-.?[\\]^\x7b|\x7d~".toList

def escaped (w : Text) : Text := w.flatMap fun c => if c ∈ specials then ['\\', c] else [c]

def writtenPiece : Piece → Text
  | .word w => escaped w
  | .blanks false => "\\s*".toList
  | .blanks true => "\\s+".toList
  | .capture false => "(.*)".toList
  | .capture true => "(.+)".toList
  | .textEnd => "\\Z".toList

/-- The written form of a pattern, as a regular expression. -/
def written (p : TextPattern) : Text :=
  (if p.anchored then "\\A".toList else []) ++ p.pieces.flatMap writtenPiece

/-- The longest front part of the text that consists of characters passing the test and leaves a text
that `next` accepts. -/
def longest {α : Type} (test : Char → Bool) (next : Text → Option α) : Text → Option (Text × α)
  | [] => (next []).map fun a => ([], a)
  | c :: s =>
    if test c then
      match longest test next s with
      | some (run, a) => some (c :: run, a)
      | none => (next (c :: s)).map fun a => ([], a)
    else (next (c :: s)).map fun a => ([], a)

/-- As `longest`, but the front part must not be empty if `required`. -/
def longestRun {α : Type} (required : Bool) (test : Char → Bool) (next : Text → Option α) :
    Text → Option (Text × α)
  | s =>
    match required, s with
    | false, s => longest test next s
    | true, [] => none
    | true, c :: s =>
      if test c then (longest test next s).map fun (run, a) => (c :: run, a) else none

/-- The captures of the preferred way in which the pieces match at the beginning of the text. -/
def matchHere : List Piece → Text → Option (List Text)
  | [], _ => some []
  | .word w :: more, s => if w.isPrefixOf s then matchHere more (s.drop w.length) else none
  | .blanks required :: more, s =>
    (longestRun required isBlank (matchHere more) s).map fun (_, captures) => captures
  | .capture required :: more, s =>
    (longestRun required (fun _ => true) (matchHere more) s).map
      fun (capture, captures) => capture :: captures
  | .textEnd :: more, s => if s.isEmpty then matchHere more s else none

/-- The captures of the first match, going through the places of the text from the left. -/
def searchFrom (pieces : List Piece) : Text → Option (List Text)
  | [] => matchHere pieces []
  | c :: s => (matchHere pieces (c :: s)).or (searchFrom pieces s)

def search (p : TextPattern) (s : Text) : Option (List Text) :=
  if p.anchored then matchHere p.pieces s else searchFrom p.pieces s

end TextPattern

/-- Adds the values of captured texts to a record, one after the other. -/
def bindCaptures (r : Record) : List (Binding × Text) → Bound Record
  | [] => .value r
  | (binding, raw) :: more =>
    (binding.coerce (some raw)).bind fun value => bindCaptures (r.set binding.name value) more

/-- The record that the segments of a slot bind in a text. A lone binding takes all of the text. -/
def bindText (segments : List Segment) (s : Text) : Bound Record :=
  match segments with
  | [] => .value []
  | [.field binding] => (binding.coerce (some s)).map fun value => [(binding.name, value)]
  | segments =>
    let pattern := TextPattern.ofSegments segments
    match pattern.search s with
    | none => .misfit (.pattern pattern.written)
    | some captures => bindCaptures [] ((segments.filterMap Segment.binding?).zip captures)

/-- Adds the values of bound attributes of an element to a record, one after the other. -/
def bindAttributes (e : Element) (r : Record) : List (Text × Binding) → Bound Record
  | [] => .value r
  | (name, binding) :: more =>
    (binding.coerce (e.rawAttribute name)).bind fun value =>
      bindAttributes e (r.set binding.name value) more

end Gleaner
