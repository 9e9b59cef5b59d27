import Gleaner.Forest
import Gleaner.Markup.Element
import Gleaner.Markup.Fault

/-! # Documents

A document is one tree of elements whose places are numbered in document order: an element comes before
those below it, and those before its later siblings. A node is a tree within the document, so
whatever depends only on what stands in and below a node is a function of the node alone; ancestors
are found through the numbers.
-/

namespace Gleaner

/-- An element together with where it stands in its document. -/
structure Place extends Element where
  index : Nat
  /-- The number of elements around this one. -/
  depth : Nat
  parent : Option Nat
deriving DecidableEq

/-- A place together with everything below it. -/
abbrev Node := Tree Place

namespace Forest

/-- The forest with its places: numbered from `next` on in document order, `depth` elements around it,
the innermost of which has the number `parent`. -/
def plant (parent : Option Nat) (depth next : Nat) : Forest Element → Forest Place
  | nil => nil
  | cons top below after =>
    cons { top with index := next, depth := depth, parent := parent }
      (below.plant (some next) (depth + 1) (next + 1))
      (after.plant parent depth (next + 1 + below.size))

/-- The texts of the elements that have one, in document order. -/
def texts : Forest Place → List Text
  | nil => []
  | cons top below after =>
    (if top.text.isEmpty then [] else [top.text]) ++ (below.texts ++ after.texts)

end Forest

/-- What a dump of the document shows of one element. -/
structure Summary where
  tag : Text
  id : Option Text
  depth : Nat
  classes : List Text
  attributes : List (Text × Text)
  /-- The own text, if there is any. -/
  text : Option Text
deriving DecidableEq

def Place.summary (place : Place) : Summary :=
  { place with text := if place.text.isEmpty then none else some place.text }

namespace Tree

def index (n : Node) : Nat := n.top.index

def depth (n : Node) : Nat := n.top.depth

def element (n : Node) : Element := n.top.toElement

/-- The texts in the node and below it, in document order, joined by `separator`. -/
def textContent (n : Node) (separator : Text) : Text :=
  separator.intercalate (n.toForest.texts)

/-- The node and everything below it in the form of a dump. -/
def outline (n : Node) : Tree Summary := ⟨n.top.summary, n.below.map Place.summary⟩

end Tree

/-- Why a text gives no tree of elements. -/
inductive DocumentError where
  | noElements
  | fault (cause : Markup.Cause) (offset : Nat)
deriving DecidableEq

def DocumentError.message : DocumentError → Text
  | noElements => "Document contains no elements".toList
  | fault cause offset => cause.message ++ " at offset ".toList ++ Text.ofNat offset

/-- A numbered tree of elements, or a lone nameless node and the reason why there is no tree. -/
structure Document where
  root : Node
  error : Option DocumentError := none
  nodes : Array Node := root.subtrees.toArray
  nodes_eq : nodes = root.subtrees.toArray := by rfl

namespace Document

def ofTree (t : Tree Element) : Document where
  root := ⟨{ t.top with index := 0, depth := 0, parent := none }, t.below.plant (some 0) 1 1⟩

/-- The document that stands for a text without a tree. -/
def ofError (error : DocumentError) : Document where
  root := ⟨{ Element.ofAttributes [] [] with index := 0, depth := 0, parent := none }, .nil⟩
  error := some error

def isError (doc : Document) : Bool := doc.error.isSome

def node? (doc : Document) (index : Nat) : Option Node := doc.nodes[index]?

/-- The node with a number, where negative numbers count from the end. -/
def nodeAt? (doc : Document) (index : Int) : Option Node :=
  if index < -(doc.nodes.size : Int) then none else doc.node? (Text.placeOf doc.nodes.size index)

def parent? (doc : Document) (n : Node) : Option Node := n.top.parent.bind doc.node?

/-- At most `steps` nodes on the way up from the node with the given number, that node included. -/
def climb (doc : Document) : (steps : Nat) → Option Nat → List Node
  | steps + 1, some index =>
    match doc.node? index with
    | some n => n :: doc.climb steps n.top.parent
    | none => []
  | _, _ => []

/-- The nodes around a node, the innermost first. There are as many as its depth says. -/
def ancestors (doc : Document) (n : Node) : List Node := doc.climb n.depth n.top.parent

/-- Whether `upper` is around `lower`. A node no deeper than the other is never around it. -/
def isAncestor (doc : Document) (upper lower : Node) : Bool :=
  upper.depth < lower.depth && (doc.ancestors lower).any (·.index == upper.index)

end Document
end Gleaner
