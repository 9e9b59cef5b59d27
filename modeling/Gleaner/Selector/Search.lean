import Gleaner.Selector.Reader

/-! # Search by selector

A selector finds the nodes that meet its last compound and have, further and further out, nodes around
them that meet the ones before. The search goes through the tree once. Each path carries the compounds
that are still to be met and moves on to the next as soon as the current one is.
-/

namespace Gleaner

namespace Selector

/-- What is still to be met below an element: the first compound is done with if the element meets it
and others follow. -/
def advance (selector : Selector) (e : Element) : Selector :=
  match selector.inner with
  | next :: more => if selector.first.Matches e then ⟨next, more⟩ else selector
  | [] => selector

/-- Whether the element is found: it meets the only compound that is left. -/
def Finds (selector : Selector) (e : Element) : Prop :=
  selector.inner = [] ∧ selector.first.Matches e

instance (selector : Selector) (e : Element) : Decidable (selector.Finds e) :=
  inferInstanceAs (Decidable (_ ∧ _))

end Selector

namespace Forest

/-- The nodes of the forest that the selector finds, in document order. With a limit of `n` levels
only the tops and `n` levels below them are looked at. -/
def collect (selector : Selector) (levels : Option Nat) : Forest Place → List Node
  | nil => []
  | cons top below after =>
    let here : List Node := if selector.Finds top.toElement then [⟨top, below⟩] else []
    let inside :=
      if levels = some 0 then []
      else below.collect (selector.advance top.toElement) (levels.map (· - 1))
    here ++ (inside ++ after.collect selector levels)

end Forest

/-- Why a written selector gives no node. -/
inductive SelectError where
  | unreadable (error : SelectorError)
  | notFound (written : Text)
deriving DecidableEq

def SelectError.message : SelectError → Text
  | .unreadable error => error.message
  | .notFound written => "Unable to find root element ".toList ++ Text.quote written

namespace Tree

/-- The nodes that the selector finds in the node and below it, in document order; the node itself
only if `self` allows it. The compounds before the last may be met by the node in any case, but by
nothing around it. -/
def find (root : Node) (selector : Selector) (self : Bool) (levels : Option Nat) : List Node :=
  (root.toForest.collect selector levels).filter fun n => self || n.index != root.index

end Tree

namespace Document

/-- The nodes that a written selector finds under `root`. A document without a tree has none, whatever
is written. -/
def selectAll (doc : Document) (root : Node) (written : Text) (self : Bool)
    (levels : Option Nat) : Except SelectorError (List Node) :=
  if doc.isError then .ok []
  else (Selector.read written).map fun selector => root.find selector self levels

/-- The first node that a written selector finds under `root`. -/
def select (doc : Document) (root : Node) (written : Text) (self : Bool) :
    Except SelectorError (Option Node) :=
  (doc.selectAll root written self none).map List.head?

/-- The first node that a written selector finds under `root`; none is an error. -/
def selectOrFail (doc : Document) (root : Node) (written : Text) (self : Bool) :
    Except SelectError Node :=
  match doc.select root written self with
  | .error error => .error (.unreadable error)
  | .ok none => .error (.notFound written)
  | .ok (some n) => .ok n

end Document
end Gleaner
