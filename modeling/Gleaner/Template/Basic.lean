import Gleaner.Record
import Gleaner.Text.Quoted

/-! # Templates

A template is a tree of slots. A slot says which elements it may be matched with and which of their
text and attributes it binds to names. Below a slot stand its child slots in order and then, possibly,
one listing: a template of its own whose matches are gathered in a list of records.
-/

namespace Gleaner

/-- The type that bound text is converted to. -/
inductive Kind where
  | string
  | number
  /-- A type that no conversion is known for. -/
  | other (name : Text)
deriving DecidableEq

namespace Kind

def stringName : Text := "string".toList

def numberName : Text := "number".toList

def name : Kind → Text
  | string => stringName
  | number => numberName
  | other name => name

def ofName (name : Text) : Kind :=
  if name = stringName then string else if name = numberName then number else other name

end Kind

/-- A name that text is bound to, and what may be bound. -/
structure Binding where
  name : Text
  kind : Kind
  nullable : Bool
deriving DecidableEq

/-- A binding in the form in which templates are shown. -/
def Binding.shown (b : Binding) : Text :=
  '{' :: b.name ++ (if b.nullable then ['?'] else []) ++ ':' :: b.kind.name ++ ['}']

/-- A part of the text that a slot expects. -/
inductive Segment where
  | literal (t : Text)
  | field (binding : Binding)
deriving DecidableEq

def Segment.binding? : Segment → Option Binding
  | literal _ => none
  | field binding => some binding

/-- One element of a template on its own. -/
structure Slot where
  selector : Text
  /-- Whether the slot may stay without a match. -/
  optional : Bool
  /-- Whether only the elements right below the match around it are considered. -/
  direct : Bool
  /-- The attributes that are bound, in order. -/
  attributes : List (Text × Binding)
  text : List Segment
deriving DecidableEq

/-- What stands below a slot: its children in order, then at most one listing. -/
inductive Parts where
  | done
  | child (slot : Slot) (below after : Parts)
  | listing (name : Text) (slot : Slot) (below : Parts)
deriving DecidableEq

/-- A slot and what stands below it. -/
structure Template where
  slot : Slot
  below : Parts
deriving DecidableEq

namespace Slot

/-- The bindings of the text, in order. -/
def textBindings (slot : Slot) : List Binding := slot.text.filterMap Segment.binding?

/-- All bindings of the slot: those of the text, then those of the attributes. -/
def bindings (slot : Slot) : List Binding := slot.textBindings ++ slot.attributes.map (·.2)

end Slot

namespace Parts

/-- The children and the listing put together. -/
def build (listing : Option (Text × Template)) : List Template → Parts
  | [] =>
    match listing with
    | none => done
    | some (name, t) => .listing name t.slot t.below
  | t :: more => child t.slot t.below (build listing more)

def children : Parts → List Template
  | child slot below after => ⟨slot, below⟩ :: after.children
  | _ => []

def listing? : Parts → Option (Text × Template)
  | done => none
  | child _ _ after => after.listing?
  | listing name slot below => some (name, ⟨slot, below⟩)

theorem children_build (listing : Option (Text × Template)) (ts : List Template) :
    (build listing ts).children = ts := by
  induction ts with
  | nil => cases listing <;> rfl
  | cons t more ih => simp [build, children, ih]

theorem listing?_build (listing : Option (Text × Template)) (ts : List Template) :
    (build listing ts).listing? = listing := by
  induction ts with
  | nil => cases listing <;> rfl
  | cons t more ih => simp [build, listing?, ih]

end Parts

namespace Template

def children (t : Template) : List Template := t.below.children

def listing? (t : Template) : Option (Text × Template) := t.below.listing?

end Template

/-- The record `r` with the fields that a slot binds, all without value, as far as they are missing. -/
def Slot.addEmpty (slot : Slot) (r : Record) : Record :=
  slot.bindings.foldl (fun r binding => r.setDefault binding.name .null) r

/-- The record `r` with the fields of the parts, without values. A listing is empty, and the fields of
its items do not count. -/
def Parts.addEmpty : Parts → Record → Record
  | .done, r => r
  | .child slot below after, r => after.addEmpty (below.addEmpty (slot.addEmpty r))
  | .listing name _ _, r => r.setDefault name (.records [])

namespace Template

/-- The record of a template that is not matched: no field has a value. -/
def emptyRecord (t : Template) : Record := t.below.addEmpty (t.slot.addEmpty [])

/-- The names that a match binds, in order. -/
def fieldNames (t : Template) : List Text := t.emptyRecord.names

end Template
end Gleaner
