import Gleaner.Template.Basic
import Gleaner.Template.Fault

/-! # Templates under construction

The slots that are open while a template is read, each with the parts below it that are complete. A
closing tag closes the innermost open slot whatever its name is, and closes nothing if none is open.
-/

namespace Gleaner.Template

/-- A slot that is open. -/
structure OpenSlot where
  slot : Slot
  /-- Whether the slot or one around it is optional. -/
  inOptional : Bool
  children : List Template
  listing : Option (Text × Template)

/-- What is complete of an open slot, as if it were closed now. -/
def OpenSlot.template (o : OpenSlot) : Template := ⟨o.slot, .build o.listing o.children⟩

/-- A template as far as it is read. -/
structure Draft where
  /-- The root, once it is closed. -/
  root : Option Template
  /-- The open slots, the innermost first. -/
  opened : List OpenSlot

namespace Draft

def empty : Draft := ⟨none, []⟩

/-- Puts a complete template into the innermost open slot, or at the root. -/
def attach (t : Template) (d : Draft) : Draft :=
  match d.opened with
  | [] => { d with root := some t }
  | o :: outer => { d with opened := { o with children := o.children ++ [t] } :: outer }

/-- Closes the innermost open slot, if one is open. -/
def close (d : Draft) : Draft :=
  match d.opened with
  | [] => d
  | o :: outer => { d with opened := outer }.attach o.template

def closeMany : Nat → Draft → Draft
  | 0, d => d
  | count + 1, d => closeMany count d.close

/-- The template once every slot is closed, if there is any slot. -/
def finish (d : Draft) : Option Template := (d.closeMany d.opened.length).root

/-- Why a slot cannot be added here. A root must be alone and can be neither optional nor direct. -/
def refusal? (slot : Slot) (d : Draft) : Option Cause :=
  if !d.opened.isEmpty then none
  else if d.root.isSome then some .secondRoot
  else if slot.optional then some .optionalRoot
  else if slot.direct then some .directRoot
  else none

/-- Whether something at this place belongs to an optional slot. -/
def inOptional (d : Draft) : Bool := d.opened.head?.any (·.inOptional)

/-- Adds a slot and leaves it open. -/
def enter (slot : Slot) (d : Draft) : Draft :=
  { d with opened := ⟨slot, slot.optional || d.inOptional, [], none⟩ :: d.opened }

/-- Adds text to the innermost open slot; text outside of all slots is dropped. -/
def addText (segments : List Segment) (d : Draft) : Draft :=
  match d.opened with
  | [] => d
  | o :: outer =>
    { d with opened := { o with slot := { o.slot with text := o.slot.text ++ segments } } :: outer }

/-- Gives the innermost open slot its listing. -/
def setListing (name : Text) (t : Template) (d : Draft) : Draft :=
  match d.opened with
  | [] => d
  | o :: outer => { d with opened := { o with listing := some (name, t) } :: outer }

/-- Whether the innermost open slot has its listing. -/
def hasListing (d : Draft) : Bool := d.opened.head?.any (·.listing.isSome)

end Draft
end Gleaner.Template
