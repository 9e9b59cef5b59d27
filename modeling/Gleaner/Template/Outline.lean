import Gleaner.Template.Basic

/-! # Templates shown

A template as lines of text, one for every slot, indented by its depth. The form is for reading only and
is not the written form that templates are compiled from.
-/

namespace Gleaner

open Text

def Segment.shown : Segment → Text
  | literal t => quote t
  | field binding => binding.shown

def Slot.line (indent : Nat) (slot : Slot) : Text :=
  let flags := (if slot.optional then ['?'] else []) ++ (if slot.direct then ['!'] else [])
  let attributes := slot.attributes.map fun (name, binding) => name ++ '=' :: binding.shown
  List.replicate (2 * indent) ' ' ++ '<' :: flags ++ slot.selector ++ ['>'] ++
    (if attributes.isEmpty then [] else ' ' :: [' '].intercalate attributes) ++
    (if slot.text.isEmpty then []
      else " text=".toList ++ [' '].intercalate (slot.text.map Segment.shown))

/-- The lines of the parts below a slot with the given indentation. -/
def Parts.lines (indent : Nat) : Parts → List Text
  | .done => []
  | .child slot below after =>
    slot.line (indent + 1) :: (below.lines (indent + 1) ++ after.lines indent)
  | .listing name slot below =>
    let margin := List.replicate (2 * indent + 2) ' '
    (margin ++ '{' :: '{' :: name ++ [':']) :: slot.line (indent + 2) ::
      (below.lines (indent + 2) ++ [margin ++ ['}', '}']])

def Template.lines (t : Template) : List Text := t.slot.line 0 :: t.below.lines 0

def Template.outline (t : Template) : Text := ['\n'].intercalate t.lines

end Gleaner
