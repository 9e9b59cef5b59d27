import Gleaner.Number.Binary64
import Gleaner.Text.Basic

/-! # Records

What a search returns: named values in the order in which the names were first set. A value is nothing, a
text, a number or a list of records; there is no other nesting.
-/

namespace Gleaner

inductive Value where
  | null
  | text (t : Text)
  | number (x : Binary64)
  | records (rs : List (List (Text × Value)))

/-- Named values in order, each name once. -/
abbrev Record := List (Text × Value)

namespace Record

def names (r : Record) : List Text := r.map (·.1)

/-- Sets a field. A name that is there already keeps its place. -/
def set (r : Record) (name : Text) (value : Value) : Record :=
  match r with
  | [] => [(name, value)]
  | (other, held) :: more =>
    if other = name then (name, value) :: more else (other, held) :: set more name value

/-- Sets a field unless its name is there already. -/
def setDefault (r : Record) (name : Text) (value : Value) : Record :=
  if name ∈ r.names then r else r ++ [(name, value)]

/-- Sets the fields of `s` one after the other. -/
def update (r s : Record) : Record := s.foldl (fun r field => r.set field.1 field.2) r

/-- The names after setting a field: as before, and the new one at the end if it was not there. -/
@[simp] theorem names_set (r : Record) (name : Text) (value : Value) :
    names (r.set name value) = if name ∈ r.names then r.names else r.names ++ [name] := by
  induction r with
  | nil => simp [set, names]
  | cons field more ih =>
    obtain ⟨other, held⟩ := field
    by_cases hsame : other = name
    · simp [set, names, hsame]
    · by_cases hmem : name ∈ names more
      · simp_all [set, names]
      · simp_all [set, names, Ne.symm hsame]

@[simp] theorem names_setDefault (r : Record) (name : Text) (value : Value) :
    names (r.setDefault name value) = if name ∈ r.names then r.names else r.names ++ [name] := by
  unfold setDefault
  split <;> simp [names]

end Record
end Gleaner
