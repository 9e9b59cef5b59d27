import Gleaner.Template.Draft
import Gleaner.Template.Tag

/-! # Compiling templates

A written template is read from the front: tags open and close slots, and the text between tags is a run
of literals, bindings in braces and listings in double braces. A listing is compiled from the text
between its colon and its end as a template of its own; a run that holds a listing gives no
text to its slot.
-/

namespace Gleaner.Template

open Text

/-- The run of text since the last tag. -/
structure Run where
  segments : List Segment
  /-- Whether the run holds a listing. -/
  listed : Bool

namespace Run

def empty : Run := ⟨[], false⟩

def addLiteral (t : Text) (r : Run) : Run :=
  let trimmed := trim t
  if trimmed.isEmpty then r else { r with segments := r.segments ++ [.literal trimmed] }

def addField (binding : Binding) (r : Run) : Run :=
  { r with segments := r.segments ++ [.field binding] }

/-- The run's text goes to the innermost open slot unless the run holds a listing. -/
def settle (r : Run) (d : Draft) : Draft := if r.listed then d else d.addText r.segments

end Run

/-- The binding whose opening brace begins `s`, and what follows its closing brace. -/
def readField (s : Slice) : Except Fault (Binding × Slice) :=
  match cut ['}'] s.inside.tail with
  | none => .error (.here .openTextBinding s.rest)
  | some (body, rest) =>
    match readBinding body with
    | .error cause => .error (.here cause s.rest)
    | .ok binding => .ok (binding, { s with inside := rest })

/-- The text up to the closing brace that brings `depth` open braces down to none, that brace left out,
and the text behind it. -/
def closeBraces? (depth : Nat) : Text → Option (Text × Text)
  | [] => none
  | c :: s =>
    if c = '}' ∧ depth = 1 then some ([], s)
    else
      let depth := if c = '{' then depth + 1 else if c = '}' then depth - 1 else depth
      (closeBraces? depth s).map fun (inner, rest) => (c :: inner, rest)

structure WrittenListing where
  name : Text
  items : Slice
  /-- What follows the listing. -/
  rest : Slice
deriving DecidableEq

/-- The listing whose opening braces begin `s`. It ends with the brace that balances its braces and with
the character before that brace. -/
def readListing (s : Slice) : Except Fault WrittenListing :=
  match closeBraces? 2 (s.inside.drop 2) with
  | none => .error (if s.cutShort then .cutShort else .here .openListing s.rest)
  | some (inner, rest) =>
    match cut [':'] inner.dropLast with
    | none => .error (.here .listingWithoutColon s.rest)
    | some (name, items) =>
      if isName (trim name) then
        .ok ⟨trim name, ⟨items, inner.drop (inner.length - 1) ++ '}' :: rest ++ s.beyond, false⟩,
          { s with inside := rest }⟩
      else .error (.here (.badName (trim name)) (s.rest.drop 2))

theorem length_of_readField {s rest : Slice} {binding : Binding}
    (hfield : readField s = .ok (binding, rest)) (hs : s.inside ≠ []) :
    rest.inside.length < s.inside.length := by
  unfold readField at hfield
  have hpos := List.length_pos_iff.2 hs
  split at hfield
  · simp at hfield
  · rename_i hcut
    have := length_of_cut hcut
    simp only [List.length_tail, List.length_cons, List.length_nil] at this
    split at hfield
    · simp at hfield
    · cases hfield
      simp only
      omega

theorem length_of_closeBraces? {depth : Nat} {s inner rest : Text}
    (hclose : closeBraces? depth s = some (inner, rest)) :
    inner.length + rest.length < s.length := by
  induction s generalizing depth inner with
  | nil => simp [closeBraces?] at hclose
  | cons c s ih =>
    rw [closeBraces?] at hclose
    split at hclose
    · cases hclose
      simp
    · obtain ⟨⟨more, left⟩, hmore, hpair⟩ := Option.map_eq_some_iff.1 hclose
      cases hpair
      have := ih hmore
      simp only [List.length_cons]
      omega

theorem length_of_readListing {s : Slice} {written : WrittenListing}
    (hlisting : readListing s = .ok written) (hs : s.inside ≠ []) :
    written.items.inside.length < s.inside.length ∧
      written.rest.inside.length < s.inside.length := by
  unfold readListing at hlisting
  have hpos := List.length_pos_iff.2 hs
  split at hlisting
  · simp at hlisting
  · rename_i hclose
    have := length_of_closeBraces? hclose
    simp only [List.length_drop] at this
    split at hlisting
    · simp at hlisting
    · rename_i hcut
      have := length_of_cut hcut
      simp only [List.length_dropLast, List.length_cons, List.length_nil] at this
      split at hlisting
      · cases hlisting
        simp only
        omega
      · simp at hlisting

def endsLiteral (c : Char) : Bool := c == '<' || c == '{'

/-- The template of which `d` and `r` are read and `s` is not; `start` is the text that it begins
with. -/
def compileFrom (start : Text) (d : Draft) (r : Run) (s : Slice) : Except Fault Template :=
  let run := r.addLiteral (s.inside.takeWhile (!endsLiteral ·))
  match _hinside : s.inside.dropWhile (!endsLiteral ·) with
  | [] =>
    match (run.settle d).finish with
    | none => .error (.here .noRoot start)
    | some t => .ok t
  | '<' :: inside =>
    let behind : Slice := { s with inside := inside }
    if behind.peek = some '/' then
      match _hcut : cut ['>'] inside with
      | none => .error (.here .openTag ('<' :: behind.rest))
      | some (_, rest) => compileFrom start (run.settle d).close .empty { s with inside := rest }
    else
      match _htag : readTag ('<' :: behind.rest) behind with
      | .error fault => .error fault
      | .ok tag =>
        let d := run.settle d
        match d.refusal? tag.slot with
        | some cause => .error (.here cause ('<' :: behind.rest))
        | none =>
          let d := d.enter tag.slot
          compileFrom start (if tag.selfClosed then d.close else d) .empty tag.rest
  | c :: inside =>
    let here : Slice := { s with inside := c :: inside }
    if d.opened.isEmpty then .error (.here .outsideBinding here.rest)
    else if Slice.peek { s with inside := inside } = some '{' then
      if d.hasListing then .error (.here .secondListing here.rest)
      else
        match _hlisting : readListing here with
        | .error fault => .error fault
        | .ok written =>
          match compileFrom written.items.rest .empty .empty written.items with
          | .error fault => .error fault
          | .ok t =>
            compileFrom start (d.setListing written.name t) { run with listed := true } written.rest
    else
      match _hfield : readField here with
      | .error fault => .error fault
      | .ok (binding, rest) =>
        if d.inOptional && !binding.nullable then
          .error (.here (.requiredInOptional binding.name) here.rest)
        else compileFrom start d (run.addField binding) rest
termination_by s.inside.length
decreasing_by
  all_goals
    have hlength := length_dropWhile_le (!endsLiteral ·) s.inside
    rw [_hinside] at hlength
    simp only [List.length_cons] at hlength
  · have := length_of_cut _hcut
    omega
  · have hbehind : behind.inside.length = inside.length := rfl
    have := length_of_readTag _htag
    omega
  · have hhere : here.inside.length = inside.length + 1 := rfl
    have := (length_of_readListing _hlisting (by simp [here])).1
    omega
  · have hhere : here.inside.length = inside.length + 1 := rfl
    have := (length_of_readListing _hlisting (by simp [here])).2
    omega
  · have hhere : here.inside.length = inside.length + 1 := rfl
    have := length_of_readField _hfield (by simp [here])
    omega

/-- One step of the compiler, without what shows that the reading ends. -/
theorem compileFrom_eq (start : Text) (d : Draft) (r : Run) (s : Slice) :
    compileFrom start d r s =
      let run := r.addLiteral (s.inside.takeWhile (!endsLiteral ·))
      match s.inside.dropWhile (!endsLiteral ·) with
      | [] =>
        match (run.settle d).finish with
        | none => .error (.here .noRoot start)
        | some t => .ok t
      | '<' :: inside =>
        let behind : Slice := { s with inside := inside }
        if behind.peek = some '/' then
          match cut ['>'] inside with
          | none => .error (.here .openTag ('<' :: behind.rest))
          | some (_, rest) => compileFrom start (run.settle d).close .empty { s with inside := rest }
        else
          match readTag ('<' :: behind.rest) behind with
          | .error fault => .error fault
          | .ok tag =>
            let d := run.settle d
            match d.refusal? tag.slot with
            | some cause => .error (.here cause ('<' :: behind.rest))
            | none =>
              let d := d.enter tag.slot
              compileFrom start (if tag.selfClosed then d.close else d) .empty tag.rest
      | c :: inside =>
        let here : Slice := { s with inside := c :: inside }
        if d.opened.isEmpty then .error (.here .outsideBinding here.rest)
        else if Slice.peek { s with inside := inside } = some '{' then
          if d.hasListing then .error (.here .secondListing here.rest)
          else
            match readListing here with
            | .error fault => .error fault
            | .ok written =>
              match compileFrom written.items.rest .empty .empty written.items with
              | .error fault => .error fault
              | .ok t =>
                compileFrom start (d.setListing written.name t) { run with listed := true }
                  written.rest
        else
          match readField here with
          | .error fault => .error fault
          | .ok (binding, rest) =>
            if d.inOptional && !binding.nullable then
              .error (.here (.requiredInOptional binding.name) here.rest)
            else compileFrom start d (run.addField binding) rest := by
  rw [compileFrom]
  split
  next heq => simp only [heq]
  next inside heq =>
    simp only [heq]
    split
    next =>
      split
      next hcut => simp only [hcut]
      next hcut => simp only [hcut]
    next =>
      split
      next htag => simp only [htag]
      next htag => simp only [htag]
  next c inside hc heq =>
    simp only [heq]
    split
    next => rfl
    next =>
      split
      next =>
        split
        next => rfl
        next =>
          split
          next hlisting => simp only [hlisting]
          next hlisting => simp only [hlisting]
      next =>
        split
        next hfield => simp only [hfield]
        next hfield => simp only [hfield]

def compileSlice (s : Slice) : Except Fault Template := compileFrom s.rest .empty .empty s

def Fault.error (source : Text) : Fault → TemplateError
  | here cause rest => .ofPosition source cause (source.length - rest.length)
  | overrun => .overrun
  | cutShort => .cutShort

def compile (source : Text) : Except TemplateError Template :=
  (compileSlice (.whole source)).mapError (Fault.error source)

/-- The template written in a part that holds no tags. There is none; but a binding is refused where
it stands if it comes before the first bracket. -/
def compileTagless (source : Text) (start : Int) (s : Slice) : TemplateError :=
  match s.inside.dropWhile (!endsLiteral ·) with
  | '{' :: inside =>
    .ofPosition source .outsideBinding (source.length - ('{' :: inside ++ s.beyond).length : Nat)
  | _ => .ofPosition source .noRoot start

/-- The template written in the part of a text from `start` up to `stop`. A negative bound counts from
the end. No tag is looked for in a part whose end is given in this way, and a part that begins behind
the end of the text holds no template. -/
def compileRange (source : Text) (start stop : Int) : Except TemplateError Template :=
  let s := Slice.ofRange source (placeOf source.length start) (placeOf source.length stop)
  if stop < 0 then .error (compileTagless source start s)
  else if source.length < start then .error (.ofPosition source .noRoot start)
  else
    (compileSlice s).mapError fun fault =>
      if fault = .here .noRoot s.rest then .ofPosition source .noRoot start
      else fault.error source

end Gleaner.Template
