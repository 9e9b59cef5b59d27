import Gleaner.Template.Basic
import Gleaner.Template.Fault
import Gleaner.Template.Slice
import Gleaner.Text.LowerCase

/-! # Tags of written templates

The inside of a start tag of a template, and the bindings between braces. An attribute either binds its
value to a name or is a condition; conditions become part of the slot's selector.
-/

namespace Gleaner.Template

open Text

def isNameStart (c : Char) : Bool := c.isAlpha || c == '_' || c == '$'

def isNameChar (c : Char) : Bool := c.isAlphanum || c == '_' || c == '$' || c == '-'

/-- Whether values may be bound to the name. -/
def isName : Text → Bool
  | [] => false
  | c :: s => isNameStart c && s.all isNameChar

/-- The characters of the first part of a tag. -/
def isSelectorChar (c : Char) : Bool :=
  !isBlank c && c != '/' && c != '>' && c != '{' && c != '}'

/-- The characters of an attribute's name. -/
def isAttributeChar (c : Char) : Bool :=
  !isBlank c && c != '=' && c != '/' && c != '>' && c != '{' && c != '}' && c != '"' && c != '\''

/-- The characters of a value without quotes. -/
def isBareChar (c : Char) : Bool := !isBlank c && c != '>'

/-- The binding written between braces: a name, a question mark if it is nullable, and perhaps a colon
and a type. -/
def readBinding (body : Text) : Except Cause Binding :=
  let head := trim (body.takeWhile (· != ':'))
  let nullable := head.getLast? == some '?'
  let name := if nullable then trimRight head.dropLast else head
  let kind :=
    match body.dropWhile (· != ':') with
    | _ :: kind => trim kind
    | [] => Kind.stringName
  if !isName name then .error (.badName name)
  else if kind = Kind.stringName then .ok ⟨name, .string, nullable⟩
  else if kind = Kind.numberName then .ok ⟨name, .number, nullable⟩
  else .error (.badKind kind)

/-- The condition that a literal attribute adds to a selector. -/
def condition (name value : Text) : Text :=
  if name = Element.className then (words value).flatMap ('.' :: ·)
  else '[' :: name ++ "=\"".toList ++ value ++ "\"]".toList

inductive TagPiece where
  | finish (selfClosed : Bool)
  | condition (written : Text)
  | binding (name : Text) (binding : Binding)
deriving DecidableEq

/-- A value without quotes. A slash right before a closing bracket belongs to the bracket. -/
def takeBareValue (s : Slice) : Text × Slice :=
  let value := s.inside.takeWhile isBareChar
  let rest := s.inside.dropWhile isBareChar
  if value.getLast? = some '/' ∧ (rest ++ s.beyond).head? = some '>' then
    (value.dropLast, { s with inside := '/' :: rest })
  else (value, { s with inside := rest })

/-- The value of the attribute `name`, read from behind the equals sign. `bound` holds the attributes
that are bound already. -/
def readValue (bound : List Text) (name : Text) (s : Slice) : Except Fault (TagPiece × Slice) :=
  match s.inside with
  | '{' :: inside =>
    match cut ['}'] inside with
    | none => .error (.here .openAttributeBinding s.rest)
    | some (body, rest) =>
      match readBinding body with
      | .error cause => .error (.here cause s.rest)
      | .ok binding =>
        if name ∈ bound then .error (.here (.repeatedAttribute name) s.rest)
        else .ok (.binding name binding, { s with inside := rest })
  | '"' :: inside =>
    match cut ['"'] inside with
    | none => .error (.here .openAttributeValue s.rest)
    | some (value, rest) => .ok (.condition (condition name value), { s with inside := rest })
  | [] =>
    if s.peek = some '{' then .error (.here .openAttributeBinding s.rest)
    else if s.peek = some '"' then .error (.here .openAttributeValue s.rest)
    else .ok (.condition (condition name []), s)
  | _ => .ok (.condition (condition name (takeBareValue s).1), (takeBareValue s).2)

/-- An attribute whose equals sign is the first character behind the end. -/
def readBeyond (behind : Text) : Except Fault (TagPiece × Slice) :=
  match behind with
  | '{' :: _ => .error (.here .openAttributeBinding behind)
  | '"' :: _ => .error (.here .openAttributeValue behind)
  | _ => .error .overrun

/-- The next piece of the tag that begins at `start`. -/
def readPiece (start : Text) (bound : List Text) (s : Slice) : Except Fault (TagPiece × Slice) :=
  match trimLeft s.inside with
  | [] => .error (if s.cutShort then .cutShort else .here .openTag start)
  | '>' :: inside => .ok (.finish false, { s with inside := inside })
  | c :: inside =>
    if c = '/' ∧ Slice.peek { s with inside := inside } = some '>' then
      .ok (.finish true, { s with inside := inside.tail })
    else
      let name := (c :: inside).takeWhile isAttributeChar
      if name = [] then .error (.here (.strayInTag c) (c :: inside ++ s.beyond))
      else
        let name := lower name
        match (c :: inside).dropWhile isAttributeChar with
        | '=' :: inside => readValue bound name { s with inside := inside }
        | inside =>
          if inside = [] ∧ s.beyond.head? = some '=' then readBeyond s.beyond.tail
          else .ok (.condition ('[' :: name ++ [']']), { s with inside := inside })

theorem length_takeBareValue (s : Slice) :
    (takeBareValue s).2.inside.length ≤ s.inside.length := by
  have hlength := congrArg List.length
    (List.takeWhile_append_dropWhile (p := isBareChar) (l := s.inside))
  simp only [List.length_append] at hlength
  simp only [takeBareValue]
  split
  · rename_i hslash
    have hpos : (s.inside.takeWhile isBareChar).length ≠ 0 := by
      intro hzero
      simp [List.length_eq_zero_iff.1 hzero] at hslash
    simp only [List.length_cons]
    omega
  · simp only
    omega

theorem length_of_readValue {bound : List Text} {name : Text} {s left : Slice} {piece : TagPiece}
    (hvalue : readValue bound name s = .ok (piece, left)) :
    left.inside.length ≤ s.inside.length := by
  unfold readValue at hvalue
  split at hvalue
  · rename_i inside hs
    split at hvalue
    · simp at hvalue
    · rename_i hcut
      have := length_of_cut hcut
      split at hvalue
      · simp at hvalue
      · split at hvalue
        · simp at hvalue
        · cases hvalue
          simp only [hs, List.length_cons, List.length_nil] at this ⊢
          omega
  · rename_i inside hs
    split at hvalue
    · simp at hvalue
    · rename_i hcut
      have := length_of_cut hcut
      cases hvalue
      simp only [hs, List.length_cons, List.length_nil] at this ⊢
      omega
  · split at hvalue
    · simp at hvalue
    · split at hvalue
      · simp at hvalue
      · cases hvalue
        exact Nat.le_refl _
  · have := length_takeBareValue s
    simp only [Except.ok.injEq, Prod.mk.injEq] at hvalue
    simpa [hvalue] using this

/-- Every piece leaves less text than it found. -/
theorem length_of_readPiece {start : Text} {bound : List Text} {s left : Slice} {piece : TagPiece}
    (hpiece : readPiece start bound s = .ok (piece, left)) :
    left.inside.length < s.inside.length := by
  have hspace := length_trimLeft_le s.inside
  unfold readPiece at hpiece
  split at hpiece
  · simp at hpiece
  · rename_i hs
    cases hpiece
    simp only [hs, List.length_cons] at hspace
    exact hspace
  · rename_i c inside _ hs
    simp only [hs, List.length_cons] at hspace
    split at hpiece
    · cases hpiece
      simp only [List.length_tail]
      omega
    · by_cases hname : (c :: inside).takeWhile isAttributeChar = []
      · simp [hname] at hpiece
      · simp only [hname, if_false] at hpiece
        have hrun := length_dropWhile_lt hname
        simp only [List.length_cons] at hrun
        split at hpiece
        · rename_i more hmore
          have := length_of_readValue hpiece
          simp only [hmore, List.length_cons] at hrun this
          omega
        · split at hpiece
          · unfold readBeyond at hpiece
            split at hpiece <;> simp at hpiece
          · cases hpiece
            simp only
            omega

/-- What a start tag says about its slot, apart from flags. -/
structure TagBody where
  selector : Text
  attributes : List (Text × Binding)
  selfClosed : Bool
  /-- What follows the closing bracket. -/
  rest : Slice
deriving DecidableEq

/-- The rest of the tag that begins at `start`, whose selector and attributes so far are known. -/
def readBody (start selector : Text) (attributes : List (Text × Binding)) (s : Slice) :
    Except Fault TagBody :=
  match _hpiece : readPiece start (attributes.map (·.1)) s with
  | .error fault => .error fault
  | .ok (.finish selfClosed, rest) => .ok ⟨selector, attributes, selfClosed, rest⟩
  | .ok (.condition written, rest) => readBody start (selector ++ written) attributes rest
  | .ok (.binding name binding, rest) =>
    readBody start selector (attributes ++ [(name, binding)]) rest
termination_by s.inside.length
decreasing_by all_goals exact length_of_readPiece _hpiece

/-- One step of reading a tag, without what shows that the reading ends. -/
theorem readBody_eq (start selector : Text) (attributes : List (Text × Binding)) (s : Slice) :
    readBody start selector attributes s =
      match readPiece start (attributes.map (·.1)) s with
      | .error fault => .error fault
      | .ok (.finish selfClosed, rest) => .ok ⟨selector, attributes, selfClosed, rest⟩
      | .ok (.condition written, rest) => readBody start (selector ++ written) attributes rest
      | .ok (.binding name binding, rest) =>
        readBody start selector (attributes ++ [(name, binding)]) rest := by
  rw [readBody]
  split
  next hpiece => simp only [hpiece]
  next hpiece => simp only [hpiece]
  next hpiece => simp only [hpiece]
  next hpiece => simp only [hpiece]

theorem length_of_readBody {start selector : Text} {attributes : List (Text × Binding)} {s : Slice}
    {body : TagBody} (hbody : readBody start selector attributes s = .ok body) :
    body.rest.inside.length < s.inside.length := by
  fun_induction readBody start selector attributes s with
  | case1 => simp at hbody
  | case2 selector attributes s selfClosed rest hpiece =>
    cases hbody
    exact length_of_readPiece hpiece
  | case3 selector attributes s written rest hpiece ih =>
    have := ih hbody
    have := length_of_readPiece hpiece
    omega
  | case4 selector attributes s name binding rest hpiece ih =>
    have := ih hbody
    have := length_of_readPiece hpiece
    omega

/-- A whole start tag: the slot, whether it is closed at once, and what follows. -/
structure Tag where
  slot : Slot
  selfClosed : Bool
  rest : Slice
deriving DecidableEq

/-- The tag that begins at `start`, read from behind its bracket. -/
def readTag (start : Text) (s : Slice) : Except Fault Tag :=
  let flags := s.inside.takeWhile fun c => c == '?' || c == '!'
  let inside := s.inside.dropWhile fun c => c == '?' || c == '!'
  let selector := inside.takeWhile isSelectorChar
  if inside = [] ∧ s.cutShort then .error .cutShort
  else if selector = [] then .error (.here .missingTagName (inside ++ s.beyond))
  else
    match readBody start selector [] { s with inside := inside.dropWhile isSelectorChar } with
    | .error fault => .error fault
    | .ok body =>
      match Selector.read body.selector with
      | .error error => .error (.here (.selector error.cause) start)
      | .ok _ =>
        .ok ⟨⟨body.selector, flags.contains '?', flags.contains '!', body.attributes, []⟩,
          body.selfClosed, body.rest⟩

theorem length_of_readTag {start : Text} {s : Slice} {tag : Tag} (htag : readTag start s = .ok tag) :
    tag.rest.inside.length < s.inside.length := by
  unfold readTag at htag
  simp only at htag
  split at htag
  · simp at htag
  · split at htag
    · simp at htag
    · split at htag
      · simp at htag
      · rename_i body hbody
        have := length_of_readBody hbody
        have := length_dropWhile_le isSelectorChar (s.inside.dropWhile fun c => c == '?' || c == '!')
        have := length_dropWhile_le (fun c => c == '?' || c == '!') s.inside
        split at htag
        · simp at htag
        · cases htag
          simp only at *
          omega

end Gleaner.Template
