import Gleaner.Markup.Fault
import Gleaner.Text.Blank
import Gleaner.Text.LowerCase

/-! # Tags

The inside of a start tag, from behind the tag's name to behind its closing bracket. It is read piece
by piece; a quote or slash that belongs to nothing is passed over, so only the end of the text can stop
the reading. Every piece leaves less text than it found.
-/

namespace Gleaner.Markup

open Text

/-- The first character of a tag name: a letter of ASCII, where case is ignored. -/
def isTagStart (c : Char) : Bool := (caseKey c).isLower

def isTagChar (c : Char) : Bool :=
  isTagStart c || c.isDigit || c == '_' || c == ':' || c == '-'

/-- The characters of an attribute's name. -/
def isAttributeChar (c : Char) : Bool :=
  !isBlank c && c != '"' && c != '\'' && c != '>' && c != '/' && c != '='

/-- The characters of a value without quotes. -/
def isBareChar (c : Char) : Bool := !isBlank c && c != '>'

/-- A value without quotes. A slash right before the closing bracket belongs to the bracket. -/
def takeBareValue (s : Text) : Text × Text :=
  let value := s.takeWhile isBareChar
  let rest := s.dropWhile isBareChar
  if value.getLast? = some '/' ∧ rest.head? = some '>' then (value.dropLast, '/' :: rest)
  else (value, rest)

/-- The value of an attribute, read from behind the equals sign and the white space after it. -/
def readValue : Text → Except Fault (Text × Text)
  | '"' :: s =>
    match cut ['"'] s with
    | some found => .ok found
    | none => .error ⟨.attributeValue, '"' :: s⟩
  | '\'' :: s =>
    match cut ['\''] s with
    | some found => .ok found
    | none => .error ⟨.attributeValue, '\'' :: s⟩
  | s => .ok (takeBareValue s)

inductive TagPiece where
  /-- The closing bracket, with or without a slash before it. -/
  | finish (selfClosed : Bool)
  /-- A quote, slash or equals sign that belongs to nothing. -/
  | stray
  /-- An attribute; one without a value has its own name as value. -/
  | pair (name value : Text)
deriving DecidableEq

/-- The next piece of the tag that begins at `start`. -/
def readPiece (start s : Text) : Except Fault (TagPiece × Text) :=
  match trimLeft s with
  | [] => .error ⟨.tag, start⟩
  | '>' :: rest => .ok (.finish false, rest)
  | '/' :: '>' :: rest => .ok (.finish true, rest)
  | c :: s =>
    let name := (c :: s).takeWhile isAttributeChar
    if name = [] then .ok (.stray, s)
    else
      let name := lower name
      match trimLeft ((c :: s).dropWhile isAttributeChar) with
      | '=' :: behind => (readValue (trimLeft behind)).map fun (value, rest) => (.pair name value, rest)
      | rest => .ok (.pair name name, rest)

theorem length_takeBareValue (s : Text) : (takeBareValue s).2.length ≤ s.length := by
  have hlength := congrArg List.length (List.takeWhile_append_dropWhile (p := isBareChar) (l := s))
  simp only [List.length_append] at hlength
  simp only [takeBareValue]
  split
  · rename_i hslash
    have hpos : (s.takeWhile isBareChar).length ≠ 0 := by
      intro hzero
      simp [List.length_eq_zero_iff.1 hzero] at hslash
    simp only [List.length_cons]
    omega
  · simp only
    omega

theorem length_of_readValue {s value rest : Text} (hvalue : readValue s = .ok (value, rest)) :
    rest.length ≤ s.length := by
  unfold readValue at hvalue
  split at hvalue
  · split at hvalue
    · rename_i hcut
      cases hvalue
      have := length_of_cut hcut
      simp only [List.length_cons, List.length_nil] at this ⊢
      omega
    · simp at hvalue
  · split at hvalue
    · rename_i hcut
      cases hvalue
      have := length_of_cut hcut
      simp only [List.length_cons, List.length_nil] at this ⊢
      omega
    · simp at hvalue
  · have := length_takeBareValue s
    simp only [Except.ok.injEq] at hvalue
    simpa [hvalue] using this

/-- Every piece leaves less text than it found. -/
theorem length_of_readPiece {start s rest : Text} {piece : TagPiece}
    (hpiece : readPiece start s = .ok (piece, rest)) : rest.length < s.length := by
  have hspace := length_trimLeft_le s
  unfold readPiece at hpiece
  split at hpiece
  · simp at hpiece
  · rename_i hs
    cases hpiece
    simp only [hs, List.length_cons] at hspace
    omega
  · rename_i hs
    cases hpiece
    simp only [hs, List.length_cons] at hspace
    omega
  · rename_i c more _ _ hs
    simp only [hs, List.length_cons] at hspace
    by_cases hname : (c :: more).takeWhile isAttributeChar = []
    · rw [if_pos hname] at hpiece
      cases hpiece
      omega
    · rw [if_neg hname] at hpiece
      have hrun := length_dropWhile_lt hname
      have hrest := length_trimLeft_le ((c :: more).dropWhile isAttributeChar)
      simp only [List.length_cons] at hrun
      split at hpiece
      · rename_i behind hbehind
        simp only [hbehind, List.length_cons] at hrest
        match hvalue : readValue (trimLeft behind) with
        | .error fault => simp [hvalue, Except.map] at hpiece
        | .ok (value, left) =>
          simp only [hvalue, Except.map, Except.ok.injEq, Prod.mk.injEq] at hpiece
          obtain ⟨-, rfl⟩ := hpiece
          have := length_of_readValue hvalue
          have := length_trimLeft_le behind
          omega
      · cases hpiece
        omega

structure TagBody where
  /-- The attributes in reading order, with repetitions. -/
  pairs : List (Text × Text)
  selfClosed : Bool
  /-- What follows the closing bracket. -/
  rest : Text
deriving DecidableEq

/-- The inside of the tag that begins at `start`, read from behind the tag's name. -/
def readBody (start s : Text) : Except Fault TagBody :=
  match _hpiece : readPiece start s with
  | .error fault => .error fault
  | .ok (.finish selfClosed, rest) => .ok ⟨[], selfClosed, rest⟩
  | .ok (.stray, rest) => readBody start rest
  | .ok (.pair name value, rest) =>
    (readBody start rest).map fun body => { body with pairs := (name, value) :: body.pairs }
termination_by s.length
decreasing_by all_goals exact length_of_readPiece _hpiece

theorem length_of_readBody {start s : Text} {body : TagBody} (hbody : readBody start s = .ok body) :
    body.rest.length < s.length := by
  fun_induction readBody start s generalizing body with
  | case1 => simp at hbody
  | case2 s selfClosed rest hpiece =>
    cases hbody
    exact length_of_readPiece hpiece
  | case3 s rest hpiece ih =>
    have := ih hbody
    have := length_of_readPiece hpiece
    omega
  | case4 s name value rest hpiece ih =>
    match hmore : readBody start rest with
    | .error fault => simp [hmore, Except.map] at hbody
    | .ok more =>
      simp only [hmore, Except.map, Except.ok.injEq] at hbody
      have := ih hmore
      have := length_of_readPiece hpiece
      rw [← hbody]
      simp only
      omega

end Gleaner.Markup
