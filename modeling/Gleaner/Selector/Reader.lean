import Gleaner.Selector.Compound
import Gleaner.Text.LowerCase

/-! # Written selectors

A selector is written as its compounds with white space between them. White space inside brackets
separates nothing, and a bracket inside a quoted value closes nothing.
-/

namespace Gleaner

/-- What is wrong with a written selector. -/
inductive SelectorCause where
  /-- Nothing but white space. -/
  | blank
  /-- A bracket or a quote inside brackets is open at the end. -/
  | openBracket
  | missingName (mark : Char)
  | conflictingIds
  | malformedBracket
  | combinator (c : Char)
  | unexpected (c : Char)
deriving DecidableEq

def SelectorCause.message : SelectorCause → Text
  | blank => "Empty selector".toList
  | openBracket => "Unterminated attribute selector".toList
  | missingName mark => "Expected name after ".toList ++ Text.quote [mark]
  | conflictingIds => "Conflicting id selectors".toList
  | malformedBracket => "Malformed attribute selector".toList
  | combinator c => "Unsupported combinator ".toList ++ Text.quote [c]
  | unexpected c => "Unexpected character ".toList ++ Text.quote [c]

/-- What is wrong and the text it is wrong with. -/
structure SelectorError where
  cause : SelectorCause
  selector : Text
deriving DecidableEq

def SelectorError.message (e : SelectorError) : Text :=
  e.cause.message ++ " in selector ".toList ++ Text.quote e.selector

namespace Selector

open Text

/-- Where a character of a written selector stands. -/
inductive Zone where
  | plain
  | bracket
  | quoted (mark : Char)
deriving DecidableEq

/-- The zone behind a character. -/
def Zone.next (zone : Zone) (c : Char) : Zone :=
  match zone with
  | plain => if c = '[' then bracket else plain
  | bracket => if c = '"' ∨ c = '\'' then quoted c else if c = ']' then plain else bracket
  | quoted mark => if c = mark then bracket else quoted mark

/-- The rest of the step that `s` begins in and the steps after it; nothing if a bracket or quote
stays open. -/
def splitFrom? (zone : Zone) : Text → Option (Text × List Text)
  | [] => if zone = .plain then some ([], []) else none
  | c :: s =>
    if zone = .plain ∧ isBlank c then
      (splitFrom? .plain s).map fun (step, steps) => ([], if step.isEmpty then steps else step :: steps)
    else (splitFrom? (zone.next c) s).map fun (step, steps) => (c :: step, steps)

/-- The steps of a written selector: its parts between white space outside of brackets. -/
def splitSteps? (s : Text) : Option (List Text) :=
  (splitFrom? .plain s).map fun (step, steps) => if step.isEmpty then steps else step :: steps

def isTagStart (c : Char) : Bool := c.isAlpha || c == '_'

def isTagChar (c : Char) : Bool := c.isAlphanum || c == '_' || c == ':' || c == '-'

/-- The characters of a class or id. -/
def isNameChar (c : Char) : Bool := !isBlank c && c != '.' && c != '#' && c != '[' && c != ']'

/-- The characters of an attribute's name. -/
def isAttributeChar (c : Char) : Bool :=
  !isBlank c && c != '=' && c != ']' && c != '"' && c != '\''

/-- The characters of a value without quotes. -/
def isBareChar (c : Char) : Bool := !isBlank c && c != ']' && c != '"' && c != '\''

/-- The value of an attribute condition and what follows it. -/
def readValue? : Text → Option (Text × Text)
  | '"' :: s => cut ['"'] s
  | '\'' :: s => cut ['\''] s
  | s =>
    if s.takeWhile isBareChar = [] then none else some (s.takeWhile isBareChar, s.dropWhile isBareChar)

/-- What follows the closing bracket, if that comes next. -/
def closeBracket? (s : Text) : Option Text :=
  match trimLeft s with
  | ']' :: rest => some rest
  | _ => none

/-- The attribute condition whose opening bracket stands before `s`, and what follows it. -/
def readAttribute? (s : Text) : Option (AttributeCondition × Text) :=
  let name := (trimLeft s).takeWhile isAttributeChar
  if name = [] then none
  else
    match trimLeft ((trimLeft s).dropWhile isAttributeChar) with
    | '=' :: behind =>
      (readValue? (trimLeft behind)).bind fun (value, rest) =>
        (closeBracket? rest).map fun rest => (⟨lower name, some value⟩, rest)
    | behind => (closeBracket? behind).map fun rest => (⟨lower name, none⟩, rest)

theorem length_of_readValue? {s value rest : Text} (hvalue : readValue? s = some (value, rest)) :
    rest.length ≤ s.length := by
  unfold readValue? at hvalue
  split at hvalue
  · have := length_of_cut hvalue
    simp only [List.length_cons, List.length_nil] at this ⊢
    omega
  · have := length_of_cut hvalue
    simp only [List.length_cons, List.length_nil] at this ⊢
    omega
  · split at hvalue
    · simp at hvalue
    · simp only [Option.some.injEq, Prod.mk.injEq] at hvalue
      rw [← hvalue.2]
      exact length_dropWhile_le isBareChar s

theorem length_of_closeBracket? {s rest : Text} (hclose : closeBracket? s = some rest) :
    rest.length < s.length := by
  unfold closeBracket? at hclose
  have hspace := length_trimLeft_le s
  split at hclose
  · rename_i hs
    cases hclose
    simp only [hs, List.length_cons] at hspace
    omega
  · simp at hclose

theorem length_of_readAttribute? {s rest : Text} {condition : AttributeCondition}
    (hattribute : readAttribute? s = some (condition, rest)) : rest.length < s.length := by
  unfold readAttribute? at hattribute
  have hspace := length_trimLeft_le s
  have hname := length_dropWhile_le isAttributeChar (trimLeft s)
  have hbehind := length_trimLeft_le ((trimLeft s).dropWhile isAttributeChar)
  by_cases hempty : (trimLeft s).takeWhile isAttributeChar = []
  · simp [hempty] at hattribute
  · simp only [hempty, if_false] at hattribute
    split at hattribute
    · rename_i behind hs
      obtain ⟨⟨value, left⟩, hvalue, hmore⟩ := Option.bind_eq_some_iff.1 hattribute
      obtain ⟨last, hclose, hpair⟩ := Option.map_eq_some_iff.1 hmore
      cases hpair
      have := length_of_readValue? hvalue
      have hlast : rest.length < left.length := length_of_closeBracket? hclose
      have := length_trimLeft_le behind
      simp only [hs, List.length_cons] at hbehind
      omega
    · obtain ⟨last, hclose, hpair⟩ := Option.map_eq_some_iff.1 hattribute
      cases hpair
      have := length_of_closeBracket? hclose
      omega

/-- The compound that has the conditions of `known` and those written in `s`. -/
def readConditions (known : Compound) (s : Text) : Except SelectorCause Compound :=
  match s with
  | [] => .ok known
  | c :: s =>
    if c = '.' ∨ c = '#' then
      let name := s.takeWhile isNameChar
      if name = [] then .error (.missingName c)
      else if c = '.' then
        readConditions { known with classes := known.classes ++ [name] } (s.dropWhile isNameChar)
      else if known.id.any (· != name) then .error .conflictingIds
      else readConditions { known with id := some name } (s.dropWhile isNameChar)
    else if c = '[' then
      match _hattribute : readAttribute? s with
      | none => .error .malformedBracket
      | some (condition, rest) =>
        readConditions { known with attributes := known.attributes ++ [condition] } rest
    else if c = '>' ∨ c = '+' ∨ c = '~' then .error (.combinator c)
    else .error (.unexpected c)
termination_by s.length
decreasing_by
  · have := length_dropWhile_le isNameChar s
    simp only [List.length_cons]
    omega
  · have := length_dropWhile_le isNameChar s
    simp only [List.length_cons]
    omega
  · have := length_of_readAttribute? _hattribute
    simp only [List.length_cons]
    omega

/-- The compound written in one step: a tag or a star if it begins with one, then conditions. -/
def readStep (step : Text) : Except SelectorCause Compound :=
  match step with
  | '*' :: s => readConditions (.ofTag none) s
  | c :: s =>
    if isTagStart c then
      readConditions (.ofTag (some (lower (c :: s.takeWhile isTagChar)))) (s.dropWhile isTagChar)
    else readConditions (.ofTag none) (c :: s)
  | [] => readConditions (.ofTag none) []

/-- The selector that a text spells. An open bracket is complained about without the white space
around the text. -/
def read (s : Text) : Except SelectorError Selector :=
  match splitSteps? (trim s) with
  | none => .error ⟨.openBracket, trim s⟩
  | some [] => .error ⟨.blank, s⟩
  | some (step :: steps) =>
    match readStep step, steps.mapM readStep with
    | .error cause, _ => .error ⟨cause, s⟩
    | _, .error cause => .error ⟨cause, s⟩
    | .ok first, .ok inner => .ok ⟨first, inner⟩

end Selector
end Gleaner
