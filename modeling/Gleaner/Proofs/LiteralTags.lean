import Gleaner.Proofs.RoundTrip
import Gleaner.Template.Compile

/-! # Start tags with literal attributes

A start tag whose attributes are literal can stand in markup and in a template alike. Below are the tags
that markup reads attribute by attribute as they are written: each one gives a name and a value to the
element that the tag begins.
-/

namespace Gleaner

open Text

structure LiteralAttribute where
  /-- The white space in front. -/
  gap : Text
  name : Text
  value : LiteralValue
deriving DecidableEq

structure LiteralTag where
  name : Text
  attributes : List LiteralAttribute
  /-- The white space before the closing bracket or its slash. -/
  trailing : Text
  selfClosed : Bool
deriving DecidableEq

namespace LiteralAttribute

def write (a : LiteralAttribute) : Text := a.gap ++ (a.name ++ a.value.write)

/-- The attribute as markup reads it: its own name is the value of one without a value. -/
def pair (a : LiteralAttribute) : Text × Text := (lower a.name, a.value.text?.getD (lower a.name))

/-- The condition that the attribute adds to a selector. -/
def condition (a : LiteralAttribute) : Text :=
  match a.value.text? with
  | none => '[' :: lower a.name ++ [']']
  | some value => Template.condition (lower a.name) value

/-- Every attribute ends where the next one or the ending begins. -/
def Separate (ending : Text) : List LiteralAttribute → Prop
  | [] => True
  | a :: more => a.value.EndsBefore (more.flatMap write ++ ending) ∧ Separate ending more

instance decidableSeparate (ending : Text) :
    (attributes : List LiteralAttribute) → Decidable (Separate ending attributes)
  | [] => inferInstanceAs (Decidable True)
  | _ :: more =>
    have := decidableSeparate ending more
    inferInstanceAs (Decidable (_ ∧ _))

end LiteralAttribute

namespace LiteralTag

def ending (tag : LiteralTag) : Text :=
  tag.trailing ++ if tag.selfClosed then ['/', '>'] else ['>']

def writeBody (tag : LiteralTag) : Text := tag.attributes.flatMap LiteralAttribute.write ++ tag.ending

def write (tag : LiteralTag) : Text := '<' :: (tag.name ++ tag.writeBody)

/-- The element that the tag begins in markup. -/
def element (tag : LiteralTag) : Element :=
  .ofAttributes (lower tag.name) (tag.attributes.map LiteralAttribute.pair)

/-- The selector that the tag is in a template. -/
def selector (tag : LiteralTag) : Text :=
  tag.name ++ tag.attributes.flatMap LiteralAttribute.condition

/-- A tag with a name of ASCII and proper names for its attributes, different from each other where case is
ignored. White space keeps the first attribute from the name of the tag. -/
structure Legible (tag : LiteralTag) : Prop where
  name : ∃ c more, tag.name = c :: more ∧ c.isAlpha = true ∧ ∀ d ∈ more, Markup.isNameChar d = true
  first : ∀ a ∈ tag.attributes.head?, a.gap ≠ []
  gaps : ∀ a ∈ tag.attributes, ∀ c ∈ a.gap, isBlank c = true
  trailing : ∀ c ∈ tag.trailing, isBlank c = true
  names : ∀ a ∈ tag.attributes, a.name ≠ [] ∧ ∀ c ∈ a.name, Markup.isAttributeChar c = true
  different : (tag.attributes.map fun a => lower a.name).Nodup
  values : ∀ a ∈ tag.attributes, a.value.Legible
  separate : LiteralAttribute.Separate tag.ending tag.attributes

end LiteralTag

/-! ### Literal tags in markup -/

namespace LiteralAttribute

/-- The attribute without white space around its equals sign. -/
def toMarkup (a : LiteralAttribute) : Markup.Attribute := ⟨a.gap, a.name, [], [], a.value⟩

theorem write_toMarkup (a : LiteralAttribute) : a.toMarkup.write = a.write := by
  rw [Markup.Attribute.write, toMarkup, LiteralValue.writeSpaced_nil]
  rfl

theorem flatMap_toMarkup (attributes : List LiteralAttribute) :
    (attributes.map toMarkup).flatMap Markup.Attribute.write = attributes.flatMap write := by
  rw [List.flatMap_map]
  exact congrArg (attributes.flatMap ·) (funext write_toMarkup)

theorem separate_toMarkup {ending : Text} {attributes : List LiteralAttribute}
    (hseparate : Separate ending attributes) :
    Markup.Attribute.Separate ending (attributes.map toMarkup) := by
  induction attributes with
  | nil => trivial
  | cons a more ih =>
      refine ⟨?_, ih hseparate.2⟩
      rw [flatMap_toMarkup]
      exact hseparate.1

end LiteralAttribute

namespace LiteralTag

variable {tag : LiteralTag}

/-- What follows the name of a tag is told apart from the name. -/
theorem head?_writeBody (htag : tag.Legible) :
    ∃ q, tag.writeBody.head? = some q ∧ (isBlank q = true ∨ q = '/' ∨ q = '>') := by
  unfold writeBody
  cases hattributes : tag.attributes with
  | cons a more =>
      obtain ⟨q, front, hgap⟩ :=
        List.exists_cons_of_ne_nil (htag.first a (by rw [hattributes]; rfl))
      have hblank := htag.gaps a (hattributes ▸ List.mem_cons_self) q (hgap ▸ List.mem_cons_self)
      refine ⟨q, ?_, .inl hblank⟩
      rw [List.flatMap_cons, LiteralAttribute.write, hgap]
      rfl
  | nil =>
      rw [List.flatMap_nil, List.nil_append, ending]
      cases htrailing : tag.trailing with
      | cons q front =>
          exact ⟨q, rfl, .inl (htag.trailing q (htrailing ▸ List.mem_cons_self))⟩
      | nil =>
          cases tag.selfClosed with
          | true => exact ⟨'/', rfl, .inr (.inl rfl)⟩
          | false => exact ⟨'>', rfl, .inr (.inr rfl)⟩

theorem trimLeft_ending (htag : tag.Legible) (behind : Text) :
    trimLeft (tag.ending ++ behind) = (if tag.selfClosed then ['/', '>'] else ['>']) ++ behind := by
  rw [ending, List.append_assoc, trimLeft_append htag.trailing]
  cases tag.selfClosed with
  | true => rfl
  | false => rfl

theorem legible_toMarkup (htag : tag.Legible) :
    ∀ a ∈ tag.attributes.map LiteralAttribute.toMarkup, a.Legible := by
  intro a ha
  obtain ⟨b, hb, rfl⟩ := List.mem_map.mp ha
  exact ⟨htag.gaps b hb, htag.names b hb, nofun, nofun, (htag.values b hb).readable⟩

theorem readBody_writeBody (htag : tag.Legible) (start behind : Text) :
    Markup.readBody start (tag.writeBody ++ behind) =
      .ok ⟨tag.attributes.map LiteralAttribute.pair, tag.selfClosed, behind⟩ := by
  have hpairs : tag.attributes.map LiteralAttribute.pair =
      (tag.attributes.map LiteralAttribute.toMarkup).map Markup.Attribute.pair := by
    rw [List.map_map]
    rfl
  rw [writeBody, List.append_assoc, ← LiteralAttribute.flatMap_toMarkup, hpairs]
  refine Markup.Attribute.readBody_attributes (legible_toMarkup htag)
    (LiteralAttribute.separate_toMarkup htag.separate) ?_ ?_
  · rw [trimLeft_ending htag]
    cases tag.selfClosed with
    | true => exact nofun
    | false => exact nofun
  · unfold Markup.readPiece
    rw [trimLeft_ending htag]
    cases tag.selfClosed with
    | true => rfl
    | false => rfl

/-- The tag as a markup text of its own. What is read as raw text needs its closing tag. -/
def document (tag : LiteralTag) : Text :=
  tag.write ++
    if tag.selfClosed = false ∧ lower tag.name ∈ Markup.rawTextTags then
      '<' :: '/' :: (tag.name ++ ['>'])
    else []

/-- The token of the tag by itself. -/
def token (tag : LiteralTag) : Markup.Token :=
  let pairs := tag.attributes.map LiteralAttribute.pair
  if tag.selfClosed ∨ lower tag.name ∈ Markup.voidTags ++ Markup.rawTextTags then
    .leaf (lower tag.name) pairs []
  else .enter (lower tag.name) pairs

theorem readElement_document (htag : tag.Legible) (start : Text) :
    ∃ behind, tag.document = '<' :: (tag.name ++ (tag.writeBody ++ behind)) ∧
      Markup.readElement [] start (lower tag.name) (tag.writeBody ++ behind) =
        .ok (some tag.token, []) := by
  have hname := Markup.forall_isNameChar htag.name
  by_cases hraw : tag.selfClosed = false ∧ lower tag.name ∈ Markup.rawTextTags
  · refine ⟨'<' :: '/' :: (tag.name ++ ['>']), by simp [document, write, hraw], ?_⟩
    have hvoid : lower tag.name ∉ Markup.voidTags := by
      have hapart : ∀ name ∈ Markup.rawTextTags, name ∉ Markup.voidTags := by decide
      exact hapart _ hraw.2
    have htake : Markup.takeRawText? (lower tag.name) ('<' :: '/' :: (tag.name ++ ['>'])) =
        some ([], []) := by
      change Markup.takeRawText? (lower tag.name) ([] ++ '<' :: '/' :: (tag.name ++ '>' :: [])) = _
      refine Markup.takeRawText?_append (Markup.map_caseKey_lower hname).symm
        (Markup.bracket_notMem_lower hname) ?_
      rintro t ⟨name, blanks, rfl, -⟩ hwithin
      cases List.infix_nil.mp hwithin
    rw [Markup.readElement, readBody_writeBody htag]
    simp [token, hraw, hvoid, htake]
  · refine ⟨[], by simp [document, write, hraw], ?_⟩
    rw [Markup.readElement, readBody_writeBody htag]
    dsimp only
    rw [if_neg List.not_mem_nil, token]
    by_cases hvoid : tag.selfClosed = true ∨ lower tag.name ∈ Markup.voidTags
    · rw [if_pos hvoid, if_pos (hvoid.imp_right (List.mem_append_left _))]
    · obtain ⟨hopen, hvoid⟩ := not_or.mp hvoid
      have hraw : lower tag.name ∉ Markup.rawTextTags :=
        fun hmem => hraw ⟨Bool.eq_false_iff.mpr hopen, hmem⟩
      simp [hopen, hvoid, hraw]

theorem finish_place (tag : LiteralTag) :
    (Markup.Builder.empty.place tag.token).finish = ⟨[], .cons tag.element .nil .nil⟩ := by
  unfold token
  split
  next => rfl
  next => rfl

/-- The tag by itself is read as its element. -/
theorem parse_document (htag : tag.Legible) :
    Markup.parse [] tag.document = .ofTree ⟨tag.element, .nil⟩ := by
  have hreach : Markup.reach [] .empty tag.document = (Markup.Builder.empty.place tag.token, none) := by
    obtain ⟨behind, hdocument, helement⟩ := readElement_document htag tag.document
    have htail : ∀ c ∈ (tag.writeBody ++ behind).head?, Markup.isTagChar c = false := by
      obtain ⟨q, hhead, hq⟩ := head?_writeBody htag
      intro c hc
      rw [List.head?_append, hhead] at hc
      obtain rfl := Option.some.inj hc
      rcases hq with hblank | rfl | rfl
      · exact Markup.isTagChar_of_isBlank hblank
      all_goals rfl
    have hmarkup : Markup.readMarkup [] tag.document (tag.name ++ (tag.writeBody ++ behind)) =
        .ok (some tag.token, []) := by rw [Markup.readMarkup_name htag.name htail, helement]
    rw [hdocument] at hmarkup ⊢
    rw [Markup.reach_markup ?_ hmarkup]
    · exact Markup.reach_nil [] _
    · obtain ⟨c, more, hname, hc, -⟩ := htag.name
      rw [hname, List.cons_append, Markup.beginsMarkup_bracket, Markup.isTagStart_of_isAlpha hc]
      all_goals
        rintro rfl
        exact absurd hc (by decide)
  rw [Markup.parse_of_reach [] hreach, finish_place]
  rfl

end LiteralTag

end Gleaner
