import Gleaner.Markup.Document

/-! # Compound selectors

A compound selector is a conjunction of conditions on one element; a selector is a sequence of
compounds, each to be met further inside than the one before.
-/

namespace Gleaner

/-- A condition on an attribute: that it has the value, or just that it is there. -/
structure AttributeCondition where
  name : Text
  value : Option Text
deriving DecidableEq

namespace AttributeCondition

def Holds (condition : AttributeCondition) (e : Element) : Prop :=
  match condition.value with
  | none => e.hasAttribute condition.name
  | some value => e.rawAttribute condition.name = some value

instance (condition : AttributeCondition) (e : Element) : Decidable (condition.Holds e) := by
  unfold Holds
  split <;> infer_instance

end AttributeCondition

/-- Conditions that one element has to meet together. -/
structure Compound where
  tag : Option Text
  id : Option Text
  classes : List Text
  attributes : List AttributeCondition
deriving DecidableEq

namespace Compound

/-- The compound without conditions but perhaps one on the tag. -/
def ofTag (tag : Option Text) : Compound := ⟨tag, none, [], []⟩

/-- Whether the element meets all conditions. -/
def Matches (compound : Compound) (e : Element) : Prop :=
  (∀ tag ∈ compound.tag, e.tag = tag) ∧ (∀ id ∈ compound.id, e.id = some id) ∧
    (∀ word ∈ compound.classes, word ∈ e.classes) ∧
    ∀ condition ∈ compound.attributes, condition.Holds e

instance (compound : Compound) (e : Element) : Decidable (compound.Matches e) :=
  inferInstanceAs (Decidable (_ ∧ _ ∧ _ ∧ _))

end Compound

/-- A selector: its first compound and those to be met further and further inside. -/
structure Selector where
  first : Compound
  inner : List Compound
deriving DecidableEq

/-- The compounds of a selector from the outermost on. -/
def Selector.compounds (selector : Selector) : List Compound := selector.first :: selector.inner

end Gleaner
