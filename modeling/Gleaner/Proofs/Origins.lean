import Gleaner.Markup.Reading
import Gleaner.Proofs.Building
import Gleaner.Proofs.Numbering

/-! # Where elements come from

Making a document of what a text holds and numbering its tree change nothing about the elements. So a
document that was read has the elements that were built from its tokens, in order, apart from the one that is
put around several.
-/

namespace Gleaner

namespace Markup

theorem beginsMarkup_takeText (s : Text) : (takeText s).2 = [] ∨ beginsMarkup (takeText s).2 = true := by
  induction s with
  | nil => exact .inl rfl
  | cons c s ih =>
      rw [takeText]
      split
      next hbegins => exact .inr hbegins
      next => exact ih

end Markup

/-! ### The numbered tree -/

theorem Forest.subtrees_plant (f : Forest Element) (parent : Option Nat) (depth next : Nat) :
    (f.plant parent depth next).subtrees.map Tree.element = f.subtrees.map Tree.top := by
  induction f generalizing parent depth next with
  | nil => rfl
  | cons top below after ihbelow ihafter =>
      simp only [plant, subtrees, List.map_cons, List.map_append, ihbelow, ihafter]
      rfl

namespace Document

variable {skip : List Text} {s : Text}

theorem subtrees_ofTree (t : Tree Element) :
    (ofTree t).root.subtrees.map Tree.element = t.subtrees.map Tree.top := by
  simp only [ofTree, Tree.subtrees, List.map_cons, Forest.subtrees_plant]
  rfl

/-- The document of a tree is numbered, and its row of nodes has the elements of the tree, each before those
below it. -/
theorem nodes_ofTree (t : Tree Element) :
    (ofTree t).error = none ∧ (ofTree t).Numbered ∧
      (ofTree t).nodes.toList.map Tree.element = t.toForest.subtrees.map Tree.top := by
  refine ⟨rfl, numbered_ofTree t, ?_⟩
  rw [nodes_eq, List.toList_toArray, subtrees_ofTree, Tree.subtrees_toForest]

/-- The document of what a text holds has the same elements, but for the one that is put around several. -/
theorem bares_toDocument {content : Markup.Content} (htree : content.toDocument.isError = false) :
    let root := content.toDocument.root
    root.subtrees.map (·.element.bare) = content.elements.bares ∨
      root.element.tag = Markup.fragmentTag ∧
        root.below.subtrees.map (·.element.bare) = content.elements.bares := by
  have htops : ∀ t : Tree Element, (ofTree t).root.subtrees.map (·.element.bare) =
      t.top.bare :: t.below.bares := by
    intro t
    have helements := congrArg (List.map Element.bare) (subtrees_ofTree t)
    rwa [List.map_map, List.map_map] at helements
  unfold Markup.Content.toDocument at htree ⊢
  split
  next hnone =>
    rw [hnone] at htree
    cases htree
  next top below helements =>
    refine .inl ((htops _).trans ?_)
    rw [helements, Forest.bares_single]
  next => exact .inr ⟨rfl, (List.cons.inj (htops _)).2⟩

/-- The document of a text without faults is that of what its tokens hold. -/
theorem parse_eq_toDocument (htree : (Markup.parse skip s).isError = false) :
    Markup.parse skip s =
      (Markup.Builder.ofTokens (Markup.scan (skip.map Text.lower) s).tokens).finish.toDocument := by
  unfold Markup.parse Markup.read at htree ⊢
  dsimp only at htree ⊢
  split
  next => rfl
  next fault hfault =>
    rw [hfault] at htree
    cases htree

end Document
end Gleaner
