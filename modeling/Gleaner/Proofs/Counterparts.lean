import Gleaner.Extract.TextPattern
import Gleaner.Proofs.Numbering
import Gleaner.Selector.Search
import Mathlib.Data.List.Forall2

/-! # Counterparts in two documents

Two subtrees of two documents may have the same elements in the same places, while what surrounds them is
different. Each node of the one then has a counterpart in the other, with its number and its depth moved
by what the tops are apart. A selector finds counterparts under counterparts, their texts are the same,
and one is around another exactly if their counterparts are so.
-/

namespace Gleaner

/-! ## Elements that cannot be told apart -/

/-- Nothing that can be asked of an element tells the two apart. The order of the attributes cannot be
asked for. -/
structure Element.Same (e e' : Element) : Prop where
  tag : e.tag = e'.tag
  id : e.id = e'.id
  classes : e.classes = e'.classes
  attributes : ∀ name, e.attributes.lookup name = e'.attributes.lookup name
  text : e.text = e'.text

namespace Element.Same

variable {e e' : Element}

theorem refl (e : Element) : e.Same e := ⟨rfl, rfl, rfl, fun _ => rfl, rfl⟩

theorem rawAttribute_eq (hsame : e.Same e') : e.rawAttribute = e'.rawAttribute := by
  funext name
  rw [rawAttribute, rawAttribute, hsame.classes, hsame.id, hsame.attributes]

theorem holds_iff (hsame : e.Same e') (condition : AttributeCondition) :
    condition.Holds e ↔ condition.Holds e' := by
  unfold AttributeCondition.Holds hasAttribute
  rw [hsame.rawAttribute_eq]

theorem matches_iff (hsame : e.Same e') (compound : Compound) :
    compound.Matches e ↔ compound.Matches e' := by
  unfold Compound.Matches
  simp only [hsame.tag, hsame.id, hsame.classes, hsame.holds_iff]

theorem bindAttributes_eq (hsame : e.Same e') : bindAttributes e = bindAttributes e' := by
  funext r bindings
  induction bindings generalizing r with
  | nil => rfl
  | cons pair more ih =>
      rw [bindAttributes, bindAttributes, hsame.rawAttribute_eq]
      simp only [ih]

theorem finds_iff (hsame : e.Same e') (selector : Selector) :
    selector.Finds e ↔ selector.Finds e' :=
  and_congr_right fun _ => hsame.matches_iff selector.first

theorem advance_eq (hsame : e.Same e') (selector : Selector) :
    selector.advance e = selector.advance e' := by
  unfold Selector.advance
  simp only [hsame.matches_iff]

end Element.Same

/-! ## Forests of the same shape -/

namespace Forest

universe u v

/-- The forests have the same shape, and the trees at each place of it are related. -/
inductive Paired {α : Type u} {β : Type v} (related : Tree α → Tree β → Prop) :
    Forest α → Forest β → Prop
  | nil : Paired related .nil .nil
  | cons {top : α} {below after : Forest α} {top' : β} {below' after' : Forest β}
      (hhere : related ⟨top, below⟩ ⟨top', below'⟩) (hbelow : Paired related below below')
      (hafter : Paired related after after') :
      Paired related (.cons top below after) (.cons top' below' after')

namespace Paired

section Shape

variable {α : Type u} {β : Type v} {related other : Tree α → Tree β → Prop} {f : Forest α}
  {f' : Forest β}

theorem size_eq (hpaired : f.Paired related f') : f.size = f'.size := by
  induction hpaired with
  | nil => rfl
  | cons _ _ _ ihbelow ihafter => rw [size, size, ihbelow, ihafter]

theorem subtrees (hpaired : f.Paired related f') : List.Forall₂ related f.subtrees f'.subtrees := by
  induction hpaired with
  | nil => exact .nil
  | cons hhere _ _ ihbelow ihafter => exact .cons hhere (List.rel_append ihbelow ihafter)

/-- What holds of related trees within the forests may be added to the relation. -/
theorem imp (hpaired : f.Paired related f')
    (himp : ∀ n ∈ f.subtrees, ∀ n' ∈ f'.subtrees, related n n' → other n n') :
    f.Paired other f' := by
  induction hpaired with
  | nil => exact .nil
  | cons hhere _ _ ihbelow ihafter =>
      simp only [mem_subtrees_cons] at himp
      refine .cons (himp _ (.inl rfl) _ (.inl rfl) hhere) (ihbelow ?_) (ihafter ?_)
      · exact fun n hn n' hn' => himp n (.inr (.inl hn)) n' (.inr (.inl hn'))
      · exact fun n hn n' hn' => himp n (.inr (.inr hn)) n' (.inr (.inr hn'))

/-- Every tree within one forest has a partner, and what lies below them is paired as well. -/
theorem exists_partner {n : Tree α} (hpaired : f.Paired related f') (hn : n ∈ f.subtrees) :
    ∃ n' ∈ f'.subtrees, related n n' ∧ n.toForest.Paired related n'.toForest := by
  induction hpaired with
  | nil => simp [Forest.subtrees] at hn
  | cons hhere hbelow _ ihbelow ihafter =>
      simp only [mem_subtrees_cons] at hn ⊢
      rcases hn with rfl | hn | hn
      · exact ⟨_, .inl rfl, hhere, .cons hhere hbelow .nil⟩
      · obtain ⟨n', hn', hrelated⟩ := ihbelow hn
        exact ⟨n', .inr (.inl hn'), hrelated⟩
      · obtain ⟨n', hn', hrelated⟩ := ihafter hn
        exact ⟨n', .inr (.inr hn'), hrelated⟩

end Shape

section Places

variable {related : Node → Node → Prop} {f f' : Forest Place}

/-- In numbered forests the numbers and the depths of partners are as far apart as those at the front. -/
theorem shifted {parent parent' : Option Nat} {depth depth' next next' : Nat} {i i' d d' : Nat}
    (hpaired : f.Paired related f') (hf : f.Numbered parent depth next)
    (hf' : f'.Numbered parent' depth' next') (hindex : next + i' = next' + i)
    (hdepth : depth + d' = depth' + d) :
    f.Paired (fun n n' => related n n' ∧ n.index + i' = n'.index + i ∧ n.depth + d' = n'.depth + d ∧
      n.size = n'.size) f' := by
  induction hpaired generalizing parent parent' depth depth' next next' with
  | nil => exact .nil
  | cons hhere hbelow _ ihbelow ihafter =>
      obtain ⟨⟨htop, hlevel, -⟩, hinside, hrest⟩ := hf
      obtain ⟨⟨htop', hlevel', -⟩, hinside', hrest'⟩ := hf'
      have hsize := hbelow.size_eq
      refine .cons ⟨hhere, ?_, ?_, congrArg (· + 1) hsize⟩
        (ihbelow hinside hinside' (by omega) (by omega)) (ihafter hrest hrest' (by omega) hdepth)
      · simpa only [Tree.index, htop, htop'] using hindex
      · simpa only [Tree.depth, hlevel, hlevel'] using hdepth

theorem texts_eq (hpaired : f.Paired related f')
    (hsame : ∀ n n', related n n' → n.element.Same n'.element) : f.texts = f'.texts := by
  induction hpaired with
  | nil => rfl
  | cons hhere _ _ ihbelow ihafter =>
      have htext := (hsame _ _ hhere).text
      simp only [Tree.element] at htext
      rw [texts, texts, htext, ihbelow, ihafter]

/-- A search finds partners. -/
theorem collect (hpaired : f.Paired related f')
    (hsame : ∀ n n', related n n' → n.element.Same n'.element) (selector : Selector)
    (levels : Option Nat) :
    List.Forall₂ related (f.collect selector levels) (f'.collect selector levels) := by
  induction hpaired generalizing selector levels with
  | nil => exact .nil
  | cons hhere _ _ ihbelow ihafter =>
      have htop := hsame _ _ hhere
      simp only [Tree.element] at htop
      rw [Forest.collect, Forest.collect]
      refine List.rel_append ?_ (List.rel_append ?_ (ihafter selector levels))
      · simp only [htop.finds_iff]
        split
        next => exact .cons hhere .nil
        next => exact .nil
      · rw [htop.advance_eq]
        split
        next => exact .nil
        next => exact ihbelow _ _

end Places
end Paired
end Forest

/-! ## Subtrees with the same elements -/

/-- The two nodes have the same elements in the same places, in themselves and below. -/
def Tree.Same (a b : Node) : Prop :=
  a.toForest.Paired (fun n n' => n.element.Same n'.element) b.toForest

theorem Tree.same_of_map_eq {a b : Node}
    (hmap : a.toForest.map Place.toElement = b.toForest.map Place.toElement) : a.Same b := by
  have hpaired : ∀ {f f' : Forest Place}, f.map Place.toElement = f'.map Place.toElement →
      f.Paired (fun n n' => n.element.Same n'.element) f' := by
    intro f f' hmap
    induction f generalizing f' with
    | nil =>
        cases f' with
        | nil => exact .nil
        | cons top below after => cases hmap
    | cons top below after ihbelow ihafter =>
        cases f' with
        | nil => cases hmap
        | cons top' below' after' =>
            simp only [Forest.map, Forest.cons.injEq] at hmap
            obtain ⟨htop, hbelow, hafter⟩ := hmap
            refine .cons ?_ (ihbelow hbelow) (ihafter hafter)
            simp only [Tree.element, htop]
            exact .refl _
  exact hpaired hmap

/-- The second pair of nodes stands at one and the same place within the first, in document order. -/
def Tree.Counterpart (a b n n' : Node) : Prop :=
  ∃ place : Nat, a.subtrees[place]? = some n ∧ b.subtrees[place]? = some n'

/-- Two nodes of two documents that have trees, with the same elements in the same places. -/
structure Document.Copies (doc doc' : Document) (a b : Node) : Prop where
  numbered : doc.Numbered
  numbered' : doc'.Numbered
  tree : doc.isError = false
  tree' : doc'.isError = false
  mem : a ∈ doc.root.subtrees
  mem' : b ∈ doc'.root.subtrees
  same : a.Same b

/-- What is known of two nodes that are counterparts within `a` and `b`. -/
structure Tree.Twins (a b n n' : Node) : Prop where
  mem : n ∈ a.subtrees
  mem' : n' ∈ b.subtrees
  element : n.element.Same n'.element
  index : n.index + b.index = n'.index + a.index
  depth : n.depth + b.depth = n'.depth + a.depth
  size : n.size = n'.size

namespace Document.Copies

variable {doc doc' : Document} {a b n n' m m' : Node}

theorem paired (hcopies : doc.Copies doc' a b) : a.toForest.Paired (a.Twins b) b.toForest := by
  have hshifted := hcopies.same.shifted (hcopies.numbered.subtree hcopies.mem)
    (hcopies.numbered'.subtree hcopies.mem') (Nat.add_comm a.index b.index)
    (Nat.add_comm a.depth b.depth)
  apply hshifted.imp
  rintro n hn n' hn' ⟨helement, hindex, hdepth, hsize⟩
  rw [Tree.subtrees_toForest] at hn hn'
  exact ⟨hn, hn', helement, hindex, hdepth, hsize⟩

theorem mem_root (hcopies : doc.Copies doc' a b) (htwins : a.Twins b n n') :
    n ∈ doc.root.subtrees ∧ n' ∈ doc'.root.subtrees :=
  ⟨Tree.subtrees_trans hcopies.mem htwins.mem, Tree.subtrees_trans hcopies.mem' htwins.mem'⟩

theorem top (hcopies : doc.Copies doc' a b) : a.Twins b a b := by
  cases hcopies.paired with
  | cons hhere _ _ => exact hhere

/-- What lies below counterparts is made of counterparts. -/
theorem paired_of_twins (hcopies : doc.Copies doc' a b) (htwins : a.Twins b n n') :
    n.toForest.Paired (a.Twins b) n'.toForest := by
  have hn : n ∈ a.toForest.subtrees := by
    rw [Tree.subtrees_toForest]
    exact htwins.mem
  obtain ⟨partner, -, hpartner, hpaired⟩ := hcopies.paired.exists_partner hn
  -- the number says which node the partner is
  have hindex := hpartner.index
  rw [htwins.index, Nat.add_right_cancel_iff] at hindex
  rwa [hcopies.numbered'.eq_of_index (hcopies.mem_root htwins).2 (hcopies.mem_root hpartner).2 hindex]

theorem counterpart_iff (hcopies : doc.Copies doc' a b) : a.Counterpart b n n' ↔ a.Twins b n n' := by
  have hsubtrees := hcopies.paired.subtrees
  rw [Tree.subtrees_toForest, Tree.subtrees_toForest] at hsubtrees
  constructor
  · rintro ⟨place, hn, hn'⟩
    obtain ⟨hlt, rfl⟩ := List.getElem?_eq_some_iff.mp hn
    obtain ⟨hlt', rfl⟩ := List.getElem?_eq_some_iff.mp hn'
    exact hsubtrees.get hlt hlt'
  · intro htwins
    have hn := htwins.mem
    have hn' := htwins.mem'
    rw [← Tree.subtrees_toForest] at hn hn'
    have hplace := (hcopies.numbered.subtree hcopies.mem).getElem?_index hn
    have hplace' := (hcopies.numbered'.subtree hcopies.mem').getElem?_index hn'
    have hbound := ((hcopies.numbered.subtree hcopies.mem).index_bounds hn).1
    have hbound' := ((hcopies.numbered'.subtree hcopies.mem').index_bounds hn').1
    have hshift : n'.index - b.index = n.index - a.index := by
      have := htwins.index
      omega
    rw [Tree.subtrees_toForest] at hplace hplace'
    rw [hshift] at hplace'
    exact ⟨n.index - a.index, hplace, hplace'⟩

theorem textContent_eq (hcopies : doc.Copies doc' a b) (htwins : a.Twins b n n') (separator : Text) :
    n.textContent separator = n'.textContent separator := by
  rw [Tree.textContent, Tree.textContent,
    (hcopies.paired_of_twins htwins).texts_eq fun _ _ hhere => hhere.element]

/-- Under counterparts a search finds counterparts. -/
theorem find (hcopies : doc.Copies doc' a b) (htwins : a.Twins b n n') (selector : Selector)
    (self : Bool) (levels : Option Nat) :
    List.Forall₂ (a.Twins b) (n.find selector self levels) (n'.find selector self levels) := by
  apply List.rel_filter _ ((hcopies.paired_of_twins htwins).collect (fun _ _ hhere => hhere.element) _ _)
  intro m m' hm
  have hindex := hm.index
  have htop := htwins.index
  have hsame : m.index = n.index ↔ m'.index = n'.index := by omega
  simp only [Bool.or_eq_true, bne_iff_ne, ne_eq, hsame]

theorem isAncestor_eq (hcopies : doc.Copies doc' a b) (hupper : a.Twins b n n')
    (hlower : a.Twins b m m') : doc.isAncestor n m = doc'.isAncestor n' m' := by
  obtain ⟨hn, hn'⟩ := hcopies.mem_root hupper
  obtain ⟨hm, hm'⟩ := hcopies.mem_root hlower
  have hindex := hupper.index
  have hother := hlower.index
  have hsize := hupper.size
  rw [Bool.eq_iff_iff, hcopies.numbered.isAncestor_iff hn hm, hcopies.numbered'.isAncestor_iff hn' hm',
    hcopies.numbered.mem_below_iff hn hm, hcopies.numbered'.mem_below_iff hn' hm']
  omega

end Document.Copies
end Gleaner
