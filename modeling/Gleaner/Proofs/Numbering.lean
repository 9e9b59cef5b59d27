import Gleaner.Markup.Reading
import Gleaner.Proofs.Forest
import Mathlib.Data.List.Nodup

/-! # The numbers of a document

Every document that is read has its nodes numbered in document order, so the nodes of a subtree have
consecutive numbers and a node is known by its number. What lies below a node of a numbered forest is
numbered again, with that node as parent; all other facts follow from this by induction.
-/

namespace Gleaner

namespace Forest

/-- The places are numbered from `next` on in document order, and the tops have the given parent and
depth. -/
def Numbered (parent : Option Nat) (depth next : Nat) : Forest Place → Prop
  | nil => True
  | cons top below after =>
    (top.index = next ∧ top.depth = depth ∧ top.parent = parent) ∧
      below.Numbered (some next) (depth + 1) (next + 1) ∧
      after.Numbered parent depth (next + 1 + below.size)

theorem size_plant (f : Forest Element) (parent : Option Nat) (depth next : Nat) :
    (f.plant parent depth next).size = f.size := by
  induction f generalizing parent depth next with
  | nil => rfl
  | cons top below after ihbelow ihafter => simp only [plant, size, ihbelow, ihafter]

theorem numbered_plant (f : Forest Element) (parent : Option Nat) (depth next : Nat) :
    (f.plant parent depth next).Numbered parent depth next := by
  induction f generalizing parent depth next with
  | nil => trivial
  | cons top below after ihbelow ihafter =>
      refine ⟨⟨rfl, rfl, rfl⟩, ihbelow _ _ _, ?_⟩
      rw [size_plant]
      exact ihafter _ _ _

variable {f : Forest Place} {parent : Option Nat} {depth next : Nat} {n m : Node}

/-- What lies below a node of a numbered forest is numbered on from that node. -/
theorem Numbered.below (hf : f.Numbered parent depth next) (hn : n ∈ f.subtrees) :
    n.below.Numbered (some n.index) (n.depth + 1) (n.index + 1) := by
  induction f generalizing parent depth next with
  | nil => simp [subtrees] at hn
  | cons top below after ihbelow ihafter =>
      obtain ⟨⟨hindex, hdepth, -⟩, hbelow, hafter⟩ := hf
      rcases mem_subtrees_cons.mp hn with rfl | hn | hn
      · simpa only [Tree.index, Tree.depth, hindex, hdepth] using hbelow
      · exact ihbelow hbelow hn
      · exact ihafter hafter hn

/-- In document order the numbers are consecutive. -/
theorem Numbered.index_subtrees (hf : f.Numbered parent depth next) :
    f.subtrees.map Tree.index = List.range' next f.size := by
  induction f generalizing parent depth next with
  | nil => rfl
  | cons top below after ihbelow ihafter =>
      obtain ⟨⟨hindex, -, -⟩, hbelow, hafter⟩ := hf
      rw [subtrees, List.map_cons, List.map_append, ihbelow hbelow, ihafter hafter,
        List.range'_append_1, size, List.range'_succ, Tree.index, hindex]

theorem Numbered.pairwise_index (hf : f.Numbered parent depth next) :
    (f.subtrees.map Tree.index).Pairwise (· < ·) := by
  rw [hf.index_subtrees]
  exact List.pairwise_lt_range'

theorem Numbered.index_bounds (hf : f.Numbered parent depth next) (hn : n ∈ f.subtrees) :
    next ≤ n.index ∧ n.index < next + f.size := by
  have hmem : n.index ∈ f.subtrees.map Tree.index := List.mem_map_of_mem hn
  rwa [hf.index_subtrees, List.mem_range'_1] at hmem

theorem Numbered.eq_of_index (hf : f.Numbered parent depth next) (hn : n ∈ f.subtrees)
    (hm : m ∈ f.subtrees) (hindex : n.index = m.index) : n = m := by
  have hnodup : (f.subtrees.map Tree.index).Nodup := hf.pairwise_index.imp Nat.ne_of_lt
  exact List.inj_on_of_nodup_map hnodup hn hm hindex

theorem Numbered.getElem?_index (hf : f.Numbered parent depth next) (hn : n ∈ f.subtrees) :
    f.subtrees[n.index - next]? = some n := by
  obtain ⟨place, hplace, hget⟩ := List.getElem_of_mem hn
  have hindex : n.index = next + place := by
    have hmap : (f.subtrees.map Tree.index)[place]? = some n.index := by
      simp [List.getElem?_eq_getElem hplace, hget]
    rw [hf.index_subtrees, List.getElem?_range' (by simpa using hplace)] at hmap
    simpa using hmap.symm
  rw [hindex, Nat.add_sub_cancel_left, List.getElem?_eq_getElem hplace, hget]

theorem Numbered.depth_le (hf : f.Numbered parent depth next) (hn : n ∈ f.subtrees) :
    depth ≤ n.depth := by
  induction f generalizing parent depth next with
  | nil => simp [subtrees] at hn
  | cons top below after ihbelow ihafter =>
      obtain ⟨⟨-, hdepth, -⟩, hbelow, hafter⟩ := hf
      rcases mem_subtrees_cons.mp hn with rfl | hn | hn
      · exact Nat.le_of_eq hdepth.symm
      · exact Nat.le_of_succ_le (ihbelow hbelow hn)
      · exact ihafter hafter hn

theorem Numbered.of_mem_trees (hf : f.Numbered parent depth next) (hn : n ∈ f.trees) :
    n.depth = depth ∧ n.top.parent = parent := by
  induction f generalizing parent depth next with
  | nil => simp [trees] at hn
  | cons top below after _ ihafter =>
      obtain ⟨⟨-, hdepth, hparent⟩, -, hafter⟩ := hf
      rcases List.mem_cons.mp hn with rfl | hn
      · exact ⟨hdepth, hparent⟩
      · exact ihafter hafter hn

/-- The nodes below a node are those with the numbers that follow its own. -/
theorem Numbered.mem_below_iff (hf : f.Numbered parent depth next) (hn : n ∈ f.subtrees)
    (hm : m ∈ f.subtrees) :
    m ∈ n.below.subtrees ↔ n.index < m.index ∧ m.index < n.index + n.size := by
  have hbelow := hf.below hn
  constructor
  · intro hmem
    have := hbelow.index_bounds hmem
    simp only [Tree.size]
    omega
  · rintro ⟨hlt, hbound⟩
    have hmem : m.index ∈ n.below.subtrees.map Tree.index := by
      rw [hbelow.index_subtrees, List.mem_range'_1]
      simp only [Tree.size] at hbound
      omega
    obtain ⟨other, hother, hindex⟩ := List.mem_map.mp hmem
    rwa [← hf.eq_of_index (mem_subtrees_trans hn hother) hm hindex]

end Forest

namespace Document

variable {doc : Document} {n m upper lower : Node}

/-- The nodes are numbered from zero on in document order, with the root at depth zero. -/
def Numbered (doc : Document) : Prop := doc.root.toForest.Numbered none 0 0

theorem numbered_ofTree (t : Tree Element) : (ofTree t).Numbered :=
  Forest.numbered_plant t.toForest none 0 0

theorem numbered_ofError (error : DocumentError) : (ofError error).Numbered :=
  Forest.numbered_plant (.cons (Element.ofAttributes [] []) .nil .nil) none 0 0

/-- Whatever text is read, the document is numbered. -/
theorem numbered_parse (skip : List Text) (s : Text) : (Markup.parse skip s).Numbered := by
  unfold Markup.parse Markup.read
  dsimp only
  split
  · unfold Markup.Content.toDocument
    split
    · exact numbered_ofError _
    · exact numbered_ofTree _
    · exact numbered_ofTree _
  · exact numbered_ofError _

theorem Numbered.eq_of_index (hdoc : doc.Numbered) (hn : n ∈ doc.root.subtrees)
    (hm : m ∈ doc.root.subtrees) (hindex : n.index = m.index) : n = m := by
  rw [← Tree.subtrees_toForest] at hn hm
  exact Forest.Numbered.eq_of_index hdoc hn hm hindex

theorem Numbered.below (hdoc : doc.Numbered) (hn : n ∈ doc.root.subtrees) :
    n.below.Numbered (some n.index) (n.depth + 1) (n.index + 1) := by
  rw [← Tree.subtrees_toForest] at hn
  exact Forest.Numbered.below hdoc hn

theorem Numbered.subtree (hdoc : doc.Numbered) (hn : n ∈ doc.root.subtrees) :
    n.toForest.Numbered n.top.parent n.depth n.index :=
  ⟨⟨rfl, rfl, rfl⟩, hdoc.below hn, trivial⟩

theorem Numbered.mem_below_iff (hdoc : doc.Numbered) (hn : n ∈ doc.root.subtrees)
    (hm : m ∈ doc.root.subtrees) :
    m ∈ n.below.subtrees ↔ n.index < m.index ∧ m.index < n.index + n.size := by
  rw [← Tree.subtrees_toForest] at hn hm
  exact Forest.Numbered.mem_below_iff hdoc hn hm

theorem Numbered.node?_index (hdoc : doc.Numbered) (hn : n ∈ doc.root.subtrees) :
    doc.node? n.index = some n := by
  rw [← Tree.subtrees_toForest] at hn
  have hget := Forest.Numbered.getElem?_index hdoc hn
  rw [Nat.sub_zero, Tree.subtrees_toForest] at hget
  rw [node?, doc.nodes_eq, List.getElem?_toArray, hget]

/-- The root has no parent, and every other node stands right below its parent. -/
theorem Numbered.root_or_child (hdoc : doc.Numbered) (hn : n ∈ doc.root.subtrees) :
    (n = doc.root ∧ n.depth = 0 ∧ n.top.parent = none) ∨
      ∃ outer ∈ doc.root.subtrees, n ∈ outer.children ∧ n.depth = outer.depth + 1 ∧
        n.top.parent = some outer.index := by
  rw [← Tree.subtrees_toForest] at hn
  rcases Forest.mem_trees_or_child hn with htop | ⟨outer, houter, hchild⟩
  · have hroot : n = doc.root := by simpa [Tree.toForest, Forest.trees] using htop
    have hplace := Forest.Numbered.of_mem_trees hdoc htop
    exact .inl ⟨hroot, hplace⟩
  · have hplace := (Forest.Numbered.below hdoc houter).of_mem_trees hchild
    rw [Tree.subtrees_toForest] at houter
    exact .inr ⟨outer, houter, hchild, hplace⟩

theorem Numbered.ancestors_of_child (hdoc : doc.Numbered) {outer : Node}
    (houter : outer ∈ doc.root.subtrees) (hdepth : n.depth = outer.depth + 1)
    (hparent : n.top.parent = some outer.index) :
    doc.ancestors n = outer :: doc.ancestors outer := by
  rw [ancestors, hdepth, hparent, climb, hdoc.node?_index houter, ancestors]

/-- The nodes around a node are those below which it lies. -/
theorem Numbered.mem_ancestors_iff (hdoc : doc.Numbered) (hn : n ∈ doc.root.subtrees)
    (hm : m ∈ doc.root.subtrees) : m ∈ doc.ancestors n ↔ n ∈ m.below.subtrees := by
  -- The depth decreases on the way up; a node's parent is found by its number alone.
  induction hdepth : n.depth generalizing n with
  | zero =>
      rcases hdoc.root_or_child hn with ⟨hroot, -, -⟩ | ⟨outer, -, -, houter, -⟩
      · have hnone : doc.ancestors n = [] := by rw [ancestors, hdepth, climb]; simp
        have houtside : n ∉ m.below.subtrees := hroot ▸ Tree.notMem_below_of_mem hm
        simp [hnone, houtside]
      · omega
  | succ depth ih =>
      rcases hdoc.root_or_child hn with ⟨-, hzero, -⟩ | ⟨outer, houter, hchild, hsucc, hparent⟩
      · omega
      · rw [hdoc.ancestors_of_child houter hsucc hparent, List.mem_cons,
          ih houter (by omega)]
        constructor
        · rintro (rfl | habove)
          · exact Tree.mem_below_of_child hchild
          · exact Tree.mem_below_trans habove (Tree.mem_below_of_child hchild)
        · intro hmem
          rcases Forest.mem_trees_or_child hmem with htop | ⟨inner, hinner, hinside⟩
          · have hplace := (hdoc.below hm).of_mem_trees htop
            have hindex : m.index = outer.index := by
              simpa [hparent] using hplace.2.symm
            exact .inl (hdoc.eq_of_index hm houter hindex)
          · have hroot : inner ∈ doc.root.subtrees :=
              Tree.subtrees_trans hm (Tree.mem_subtrees_of_mem_below hinner)
            have hplace := (hdoc.below hroot).of_mem_trees hinside
            have hindex : inner.index = outer.index := by
              simpa [hparent] using hplace.2.symm
            exact .inr (hdoc.eq_of_index hroot houter hindex ▸ hinner)

theorem Numbered.depth_lt_of_mem_below (hdoc : doc.Numbered) (hn : n ∈ doc.root.subtrees)
    (hm : m ∈ n.below.subtrees) : n.depth < m.depth :=
  (hdoc.below hn).depth_le hm

theorem mem_of_node? {n : Node} {i : Nat} (hn : doc.node? i = some n) : n ∈ doc.root.subtrees := by
  rw [node?, doc.nodes_eq, List.getElem?_toArray] at hn
  exact List.mem_of_getElem? hn

theorem mem_root_of_mem_climb {steps : Nat} {index : Option Nat}
    (hm : m ∈ doc.climb steps index) : m ∈ doc.root.subtrees := by
  fun_induction doc.climb steps index with
  | case1 steps index n hnode ih =>
      rcases List.mem_cons.mp hm with rfl | hm
      · exact mem_of_node? hnode
      · exact ih hm
  | case2 => simp at hm
  | case3 => simp at hm

/-- One node is around another exactly if the other lies below it. -/
theorem Numbered.isAncestor_iff (hdoc : doc.Numbered) (hupper : upper ∈ doc.root.subtrees)
    (hlower : lower ∈ doc.root.subtrees) :
    doc.isAncestor upper lower = true ↔ lower ∈ upper.below.subtrees := by
  rw [isAncestor, Bool.and_eq_true, decide_eq_true_eq, List.any_eq_true]
  constructor
  · rintro ⟨-, other, hother, hindex⟩
    have hroot := mem_root_of_mem_climb hother
    have hsame := hdoc.eq_of_index hroot hupper (by simpa using hindex)
    exact (hdoc.mem_ancestors_iff hlower hupper).mp (hsame ▸ hother)
  · intro hmem
    refine ⟨hdoc.depth_lt_of_mem_below hupper hmem, upper, ?_, by simp⟩
    exact (hdoc.mem_ancestors_iff hlower hupper).mpr hmem

end Document
end Gleaner
