import Gleaner.Proofs.Arena
import Mathlib.Logic.Relation
import Mathlib.Order.Defs.Unbundled
import Mathlib.Tactic.TFAE

/-! # Nodes around nodes

Whether a node is around another can be seen in four ways: by the test that compares depths first, on the
way up along the parents, on the ways down along the children, and by the numbers alone. On every
document that is read they agree, and the way up from a node ends at the root after as many nodes as
the node's depth says.
-/

namespace Gleaner.Document

/-- The second node has one of the numbers that the first names as those of its children. -/
def NamesChild (doc : Document) (outer inner : Node) : Prop :=
  ∃ i ∈ outer.childNumbers, doc.node? i = some inner

variable {doc : Document} {n m outer inner upper lower : Node}

theorem Numbered.namesChild_iff (hdoc : doc.Numbered) (houter : outer ∈ doc.root.subtrees) :
    doc.NamesChild outer inner ↔ inner ∈ outer.children := by
  have hinside : ∀ m ∈ outer.children, m ∈ doc.root.subtrees := fun m hm =>
    Tree.subtrees_trans houter (Tree.mem_subtrees_of_mem_below (Tree.mem_below_of_child hm))
  constructor
  · rintro ⟨i, hi, hinner⟩
    obtain ⟨m, hm, rfl⟩ := List.mem_map.mp hi
    rw [hdoc.node?_index (hinside m hm)] at hinner
    exact Option.some.inj hinner ▸ hm
  · intro hinner
    exact ⟨inner.index, List.mem_map_of_mem hinner, hdoc.node?_index (hinside inner hinner)⟩

/-- A node of a forest within the document is a top of the forest or reached from one along children. -/
theorem Numbered.exists_top (hdoc : doc.Numbered) {f : Forest Place}
    (hf : ∀ m ∈ f.subtrees, m ∈ doc.root.subtrees) (hn : n ∈ f.subtrees) :
    ∃ top ∈ f.trees, Relation.ReflTransGen doc.NamesChild top n := by
  induction f with
  | nil => simp [Forest.subtrees] at hn
  | cons top below after ihbelow ihafter =>
      simp only [Forest.subtrees, List.forall_mem_cons, List.mem_append, or_imp, forall_and] at hf
      obtain ⟨htop, hbelow, hafter⟩ := hf
      rcases Forest.mem_subtrees_cons.mp hn with rfl | hn | hn
      · exact ⟨_, List.mem_cons_self, .refl⟩
      · obtain ⟨child, hchild, hreach⟩ := ihbelow hbelow hn
        exact ⟨_, List.mem_cons_self, hreach.head ((hdoc.namesChild_iff htop).mpr hchild)⟩
      · obtain ⟨other, hother, hreach⟩ := ihafter hafter hn
        exact ⟨other, List.mem_cons_of_mem _ hother, hreach⟩

/-- Along one child after another one comes to the nodes below a node and to no others. -/
theorem Numbered.transGen_namesChild_iff (hdoc : doc.Numbered) (hupper : upper ∈ doc.root.subtrees) :
    Relation.TransGen doc.NamesChild upper lower ↔ lower ∈ upper.below.subtrees := by
  have hinside : ∀ m ∈ upper.below.subtrees, m ∈ doc.root.subtrees := fun m hm =>
    Tree.subtrees_trans hupper (Tree.mem_subtrees_of_mem_below hm)
  constructor
  · intro hreach
    induction hreach with
    | single hchild => exact Tree.mem_below_of_child ((hdoc.namesChild_iff hupper).mp hchild)
    | tail _ hchild ih =>
        have hstep := (hdoc.namesChild_iff (hinside _ ih)).mp hchild
        exact Tree.mem_below_trans ih (Tree.mem_below_of_child hstep)
  · intro hlower
    obtain ⟨child, hchild, hreach⟩ := hdoc.exists_top hinside hlower
    exact .head' ((hdoc.namesChild_iff hupper).mpr hchild) hreach

/-- What holds of the root, and of the children of every node of which it holds, holds of all nodes. -/
theorem Numbered.induction (hdoc : doc.Numbered)
    {motive : (n : Node) → n ∈ doc.root.subtrees → Prop} (root : ∀ hroot, motive doc.root hroot)
    (child : ∀ {outer n : Node} (houter : outer ∈ doc.root.subtrees) (hn : n ∈ doc.root.subtrees),
      n.depth = outer.depth + 1 → n.top.parent = some outer.index → motive outer houter → motive n hn)
    (n : Node) (hn : n ∈ doc.root.subtrees) : motive n hn := by
  induction hdepth : n.depth generalizing n with
  | zero =>
      rcases hdoc.root_or_child hn with ⟨rfl, -⟩ | ⟨outer, -, -, hsucc, -⟩
      · exact root hn
      · omega
  | succ depth ih =>
      rcases hdoc.root_or_child hn with ⟨rfl, -⟩ | ⟨outer, houter, -, hsucc, hparent⟩
      · exact root hn
      · exact child houter hn hsucc hparent (ih outer houter (by omega))

theorem Numbered.ancestors_root (hdoc : doc.Numbered) : doc.ancestors doc.root = [] := by
  rw [ancestors, show doc.root.depth = 0 from hdoc.1.2.1]
  rfl

/-- The way up ends by itself: more steps than the depth of the node lead to no more nodes. -/
theorem Numbered.climb_eq_ancestors (hdoc : doc.Numbered) (hn : n ∈ doc.root.subtrees) {steps : Nat}
    (hsteps : n.depth ≤ steps) : doc.climb steps n.top.parent = doc.ancestors n := by
  induction n, hn using hdoc.induction generalizing steps with
  | root _ =>
      rw [hdoc.ancestors_root, show doc.root.top.parent = none from hdoc.1.2.2, climb]
      simp
  | child houter _ hdepth hparent ih =>
      rw [hdoc.ancestors_of_child houter hdepth hparent, hparent]
      cases steps with
      | zero => omega
      | succ steps =>
          rw [climb, hdoc.node?_index houter]
          exact congrArg _ (ih (by omega))

theorem Numbered.length_ancestors (hdoc : doc.Numbered) (hn : n ∈ doc.root.subtrees) :
    (doc.ancestors n).length = n.depth := by
  induction n, hn using hdoc.induction with
  | root _ =>
      rw [hdoc.ancestors_root, show doc.root.depth = 0 from hdoc.1.2.1]
      rfl
  | child houter _ hdepth hparent ih =>
      rw [hdoc.ancestors_of_child houter hdepth hparent, List.length_cons, ih, hdepth]

theorem Numbered.getLast?_ancestors (hdoc : doc.Numbered) (hn : n ∈ doc.root.subtrees) :
    (n :: doc.ancestors n).getLast? = some doc.root := by
  induction n, hn using hdoc.induction with
  | root _ => rw [hdoc.ancestors_root, List.getLast?_singleton]
  | child houter _ hdepth hparent ih =>
      rwa [hdoc.ancestors_of_child houter hdepth hparent, List.getLast?_cons_cons]

theorem Numbered.isAncestor_of_mem (hdoc : doc.Numbered) (hn : n ∈ doc.root.subtrees)
    (hm : m ∈ doc.ancestors n) : doc.isAncestor m n = true := by
  have hroot := mem_root_of_mem_climb hm
  exact (hdoc.isAncestor_iff hroot hn).mpr ((hdoc.mem_ancestors_iff hn hroot).mp hm)

/-- Of any two nodes on the way up from a node, the later one is around the earlier one. -/
theorem Numbered.pairwise_ancestors (hdoc : doc.Numbered) (hn : n ∈ doc.root.subtrees) :
    (n :: doc.ancestors n).Pairwise fun inner outer => doc.isAncestor outer inner = true := by
  induction n, hn using hdoc.induction with
  | root _ =>
      rw [hdoc.ancestors_root]
      exact List.pairwise_singleton _ _
  | child houter hn hdepth hparent ih =>
      rw [← hdoc.ancestors_of_child houter hdepth hparent] at ih
      exact List.pairwise_cons.mpr ⟨fun m hm => hdoc.isAncestor_of_mem hn hm, ih⟩

theorem Numbered.isStrictOrder_isAncestor (hdoc : doc.Numbered) :
    IsStrictOrder {n // n ∈ doc.root.subtrees}
      fun upper lower => doc.isAncestor upper lower = true where
  irrefl n hself :=
    Tree.notMem_below_self n.1 ((hdoc.isAncestor_iff n.2 n.2).mp hself)
  trans a b c hab hbc := by
    rw [hdoc.isAncestor_iff a.2 b.2] at hab
    rw [hdoc.isAncestor_iff b.2 c.2] at hbc
    exact (hdoc.isAncestor_iff a.2 c.2).mpr (Tree.mem_below_trans hab hbc)

/-- In every document that is read the test whether one node is around another, the way up, the ways down
and the numbers agree. So being around is a strict order, and the nodes around a node form a chain of as
many as its depth says, which ends at the root because the root alone has no parent. -/
theorem isAncestor_agrees (skip : List Text) (s : Text) :
    let doc := Markup.parse skip s
    (∀ upper ∈ doc.root.subtrees, ∀ lower ∈ doc.root.subtrees,
      List.TFAE [doc.isAncestor upper lower = true,
        upper ∈ doc.ancestors lower,
        Relation.TransGen doc.NamesChild upper lower,
        upper.index < lower.index ∧ lower.index < upper.index + upper.subtrees.length]) ∧
    (IsStrictOrder {n // n ∈ doc.root.subtrees}
      fun upper lower => doc.isAncestor upper lower = true) ∧
    ∀ n ∈ doc.root.subtrees,
      (doc.ancestors n).length = n.depth ∧
      (∀ steps, n.depth ≤ steps → doc.climb steps n.top.parent = doc.ancestors n) ∧
      ((n :: doc.ancestors n).Pairwise fun inner outer => doc.isAncestor outer inner = true) ∧
      (n :: doc.ancestors n).getLast? = some doc.root := by
  intro doc
  have hdoc : doc.Numbered := numbered_parse skip s
  refine ⟨fun upper hupper lower hlower => ?_, hdoc.isStrictOrder_isAncestor, fun n hn => ?_⟩
  · have hsize : upper.subtrees.length = upper.size := by
      rw [Tree.subtrees, List.length_cons, Forest.length_subtrees, Tree.size]
    rw [hsize]
    tfae_have 1 ↔ 2 :=
      (hdoc.isAncestor_iff hupper hlower).trans (hdoc.mem_ancestors_iff hlower hupper).symm
    tfae_have 1 ↔ 3 :=
      (hdoc.isAncestor_iff hupper hlower).trans (hdoc.transGen_namesChild_iff hupper).symm
    tfae_have 1 ↔ 4 :=
      (hdoc.isAncestor_iff hupper hlower).trans (hdoc.mem_below_iff hupper hlower)
    tfae_finish
  · exact ⟨hdoc.length_ancestors hn, fun steps => hdoc.climb_eq_ancestors hn,
      hdoc.pairwise_ancestors hn, hdoc.getLast?_ancestors hn⟩

/-- A bold word in a paragraph, which two elements are around. That its number follows the paragraph's is
enough to know. -/
theorem isAncestor_agrees_bold :
    let doc := Markup.parse [] "<div><p><b>x</b></p><i></i></div>".toList
    let bold : Node := ⟨⟨⟨['b'], none, [], [], ['x']⟩, 2, 2, some 1⟩, .nil⟩
    let paragraph : Node := ⟨⟨⟨['p'], none, [], [], []⟩, 1, 1, some 0⟩, bold.toForest⟩
    paragraph ∈ doc.root.subtrees ∧ bold ∈ doc.root.subtrees ∧
      doc.isAncestor paragraph bold = true ∧ paragraph ∈ doc.ancestors bold ∧
      Relation.TransGen doc.NamesChild paragraph bold ∧ (doc.ancestors bold).length = 2 ∧
      (bold :: doc.ancestors bold).getLast? = some doc.root := by
  intro doc bold paragraph
  have hparagraph : paragraph ∈ doc.root.subtrees := by decide +kernel
  have hbold : bold ∈ doc.root.subtrees := by decide +kernel
  have hnumbers : paragraph.index < bold.index ∧
      bold.index < paragraph.index + paragraph.subtrees.length := by decide
  obtain ⟨hagree, -, hchain⟩ :=
    isAncestor_agrees [] "<div><p><b>x</b></p><i></i></div>".toList
  obtain ⟨hlength, -, -, hlast⟩ := hchain bold hbold
  have hfour := hagree paragraph hparagraph bold hbold
  exact ⟨hparagraph, hbold, (hfour.out 3 0).mp hnumbers, (hfour.out 3 1).mp hnumbers,
    (hfour.out 3 2).mp hnumbers, hlength, hlast⟩

end Gleaner.Document
