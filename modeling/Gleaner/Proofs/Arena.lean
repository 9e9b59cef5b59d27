import Gleaner.Proofs.Numbering

/-! # The nodes of a document as an arena

Seen from outside a document is a row of nodes that name their parent and their children by number.
Every document that is read gives such a row in good order: the numbers are the places in the row, the
links of parents and children agree, and a walk along the children comes by all nodes in the
order of the row. A walk is a loop with the numbers still to visit; it comes by all that lies in a
forest before it comes to what waits behind the forest.
-/

namespace Gleaner

/-- The numbers of the nodes right below the node. -/
def Tree.childNumbers (n : Node) : List Nat := n.children.map Tree.index

namespace Document

/-- The numbers that a walk of at most `steps` steps comes by, when those in `pending` are still to be
visited, each followed by its children. A number without a node ends the walk. -/
def walk (doc : Document) : (steps : Nat) → (pending : List Nat) → List Nat
  | steps + 1, i :: pending =>
    match doc.node? i with
    | some n => i :: doc.walk steps (n.childNumbers ++ pending)
    | none => []
  | _, _ => []

/-- The nodes are in good order as a row in which parents and children are numbers. -/
structure WellOrdered (doc : Document) : Prop where
  nonempty : 0 < doc.nodes.size
  index : ∀ i n, doc.node? i = some n → n.index = i
  orphan : ∀ i n, doc.node? i = some n → (n.top.parent = none ↔ i = 0)
  depth_root : ∀ n, doc.node? 0 = some n → n.depth = 0
  parent : ∀ i n p, doc.node? i = some n → n.top.parent = some p →
    p < i ∧ ∃ outer, doc.node? p = some outer ∧ outer.childNumbers.count i = 1 ∧
      n.depth = outer.depth + 1
  /-- What is named as a child names the node as its parent, so it is the child of no other. -/
  child : ∀ p outer, doc.node? p = some outer → ∀ i ∈ outer.childNumbers,
    ∃ n, doc.node? i = some n ∧ n.top.parent = some p
  increasing : ∀ p outer, doc.node? p = some outer → outer.childNumbers.Pairwise (· < ·)
  walk : ∀ steps, doc.nodes.size ≤ steps → doc.walk steps [0] = List.range doc.nodes.size
  /-- Every subtree has the numbers from that of its top on, up to its size. -/
  subtree : ∀ i n, doc.node? i = some n → ∀ steps, n.size ≤ steps →
    doc.walk steps [i] = List.range' i n.size

/-- The document is a lone nameless node that is neither below nor above another. -/
structure Sentinel (doc : Document) : Prop where
  nodes : doc.nodes = #[doc.root]
  index : doc.root.index = 0
  tag : doc.root.element.tag = []
  parent : doc.root.top.parent = none
  children : doc.root.childNumbers = []
  depth : doc.root.depth = 0

end Document

namespace Forest

variable {α : Type}

theorem trees_sublist_subtrees (f : Forest α) : f.trees.Sublist f.subtrees := by
  induction f with
  | nil => exact List.Sublist.slnil
  | cons top below after _ ihafter =>
      exact (ihafter.trans (List.sublist_append_right _ _)).cons_cons _

end Forest

namespace Document

variable {doc : Document} {n m : Node} {i : Nat}

theorem size_nodes (doc : Document) : doc.nodes.size = doc.root.size := by
  rw [doc.nodes_eq, List.size_toArray, ← Tree.subtrees_toForest, Forest.length_subtrees]
  simp [Tree.toForest, Forest.size, Tree.size]

theorem Numbered.index_subtrees (hdoc : doc.Numbered) (hn : n ∈ doc.root.subtrees) :
    n.subtrees.map Tree.index = List.range' n.index n.size := by
  have hrange := (hdoc.subtree hn).index_subtrees
  rw [Tree.subtrees_toForest] at hrange
  simpa [Tree.toForest, Forest.size, Tree.size] using hrange

theorem Numbered.root_index (hdoc : doc.Numbered) : doc.root.index = 0 := hdoc.1.1

/-- A node stands in the row at the place that is its number. -/
theorem Numbered.index_of_node? (hdoc : doc.Numbered) (hn : doc.node? i = some n) :
    n.index = i := by
  have hrange := hdoc.index_subtrees (Tree.mem_subtrees.mpr (.inl rfl))
  have hplace : (doc.root.subtrees.map Tree.index)[i]? = some n.index := by
    rw [node?, doc.nodes_eq, List.getElem?_toArray] at hn
    rw [List.getElem?_map, hn]
    rfl
  obtain ⟨hbound, -⟩ := List.getElem?_eq_some_iff.mp hplace
  rw [hrange, List.getElem?_range' (by simpa [hrange] using hbound), hdoc.root_index] at hplace
  simpa using hplace.symm

/-- The node at a place is the node with that number. -/
theorem Numbered.node?_eq_some (hdoc : doc.Numbered) :
    doc.node? i = some n ↔ n ∈ doc.root.subtrees ∧ n.index = i := by
  constructor
  · exact fun hn => ⟨mem_of_node? hn, hdoc.index_of_node? hn⟩
  · rintro ⟨hn, rfl⟩
    exact hdoc.node?_index hn

theorem Numbered.pairwise_childNumbers (hdoc : doc.Numbered) (hn : n ∈ doc.root.subtrees) :
    n.childNumbers.Pairwise (· < ·) :=
  (hdoc.below hn).pairwise_index.sublist ((Forest.trees_sublist_subtrees n.below).map Tree.index)

/-- A walk that has a forest of the document before it comes by all of it, in document order, and goes
on with what was waiting. -/
theorem Numbered.walk_trees (hdoc : doc.Numbered) {f : Forest Place}
    (hf : ∀ n ∈ f.subtrees, n ∈ doc.root.subtrees) (steps : Nat) (pending : List Nat) :
    doc.walk (f.size + steps) (f.trees.map Tree.index ++ pending) =
      f.subtrees.map Tree.index ++ doc.walk steps pending := by
  induction f generalizing steps pending with
  | nil => simp [Forest.size, Forest.trees, Forest.subtrees]
  | cons top below after ihbelow ihafter =>
      simp only [Forest.subtrees, List.forall_mem_cons, List.mem_append, or_imp, forall_and] at hf
      obtain ⟨htop, hbelow, hafter⟩ := hf
      have hsteps : (Forest.cons top below after).size + steps =
          below.size + (after.size + steps) + 1 := by
        simp only [Forest.size]
        omega
      rw [hsteps, Forest.trees, List.map_cons, List.cons_append, walk, hdoc.node?_index htop]
      dsimp only
      rw [Tree.childNumbers, Tree.children, ihbelow hbelow, ihafter hafter]
      simp [Forest.subtrees]

theorem Numbered.walk_subtree (hdoc : doc.Numbered) (hn : n ∈ doc.root.subtrees) {steps : Nat}
    (hsteps : n.size ≤ steps) : doc.walk steps [n.index] = List.range' n.index n.size := by
  have hinside : ∀ m ∈ n.toForest.subtrees, m ∈ doc.root.subtrees := by
    intro m hm
    rw [Tree.subtrees_toForest] at hm
    exact Tree.subtrees_trans hn hm
  have hwalk := hdoc.walk_trees hinside (steps - n.size) []
  have hsize : n.toForest.size + (steps - n.size) = steps := by
    simp only [Tree.toForest, Forest.size, Tree.size] at hsteps ⊢
    omega
  have hrest : doc.walk (steps - n.size) [] = [] := by cases steps - n.size <;> rfl
  rwa [hsize, hrest, Tree.subtrees_toForest, hdoc.index_subtrees hn, List.append_nil,
    List.append_nil] at hwalk

theorem Numbered.wellOrdered (hdoc : doc.Numbered) : doc.WellOrdered where
  nonempty := by
    rw [size_nodes]
    exact Nat.succ_pos _
  index i n hn := hdoc.index_of_node? hn
  orphan i n hn := by
    obtain ⟨hmem, rfl⟩ := hdoc.node?_eq_some.mp hn
    rcases hdoc.root_or_child hmem with ⟨rfl, -, hnone⟩ | ⟨outer, houter, hchild, -, hparent⟩
    · simp [hnone, hdoc.root_index]
    · have hbounds := (hdoc.below houter).index_bounds (Tree.mem_below_of_child hchild)
      simp only [hparent, reduceCtorEq, false_iff]
      omega
  depth_root n hn := by
    obtain ⟨hmem, hindex⟩ := hdoc.node?_eq_some.mp hn
    obtain rfl := hdoc.eq_of_index hmem (Tree.mem_subtrees.mpr (.inl rfl))
      (hindex.trans hdoc.root_index.symm)
    exact hdoc.1.2.1
  parent i n p hn hp := by
    obtain ⟨hmem, rfl⟩ := hdoc.node?_eq_some.mp hn
    rcases hdoc.root_or_child hmem with ⟨-, -, hnone⟩ | ⟨outer, houter, hchild, hdepth, hparent⟩
    · rw [hnone] at hp
      cases hp
    · obtain rfl := Option.some.inj (hparent.symm.trans hp)
      have hbounds := (hdoc.below houter).index_bounds (Tree.mem_below_of_child hchild)
      refine ⟨hbounds.1, outer, hdoc.node?_index houter, ?_, hdepth⟩
      have hnodup : outer.childNumbers.Nodup :=
        (hdoc.pairwise_childNumbers houter).imp Nat.ne_of_lt
      exact List.count_eq_one_of_mem hnodup (List.mem_map_of_mem hchild)
  child p outer houter i hi := by
    obtain ⟨hmem, rfl⟩ := hdoc.node?_eq_some.mp houter
    obtain ⟨n, hchild, rfl⟩ := List.mem_map.mp hi
    have hn := Tree.subtrees_trans hmem
      (Tree.mem_subtrees_of_mem_below (Tree.mem_below_of_child hchild))
    exact ⟨n, hdoc.node?_index hn, ((hdoc.below hmem).of_mem_trees hchild).2⟩
  increasing p outer houter := hdoc.pairwise_childNumbers (mem_of_node? houter)
  walk steps hsteps := by
    rw [size_nodes] at hsteps ⊢
    have hwalk := hdoc.walk_subtree (Tree.mem_subtrees.mpr (.inl rfl)) hsteps
    rwa [hdoc.root_index, ← List.range_eq_range'] at hwalk
  subtree i n hn steps hsteps := by
    obtain ⟨hmem, rfl⟩ := hdoc.node?_eq_some.mp hn
    exact hdoc.walk_subtree hmem hsteps

theorem sentinel_ofError (error : DocumentError) : (ofError error).Sentinel :=
  ⟨rfl, rfl, rfl, rfl, rfl, rfl⟩

/-- Reading gives the document of an error or that of a tree. -/
theorem parse_eq_ofError_or_ofTree (skip : List Text) (s : Text) :
    (∃ error, Markup.parse skip s = ofError error) ∨ ∃ t, Markup.parse skip s = ofTree t := by
  unfold Markup.parse Markup.read
  dsimp only
  split
  · unfold Markup.Content.toDocument
    split
    · exact .inl ⟨_, rfl⟩
    · exact .inr ⟨_, rfl⟩
    · exact .inr ⟨_, rfl⟩
  · exact .inl ⟨_, rfl⟩

/-- Whatever text is read, the document is either the lone node that stands for an error or a row of nodes
in good order. -/
theorem parse_wellOrdered (skip : List Text) (s : Text) :
    let doc := Markup.parse skip s
    if doc.isError then doc.Sentinel else doc.WellOrdered := by
  intro doc
  rcases parse_eq_ofError_or_ofTree skip s with ⟨error, hdoc⟩ | ⟨t, hdoc⟩
  · rw [show doc = ofError error from hdoc]
    exact sentinel_ofError error
  · rw [show doc = ofTree t from hdoc]
    exact (numbered_ofTree t).wellOrdered

end Document
end Gleaner
