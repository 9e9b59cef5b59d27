/-! # Forests

A forest is a sequence of trees, given by the top of the first tree, the forest below that top and
the forest after the tree. One induction on this type covers a tree and its list of children at once.
A tree on its own is a top together with the forest below it.
-/

namespace Gleaner

universe u v

/-- A finite sequence of finite trees whose tops carry an `α`. -/
inductive Forest (α : Type u) where
  | nil
  | cons (top : α) (below after : Forest α)
deriving DecidableEq

/-- One tree: its top and the forest of its children. -/
structure Tree (α : Type u) where
  top : α
  below : Forest α
deriving DecidableEq

namespace Forest

variable {α : Type u} {β : Type v}

/-- The trees of `f` followed by those of `g`. -/
def append : Forest α → Forest α → Forest α
  | nil, g => g
  | cons top below after, g => cons top below (after.append g)

instance : Append (Forest α) := ⟨append⟩

@[simp] theorem nil_append (g : Forest α) : nil ++ g = g := rfl

@[simp] theorem cons_append (top : α) (below after g : Forest α) :
    cons top below after ++ g = cons top below (after ++ g) := rfl

@[simp] theorem append_nil (f : Forest α) : f ++ nil = f := by
  induction f with
  | nil => rfl
  | cons top below after _ ih => simp [ih]

theorem append_assoc (f g h : Forest α) : f ++ g ++ h = f ++ (g ++ h) := by
  induction f with
  | nil => rfl
  | cons top below after _ ih => simp [ih]

/-- The same shape with every top changed. -/
def map (change : α → β) : Forest α → Forest β
  | nil => nil
  | cons top below after => cons (change top) (below.map change) (after.map change)

/-- The number of tops. -/
def size : Forest α → Nat
  | nil => 0
  | cons _ below after => below.size + after.size + 1

/-- The trees that stand side by side, in order. -/
def trees : Forest α → List (Tree α)
  | nil => []
  | cons top below after => ⟨top, below⟩ :: after.trees

/-- Every tree within the forest, each before those below it and those after it. -/
def subtrees : Forest α → List (Tree α)
  | nil => []
  | cons top below after => ⟨top, below⟩ :: (below.subtrees ++ after.subtrees)

@[simp] theorem size_append (f g : Forest α) : (f ++ g).size = f.size + g.size := by
  induction f with
  | nil => simp [size]
  | cons top below after _ ih => simp [size, ih]; omega

@[simp] theorem length_subtrees (f : Forest α) : f.subtrees.length = f.size := by
  induction f with
  | nil => rfl
  | cons top below after ihbelow ihafter => simp [subtrees, size, ihbelow, ihafter]

@[simp] theorem subtrees_append (f g : Forest α) :
    (f ++ g).subtrees = f.subtrees ++ g.subtrees := by
  induction f with
  | nil => rfl
  | cons top below after _ ih => simp [subtrees, ih]

end Forest

namespace Tree

variable {α : Type u}

def toForest (t : Tree α) : Forest α := .cons t.top t.below .nil

/-- The tree itself and every tree below it, each before those below it. -/
def subtrees (t : Tree α) : List (Tree α) := t :: t.below.subtrees

/-- The trees right below the top. -/
def children (t : Tree α) : List (Tree α) := t.below.trees

/-- The number of tops. -/
def size (t : Tree α) : Nat := t.below.size + 1

end Tree
end Gleaner
