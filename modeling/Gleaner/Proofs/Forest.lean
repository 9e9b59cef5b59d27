import Gleaner.Forest

/-! # Trees within a forest

A tree within a forest brings everything below it along, and a tree lies strictly below another only
if it is smaller. Every tree within a forest stands at its top or right below exactly one other.
-/

namespace Gleaner

universe u

variable {α : Type u}

namespace Forest

/-- The forest without the trees whose top is to be dropped, wherever they stand. -/
def prune (drop : α → Bool) : Forest α → Forest α
  | nil => nil
  | cons top below after =>
    if drop top then after.prune drop else cons top (below.prune drop) (after.prune drop)

theorem prune_of_none {drop : α → Bool} (hdrop : ∀ a, drop a = false) (f : Forest α) :
    f.prune drop = f := by
  induction f with
  | nil => rfl
  | cons top below after ihbelow ihafter =>
      rw [prune, if_neg (by simp [hdrop]), ihbelow, ihafter]

theorem mem_subtrees_cons {top : α} {below after : Forest α} {n : Tree α} :
    n ∈ (cons top below after).subtrees ↔
      n = ⟨top, below⟩ ∨ n ∈ below.subtrees ∨ n ∈ after.subtrees := by
  simp [subtrees]

/-- What lies below a tree within a forest lies within the forest, in the same order. -/
theorem sublist_subtrees {f : Forest α} {t : Tree α} (ht : t ∈ f.subtrees) :
    t.below.subtrees.Sublist f.subtrees := by
  induction f with
  | nil => simp [subtrees] at ht
  | cons top below after ihbelow ihafter =>
      rw [subtrees]
      rcases mem_subtrees_cons.mp ht with rfl | hbelow | hafter
      · exact (List.sublist_append_left _ _).cons _
      · exact ((ihbelow hbelow).trans (List.sublist_append_left _ _)).cons _
      · exact ((ihafter hafter).trans (List.sublist_append_right _ _)).cons _

theorem mem_subtrees_trans {f : Forest α} {t n : Tree α} (ht : t ∈ f.subtrees)
    (hn : n ∈ t.below.subtrees) : n ∈ f.subtrees :=
  (sublist_subtrees ht).subset hn

theorem mem_subtrees_of_mem_trees {f : Forest α} {t : Tree α} (ht : t ∈ f.trees) :
    t ∈ f.subtrees := by
  induction f with
  | nil => simp [trees] at ht
  | cons top below after _ ihafter =>
      rw [trees, List.mem_cons] at ht
      rw [mem_subtrees_cons]
      exact ht.imp_right fun hafter => .inr (ihafter hafter)

/-- A tree within a forest stands at its top or right below another one. -/
theorem mem_trees_or_child {f : Forest α} {n : Tree α} (hn : n ∈ f.subtrees) :
    n ∈ f.trees ∨ ∃ t ∈ f.subtrees, n ∈ t.children := by
  induction f with
  | nil => simp [subtrees] at hn
  | cons top below after ihbelow ihafter =>
      rcases mem_subtrees_cons.mp hn with rfl | hbelow | hafter
      · exact .inl (by simp [trees])
      · refine .inr ?_
        rcases ihbelow hbelow with htop | ⟨t, ht, hchild⟩
        · exact ⟨⟨top, below⟩, mem_subtrees_cons.mpr (.inl rfl), htop⟩
        · exact ⟨t, mem_subtrees_cons.mpr (.inr (.inl ht)), hchild⟩
      · rcases ihafter hafter with htop | ⟨t, ht, hchild⟩
        · exact .inl (by simp [trees, htop])
        · exact .inr ⟨t, mem_subtrees_cons.mpr (.inr (.inr ht)), hchild⟩

theorem size_le_of_mem_subtrees {f : Forest α} {n : Tree α} (hn : n ∈ f.subtrees) :
    n.size ≤ f.size := by
  induction f with
  | nil => simp [subtrees] at hn
  | cons top below after ihbelow ihafter =>
      rw [size]
      rcases mem_subtrees_cons.mp hn with rfl | hbelow | hafter
      · simp only [Tree.size]
        omega
      · have := ihbelow hbelow
        omega
      · have := ihafter hafter
        omega

end Forest

namespace Tree

theorem mem_subtrees {t n : Tree α} : n ∈ t.subtrees ↔ n = t ∨ n ∈ t.below.subtrees := by
  simp [subtrees]

theorem subtrees_toForest (t : Tree α) : t.toForest.subtrees = t.subtrees := by
  simp [toForest, Forest.subtrees, subtrees]

theorem mem_below_trans {t u n : Tree α} (hu : u ∈ t.below.subtrees)
    (hn : n ∈ u.below.subtrees) : n ∈ t.below.subtrees :=
  Forest.mem_subtrees_trans hu hn

theorem mem_subtrees_of_mem_below {t n : Tree α} (hn : n ∈ t.below.subtrees) : n ∈ t.subtrees :=
  mem_subtrees.mpr (.inr hn)

theorem mem_below_of_mem_subtrees {t u n : Tree α} (hu : u ∈ t.below.subtrees)
    (hn : n ∈ u.subtrees) : n ∈ t.below.subtrees := by
  rcases mem_subtrees.mp hn with rfl | hn
  · exact hu
  · exact mem_below_trans hu hn

theorem mem_below_of_child {t n : Tree α} (hn : n ∈ t.children) : n ∈ t.below.subtrees :=
  Forest.mem_subtrees_of_mem_trees hn

theorem subtrees_trans {t u n : Tree α} (hu : u ∈ t.subtrees) (hn : n ∈ u.subtrees) :
    n ∈ t.subtrees := by
  rcases mem_subtrees.mp hn with rfl | hn
  · exact hu
  · rw [← subtrees_toForest] at hu ⊢
    exact Forest.mem_subtrees_trans hu hn

theorem size_lt_of_mem_below {t n : Tree α} (hn : n ∈ t.below.subtrees) : n.size < t.size :=
  Nat.lt_succ_of_le (Forest.size_le_of_mem_subtrees hn)

/-- No tree lies below itself. -/
theorem notMem_below_self (t : Tree α) : t ∉ t.below.subtrees :=
  fun hself => Nat.lt_irrefl _ (size_lt_of_mem_below hself)

/-- The top of a tree lies below nothing within the tree. -/
theorem notMem_below_of_mem {t n : Tree α} (hn : n ∈ t.subtrees) : t ∉ n.below.subtrees := by
  intro hmem
  rcases mem_subtrees.mp hn with rfl | hbelow
  · exact notMem_below_self _ hmem
  · exact notMem_below_self _ (mem_below_trans hbelow hmem)

end Tree
end Gleaner
