import Gleaner.Proofs.Numbering
import Gleaner.Selector.Search
import Mathlib

/-! # What a selector finds

A node is found if a trail of nodes leads to it, each strictly below the one before and each meeting
one compound of the selector. The search takes the first element that meets a compound and never looks
back; nothing is lost by that, since a trail may leave out its first step.
-/

namespace Gleaner

open Forest

namespace Selector

/-- A trail for the compounds leads from somewhere in the forest to the node. -/
def Reaches : Compound → List Compound → Forest Place → Node → Prop
  | compound, [], f, n => n ∈ f.subtrees ∧ compound.Matches n.element
  | compound, next :: more, f, n =>
    ∃ a ∈ f.subtrees, compound.Matches a.element ∧ Reaches next more a.below n

variable {compound next : Compound} {more : List Compound} {f g : Forest Place} {n : Node}

theorem Reaches.mono (hsub : f.subtrees ⊆ g.subtrees) (hreach : Reaches compound more f n) :
    Reaches compound more g n := by
  cases more with
  | nil => exact hreach.imp_left fun hmem => hsub hmem
  | cons next more =>
      obtain ⟨a, ha, hmatch, hreach⟩ := hreach
      exact ⟨a, hsub ha, hmatch, hreach⟩

theorem Reaches.tail (hreach : Reaches compound (next :: more) f n) : Reaches next more f n := by
  obtain ⟨a, ha, -, hreach⟩ := hreach
  exact hreach.mono (sublist_subtrees ha).subset

theorem Reaches.mem (hreach : Reaches compound more f n) : n ∈ f.subtrees := by
  induction more generalizing compound with
  | nil => exact hreach.1
  | cons next more ih => exact ih hreach.tail

/-- One step of the search. Where the first element meets the first compound it may as well be taken,
since a trail that begins further inside can begin with it instead. -/
theorem reaches_cons (selector : Selector) (top : Place) (below after : Forest Place) (n : Node) :
    Reaches selector.first selector.inner (.cons top below after) n ↔
      (selector.Finds top.toElement ∧ n = ⟨top, below⟩) ∨
        Reaches (selector.advance top.toElement).first (selector.advance top.toElement).inner
          below n ∨
        Reaches selector.first selector.inner after n := by
  obtain ⟨first, inner⟩ := selector
  cases inner with
  | nil =>
      simp only [Reaches, Finds, advance, mem_subtrees_cons, true_and]
      constructor
      · rintro ⟨rfl | hbelow | hafter, hmatch⟩
        · exact .inl ⟨hmatch, rfl⟩
        · exact .inr (.inl ⟨hbelow, hmatch⟩)
        · exact .inr (.inr ⟨hafter, hmatch⟩)
      · rintro (⟨hmatch, rfl⟩ | ⟨hbelow, hmatch⟩ | ⟨hafter, hmatch⟩)
        · exact ⟨.inl rfl, hmatch⟩
        · exact ⟨.inr (.inl hbelow), hmatch⟩
        · exact ⟨.inr (.inr hafter), hmatch⟩
  | cons next more =>
      have hfinds : ¬ (Selector.mk first (next :: more)).Finds top.toElement := by simp [Finds]
      simp only [hfinds, false_and, false_or, advance]
      constructor
      · rintro ⟨a, ha, hmatch, hreach⟩
        rcases mem_subtrees_cons.mp ha with rfl | hbelow | hafter
        · have hmatch : first.Matches top.toElement := hmatch
          rw [if_pos hmatch]
          exact .inl hreach
        · have hinside : Reaches first (next :: more) below n := ⟨a, hbelow, hmatch, hreach⟩
          -- if the top meets the compound as well, the trail goes on from there without its first step
          split
          · exact .inl hinside.tail
          · exact .inl hinside
        · exact .inr ⟨a, hafter, hmatch, hreach⟩
      · rintro (hbelow | hafter)
        · split at hbelow
          next hmatch => exact ⟨⟨top, below⟩, mem_subtrees_cons.mpr (.inl rfl), hmatch, hbelow⟩
          next =>
            refine Reaches.mono ?_ hbelow
            intro m hm
            exact mem_subtrees_cons.mpr (.inr (.inl hm))
        · refine Reaches.mono ?_ hafter
          intro m hm
          exact mem_subtrees_cons.mpr (.inr (.inr hm))

/-- The nodes of the trail meet the compounds one by one, each lies strictly below the one before, and
`n` is the last. -/
structure Trail (selector : Selector) (trail : List Node) (n : Node) : Prop where
  matched : List.Forall₂ (fun compound a => compound.Matches a.element) selector.compounds trail
  descends : trail.IsChain fun upper lower => lower ∈ upper.below.subtrees
  ends : trail.getLast? = some n

theorem mem_below_of_isChain {a : Node} {rest : List Node}
    (hchain : (a :: rest).IsChain fun upper lower => lower ∈ upper.below.subtrees) :
    ∀ b ∈ rest, b ∈ a.below.subtrees := by
  induction rest generalizing a with
  | nil => simp
  | cons b rest ih =>
      obtain ⟨hbelow, hchain⟩ := List.isChain_cons_cons.mp hchain
      intro c hc
      rcases List.mem_cons.mp hc with rfl | hc
      · exact hbelow
      · exact Tree.mem_below_trans hbelow (ih hchain c hc)

theorem reaches_iff_trail (compound : Compound) (more : List Compound) (f : Forest Place)
    (n : Node) :
    Reaches compound more f n ↔
      ∃ trail, (Selector.mk compound more).Trail trail n ∧ ∀ a ∈ trail, a ∈ f.subtrees := by
  induction more generalizing compound f with
  | nil =>
      constructor
      · rintro ⟨hmem, hmatch⟩
        refine ⟨[n], ⟨.cons hmatch .nil, .singleton n, rfl⟩, ?_⟩
        simpa using hmem
      · rintro ⟨trail, ⟨hmatched, -, hends⟩, hinside⟩
        obtain ⟨a, rest, hmatch, hrest, rfl⟩ := List.forall₂_cons_left_iff.mp hmatched
        obtain rfl := List.forall₂_nil_left_iff.mp hrest
        obtain rfl : a = n := by simpa using hends
        exact ⟨hinside a (by simp), hmatch⟩
  | cons next more ih =>
      constructor
      · rintro ⟨a, ha, hmatch, hreach⟩
        obtain ⟨trail, ⟨hmatched, hdescends, hends⟩, hinside⟩ := (ih next a.below).mp hreach
        refine ⟨a :: trail, ⟨.cons hmatch hmatched, ?_, ?_⟩, ?_⟩
        · refine List.isChain_cons.mpr ⟨?_, hdescends⟩
          intro b hb
          exact hinside b (List.mem_of_mem_head? hb)
        · rw [List.getLast?_cons, hends]
          rfl
        · intro b hb
          rcases List.mem_cons.mp hb with rfl | hb
          · exact ha
          · exact mem_subtrees_trans ha (hinside b hb)
      · rintro ⟨trail, ⟨hmatched, hdescends, hends⟩, hinside⟩
        obtain ⟨a, rest, hmatch, hrest, rfl⟩ := List.forall₂_cons_left_iff.mp hmatched
        refine ⟨a, hinside a (by simp), hmatch, (ih next a.below).mpr ⟨rest, ⟨hrest, ?_, ?_⟩, ?_⟩⟩
        · exact (List.isChain_cons.mp hdescends).2
        · obtain ⟨b, others, -, -, rfl⟩ := List.forall₂_cons_left_iff.mp hrest
          simpa using hends
        · exact mem_below_of_isChain hdescends

end Selector

namespace Forest

variable {selector : Selector} {levels : Option Nat} {parent : Option Nat} {depth next : Nat}
  {f : Forest Place} {n : Node}

theorem sublist_collect (selector : Selector) (levels : Option Nat) (f : Forest Place) :
    (f.collect selector levels).Sublist f.subtrees := by
  induction f generalizing selector levels with
  | nil => exact .slnil
  | cons top below after ihbelow ihafter =>
      rw [collect, subtrees]
      have hinside : (if levels = some 0 then ([] : List Node)
          else below.collect (selector.advance top.toElement) (levels.map (· - 1))).Sublist
            below.subtrees := by
        split
        · exact List.nil_sublist _
        · exact ihbelow _ _
      split
      · exact (hinside.append (ihafter _ _)).cons_cons _
      · exact (hinside.append (ihafter _ _)).cons _

theorem mem_inside_iff (hf : f.Numbered parent (depth + 1) next)
    (hcollect : n ∈ f.collect selector (levels.map (· - 1)) ↔
      Selector.Reaches selector.first selector.inner f n ∧
        ∀ limit ∈ levels.map (· - 1), n.depth ≤ depth + 1 + limit) :
    (n ∈ if levels = some 0 then [] else f.collect selector (levels.map (· - 1))) ↔
      Selector.Reaches selector.first selector.inner f n ∧
        ∀ limit ∈ levels, n.depth ≤ depth + limit := by
  have hdeeper : Selector.Reaches selector.first selector.inner f n → depth + 1 ≤ n.depth :=
    fun hreach => hf.depth_le hreach.mem
  cases levels with
  | none => simpa using hcollect
  | some limit =>
      cases limit with
      -- no level is left, and whatever is reached inside lies one level deeper at least
      | zero =>
          simp only [if_true, List.not_mem_nil, Option.mem_some_iff, false_iff, not_and]
          intro hreach hshallow
          have := hdeeper hreach
          have := hshallow 0 rfl
          omega
      | succ limit =>
          rw [if_neg (by simp), hcollect]
          simp only [Option.map_some, Option.mem_some_iff, forall_eq', Nat.add_sub_cancel]
          rw [Nat.add_assoc, Nat.add_comm 1 limit]

/-- The search finds exactly the nodes that a trail leads to and that do not lie too deep. -/
theorem mem_collect_iff (hf : f.Numbered parent depth next) :
    n ∈ f.collect selector levels ↔
      Selector.Reaches selector.first selector.inner f n ∧
        ∀ limit ∈ levels, n.depth ≤ depth + limit := by
  induction f generalizing selector levels parent depth next with
  | nil =>
      simp only [collect, List.not_mem_nil, false_iff, not_and]
      intro hreach
      simpa [subtrees] using hreach.mem
  | cons top below after ihbelow ihafter =>
      obtain ⟨⟨-, hdepth, -⟩, hbelow, hafter⟩ := hf
      have hhere : (n ∈ if selector.Finds top.toElement then [(⟨top, below⟩ : Node)] else []) ↔
          selector.Finds top.toElement ∧ n = ⟨top, below⟩ := by
        split
        next hfinds => simp [hfinds]
        next hfinds => simp [hfinds]
      have htop : n = ⟨top, below⟩ → ∀ limit ∈ levels, n.depth ≤ depth + limit := by
        rintro rfl limit -
        exact (Nat.le_of_eq hdepth).trans (Nat.le_add_right _ _)
      rw [collect, List.mem_append, List.mem_append, hhere,
        mem_inside_iff hbelow (ihbelow hbelow), ihafter hafter, Selector.reaches_cons,
        or_and_right, or_and_right, and_assoc, and_iff_left_of_imp htop]

end Forest

namespace Document

variable {doc : Document} {root n : Node} {selector : Selector} {self : Bool} {levels : Option Nat}

theorem sublist_find (root : Node) (selector : Selector) (self : Bool) (levels : Option Nat) :
    (root.find selector self levels).Sublist root.subtrees := by
  rw [← Tree.subtrees_toForest]
  exact List.filter_sublist.trans (Forest.sublist_collect _ _ _)

/-- What a search under a node of a document finds. -/
theorem Numbered.mem_find_iff (hdoc : doc.Numbered) (hroot : root ∈ doc.root.subtrees) :
    n ∈ root.find selector self levels ↔
      n ∈ root.subtrees ∧ (self = true ∨ n ≠ root) ∧
        (∀ limit ∈ levels, n.depth ≤ root.depth + limit) ∧
        ∃ trail, selector.Trail trail n ∧ ∀ a ∈ trail, a ∈ root.subtrees := by
  have hreaches := Selector.reaches_iff_trail selector.first selector.inner root.toForest n
  have hself : n ∈ root.subtrees → (n.index ≠ root.index ↔ n ≠ root) := by
    intro hn
    have hinside := Tree.subtrees_trans hroot hn
    exact not_congr ⟨fun hindex => hdoc.eq_of_index hinside hroot hindex, congrArg _⟩
  rw [Tree.find, List.mem_filter, Forest.mem_collect_iff (hdoc.subtree hroot), Bool.or_eq_true,
    bne_iff_ne]
  constructor
  · rintro ⟨⟨hreach, hlevels⟩, hallowed⟩
    have hn : n ∈ root.subtrees := by simpa [Tree.subtrees_toForest] using hreach.mem
    refine ⟨hn, hallowed.imp_right (hself hn).mp, hlevels, ?_⟩
    simpa only [Tree.subtrees_toForest] using hreaches.mp hreach
  · rintro ⟨hn, hallowed, hlevels, htrail⟩
    rw [← Tree.subtrees_toForest] at htrail
    exact ⟨⟨hreaches.mpr htrail, hlevels⟩, hallowed.imp_right (hself hn).mpr⟩

/-- Whatever is written, what is found comes in document order from the subtree, and within any number
of levels nothing else is found than without a limit. -/
theorem Numbered.selectAll_sound (hdoc : doc.Numbered) (hroot : root ∈ doc.root.subtrees)
    {written : Text} {found : List Node}
    (hfound : doc.selectAll root written self levels = .ok found) :
    (found.map Tree.index).Pairwise (· < ·) ∧ ∀ n ∈ found,
      n ∈ root.subtrees ∧ (self = true ∨ n ≠ root) ∧
        (∀ limit ∈ levels, n.depth ≤ root.depth + limit) ∧
        ∃ all, doc.selectAll root written self none = .ok all ∧ n ∈ all := by
  unfold selectAll at hfound ⊢
  split at hfound
  next =>
    obtain rfl := Except.ok.inj hfound
    simp
  next htree =>
    cases hread : Selector.read written with
    | error error => simp [hread, Except.map] at hfound
    | ok selector =>
        rw [hread] at hfound
        obtain rfl := Except.ok.inj hfound
        have hordered := (hdoc.subtree hroot).pairwise_index
        rw [Tree.subtrees_toForest] at hordered
        refine ⟨hordered.sublist ((sublist_find _ _ _ _).map _), ?_⟩
        intro n hn
        obtain ⟨hmem, hself, hlevels, htrail⟩ := (hdoc.mem_find_iff hroot).mp hn
        refine ⟨hmem, hself, hlevels, root.find selector self none, ?_, ?_⟩
        · rw [if_neg htree]
          rfl
        · exact (hdoc.mem_find_iff hroot).mpr ⟨hmem, hself, by simp, htrail⟩

/-- Under any node of a tree that was read, a readable selector finds, in document order and each
once, exactly the nodes within the levels asked for to which a trail leads from inside the subtree. -/
theorem selectAll_eq_trail_ends (skip : List Text) (s written : Text) (root : Node)
    (selector : Selector) (self : Bool) (levels : Option Nat)
    (htree : (Markup.parse skip s).isError = false)
    (hroot : root ∈ (Markup.parse skip s).root.subtrees)
    (hread : Selector.read written = .ok selector) :
    ∃ found, (Markup.parse skip s).selectAll root written self levels = .ok found ∧
      (found.map Tree.index).Pairwise (· < ·) ∧
      ∀ n, n ∈ found ↔
        n ∈ root.subtrees ∧ (self = true ∨ n ≠ root) ∧
          (∀ limit ∈ levels, n.depth ≤ root.depth + limit) ∧
          ∃ trail, selector.Trail trail n ∧ ∀ a ∈ trail, a ∈ root.subtrees := by
  have hdoc := numbered_parse skip s
  refine ⟨root.find selector self levels, ?_, ?_, fun n => hdoc.mem_find_iff hroot⟩
  · rw [selectAll, htree, hread]
    rfl
  · have hordered := (hdoc.subtree hroot).pairwise_index
    rw [Tree.subtrees_toForest] at hordered
    exact hordered.sublist ((sublist_find _ _ _ _).map _)

/-- In a list with a nested item, only the item right below the list is within one level. -/
theorem selectAll_eq_trail_ends_nested :
    ∃ found, (Markup.parse [] "<ul><li><b></b></li><b></b></ul>".toList).selectAll
        (Markup.parse [] "<ul><li><b></b></li><b></b></ul>".toList).root "ul b".toList false
        (some 1) = .ok found ∧
      (found.map Tree.index).Pairwise (· < ·) ∧
      ∀ n, n ∈ found ↔
        n ∈ (Markup.parse [] "<ul><li><b></b></li><b></b></ul>".toList).root.subtrees ∧
          (false = true ∨ n ≠ (Markup.parse [] "<ul><li><b></b></li><b></b></ul>".toList).root) ∧
          (∀ limit ∈ some 1, n.depth ≤
            (Markup.parse [] "<ul><li><b></b></li><b></b></ul>".toList).root.depth + limit) ∧
          ∃ trail, (Selector.mk (.ofTag (some "ul".toList)) [.ofTag (some "b".toList)]).Trail
              trail n ∧
            ∀ a ∈ trail, a ∈
              (Markup.parse [] "<ul><li><b></b></li><b></b></ul>".toList).root.subtrees :=
  selectAll_eq_trail_ends [] _ _ _ _ false (some 1) (by decide +kernel)
    (Tree.mem_subtrees.mpr (.inl rfl)) (by cbv)

end Document
end Gleaner
