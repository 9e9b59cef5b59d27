import Gleaner.Proofs.PlainSearch
import Gleaner.Proofs.Selection

/-! # Matches are embeddings

A match of a template comes from a map of its slots to nodes: each slot goes to a node strictly below
the node of the slot around it, found there by its selector and fitting its bindings. No node is used
twice. What is taken is never a candidate, a search below a node leaves that node out, and the items of
a listing never lie within one another.
-/

namespace Gleaner

/-- The text and every bound attribute of the node give the slot's bindings their values. -/
structure Slot.Fits (slot : Slot) (n : Node) : Prop where
  text : slot.text = [] ∨
    ∃ r, bindText slot.text (n.textContent Search.textSeparator) = .value r
  attributes : ∀ pair ∈ slot.attributes,
    ∃ value, pair.2.coerce (n.element.rawAttribute pair.1) = .value value

/-- The slot may go to `inner` when the slot around it goes to `outer`. -/
structure Slot.Admits (doc : Document) (slot : Slot) (outer inner : Node) : Prop where
  below : inner ∈ outer.below.subtrees
  found : ∃ found, doc.selectAll outer slot.selector false none = .ok found ∧ inner ∈ found
  fits : slot.Fits inner

/-- The parts below a slot that goes to a node are mapped below that node. The images are listed in the
order of binding, and the sum is that of their depths, the items of listings left out. -/
inductive Parts.Embeds (doc : Document) : Parts → Node → List Node → Nat → Prop
  | done {n : Node} : Embeds doc .done n [] 0
  | absent {slot : Slot} {below after : Parts} {n : Node} {images : List Node} {depths : Nat}
      (hoptional : slot.optional = true) (hafter : Embeds doc after n images depths) :
      Embeds doc (.child slot below after) n images depths
  | mapped {slot : Slot} {below after : Parts} {n m : Node} {inner images : List Node}
      {innerDepths depths : Nat} (hadmits : slot.Admits doc n m)
      (hdirect : slot.direct = true → m ∈ n.children) (hbelow : Embeds doc below m inner innerDepths)
      (hafter : Embeds doc after n images depths) :
      Embeds doc (.child slot below after) n (inner ++ m :: images)
        (m.depth + innerDepths + depths)
  | noItem {name : Text} {slot : Slot} {below : Parts} {n : Node} :
      Embeds doc (.listing name slot below) n [] 0
  | item {name : Text} {slot : Slot} {below : Parts} {n m : Node} {inner images : List Node}
      {innerDepths : Nat} (hadmits : slot.Admits doc n m)
      (hbelow : Embeds doc below m inner innerDepths)
      (hmore : Embeds doc (.listing name slot below) n images 0) :
      Embeds doc (.listing name slot below) n (inner ++ m :: images) 0

/-- A template is mapped with its top going to the node. -/
def Template.Embeds (doc : Document) (t : Template) (n : Node) (images : List Node)
    (depths : Nat) : Prop :=
  t.slot.Fits n ∧ ∃ inner innerDepths, t.below.Embeds doc n inner innerDepths ∧
    images = inner ++ [n] ∧ depths = n.depth + innerDepths

/-- What is claimed for the parts below a node are the numbers of the images of an embedding, all of
them different, below that node, and not taken. -/
def Parts.Placed (doc : Document) (parts : Parts) (n : Node) (taken : Std.ExtHashSet Nat)
    (claimed : List Nat) (depths : Nat) : Prop :=
  ∃ images, parts.Embeds doc n images depths ∧ claimed = images.map Tree.index ∧ claimed.Nodup ∧
    ∀ m ∈ images, m ∈ n.below.subtrees ∧ m.index ∉ taken

/-- What a candidate claims are the numbers of the images of an embedding of the template whose top goes
to its node, all of them different, in that node's subtree, and not taken. -/
def Candidate.Placed (doc : Document) (t : Template) (taken : Std.ExtHashSet Nat)
    (c : Candidate) : Prop :=
  ∃ images, t.Embeds doc c.node images c.depthSum ∧ c.claimed = images.map Tree.index ∧
    c.claimed.Nodup ∧ ∀ m ∈ images, m ∈ c.node.subtrees ∧ m.index ∉ taken

/-- A match was completed to another one by placing the parts below the node. -/
def Parts.Completes (doc : Document) (parts : Parts) (n : Node) (taken : Std.ExtHashSet Nat)
    (fit fit' : Fit) : Prop :=
  ∃ claimed depths, parts.Placed doc n taken claimed depths ∧
    fit'.claimed = fit.claimed ++ claimed ∧ fit'.depthSum = fit.depthSum + depths

/-- All that lies in the node of the first candidate comes before all that lies in that of the second. -/
def Candidate.Before (a b : Candidate) : Prop :=
  ∀ m ∈ a.node.subtrees, ∀ k ∈ b.node.subtrees, m.index < k.index

/-- Where a candidate of a slot may stand, and what made it one. -/
structure Candidate.Stands (doc : Document) (slot : Slot) (attempt : Node → Tally (Option Fit))
    (taken : Std.ExtHashSet Nat) (under : Node) (here direct : Bool) (c : Candidate) : Prop where
  inside : c.node ∈ under.subtrees
  other : here = true ∨ c.node ≠ under
  close : direct = true → c.node.depth ≤ under.depth + 1
  found : ∃ found, doc.selectAll under slot.selector here none = .ok found ∧ c.node ∈ found
  free : c.node.index ∉ taken
  matched : (attempt c.node).outcome = .ok (some ⟨c.record, c.depthSum, c.claimed⟩)

theorem bindAttributes_value {e : Element} {r s : Record} {bindings : List (Text × Binding)}
    (hbind : bindAttributes e r bindings = .value s) :
    ∀ pair ∈ bindings, ∃ value, pair.2.coerce (e.rawAttribute pair.1) = .value value := by
  induction bindings generalizing r with
  | nil => simp
  | cons pair more ih =>
      obtain ⟨name, binding⟩ := pair
      rw [bindAttributes] at hbind
      cases hvalue : binding.coerce (e.rawAttribute name) with
      | value value =>
          rw [hvalue] at hbind
          intro other hother
          rcases List.mem_cons.mp hother with rfl | hother
          · exact ⟨value, hvalue⟩
          · exact ih hbind other hother
      | misfit reason => simp [hvalue, Bound.bind] at hbind
      | unknownKind name => simp [hvalue, Bound.bind] at hbind

theorem Slot.fits_of_bound {slot : Slot} {n : Node} {r : Record} (hbound : slot.bound n = .value r) :
    slot.Fits n := by
  unfold Slot.bound at hbound
  split at hbound
  next hempty =>
    exact ⟨.inl (List.isEmpty_iff.mp hempty), bindAttributes_value hbound⟩
  next =>
    cases htext : bindText slot.text (n.textContent Search.textSeparator) with
    | value s =>
        rw [htext] at hbound
        exact ⟨.inr ⟨s, htext⟩, bindAttributes_value hbound⟩
    | misfit reason => simp [htext, Bound.bind] at hbound
    | unknownKind name => simp [htext, Bound.bind] at hbound

theorem mem_of_deepest? {cs : List Candidate} {best : Candidate} (hbest : deepest? cs = some best) :
    best ∈ cs := by
  induction cs generalizing best with
  | nil => simp [deepest?] at hbest
  | cons c more ih =>
      rw [deepest?] at hbest
      split at hbest
      next =>
        obtain rfl := Option.some.inj hbest
        exact List.mem_cons_self
      next deepest hmore =>
        split at hbest
        · obtain rfl := Option.some.inj hbest
          exact List.mem_cons_of_mem _ (ih hmore)
        · obtain rfl := Option.some.inj hbest
          exact List.mem_cons_self

namespace Plain

open Tally

variable {doc : Document} {slot : Slot} {attempt : Node → Tally (Option Fit)}
  {taken : Std.ExtHashSet Nat} {n m under : Node} {self direct : Bool}

theorem outcome_settle_eq_some {b : Bound Record} {r : Record} :
    (settle b).outcome = .ok (some r) ↔ b = .value r := by
  cases b with
  | value s => simp [settle]
  | misfit reason => simp [settle]
  | unknownKind name => simp [settle]

/-- A slot is matched by binding its own values and matching what stands below it. -/
theorem outcome_matchSlot_eq_some {inside : Fit → Tally (Option Fit)} {fit : Fit} :
    (matchSlot slot inside n).outcome = .ok (some fit) ↔
      ∃ record inner, slot.bound n = .value record ∧
        (inside ⟨record, n.depth, []⟩).outcome = .ok (some inner) ∧
        fit = { inner with claimed := inner.claimed ++ [n.index] } := by
  simp only [matchSlot, outcome_bind_eq_ok, outcome_attempt, true_and, exists_const]
  constructor
  · rintro ⟨bound, hbound, hrest⟩
    cases bound with
    | none => simp at hrest
    | some record =>
        simp only [outcome_bind_eq_ok] at hrest
        obtain ⟨result, hinside, hfit⟩ := hrest
        cases result with
        | none => simp at hfit
        | some inner =>
            simp only [outcome_pure_eq_ok, Option.some.injEq] at hfit
            exact ⟨record, inner, outcome_settle_eq_some.mp hbound, hinside, hfit.symm⟩
  · rintro ⟨record, inner, hbound, hinside, rfl⟩
    refine ⟨some record, outcome_settle_eq_some.mpr hbound, ?_⟩
    simp only [outcome_bind_eq_ok]
    exact ⟨some inner, hinside, by simp⟩

/-- Every candidate stands on one of the nodes tried, in their order, and is what trying that node
alone gives. -/
theorem outcome_tryEach {found : List Node} {cs : List Candidate}
    (hcs : (tryEach attempt taken found).outcome = .ok cs) :
    (cs.map Candidate.node).Sublist found ∧ ∀ c ∈ cs, c.node.index ∉ taken ∧
      (attempt c.node).outcome = .ok (some ⟨c.record, c.depthSum, c.claimed⟩) := by
  induction found generalizing cs with
  | nil =>
      simp only [tryEach, outcome_pure_eq_ok] at hcs
      subst hcs
      simp
  | cons n more ih =>
      rw [tryEach] at hcs
      split at hcs
      next htaken =>
        obtain ⟨hsub, hcandidates⟩ := ih hcs
        exact ⟨hsub.cons n, hcandidates⟩
      next hfree =>
        simp only [outcome_bind_eq_ok] at hcs
        obtain ⟨outcome, hattempt, later, hlater, hresult⟩ := hcs
        obtain ⟨hsub, hcandidates⟩ := ih hlater
        cases outcome with
        | none =>
            simp only [outcome_pure_eq_ok] at hresult
            subst hresult
            exact ⟨hsub.cons n, hcandidates⟩
        | some fit =>
            simp only [outcome_pure_eq_ok] at hresult
            subst hresult
            refine ⟨hsub.cons_cons n, ?_⟩
            intro c hc
            rcases List.mem_cons.mp hc with rfl | hc
            · exact ⟨hfree, hattempt⟩
            · exact hcandidates c hc

/-- Of candidates on nodes in document order those that are kept have nothing in common. -/
theorem pairwise_before_innermost (hdoc : doc.Numbered) {cs : List Candidate}
    (hordered : cs.Pairwise fun a b => a.node.index < b.node.index)
    (hroot : ∀ c ∈ cs, c.node ∈ doc.root.subtrees) :
    (doc.innermost cs).Pairwise Candidate.Before := by
  apply (hordered.sublist List.filter_sublist).imp_of_mem
  intro a b ha hb hlt m hm k hk
  have hkept := (List.mem_filter.mp ha).2
  replace ha := hroot a (List.mem_of_mem_filter ha)
  have hapart : b.node ∉ a.node.below.subtrees := by
    rw [← hdoc.isAncestor_iff ha (hroot b (List.mem_of_mem_filter hb))]
    simp only [Bool.not_eq_true', List.any_eq_false] at hkept
    exact hkept b (List.mem_of_mem_filter hb)
  replace hb := hroot b (List.mem_of_mem_filter hb)
  -- the two subtrees take up intervals of numbers, and `b` neither begins in that of `a` nor before it
  rw [hdoc.mem_below_iff ha hb] at hapart
  rw [← Tree.subtrees_toForest] at hm hk
  have hm := (hdoc.subtree ha).index_bounds hm
  have hk := (hdoc.subtree hb).index_bounds hk
  simp only [Tree.toForest, Forest.size, Tree.size] at *
  omega

/-- The candidates of a slot have nothing in common and stand where they may. -/
theorem outcome_candidates (hdoc : doc.Numbered) (hunder : under ∈ doc.root.subtrees)
    {cs : List Candidate}
    (hcs : (candidates doc slot attempt taken under self direct).outcome = .ok cs) :
    cs.Pairwise Candidate.Before ∧
      ∀ c ∈ cs, c.Stands doc slot attempt taken under self direct := by
  unfold candidates at hcs
  split at hcs
  next => simp at hcs
  next found hfound =>
    simp only [outcome_bind_eq_ok, outcome_pure_eq_ok] at hcs
    obtain ⟨matched, hmatched, rfl⟩ := hcs
    obtain ⟨hordered, hsound⟩ := hdoc.selectAll_sound hunder hfound
    obtain ⟨hsub, hcandidates⟩ := outcome_tryEach hmatched
    have hnode : ∀ c ∈ matched, c.node ∈ found :=
      fun c hc => hsub.subset (List.mem_map_of_mem hc)
    constructor
    · apply pairwise_before_innermost hdoc
      · have hindices := hordered.sublist (hsub.map Tree.index)
        rwa [List.map_map, List.pairwise_map] at hindices
      · intro c hc
        exact Tree.subtrees_trans hunder (hsound _ (hnode c hc)).1
    · intro c hc
      replace hc := List.mem_of_mem_filter hc
      obtain ⟨hmem, hself, hlevels, hall⟩ := hsound _ (hnode c hc)
      obtain ⟨hfree, hattempt⟩ := hcandidates c hc
      refine ⟨hmem, hself, ?_, hall, hfree, hattempt⟩
      rintro rfl
      exact hlevels 1 rfl

/-- A candidate is placed if what stands below its slot is. -/
theorem placed_of_matchSlot (hdoc : doc.Numbered) {t : Template} {c : Candidate}
    (hnode : c.node ∈ doc.root.subtrees) (hfree : c.node.index ∉ taken)
    (hbelow : ∀ {fit fit' : Fit},
      (matchParts doc t.below c.node taken fit).outcome = .ok (some fit') →
        t.below.Completes doc c.node taken fit fit')
    (hattempt : (matchSlot t.slot (matchParts doc t.below c.node taken) c.node).outcome =
      .ok (some ⟨c.record, c.depthSum, c.claimed⟩)) : c.Placed doc t taken := by
  obtain ⟨record, inner, hbound, hinside, hfit⟩ := outcome_matchSlot_eq_some.mp hattempt
  obtain ⟨claimed, depths, ⟨images, hembeds, himages, hnodup, hplaced⟩, hclaimed, hdepths⟩ :=
    hbelow hinside
  simp only [Fit.mk.injEq] at hfit
  obtain ⟨-, hdepthSum, hall⟩ := hfit
  have hlist : c.claimed = (images ++ [c.node]).map Tree.index := by
    rw [hall, hclaimed, himages]
    simp
  refine ⟨images ++ [c.node], ⟨Slot.fits_of_bound hbound, images, depths, hembeds, rfl, ?_⟩, hlist,
    ?_, ?_⟩
  · rw [hdepthSum, hdepths]
  · rw [hlist, List.map_append, ← himages]
    refine List.nodup_append'.mpr ⟨hnodup, List.nodup_singleton _, ?_⟩
    rw [List.map_singleton, List.disjoint_singleton, himages, List.mem_map]
    rintro ⟨m, hm, hindex⟩
    -- what lies below a node has greater numbers, so the node itself is new
    have hmem := (hplaced m hm).1
    have hroot := Tree.subtrees_trans hnode (Tree.mem_subtrees_of_mem_below hmem)
    have := (hdoc.mem_below_iff hnode hroot).mp hmem
    omega
  · intro m hm
    rcases List.mem_append.mp hm with hm | hm
    · exact ⟨Tree.mem_subtrees_of_mem_below (hplaced m hm).1, (hplaced m hm).2⟩
    · obtain rfl := List.mem_singleton.mp hm
      exact ⟨Tree.mem_subtrees.mpr (.inl rfl), hfree⟩

/-- A child is placed by the candidate chosen for it, if the parts after it are placed with what the
candidate claims taken as well. -/
theorem placed_child {below after : Parts} {best : Candidate} {claimed : List Nat} {depths : Nat}
    (hadmits : slot.Fits best.node → slot.Admits doc n best.node)
    (hdirect : slot.direct = true → best.node ∈ n.children)
    (hbest : best.Placed doc ⟨slot, below⟩ taken)
    (hafter : after.Placed doc n (taken.insertMany best.claimed) claimed depths) :
    (Parts.child slot below after).Placed doc n taken (best.claimed ++ claimed)
      (best.depthSum + depths) := by
  obtain ⟨own, ⟨hfits, inner, innerDepths, hinner, rfl, hsum⟩, hown, hownNodup, hownInside⟩ := hbest
  obtain ⟨images, hembeds, himages, hnodup, hplaced⟩ := hafter
  have hbelow := (hadmits hfits).below
  refine ⟨inner ++ best.node :: images, ?_, ?_, ?_, ?_⟩
  · rw [hsum]
    exact .mapped (hadmits hfits) hdirect hinner hembeds
  · rw [hown, himages]
    simp
  · refine List.nodup_append'.mpr ⟨hownNodup, hnodup, ?_⟩
    intro i hi hlater
    -- what comes later was placed with the claims of the candidate taken
    rw [himages, List.mem_map] at hlater
    obtain ⟨m, hm, rfl⟩ := hlater
    exact (hplaced m hm).2 (Std.ExtHashSet.mem_insertMany_list.mpr (.inr (by simpa using hi)))
  · intro m hm
    rw [List.append_cons, List.mem_append] at hm
    rcases hm with hm | hm
    · exact ⟨Tree.mem_below_of_mem_subtrees hbelow (hownInside m hm).1, (hownInside m hm).2⟩
    · refine ⟨(hplaced m hm).1, ?_⟩
      intro htaken
      exact (hplaced m hm).2 (Std.ExtHashSet.mem_insertMany_list.mpr (.inl htaken))

/-- Candidates with nothing in common make up the items of a listing. -/
theorem placed_listing (name : Text) {below : Parts} {items : List Candidate}
    (hapart : items.Pairwise Candidate.Before)
    (hadmits : ∀ c ∈ items, slot.Fits c.node → slot.Admits doc n c.node)
    (hplaced : ∀ c ∈ items, c.Placed doc ⟨slot, below⟩ taken) :
    ∃ images, (Parts.listing name slot below).Embeds doc n images 0 ∧
      items.flatMap (·.claimed) = images.map Tree.index ∧ (items.flatMap (·.claimed)).Nodup ∧
      ∀ m ∈ images, m.index ∉ taken ∧ ∃ c ∈ items, m ∈ c.node.subtrees := by
  induction items with
  | nil => exact ⟨[], .noItem, rfl, List.nodup_nil, by simp⟩
  | cons c items ih =>
      rw [List.forall_mem_cons] at hadmits hplaced
      obtain ⟨hfirst, hapart⟩ := List.pairwise_cons.mp hapart
      obtain ⟨images, hembeds, hclaimed, hnodup, hinside⟩ := ih hapart hadmits.2 hplaced.2
      obtain ⟨own, ⟨hfits, inner, innerDepths, hinner, rfl, -⟩, hown, hownNodup, hownInside⟩ :=
        hplaced.1
      refine ⟨inner ++ c.node :: images, .item (hadmits.1 hfits) hinner hembeds, ?_, ?_, ?_⟩
      · rw [List.flatMap_cons, hown, hclaimed]
        simp
      · rw [List.flatMap_cons]
        refine List.nodup_append'.mpr ⟨hownNodup, hnodup, ?_⟩
        intro i hi hlater
        -- items on either side of the gap lie in subtrees that come one after the other
        rw [hown, List.mem_map] at hi
        rw [hclaimed, List.mem_map] at hlater
        obtain ⟨m, hm, rfl⟩ := hi
        obtain ⟨k, hk, hindex⟩ := hlater
        obtain ⟨-, other, hother, hkother⟩ := hinside k hk
        have := hfirst other hother m (hownInside m hm).1 k hkother
        omega
      · intro m hm
        rw [List.append_cons, List.mem_append] at hm
        rcases hm with hm | hm
        · exact ⟨(hownInside m hm).2, c, List.mem_cons_self, (hownInside m hm).1⟩
        · obtain ⟨hfree, other, hother, hmem⟩ := hinside m hm
          exact ⟨hfree, other, List.mem_cons_of_mem _ hother, hmem⟩

theorem mem_children_of_depth (hdoc : doc.Numbered) (hn : n ∈ doc.root.subtrees)
    (hm : m ∈ n.below.subtrees) (hdepth : m.depth ≤ n.depth + 1) : m ∈ n.children := by
  rcases Forest.mem_trees_or_child hm with htop | ⟨t, ht, hchild⟩
  · exact htop
  · have hroot := Tree.subtrees_trans hn (Tree.mem_subtrees_of_mem_below ht)
    have := (hdoc.below hn).depth_le ht
    have := ((hdoc.below hroot).of_mem_trees hchild).1
    omega

/-- A candidate of a search that leaves the node itself out stands below the node. -/
theorem mem_below_of_stands {c : Candidate}
    (hstands : c.Stands doc slot attempt taken n false direct) : c.node ∈ n.below.subtrees := by
  rcases Tree.mem_subtrees.mp hstands.inside with hself | hbelow
  · exact absurd hself (hstands.other.resolve_left Bool.false_ne_true)
  · exact hbelow

theorem admits_of_stands {c : Candidate}
    (hstands : c.Stands doc slot attempt taken n false direct) (hfits : slot.Fits c.node) :
    slot.Admits doc n c.node :=
  ⟨mem_below_of_stands hstands, hstands.found, hfits⟩

/-- Whatever parts of a template a match is made of, they are placed below its node. -/
theorem placed_of_matchParts (hdoc : doc.Numbered) (parts : Parts)
    (hn : n ∈ doc.root.subtrees) {fit fit' : Fit}
    (hfit : (matchParts doc parts n taken fit).outcome = .ok (some fit')) :
    parts.Completes doc n taken fit fit' := by
  -- what is taken grows from child to child, and the node changes from slot to slot
  induction parts generalizing n taken fit fit' with
  | done =>
      simp only [matchParts, outcome_pure_eq_ok, Option.some.injEq] at hfit
      subst hfit
      exact ⟨[], 0, ⟨[], .done, rfl, List.nodup_nil, by simp⟩, by simp, by simp⟩
  | child slot below after ihbelow ihafter =>
      simp only [matchParts, outcome_bind_eq_ok] at hfit
      obtain ⟨found, hfound, hrest⟩ := hfit
      split at hrest
      next =>
        split at hrest
        next hoptional =>
          obtain ⟨claimed, depths, ⟨images, hembeds, hplaced⟩, hgrown⟩ := ihafter hn hrest
          exact ⟨claimed, depths, ⟨images, .absent hoptional hembeds, hplaced⟩, hgrown⟩
        next => simp at hrest
      next best hbest =>
        have hstands := (outcome_candidates hdoc hn hfound).2 best (mem_of_deepest? hbest)
        have hinside := mem_below_of_stands hstands
        have hnode := Tree.subtrees_trans hn hstands.inside
        have hplaced : best.Placed doc ⟨slot, below⟩ taken :=
          placed_of_matchSlot hdoc hnode hstands.free (ihbelow hnode) hstands.matched
        obtain ⟨claimed, depths, hafter, hclaimed, hdepths⟩ := ihafter hn hrest
        refine ⟨best.claimed ++ claimed, best.depthSum + depths,
          placed_child (admits_of_stands hstands) ?_ hplaced hafter, ?_, ?_⟩
        · intro hdirect
          exact mem_children_of_depth hdoc hn hinside (hstands.close hdirect)
        · rw [hclaimed, Fit.choose, List.append_assoc]
        · rw [hdepths, Fit.choose, Nat.add_assoc]
  | listing name slot below ihbelow =>
      simp only [matchParts, outcome_bind_eq_ok, outcome_pure_eq_ok, Option.some.injEq] at hfit
      obtain ⟨found, hfound, rfl⟩ := hfit
      obtain ⟨hapart, hstands⟩ := outcome_candidates hdoc hn hfound
      have hplaced : ∀ c ∈ found, c.Placed doc ⟨slot, below⟩ taken := by
        intro c hc
        have hnode := Tree.subtrees_trans hn (hstands c hc).inside
        exact placed_of_matchSlot hdoc hnode (hstands c hc).free (ihbelow hnode)
          (hstands c hc).matched
      obtain ⟨images, hembeds, hclaimed, hnodup, hmembers⟩ :=
        placed_listing name hapart (fun c hc => admits_of_stands (hstands c hc)) hplaced
      refine ⟨found.flatMap (·.claimed), 0, ⟨images, hembeds, hclaimed, hnodup, ?_⟩, rfl, rfl⟩
      intro m hm
      obtain ⟨hfree, c, hc, hmem⟩ := hmembers m hm
      exact ⟨Tree.mem_below_of_mem_subtrees (mem_below_of_stands (hstands c hc)) hmem, hfree⟩

/-- Every match of a template is an embedding of it. -/
theorem placed_of_matchMany (hdoc : doc.Numbered) (hunder : under ∈ doc.root.subtrees)
    {t : Template} {cs : List Candidate}
    (hcs : (matchMany doc t taken under self direct).outcome = .ok cs) :
    ∀ c ∈ cs, c.Placed doc t taken := by
  intro c hc
  have hstands := (outcome_candidates hdoc hunder hcs).2 c hc
  have hnode := Tree.subtrees_trans hunder hstands.inside
  exact placed_of_matchSlot hdoc hnode hstands.free (placed_of_matchParts hdoc t.below hnode)
    hstands.matched

end Plain
end Gleaner
