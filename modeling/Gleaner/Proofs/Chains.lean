import Gleaner.Proofs.Unfailing

/-! # Templates without siblings

Where no slot has more than one child, nothing that a search decides can lose a match. It has a result
exactly if the slots from the top down to the first optional child can be given nodes one below the other.
A child is looked for before anything is claimed, one candidate of those that succeed is always kept, and
neither an optional child nor a listing can fail a match.
-/

namespace Gleaner

/-- No slot of the parts has more than one child, inside of listings neither. -/
def Parts.Narrow : Parts → Prop
  | .done => True
  | .child _ below after => after.children = [] ∧ below.Narrow ∧ after.Narrow
  | .listing _ _ below => below.Narrow

/-- The children on the way down, up to the first optional one. -/
def Parts.spine : Parts → List Slot
  | .child slot below _ => if slot.optional then [] else slot :: below.spine
  | _ => []

/-- Below the node there is one node for each slot, each strictly below the one before, where the slot's
selector finds it, and fitting the bindings of the slot. A direct slot has its node right below. -/
inductive Descends (doc : Document) : Node → List Slot → List Node → Prop
  | nil {n : Node} : Descends doc n [] []
  | cons {n m : Node} {slot : Slot} {slots : List Slot} {nodes : List Node}
      (hadmits : slot.Admits doc n m) (hdirect : slot.direct = true → m ∈ n.children)
      (hmore : Descends doc m slots nodes) : Descends doc n (slot :: slots) (m :: nodes)

/-- The nodes form a chain for the template: the first one is found under `under` by the selector of the
top and fits it, and the others descend from it along the children up to the first optional one. -/
def Template.Chain (doc : Document) (t : Template) (under : Node) (self direct : Bool)
    (top : Node) (nodes : List Node) : Prop :=
  (∃ found, doc.selectAll under t.slot.selector self (if direct then some 1 else none) = .ok found ∧
    top ∈ found) ∧ t.slot.Fits top ∧ Descends doc top t.below.spine nodes

theorem bindAttributes_of_forall {e : Element} {bindings : List (Text × Binding)}
    (hvalues : ∀ pair ∈ bindings, ∃ value, pair.2.coerce (e.rawAttribute pair.1) = .value value)
    (r : Record) : ∃ s, bindAttributes e r bindings = .value s := by
  induction bindings generalizing r with
  | nil => exact ⟨r, rfl⟩
  | cons pair more ih =>
      obtain ⟨⟨value, hvalue⟩, hmore⟩ := List.forall_mem_cons.mp hvalues
      rw [bindAttributes, hvalue]
      exact ih hmore _

/-- A node fits a slot exactly if the slot is bound on it. -/
theorem Slot.fits_iff_bound {slot : Slot} {n : Node} :
    slot.Fits n ↔ ∃ r, slot.bound n = .value r := by
  constructor
  · rintro ⟨htext, hattributes⟩
    unfold Slot.bound
    split
    next => exact bindAttributes_of_forall hattributes []
    next hempty =>
      obtain ⟨r, hr⟩ := htext.resolve_left fun h => hempty (List.isEmpty_iff.mpr h)
      rw [hr]
      exact bindAttributes_of_forall hattributes r
  · rintro ⟨r, hbound⟩
    exact Slot.fits_of_bound hbound

namespace Document

variable {doc : Document} {n m : Node} {written : Text}

/-- Below a node, a search of one level finds what a search of all levels finds right below. -/
theorem Numbered.mem_selectAll_below_iff (hdoc : doc.Numbered) (hn : n ∈ doc.root.subtrees)
    {direct : Bool} {found : List Node}
    (hfound : doc.selectAll n written false (if direct then some 1 else none) = .ok found) :
    m ∈ found ↔ m ∈ n.below.subtrees ∧
      (∃ all, doc.selectAll n written false none = .ok all ∧ m ∈ all) ∧
      (direct = true → m ∈ n.children) := by
  constructor
  · intro hm
    obtain ⟨hmem, hother, hlevels, hall⟩ := (hdoc.selectAll_sound hn hfound).2 m hm
    have hbelow : m ∈ n.below.subtrees :=
      (Tree.mem_subtrees.mp hmem).resolve_left (hother.resolve_left Bool.false_ne_true)
    refine ⟨hbelow, hall, ?_⟩
    rintro rfl
    exact Plain.mem_children_of_depth hdoc hn hbelow (hlevels 1 rfl)
  · rintro ⟨-, ⟨all, hall, hm⟩, hdirect⟩
    cases direct with
    | false =>
        obtain rfl := Except.ok.inj (hall.symm.trans hfound)
        exact hm
    | true =>
        unfold selectAll at hall hfound
        split at hall
        next =>
          obtain rfl := Except.ok.inj hall
          cases hm
        next htree =>
          rw [if_neg htree] at hfound
          cases hread : Selector.read written with
          | error error => simp [hread, Except.map] at hall
          | ok selector =>
              rw [hread] at hall hfound
              obtain rfl := Except.ok.inj hall
              obtain rfl := Except.ok.inj hfound
              obtain ⟨hmem, hother, -, htrail⟩ := (hdoc.mem_find_iff hn).mp hm
              refine (hdoc.mem_find_iff hn).mpr ⟨hmem, hother, ?_, htrail⟩
              intro limit hlimit
              obtain rfl := Option.some.inj hlimit
              exact Nat.le_of_eq ((hdoc.below hn).of_mem_trees (hdirect rfl)).1

end Document

namespace Plain

variable {doc : Document} {slot : Slot} {attempt : Node → Tally (Option Fit)}
  {taken : Std.ExtHashSet Nat} {n under : Node} {self direct : Bool} {found : List Candidate}
  {nodes : List Node} {parts : Parts} {fit : Fit} {outcome : Option Fit}

/-- There are candidates exactly if one of the free nodes found is matched when tried alone. -/
theorem ne_nil_of_outcome_candidates (hdoc : doc.Numbered) (hunder : under ∈ doc.root.subtrees)
    (hselect : doc.selectAll under slot.selector self (if direct then some 1 else none) = .ok nodes)
    (hfound : (candidates doc slot attempt taken under self direct).outcome = .ok found) :
    found ≠ [] ↔ ∃ m ∈ nodes, m.index ∉ taken ∧ ∃ fit, (attempt m).outcome = .ok (some fit) := by
  obtain ⟨-, rfl⟩ := (outcome_candidates_eq_ok hselect).mp hfound
  obtain ⟨hordered, hsound⟩ := hdoc.selectAll_sound hunder hselect
  have hkeeps : Keeps (fun n => n ∈ nodes ∧ ∃ c, candidate? attempt taken n = some c)
      (doc.innermost (nodes.filterMap (candidate? attempt taken))) :=
    keeps_innermost hdoc hordered fun m hm => Tree.subtrees_trans hunder (hsound m hm).1
  constructor
  · intro hne
    obtain ⟨c, hc⟩ := List.exists_mem_of_ne_nil _ hne
    obtain ⟨hm, candidate, hcandidate⟩ :=
      ((hkeeps.mem_iff c.node).mp (List.mem_map_of_mem hc)).1
    obtain ⟨hfree, -, hmatched⟩ := candidate?_eq_some.mp hcandidate
    exact ⟨c.node, hm, hfree, _, hmatched⟩
  · rintro ⟨m, hm, hfree, fit, hmatched⟩
    obtain ⟨c, hc, -⟩ := hkeeps.exists_kept (n := m)
      ⟨hm, ⟨m, fit.record, fit.depthSum, fit.claimed⟩,
        candidate?_eq_some.mpr ⟨hfree, rfl, hmatched⟩⟩
    exact List.ne_nil_of_mem hc

theorem deepest?_eq_none {cs : List Candidate} : deepest? cs = none ↔ cs = [] := by
  cases cs with
  | nil => exact ⟨fun _ => rfl, fun _ => rfl⟩
  | cons c more =>
      rw [deepest?]
      constructor
      · intro hnone
        split at hnone
        next => cases hnone
        next => split at hnone <;> cases hnone
      · intro hnil
        cases hnil

/-- Parts without a child never fail a match. -/
theorem isSome_of_childless (hchildren : parts.children = [])
    (houtcome : (matchParts doc parts n taken fit).outcome = .ok outcome) : outcome.isSome = true := by
  cases parts with
  | done =>
      obtain rfl := Tally.outcome_pure_eq_ok.mp houtcome
      rfl
  | child slot below after => cases hchildren
  | listing name slot below =>
      rw [matchParts, Tally.outcome_bind_eq_ok] at houtcome
      obtain ⟨found, -, hresult⟩ := houtcome
      obtain rfl := Tally.outcome_pure_eq_ok.mp hresult
      rfl

/-- A slot is matched on a node that it fits if what stands below it is. -/
theorem outcome_matchSlot_isSome {inside : Fit → Tally (Option Fit)} {P : Prop}
    (hinside : ∀ fit outcome, (inside fit).outcome = .ok outcome → (outcome.isSome = true ↔ P))
    (houtcome : (matchSlot slot inside n).outcome = .ok outcome) :
    outcome.isSome = true ↔ slot.Fits n ∧ P := by
  rw [Slot.fits_iff_bound]
  constructor
  · intro hsome
    obtain ⟨fit, rfl⟩ := Option.isSome_iff_exists.mp hsome
    obtain ⟨record, inner, hbound, hinner, -⟩ := outcome_matchSlot_eq_some.mp houtcome
    exact ⟨⟨record, hbound⟩, (hinside _ _ hinner).mp rfl⟩
  · rintro ⟨⟨record, hbound⟩, hp⟩
    simp only [matchSlot, Tally.outcome_bind_eq_ok, Tally.outcome_attempt, true_and,
      exists_const, hbound, settle, Tally.outcome_pure_eq_ok, exists_eq_left'] at houtcome
    obtain ⟨inner, hinner, hresult⟩ := houtcome
    obtain ⟨fit, rfl⟩ := Option.isSome_iff_exists.mp ((hinside _ _ hinner).mpr hp)
    obtain rfl := Tally.outcome_pure_eq_ok.mp hresult
    rfl

/-- A child that is not optional has candidates exactly if it begins a chain. -/
theorem ne_nil_iff_descends (hdoc : doc.Numbered) (hn : n ∈ doc.root.subtrees) {below : Parts}
    (hbelow : ∀ m ∈ doc.root.subtrees, ∀ fit outcome,
      (matchParts doc below m ∅ fit).outcome = .ok outcome →
        (outcome.isSome = true ↔ ∃ nodes, Descends doc m below.spine nodes))
    (hfound : (candidates doc slot (fun m => matchSlot slot (matchParts doc below m ∅) m) ∅ n false
      slot.direct).outcome = .ok found) :
    found ≠ [] ↔ ∃ nodes, Descends doc n (slot :: below.spine) nodes := by
  cases hselect : doc.selectAll n slot.selector false (if slot.direct then some 1 else none) with
  | error error => simp [candidates, hselect] at hfound
  | ok selected =>
      have hinside := fun m => hdoc.mem_selectAll_below_iff (m := m) hn hselect
      have hroot : ∀ m ∈ selected, m ∈ doc.root.subtrees := fun m hm =>
        Tree.subtrees_trans hn (Tree.mem_subtrees_of_mem_below ((hinside m).mp hm).1)
      rw [ne_nil_of_outcome_candidates hdoc hn hselect hfound]
      constructor
      · rintro ⟨m, hm, -, fit, hmatched⟩
        obtain ⟨hfits, nodes, hnodes⟩ :=
          (outcome_matchSlot_isSome (hbelow m (hroot m hm)) hmatched).mp rfl
        obtain ⟨hmem, hall, hdirect⟩ := (hinside m).mp hm
        exact ⟨m :: nodes, .cons ⟨hmem, hall, hfits⟩ hdirect hnodes⟩
      · rintro ⟨_, _ | ⟨hadmits, hdirect, hmore⟩⟩
        have hm := (hinside _).mpr ⟨hadmits.below, hadmits.found, hdirect⟩
        -- the search did not fail, so trying this node alone did not fail either
        obtain ⟨outcome, houtcome⟩ :=
          ((outcome_candidates_eq_ok hselect).mp hfound).1 _ hm Std.ExtHashSet.not_mem_empty
        obtain ⟨fit, rfl⟩ := Option.isSome_iff_exists.mp
          ((outcome_matchSlot_isSome (hbelow _ (hroot _ hm)) houtcome).mpr
            ⟨hadmits.fits, _, hmore⟩)
        exact ⟨_, hm, Std.ExtHashSet.not_mem_empty, fit, houtcome⟩

/-- Narrow parts are matched, from the beginning, exactly if a chain descends from the node. -/
theorem isSome_iff_descends (hdoc : doc.Numbered) (hnarrow : parts.Narrow)
    (hn : n ∈ doc.root.subtrees)
    (houtcome : (matchParts doc parts n ∅ fit).outcome = .ok outcome) :
    outcome.isSome = true ↔ ∃ nodes, Descends doc n parts.spine nodes := by
  -- nothing is claimed yet where a child is looked for, since it is the first one of its slot
  induction parts generalizing n fit outcome with
  | done => exact iff_of_true (isSome_of_childless rfl houtcome) ⟨[], .nil⟩
  | listing name slot below => exact iff_of_true (isSome_of_childless rfl houtcome) ⟨[], .nil⟩
  | child slot below after ihbelow ihafter =>
      obtain ⟨hlast, hbelow, -⟩ := hnarrow
      rw [matchParts, Tally.outcome_bind_eq_ok] at houtcome
      obtain ⟨found, hfound, hresult⟩ := houtcome
      rw [Parts.spine]
      split
      next hoptional =>
        refine iff_of_true ?_ ⟨[], .nil⟩
        split at hresult
        next =>
          rw [if_pos hoptional] at hresult
          exact isSome_of_childless hlast hresult
        next => exact isSome_of_childless hlast hresult
      next hrequired =>
        rw [← ne_nil_iff_descends hdoc hn (fun m hm fit outcome => ihbelow hbelow hm) hfound]
        split at hresult
        next hnone =>
          rw [if_neg hrequired] at hresult
          obtain rfl := Tally.outcome_pure_eq_ok.mp hresult
          simpa using deepest?_eq_none.mp hnone
        next best hbest =>
          refine iff_of_true (isSome_of_childless hlast hresult) ?_
          rintro rfl
          cases hbest

end Plain

namespace Search

/-- A search for a template without siblings, without claims and without a limit, gives a match exactly if
there is a chain of nodes for the template. It gives an answer whenever selectors can be read and types
are known. -/
theorem matchMany_ne_nil_iff_chain (skip : List Text) (s : Text) {t : Template}
    (hnarrow : t.below.Narrow) (self direct : Bool) {state : SearchState} {under : Node}
    (hstate : Reached ⟨Markup.parse skip s, none⟩ state) (hclaims : state.claims = .empty)
    (hunder : under ∈ (Markup.parse skip s).root.subtrees) :
    let doc := Markup.parse skip s
    let run := ((matchMany ⟨doc, none⟩ t under self direct).runFrom state).1
    (∀ found, run = .ok found →
      (found ≠ [] ↔ ∃ top nodes, t.Chain doc under self direct top nodes)) ∧
    (t.Usable → ∃ found, run = .ok found) := by
  intro doc run
  have hdoc : doc.Numbered := Document.numbered_parse skip s
  have hplain : run = (Plain.matchMany doc t ∅ under self direct).outcome := by
    have hrun := runFrom_matchMany hdoc hunder (hstate.sound hdoc) t self direct
    rwa [hclaims] at hrun
  rw [hplain]
  refine ⟨?_, fun ht => Plain.exists_outcome_matchMany ht ∅ under self direct⟩
  intro found hfound
  cases hselect : doc.selectAll under t.slot.selector self (if direct then some 1 else none) with
  | error error => simp [Plain.matchMany, Plain.candidates, hselect] at hfound
  | ok selected =>
      have hroot : ∀ m ∈ selected, m ∈ doc.root.subtrees := fun m hm =>
        Tree.subtrees_trans hunder ((hdoc.selectAll_sound hunder hselect).2 m hm).1
      have hparts : ∀ m ∈ selected, ∀ fit outcome,
          (Plain.matchParts doc t.below m ∅ fit).outcome = .ok outcome →
            (outcome.isSome = true ↔ ∃ nodes, Descends doc m t.below.spine nodes) :=
        fun m hm _ _ => Plain.isSome_iff_descends hdoc hnarrow (hroot m hm)
      rw [Plain.ne_nil_of_outcome_candidates hdoc hunder hselect hfound]
      constructor
      · rintro ⟨m, hm, -, fit, hmatched⟩
        obtain ⟨hfits, nodes, hnodes⟩ :=
          (Plain.outcome_matchSlot_isSome (hparts m hm) hmatched).mp rfl
        exact ⟨m, nodes, ⟨selected, hselect, hm⟩, hfits, hnodes⟩
      · rintro ⟨m, nodes, ⟨again, hagain, hm⟩, hfits, hnodes⟩
        obtain rfl := Except.ok.inj (hagain.symm.trans hselect)
        obtain ⟨outcome, houtcome⟩ :=
          ((Plain.outcome_candidates_eq_ok hselect).mp hfound).1 m hm Std.ExtHashSet.not_mem_empty
        obtain ⟨fit, rfl⟩ := Option.isSome_iff_exists.mp
          ((Plain.outcome_matchSlot_isSome (hparts m hm) houtcome).mpr ⟨hfits, nodes, hnodes⟩)
        exact ⟨m, hm, Std.ExtHashSet.not_mem_empty, fit, houtcome⟩

/-- A bold word in an item, behind an item without one. The link that may be missing ends the chain. -/
theorem matchMany_ne_nil_iff_chain_item :
    let doc := Markup.parse [] "<ul><li></li><li><b>a</b></li></ul>".toList
    let link : Slot := ⟨"a".toList, true, true, [], []⟩
    let bold : Slot := ⟨"b".toList, false, true, [], [.field ⟨"x".toList, .string, false⟩]⟩
    let t : Template := ⟨⟨"li".toList, false, false, [], []⟩, .child bold (.child link .done .done) .done⟩
    let run := ((matchMany ⟨doc, none⟩ t doc.root true false).runFrom .empty).1
    t.below.Narrow ∧ t.Usable ∧ ∃ found, run = .ok found ∧ found ≠ [] ∧
      ∃ top nodes, t.Chain doc doc.root true false top nodes := by
  intro doc link bold t run
  have hroot : doc.root ∈ doc.root.subtrees := Tree.mem_subtrees.mpr (.inl rfl)
  have hnarrow : t.below.Narrow := ⟨rfl, ⟨rfl, trivial, trivial⟩, trivial⟩
  have hli : Selector.read "li".toList = .ok ⟨.ofTag (some "li".toList), []⟩ := by cbv
  have hb : Selector.read "b".toList = .ok ⟨.ofTag (some "b".toList), []⟩ := by cbv
  have ha : Selector.read "a".toList = .ok ⟨.ofTag (some "a".toList), []⟩ := by cbv
  have ht : t.Usable := by
    refine ⟨⟨⟨_, hli⟩, ?_⟩, ⟨⟨_, hb⟩, ?_⟩, ⟨⟨⟨_, ha⟩, ?_⟩, trivial, trivial⟩, trivial⟩
    all_goals simp [t, bold, link, Slot.bindings, Slot.textBindings, Segment.binding?, Binding.Known]
  obtain ⟨hchain, hresult⟩ :=
    matchMany_ne_nil_iff_chain [] _ hnarrow true false .start rfl hroot
  obtain ⟨found, hrun⟩ := hresult ht
  let leaf : Node := ⟨⟨⟨['b'], none, [], [], ['a']⟩, 3, 2, some 2⟩, .nil⟩
  let item : Node := ⟨⟨⟨['l', 'i'], none, [], [], []⟩, 2, 1, some 0⟩, leaf.toForest⟩
  have htree : ¬ doc.isError = true := by decide +kernel
  have hitem : ∃ all, doc.selectAll doc.root "li".toList true none = .ok all ∧ item ∈ all := by
    unfold Document.selectAll
    rw [if_neg htree, hli]
    exact ⟨_, rfl, by decide +kernel⟩
  have hleaf : ∃ all, doc.selectAll item "b".toList false none = .ok all ∧ leaf ∈ all := by
    unfold Document.selectAll
    rw [if_neg htree, hb]
    exact ⟨_, rfl, by decide +kernel⟩
  have hfits : bold.Fits leaf := ⟨.inr ⟨_, rfl⟩, by simp [bold]⟩
  have hwhole : t.Chain doc doc.root true false item [leaf] :=
    ⟨hitem, ⟨.inl rfl, by simp [t]⟩, .cons ⟨List.mem_singleton_self leaf, hleaf, hfits⟩
      (fun _ => List.mem_singleton_self leaf) .nil⟩
  exact ⟨hnarrow, ht, found, hrun, (hchain found hrun).mpr ⟨item, [leaf], hwhole⟩, item, [leaf], hwhole⟩

end Search
end Gleaner
