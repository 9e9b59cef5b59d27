import Gleaner.Proofs.Counterparts
import Gleaner.Proofs.Limits

/-! # A search depends on its subtree only

A search under a node looks at nothing but the subtree of that node. Where another document has the same
subtree in it, however deep and whatever surrounds it, and the same nodes of it are taken, the search
makes as many attempts there and finds the counterparts. The two searches are followed side by side. Of
the two, only the sums of depths and the numbers differ: a sum of depths is moved once for each node in
it, so all candidates for one slot are moved alike and the same one lies deepest.
-/

namespace Gleaner

/-! ## Two runs side by side -/

theorem Corresponds.imp {α β : Type} {agree other : α → β → Prop} {x : Except SearchError α}
    {y : Except SearchError β} (h : Corresponds agree x y) (himp : ∀ a b, agree a b → other a b) :
    Corresponds other x y := by
  cases h with
  | ok hagree => exact .ok (himp _ _ hagree)
  | error error => exact .error error

/-- Two runs make as many attempts and come to the same end, with results that agree. -/
structure Tally.Agrees {α β : Type} (agree : α → β → Prop) (x : Tally α) (y : Tally β) : Prop where
  attempts : x.attempts = y.attempts
  outcome : Corresponds agree x.outcome y.outcome

namespace Tally.Agrees

variable {α β γ δ : Type} {agree : α → β → Prop} {agreeLater : γ → δ → Prop}

theorem pure {a : α} {b : β} (hagree : agree a b) :
    Agrees agree (Pure.pure a : Tally α) (Pure.pure b : Tally β) :=
  ⟨rfl, .ok hagree⟩

theorem fail (error : SearchError) : Agrees agree (Tally.fail error) (Tally.fail error) :=
  ⟨rfl, .error error⟩

theorem refl (x : Tally α) : Agrees Eq x x := by
  refine ⟨rfl, ?_⟩
  cases x.outcome with
  | error error => exact .error error
  | ok a => exact .ok rfl

theorem bind {x : Tally α} {y : Tally β} {next : α → Tally γ} {next' : β → Tally δ}
    (hfirst : Agrees agree x y) (hnext : ∀ a b, agree a b → Agrees agreeLater (next a) (next' b)) :
    Agrees agreeLater (x >>= next) (y >>= next') := by
  obtain ⟨hattempts, houtcome⟩ := hfirst
  generalize hx : x.outcome = result, hy : y.outcome = result' at houtcome
  cases houtcome with
  | error error =>
      rw [bind_of_error _ hx, bind_of_error _ hy]
      exact ⟨hattempts, .error error⟩
  | ok hagree =>
      rw [bind_of_ok _ hx, bind_of_ok _ hy]
      obtain ⟨hlater, hend⟩ := hnext _ _ hagree
      exact ⟨by rw [hattempts, hlater], hend⟩

end Tally.Agrees

/-! ## Results that are moved -/

/-- No child slot of the parts may stay without a match, inside of listings too. -/
def Parts.Required : Parts → Prop
  | .done => True
  | .child slot below after => slot.optional = false ∧ below.Required ∧ after.Required
  | .listing _ _ below => below.Required

/-- The number of nodes whose depths are in the sum when every child slot is matched. -/
def Parts.weight : Parts → Nat
  | .done => 0
  | .child _ below after => 1 + below.weight + after.weight
  | .listing _ _ _ => 0

/-- The numbers are those of counterparts. -/
def Tree.TwinNumbers (a b : Node) (i i' : Nat) : Prop :=
  ∃ n n', a.Twins b n n' ∧ i = n.index ∧ i' = n'.index

/-- Matches with the same record on counterparts, where each of `weight` depths is moved in the sum. -/
structure Fit.Moved (a b : Node) (weight : Nat) (fit fit' : Fit) : Prop where
  record : fit.record = fit'.record
  depthSum : fit.depthSum + weight * b.depth = fit'.depthSum + weight * a.depth
  claimed : List.Forall₂ (a.TwinNumbers b) fit.claimed fit'.claimed

structure Candidate.Moved (a b : Node) (weight : Nat) (c c' : Candidate) : Prop where
  node : a.Twins b c.node c'.node
  fit : Fit.Moved a b weight ⟨c.record, c.depthSum, c.claimed⟩ ⟨c'.record, c'.depthSum, c'.claimed⟩

/-- Of counterparts both are taken or none. -/
def Tree.Taken (a b : Node) (taken taken' : Std.ExtHashSet Nat) : Prop :=
  ∀ n n', a.Twins b n n' → (n.index ∈ taken ↔ n'.index ∈ taken')

variable {doc doc' : Document} {a b n n' under under' : Node} {weight more : Nat}
  {taken taken' : Std.ExtHashSet Nat} {slot : Slot}

theorem Fit.Moved.choose {fit fit' : Fit} {c c' : Candidate} (hfit : fit.Moved a b weight fit')
    (hc : c.Moved a b more c') : (fit.choose c).Moved a b (weight + more) (fit'.choose c') := by
  obtain ⟨hrecord, hsum, hclaimed⟩ := hfit
  obtain ⟨-, hrecord', hsum', hclaimed'⟩ := hc
  simp only at hrecord' hsum' hclaimed'
  refine ⟨?_, ?_, List.rel_append hclaimed hclaimed'⟩
  · rw [Fit.choose, Fit.choose, hrecord, hrecord']
  · simp only [Fit.choose, Nat.add_mul]
    omega

namespace Tree.Taken

theorem mem_iff_of_twinNumbers {claimed claimed' : List Nat}
    (hclaimed : List.Forall₂ (a.TwinNumbers b) claimed claimed') (htwins : a.Twins b n n') :
    n.index ∈ claimed ↔ n'.index ∈ claimed' := by
  induction hclaimed with
  | nil => simp
  | cons hhere _ ih =>
      obtain ⟨m, m', hm, rfl, rfl⟩ := hhere
      have hindex := htwins.index
      have hother := hm.index
      have hsame : n.index = m.index ↔ n'.index = m'.index := by omega
      rw [List.mem_cons, List.mem_cons]
      exact or_congr hsame ih

theorem insertMany {claimed claimed' : List Nat} (htaken : a.Taken b taken taken')
    (hclaimed : List.Forall₂ (a.TwinNumbers b) claimed claimed') :
    a.Taken b (taken.insertMany claimed) (taken'.insertMany claimed') := by
  intro n n' htwins
  rw [Std.ExtHashSet.mem_insertMany_list, Std.ExtHashSet.mem_insertMany_list, htaken n n' htwins]
  simp only [List.contains_iff_mem, mem_iff_of_twinNumbers hclaimed htwins]

end Tree.Taken

/-- The deepest of candidates that are all moved alike stands at the same place. -/
theorem deepest?_moved {cs cs' : List Candidate}
    (hcs : List.Forall₂ (Candidate.Moved a b weight) cs cs') :
    Option.Rel (Candidate.Moved a b weight) (deepest? cs) (deepest? cs') := by
  induction hcs with
  | nil => exact .none
  | @cons c c' cs cs' hhere _ ih =>
      rw [deepest?, deepest?]
      generalize deepest? cs = best, deepest? cs' = best' at ih
      cases ih with
      | none => exact .some hhere
      | @some best best' hbetter =>
          have hsum := hhere.fit.depthSum
          have hother := hbetter.fit.depthSum
          have hdeeper : c.depthSum < best.depthSum ↔ c'.depthSum < best'.depthSum := by
            simp only at hsum hother
            omega
          simp only [hdeeper]
          split
          next => exact .some hbetter
          next => exact .some hhere

theorem innermost_moved (hcopies : doc.Copies doc' a b) {cs cs' : List Candidate}
    (hcs : List.Forall₂ (Candidate.Moved a b weight) cs cs') :
    List.Forall₂ (Candidate.Moved a b weight) (doc.innermost cs) (doc'.innermost cs') := by
  have haround : ∀ {c c' : Candidate}, c.Moved a b weight c' →
      (cs.any fun other => doc.isAncestor c.node other.node) =
        cs'.any fun other => doc'.isAncestor c'.node other.node := by
    intro c c' hc
    induction hcs with
    | nil => rfl
    | cons hhere _ ih => rw [List.any_cons, List.any_cons, hcopies.isAncestor_eq hc.node hhere.node, ih]
  apply List.rel_filter _ hcs
  intro c c' hc
  simp only [haround hc]

namespace Plain

variable {attempt attempt' : Node → Tally (Option Fit)} {found found' : List Node}
  {inside inside' : Fit → Tally (Option Fit)}

theorem agrees_matchSlot (hcopies : doc.Copies doc' a b) (htwins : a.Twins b n n') (slot : Slot)
    (hinside : ∀ fit fit' : Fit, fit.Moved a b 1 fit' →
      (inside fit).Agrees (Option.Rel (Fit.Moved a b weight)) (inside' fit')) :
    (matchSlot slot inside n).Agrees (Option.Rel (Fit.Moved a b weight))
      (matchSlot slot inside' n') := by
  have hbound : slot.bound n = slot.bound n' := by
    unfold Slot.bound
    rw [hcopies.textContent_eq htwins]
    simp only [htwins.element.bindAttributes_eq]
  unfold matchSlot
  refine (Tally.Agrees.refl Tally.attempt).bind ?_
  rintro _ _ -
  rw [hbound]
  refine (Tally.Agrees.refl _).bind ?_
  rintro bound _ rfl
  cases bound with
  | none => exact .pure .none
  | some record =>
      have hstart : Fit.Moved a b 1 ⟨record, n.depth, []⟩ ⟨record, n'.depth, []⟩ :=
        ⟨rfl, by simpa using htwins.depth, .nil⟩
      refine (hinside _ _ hstart).bind ?_
      rintro _ _ (⟨⟨hrecord, hsum, hclaimed⟩⟩ | _)
      · refine .pure (.some ⟨hrecord, hsum, ?_⟩)
        exact List.rel_append hclaimed (.cons ⟨n, n', htwins, rfl, rfl⟩ .nil)
      · exact .pure .none

theorem agrees_tryEach (htaken : a.Taken b taken taken') (hfound : List.Forall₂ (a.Twins b) found found')
    (hattempt : ∀ n n', a.Twins b n n' →
      (attempt n).Agrees (Option.Rel (Fit.Moved a b weight)) (attempt' n')) :
    (tryEach attempt taken found).Agrees (List.Forall₂ (Candidate.Moved a b weight))
      (tryEach attempt' taken' found') := by
  induction hfound with
  | nil => exact .pure .nil
  | @cons n n' _ _ htwins _ ih =>
      rw [tryEach, tryEach]
      simp only [htaken n n' htwins]
      split
      next => exact ih
      next =>
        refine (hattempt n n' htwins).bind ?_
        intro fit fit' hfit
        refine ih.bind ?_
        intro cs cs' hcs
        cases hfit with
        | none => exact .pure hcs
        | some hmoved => exact .pure (.cons ⟨htwins, hmoved⟩ hcs)

/-- Candidates for a template are moved if what is matched below its slot is. -/
theorem agrees_candidates (hcopies : doc.Copies doc' a b) (hunder : a.Twins b under under')
    (htaken : a.Taken b taken taken') (t : Template) (self direct : Bool)
    (hbelow : ∀ n n', a.Twins b n n' → ∀ fit fit' : Fit, fit.Moved a b 1 fit' →
      (matchParts doc t.below n taken fit).Agrees (Option.Rel (Fit.Moved a b weight))
        (matchParts doc' t.below n' taken' fit')) :
    (candidates doc t.slot (matchOne doc t taken) taken under self direct).Agrees
      (List.Forall₂ (Candidate.Moved a b weight))
      (candidates doc' t.slot (matchOne doc' t taken') taken' under' self direct) := by
  unfold candidates Document.selectAll
  rw [hcopies.tree, hcopies.tree']
  cases Selector.read t.slot.selector with
  | error error => exact .fail _
  | ok selector =>
      have hattempt : ∀ n n', a.Twins b n n' →
          (matchOne doc t taken n).Agrees (Option.Rel (Fit.Moved a b weight))
            (matchOne doc' t taken' n') :=
        fun n n' htwins => agrees_matchSlot hcopies htwins t.slot (hbelow n n' htwins)
      refine (agrees_tryEach htaken (hcopies.find hunder selector self _) hattempt).bind ?_
      exact fun cs cs' hcs => .pure (innermost_moved hcopies hcs)

/-- Parts that are all required move the sum of depths by as many depths as they have child slots. -/
theorem agrees_matchParts (hcopies : doc.Copies doc' a b) {parts : Parts} (hparts : parts.Required)
    (htwins : a.Twins b n n') (htaken : a.Taken b taken taken') {fit fit' : Fit}
    (hfit : fit.Moved a b weight fit') :
    (matchParts doc parts n taken fit).Agrees (Option.Rel (Fit.Moved a b (weight + parts.weight)))
      (matchParts doc' parts n' taken' fit') := by
  induction parts generalizing n n' taken taken' fit fit' weight with
  | done => exact .pure (.some hfit)
  | child slot below after ihbelow ihafter =>
      obtain ⟨hoptional, hbelow, hafter⟩ := hparts
      rw [matchParts, matchParts]
      refine (agrees_candidates hcopies htwins htaken ⟨slot, below⟩ false slot.direct
        fun _ _ hm _ _ hstart => ihbelow hbelow hm htaken hstart).bind ?_
      intro cs cs' hcs
      have hbest := deepest?_moved hcs
      generalize deepest? cs = chosen, deepest? cs' = chosen' at hbest
      cases hbest with
      | none =>
          simp only [hoptional, Bool.false_eq_true, if_false]
          exact .pure .none
      | some hmoved =>
          have hweight : weight + (Parts.child slot below after).weight =
              weight + (1 + below.weight) + after.weight := by
            rw [Parts.weight]
            omega
          rw [hweight]
          exact ihafter hafter htwins (htaken.insertMany hmoved.fit.claimed) (hfit.choose hmoved)
  | listing name slot below ihbelow =>
      rw [matchParts, matchParts]
      refine (agrees_candidates hcopies htwins htaken ⟨slot, below⟩ false false
        fun _ _ hm _ _ hstart => ihbelow hparts hm htaken hstart).bind ?_
      intro cs cs' hcs
      have hrecords : cs.map (·.record) = cs'.map (·.record) := by
        rw [← List.forall₂_eq_eq_eq, List.forall₂_map_left_iff, List.forall₂_map_right_iff]
        exact hcs.imp fun _ _ hc => hc.fit.record
      refine .pure (.some ⟨?_, hfit.depthSum, ?_⟩)
      · rw [hfit.record, hrecords]
      · exact List.rel_append hfit.claimed (List.rel_flatMap hcs fun _ _ hc => hc.fit.claimed)

theorem agrees_matchMany (hcopies : doc.Copies doc' a b) (htaken : a.Taken b taken taken') {t : Template}
    (ht : t.below.Required) (self direct : Bool) :
    (matchMany doc t taken a self direct).Agrees
      (List.Forall₂ (Candidate.Moved a b (1 + t.below.weight)))
      (matchMany doc' t taken' b self direct) :=
  agrees_candidates hcopies hcopies.top htaken t self direct fun _ _ htwins _ _ hstart =>
    agrees_matchParts hcopies ht htwins htaken hstart

end Plain
namespace Search

/-- Candidates with the same record on counterparts that bind counterparts in the same order. -/
structure SameFinding (a b : Node) (c c' : Candidate) : Prop where
  node : a.Counterpart b c.node c'.node
  record : c.record = c'.record
  claimed : List.Forall₂ (fun i i' => ∃ n n', a.Counterpart b n n' ∧ i = n.index ∧ i' = n'.index)
    c.claimed c'.claimed

theorem sameFinding_of_moved (hcopies : doc.Copies doc' a b) {c c' : Candidate}
    (hc : c.Moved a b weight c') : SameFinding a b c c' := by
  refine ⟨hcopies.counterpart_iff.mpr hc.node, hc.fit.record, hc.fit.claimed.imp ?_⟩
  rintro i i' ⟨n, n', htwins, hindex⟩
  exact ⟨n, n', hcopies.counterpart_iff.mpr htwins, hindex⟩

/-- A search depends only on the subtree that it goes through. Under two nodes whose subtrees have the same
elements in the same places, and of which the same places are taken, a template without optional slots
takes as many attempts and is found at the same places with the same records, or both searches fail with
the same error. What surrounds the nodes and what was searched for before makes no difference. -/
theorem matchMany_local (skip skip' : List Text) (s s' : Text) (t : Template) (self direct : Bool)
    {a b : Node} {state state' : SearchState}
    (htree : (Markup.parse skip s).isError = false) (htree' : (Markup.parse skip' s').isError = false)
    (ha : a ∈ (Markup.parse skip s).root.subtrees) (hb : b ∈ (Markup.parse skip' s').root.subtrees)
    (hsame : a.Same b)
    (hstate : Reached ⟨Markup.parse skip s, none⟩ state)
    (hstate' : Reached ⟨Markup.parse skip' s', none⟩ state')
    (hclaims : ∀ n n', a.Counterpart b n n' →
      (n.index ∈ state.claims.claimed ↔ n'.index ∈ state'.claims.claimed))
    (hrequired : t.below.Required) :
    let run := (matchMany ⟨Markup.parse skip s, none⟩ t a self direct).runFrom state
    let run' := (matchMany ⟨Markup.parse skip' s', none⟩ t b self direct).runFrom state'
    (∃ made, run.2.attempts = state.attempts + made ∧ run'.2.attempts = state'.attempts + made) ∧
      Corresponds (List.Forall₂ (SameFinding a b)) run.1 run'.1 := by
  intro run run'
  have hdoc := Document.numbered_parse skip s
  have hdoc' := Document.numbered_parse skip' s'
  have hcopies : Document.Copies (Markup.parse skip s) (Markup.parse skip' s') a b :=
    ⟨hdoc, hdoc', htree, htree', ha, hb, hsame⟩
  have htaken : a.Taken b state.claims.claimed state'.claims.claimed :=
    fun n n' htwins => hclaims n n' (hcopies.counterpart_iff.mpr htwins)
  obtain ⟨hattempts, houtcome⟩ := Plain.agrees_matchMany hcopies htaken hrequired self direct
  have hsound := hstate.sound hdoc
  have hsound' := hstate'.sound hdoc'
  constructor
  · refine ⟨_, attempts_runFrom_matchMany hdoc ha hsound t self direct, ?_⟩
    rw [hattempts]
    exact attempts_runFrom_matchMany hdoc' hb hsound' t self direct
  · have hrun : run.1 = _ := runFrom_matchMany hdoc ha hsound t self direct
    have hrun' : run'.1 = _ := runFrom_matchMany hdoc' hb hsound' t self direct
    rw [hrun, hrun']
    exact houtcome.imp fun _ _ hfound => hfound.imp fun _ _ hc => sameFinding_of_moved hcopies hc

/-- A paragraph in a division whose own number is claimed, and the same paragraph deep in a list with other
things around it. -/
theorem matchMany_local_paragraph :
    let doc := Markup.parse [] "<div><p><b>x</b><i><b>y</b></i></p></div>".toList
    let doc' := Markup.parse [] "<ul>a<li></li><li><p><b>x</b><i><b>y</b></i></p>c</li></ul>".toList
    let a := doc.root.subtrees.getD 1 doc.root
    let b := doc'.root.subtrees.getD 3 doc'.root
    let bold : Slot := ⟨"b".toList, false, false, [], [.field ⟨"x".toList, .string, false⟩]⟩
    let t : Template := ⟨⟨"p".toList, false, false, [], []⟩, .child bold .done .done⟩
    let state := { SearchState.empty with claims := ClaimSet.empty.claim 0 }
    let run := (matchMany ⟨doc, none⟩ t a true false).runFrom state
    let run' := (matchMany ⟨doc', none⟩ t b true false).runFrom .empty
    a.Same b ∧ a.depth = 1 ∧ b.depth = 2 ∧
      (∃ made, run.2.attempts = state.attempts + made ∧ run'.2.attempts = 0 + made) ∧
      Corresponds (List.Forall₂ (SameFinding a b)) run.1 run'.1 := by
  intro doc doc' a b bold t state run run'
  have hsame : a.Same b := Tree.same_of_map_eq (by decide +kernel)
  have hclaims : ∀ n n', a.Counterpart b n n' →
      (n.index ∈ state.claims.claimed ↔ n'.index ∈ SearchState.empty.claims.claimed) := by
    rintro n n' ⟨place, hn, -⟩
    have hindex : ∀ n ∈ a.subtrees, n.index ≠ 0 := by decide +kernel
    have hother := hindex n (List.mem_of_getElem? hn)
    simp [state, ClaimSet.claimed_claim, SearchState.empty, ClaimSet.empty, hother.symm]
  exact ⟨hsame, by decide +kernel, by decide +kernel,
    matchMany_local [] [] _ _ t true false (by decide +kernel) (by decide +kernel) (by decide +kernel)
      (by decide +kernel) hsame (.claimed .start (.claim .empty 0)) .start hclaims
      ⟨rfl, trivial, trivial⟩⟩

end Search
end Gleaner
