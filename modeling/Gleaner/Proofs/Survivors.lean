import Gleaner.Proofs.Journal

/-! # What a search keeps

A node succeeds if the selector finds it, it is free, and the template matches it when tried alone from
the same claims. A search returns one candidate for every node that succeeds and is not around another
one that does. What was tried before a node makes no difference to it, so the order of trying does not
matter either.
-/

namespace Gleaner

/-- A match of the template with the node alone, by a new search with the given claims. -/
def Search.alone (doc : Document) (t : Template) (claims : ClaimSet Nat) (n : Node) :
    Except SearchError (Option (Record × Nat)) :=
  ((matchOne ⟨doc, none⟩ t n).runFrom { SearchState.empty with claims := claims }).1

/-- The node is one that the template's selector finds, free, and matched by the template alone. -/
structure Search.Succeeds (doc : Document) (t : Template) (claims : ClaimSet Nat) (under : Node)
    (self direct : Bool) (n : Node) : Prop where
  found : ∃ nodes, doc.selectAll under t.slot.selector self (if direct then some 1 else none) =
    .ok nodes ∧ n ∈ nodes
  free : n.index ∉ claims.claimed
  matched : ∃ result, alone doc t claims n = .ok (some result)

/-- The candidates stand, in document order and each on its own node, exactly on those nodes with the
property that have no other one below them. -/
structure Keeps (P : Node → Prop) (found : List Candidate) : Prop where
  mem_iff : ∀ n, n ∈ found.map Candidate.node ↔ P n ∧ ∀ m ∈ n.below.subtrees, ¬ P m
  increasing : (found.map (·.node.index)).Pairwise (· < ·)

namespace Keeps

variable {P : Node → Prop} {found : List Candidate}

/-- Kept nodes are never around one another. -/
theorem apart (hkeeps : Keeps P found) :
    ∀ a ∈ found, ∀ b ∈ found, b.node ∉ a.node.below.subtrees := by
  intro a ha b hb hmem
  have hinnermost := ((hkeeps.mem_iff a.node).mp (List.mem_map_of_mem ha)).2
  exact hinnermost b.node hmem ((hkeeps.mem_iff b.node).mp (List.mem_map_of_mem hb)).1

/-- At or below every node with the property one is kept. -/
theorem exists_kept (hkeeps : Keeps P found) {n : Node} (hn : P n) :
    ∃ c ∈ found, c.node ∈ n.subtrees := by
  -- going down to a node with the property makes the tree smaller, so it comes to an end
  induction hsize : n.size using Nat.strongRecOn generalizing n with
  | ind size ih =>
      by_cases hbelow : ∃ m ∈ n.below.subtrees, P m
      · obtain ⟨m, hm, hp⟩ := hbelow
        obtain ⟨c, hc, hmem⟩ := ih m.size (hsize ▸ Tree.size_lt_of_mem_below hm) hp rfl
        exact ⟨c, hc, Tree.subtrees_trans (Tree.mem_subtrees_of_mem_below hm) hmem⟩
      · have hkept : n ∈ found.map Candidate.node :=
          (hkeeps.mem_iff n).mpr ⟨hn, fun m hm hp => hbelow ⟨m, hm, hp⟩⟩
        obtain ⟨c, hc, rfl⟩ := List.mem_map.mp hkept
        exact ⟨c, hc, Tree.mem_subtrees.mpr (.inl rfl)⟩

end Keeps

namespace Plain

variable {doc : Document} {attempt : Node → Tally (Option Fit)} {taken : Std.ExtHashSet Nat}
  {nodes : List Node} {n : Node} {c : Candidate}

/-- The candidate that trying the node alone gives, if the node is free. -/
def candidate? (attempt : Node → Tally (Option Fit)) (taken : Std.ExtHashSet Nat) (n : Node) :
    Option Candidate :=
  if n.index ∈ taken then none
  else
    match (attempt n).outcome with
    | .ok (some fit) => some ⟨n, fit.record, fit.depthSum, fit.claimed⟩
    | _ => none

theorem candidate?_eq_some : candidate? attempt taken n = some c ↔
    n.index ∉ taken ∧ c.node = n ∧
      (attempt n).outcome = .ok (some ⟨c.record, c.depthSum, c.claimed⟩) := by
  unfold candidate?
  split
  next htaken => simp [htaken]
  next hfree =>
    split
    next fit houtcome =>
      rw [houtcome, Option.some.injEq]
      constructor
      · rintro rfl
        exact ⟨hfree, rfl, rfl⟩
      · rintro ⟨-, rfl, hfit⟩
        cases hfit
        rfl
    next hnone =>
      constructor
      · nofun
      · rintro ⟨-, -, hfit⟩
        exact absurd hfit (hnone _)

/-- Trying nodes one after the other succeeds exactly if trying each free one alone does not fail, and
gives what each of them gives alone. -/
theorem outcome_tryEach_eq_ok {cs : List Candidate} :
    (tryEach attempt taken nodes).outcome = .ok cs ↔
      (∀ n ∈ nodes, n.index ∉ taken → ∃ outcome, (attempt n).outcome = .ok outcome) ∧
        nodes.filterMap (candidate? attempt taken) = cs := by
  induction nodes generalizing cs with
  | nil => simp [tryEach]
  | cons n more ih =>
      rw [tryEach, List.forall_mem_cons]
      split
      next htaken => simp [ih, htaken, candidate?]
      next hfree =>
        simp only [Tally.outcome_bind_eq_ok, ih]
        constructor
        · rintro ⟨outcome, houtcome, later, ⟨hlater, rfl⟩, hresult⟩
          refine ⟨⟨fun _ => ⟨outcome, houtcome⟩, hlater⟩, ?_⟩
          cases outcome with
          | none => simpa [candidate?, hfree, houtcome] using hresult
          | some fit => simpa [candidate?, hfree, houtcome] using hresult
        · rintro ⟨⟨hhere, hlater⟩, rfl⟩
          obtain ⟨outcome, houtcome⟩ := hhere hfree
          refine ⟨outcome, houtcome, _, ⟨hlater, rfl⟩, ?_⟩
          cases outcome with
          | none => simp [candidate?, hfree, houtcome]
          | some fit => simp [candidate?, hfree, houtcome]

theorem outcome_candidates_eq_ok {slot : Slot} {under : Node} {self direct : Bool}
    {found : List Candidate}
    (hselect : doc.selectAll under slot.selector self (if direct then some 1 else none) =
      .ok nodes) :
    (candidates doc slot attempt taken under self direct).outcome = .ok found ↔
      (∀ n ∈ nodes, n.index ∉ taken → ∃ outcome, (attempt n).outcome = .ok outcome) ∧
        doc.innermost (nodes.filterMap (candidate? attempt taken)) = found := by
  simp only [candidates, hselect, Tally.outcome_bind_eq_ok, Tally.outcome_pure_eq_ok,
    outcome_tryEach_eq_ok]
  constructor
  · rintro ⟨_, ⟨hfails, rfl⟩, hfound⟩
    exact ⟨hfails, hfound⟩
  · rintro ⟨hfails, hfound⟩
    exact ⟨_, ⟨hfails, rfl⟩, hfound⟩

/-- Which candidates are innermost does not depend on their order. -/
theorem innermost_perm {cs order : List Candidate} (hperm : order.Perm cs) :
    (doc.innermost order).Perm (doc.innermost cs) := by
  unfold Document.innermost
  have hsame : (fun c : Candidate => !order.any fun other => doc.isAncestor c.node other.node) =
      fun c => !cs.any fun other => doc.isAncestor c.node other.node := by
    funext c
    rw [hperm.any_eq]
  rw [hsame]
  exact hperm.filter _

/-- The innermost ones of the candidates on nodes in document order. -/
theorem keeps_innermost (hdoc : doc.Numbered) (hordered : (nodes.map Tree.index).Pairwise (· < ·))
    (hroot : ∀ n ∈ nodes, n ∈ doc.root.subtrees) :
    Keeps (fun n => n ∈ nodes ∧ ∃ c, candidate? attempt taken n = some c)
      (doc.innermost (nodes.filterMap (candidate? attempt taken))) := by
  have hmem : ∀ c, c ∈ nodes.filterMap (candidate? attempt taken) ↔
      c.node ∈ nodes ∧ candidate? attempt taken c.node = some c := by
    intro c
    rw [List.mem_filterMap]
    constructor
    · rintro ⟨n, hn, hc⟩
      obtain rfl := (candidate?_eq_some.mp hc).2.1
      exact ⟨hn, hc⟩
    · rintro ⟨hn, hc⟩
      exact ⟨c.node, hn, hc⟩
  have hkept : ∀ c, c ∈ doc.innermost (nodes.filterMap (candidate? attempt taken)) ↔
      c ∈ nodes.filterMap (candidate? attempt taken) ∧
        ∀ other ∈ nodes.filterMap (candidate? attempt taken), other.node ∉ c.node.below.subtrees := by
    intro c
    unfold Document.innermost
    rw [List.mem_filter, Bool.not_eq_true', List.any_eq_false]
    apply and_congr_right
    intro hc
    apply forall₂_congr
    intro other hother
    rw [hdoc.isAncestor_iff (hroot _ ((hmem c).mp hc).1) (hroot _ ((hmem other).mp hother).1)]
  constructor
  · intro n
    constructor
    · intro hn
      obtain ⟨c, hc, rfl⟩ := List.mem_map.mp hn
      obtain ⟨hc, hapart⟩ := (hkept c).mp hc
      obtain ⟨hfound, hcandidate⟩ := (hmem c).mp hc
      refine ⟨⟨hfound, c, hcandidate⟩, ?_⟩
      rintro m hm ⟨hfound, other, hother⟩
      obtain rfl := (candidate?_eq_some.mp hother).2.1
      exact hapart other ((hmem other).mpr ⟨hfound, hother⟩) hm
    · rintro ⟨⟨hfound, c, hcandidate⟩, hapart⟩
      obtain rfl := (candidate?_eq_some.mp hcandidate).2.1
      refine List.mem_map_of_mem ((hkept c).mpr ⟨(hmem c).mpr ⟨hfound, hcandidate⟩, ?_⟩)
      intro other hother hbelow
      obtain ⟨hfound, hcandidate⟩ := (hmem other).mp hother
      exact hapart other.node hbelow ⟨hfound, other, hcandidate⟩
  · rw [List.pairwise_map] at hordered ⊢
    apply List.Pairwise.filter
    apply hordered.filterMap
    intro n m hlt a ha b hb
    obtain ⟨-, rfl, -⟩ := candidate?_eq_some.mp ha
    obtain ⟨-, rfl, -⟩ := candidate?_eq_some.mp hb
    exact hlt

end Plain

namespace Search

variable {doc : Document} {t : Template} {claims : ClaimSet Nat} {state : SearchState}
  {under n : Node} {self direct : Bool} {nodes : List Node}

theorem alone_eq_plain (hdoc : doc.Numbered) (hn : n ∈ doc.root.subtrees)
    (hclaims : claims.Consistent) :
    alone doc t claims n = (Plain.matchOne doc t claims.claimed n).outcome.map
      (Option.map fun fit => (fit.record, fit.depthSum)) :=
  runFrom_matchOne hdoc hn ((SearchState.sound_empty doc).withClaims hclaims) rfl t

/-- A match of the node alone succeeds exactly if the search without state does. -/
theorem alone_eq_some_iff (hdoc : doc.Numbered) (hn : n ∈ doc.root.subtrees)
    (hclaims : claims.Consistent) {result : Record × Nat} :
    alone doc t claims n = .ok (some result) ↔
      ∃ claimed, (Plain.matchOne doc t claims.claimed n).outcome =
        .ok (some ⟨result.1, result.2, claimed⟩) := by
  rw [alone_eq_plain hdoc hn hclaims]
  obtain ⟨record, depthSum⟩ := result
  cases (Plain.matchOne doc t claims.claimed n).outcome with
  | error error => simp [Except.map]
  | ok outcome =>
      cases outcome with
      | none => simp [Except.map]
      | some fit =>
          obtain ⟨r, depths, claimed⟩ := fit
          simp [Except.map]

theorem alone_ok_iff (hdoc : doc.Numbered) (hn : n ∈ doc.root.subtrees)
    (hclaims : claims.Consistent) :
    (∃ outcome, alone doc t claims n = .ok outcome) ↔
      ∃ outcome, (Plain.matchOne doc t claims.claimed n).outcome = .ok outcome := by
  rw [alone_eq_plain hdoc hn hclaims]
  cases (Plain.matchOne doc t claims.claimed n).outcome <;> simp [Except.map]

/-- Trying any nodes of the document one after the other comes to what it comes to without state. -/
theorem runFrom_tryEach (hdoc : doc.Numbered) (hstate : state.Sound doc)
    (hroot : ∀ n ∈ nodes, n ∈ doc.root.subtrees) :
    ((tryEach (matchOne ⟨doc, none⟩ t) nodes).runFrom state).1 =
      (Plain.tryEach (Plain.matchOne doc t state.claims.claimed) state.claims.claimed
        nodes).outcome := by
  have hmirrors : Mirrors ⟨doc, none⟩ state (tryEach (matchOne ⟨doc, none⟩ t) nodes)
      (Plain.tryEach (Plain.matchOne doc t state.claims.claimed) state.claims.claimed nodes)
      fun cs cs' final => cs = cs' ∧ final.claims = state.claims := by
    apply mirrors_tryEach hstate.claims hstate rfl
    · intro m hm middle hmiddle hkept
      exact hkept ▸ mirrors_matchOne_of_sound hdoc (hroot m hm) hmiddle t
    · intro m hm hfree fit hfit
      have hscope : (SearchScope.mk doc none).document.Numbered := hdoc
      exact fresh_of_matchOne hscope (hroot m hm) hfree hfit
  exact (hmirrors.allowed (.inr (by simp))).2.eq.1

/-- The nodes that succeed are those on which the search without state has a candidate. -/
theorem succeeds_eq (hdoc : doc.Numbered) (hclaims : claims.Consistent)
    (hroot : ∀ n ∈ nodes, n ∈ doc.root.subtrees)
    (hnodes : doc.selectAll under t.slot.selector self (if direct then some 1 else none) =
      .ok nodes) :
    Succeeds doc t claims under self direct = fun n => n ∈ nodes ∧
      ∃ c, Plain.candidate? (Plain.matchOne doc t claims.claimed) claims.claimed n = some c := by
  funext n
  apply propext
  constructor
  · rintro ⟨⟨_, hagain, hn⟩, hfree, result, hmatched⟩
    obtain rfl := Except.ok.inj (hagain.symm.trans hnodes)
    obtain ⟨claimed, hplain⟩ := (alone_eq_some_iff hdoc (hroot n hn) hclaims).mp hmatched
    exact ⟨hn, ⟨n, result.1, result.2, claimed⟩,
      Plain.candidate?_eq_some.mpr ⟨hfree, rfl, hplain⟩⟩
  · rintro ⟨hn, c, hc⟩
    obtain ⟨hfree, -, hplain⟩ := Plain.candidate?_eq_some.mp hc
    exact ⟨⟨nodes, hnodes, hn⟩, hfree, (c.record, c.depthSum),
      (alone_eq_some_iff hdoc (hroot n hn) hclaims).mpr ⟨c.claimed, hplain⟩⟩

theorem exists_select_of_runFrom (hdoc : doc.Numbered) (hunder : under ∈ doc.root.subtrees)
    (hstate : state.Sound doc) {found : List Candidate}
    (hrun : ((matchMany ⟨doc, none⟩ t under self direct).runFrom state).1 = .ok found) :
    ∃ nodes, doc.selectAll under t.slot.selector self (if direct then some 1 else none) =
      .ok nodes := by
  have hplain := runFrom_matchMany hdoc hunder hstate t self direct
  rw [hrun] at hplain
  cases hselect : doc.selectAll under t.slot.selector self (if direct then some 1 else none) with
  | error error => simp [Plain.matchMany, Plain.candidates, hselect, Tally.fail] at hplain
  | ok nodes => exact ⟨nodes, rfl⟩

/-- A search is decided by what its nodes come to alone. -/
theorem runFrom_matchMany_eq_ok (hdoc : doc.Numbered) (hunder : under ∈ doc.root.subtrees)
    (hstate : state.Sound doc) (hroot : ∀ n ∈ nodes, n ∈ doc.root.subtrees)
    (hselect : doc.selectAll under t.slot.selector self (if direct then some 1 else none) =
      .ok nodes) {found : List Candidate} :
    ((matchMany ⟨doc, none⟩ t under self direct).runFrom state).1 = .ok found ↔
      (∀ n ∈ nodes, n.index ∉ state.claims.claimed →
        ∃ outcome, alone doc t state.claims n = .ok outcome) ∧
      doc.innermost (nodes.filterMap (Plain.candidate?
        (Plain.matchOne doc t state.claims.claimed) state.claims.claimed)) = found := by
  rw [runFrom_matchMany hdoc hunder hstate]
  apply (Plain.outcome_candidates_eq_ok hselect).trans
  apply and_congr_left
  intro _
  apply forall₂_congr
  intro n hn
  rw [alone_ok_iff hdoc (hroot n hn) hstate.claims]

/-- Without a limit, a search succeeds exactly if the selector can be read and no free node that it finds
fails when tried alone. It keeps the innermost of the nodes that succeed, each with what it comes to
alone, and in whatever order the nodes are tried these are the same. -/
theorem matchMany_keeps (skip : List Text) (s : Text) (t : Template) (self direct : Bool)
    {state : SearchState} {under : Node} (hstate : Reached ⟨Markup.parse skip s, none⟩ state)
    (hunder : under ∈ (Markup.parse skip s).root.subtrees) :
    let doc := Markup.parse skip s
    let select := doc.selectAll under t.slot.selector self (if direct then some 1 else none)
    let run := ((matchMany ⟨doc, none⟩ t under self direct).runFrom state).1
    ((∃ found, run = .ok found) ↔ ∃ nodes, select = .ok nodes ∧ ∀ n ∈ nodes,
      n.index ∉ state.claims.claimed → ∃ outcome, alone doc t state.claims n = .ok outcome) ∧
    ∀ found, run = .ok found →
      Keeps (Succeeds doc t state.claims under self direct) found ∧
      (∀ c ∈ found, alone doc t state.claims c.node = .ok (some (c.record, c.depthSum))) ∧
      (∀ a ∈ found, ∀ b ∈ found, b.node ∉ a.node.below.subtrees) ∧
      (found = [] → ∀ n, ¬ Succeeds doc t state.claims under self direct n) ∧
      ∀ nodes order, select = .ok nodes → order.Perm nodes → ∃ tried,
        ((tryEach (matchOne ⟨doc, none⟩ t) order).runFrom state).1 = .ok tried ∧
          (doc.innermost tried).Perm found := by
  intro doc select run
  have hdoc : doc.Numbered := Document.numbered_parse skip s
  have hsound : state.Sound doc := hstate.sound hdoc
  have hroot : ∀ nodes, select = .ok nodes → ∀ n ∈ nodes, n ∈ doc.root.subtrees := by
    intro nodes hselect n hn
    exact Tree.subtrees_trans hunder ((hdoc.selectAll_sound hunder hselect).2 n hn).1
  constructor
  · constructor
    · rintro ⟨found, hrun⟩
      obtain ⟨nodes, hselect⟩ := exists_select_of_runFrom hdoc hunder hsound hrun
      exact ⟨nodes, hselect,
        ((runFrom_matchMany_eq_ok hdoc hunder hsound (hroot nodes hselect) hselect).mp hrun).1⟩
    · rintro ⟨nodes, hselect, hfails⟩
      exact ⟨_, (runFrom_matchMany_eq_ok hdoc hunder hsound (hroot nodes hselect) hselect).mpr
        ⟨hfails, rfl⟩⟩
  · intro found hrun
    obtain ⟨nodes, hselect⟩ := exists_select_of_runFrom hdoc hunder hsound hrun
    replace hroot := hroot nodes hselect
    obtain ⟨hfails, hinnermost⟩ :=
      (runFrom_matchMany_eq_ok hdoc hunder hsound hroot hselect).mp hrun
    have hkeeps : Keeps (Succeeds doc t state.claims under self direct) found := by
      rw [succeeds_eq hdoc hsound.claims hroot hselect, ← hinnermost]
      exact Plain.keeps_innermost hdoc (hdoc.selectAll_sound hunder hselect).1 hroot
    refine ⟨hkeeps, ?_, hkeeps.apart, ?_, ?_⟩
    · intro c hc
      rw [← hinnermost] at hc
      obtain ⟨n, hn, hcandidate⟩ := List.mem_filterMap.mp (List.mem_of_mem_filter hc)
      obtain ⟨-, rfl, hmatched⟩ := Plain.candidate?_eq_some.mp hcandidate
      exact (alone_eq_some_iff hdoc (hroot _ hn) hsound.claims).mpr ⟨c.claimed, hmatched⟩
    · intro hempty n hn
      obtain ⟨c, hc, -⟩ := hkeeps.exists_kept hn
      rw [hempty] at hc
      cases hc
    · intro again order hagain hperm
      obtain rfl := Except.ok.inj (hagain.symm.trans hselect)
      rw [← hinnermost]
      refine ⟨_, ?_, Plain.innermost_perm (hperm.filterMap _)⟩
      rw [runFrom_tryEach hdoc hsound fun n hn => hroot n (hperm.subset hn),
        Plain.outcome_tryEach_eq_ok]
      refine ⟨?_, rfl⟩
      intro n hn hfree
      have hmem := hperm.subset hn
      exact (alone_ok_iff hdoc (hroot n hmem) hsound.claims).mp (hfails n hmem hfree)

/-- Of three divisions the outer one and the first one in it succeed; the paragraph that the other one would
need was claimed before. The inner one is kept. -/
theorem matchMany_keeps_inner :
    let doc := Markup.parse [] "<div>o<div>a<p>x</p></div><div>b<p>y</p></div></div>".toList
    let paragraph : Slot := ⟨"p".toList, false, false, [], [.field ⟨"y".toList, .string, false⟩]⟩
    let t : Template := ⟨⟨"div".toList, false, false, [], [.field ⟨"x".toList, .string, false⟩]⟩,
      .child paragraph .done .done⟩
    let search := matchMany ⟨doc, none⟩ t doc.root true false
    let state := { (search.runFrom .empty).2 with claims := ClaimSet.empty.replay [4] }
    Reached ⟨doc, none⟩ state ∧ doc.root ∈ doc.root.subtrees ∧
      (∃ result, alone doc t state.claims doc.root = .ok (some result)) ∧
      ∃ found, (search.runFrom state).1 = .ok found ∧ found.map (·.node.index) = [1] ∧
        Keeps (Succeeds doc t state.claims doc.root true false) found := by
  intro doc paragraph t search state
  have hdoc : doc.Numbered := Document.numbered_parse [] _
  have hroot : doc.root ∈ doc.root.subtrees := Tree.mem_subtrees.mpr (.inl rfl)
  have hstate : Reached ⟨doc, none⟩ state :=
    .claimed (.matchMany .start t hroot true false) (.replay .empty [4])
  have hsound : state.Sound doc := hstate.sound hdoc
  have hjournal : state.claims.journal = [4] := ClaimSet.journal_replay_empty (List.nodup_singleton 4)
  have houter : ∃ result, alone doc t state.claims doc.root = .ok (some result) := by
    apply exists_fit_of_listed hdoc hroot ((SearchState.sound_empty doc).withClaims hsound.claims)
    rw [hjournal]
    decide +kernel
  obtain ⟨found, hrun, hindex⟩ : ∃ found, (search.runFrom state).1 = .ok found ∧
      found.map (·.node.index) = [1] := by
    apply exists_found_of_listed hdoc hroot hsound
    rw [hjournal]
    decide +kernel
  exact ⟨hstate, hroot, houter, found, hrun, hindex,
    ((matchMany_keeps [] _ t true false hstate hroot).2 found hrun).1⟩

end Search
end Gleaner
