import Gleaner.Proofs.Arena
import Gleaner.Proofs.Limits
import Gleaner.Proofs.Selection

/-! # The effort of a search

A slot is tried at most once with every node of the document for every try of the slot around it. So a slot
that stands `d` levels below the top of its template is tried at most `n ^ (d + 1)` times in a document
of `n` nodes. Claims only make the tries fewer. A limit that allows for as many tries as that is never met.
-/

namespace Gleaner

/-! ### The bound -/

namespace Parts

/-- How far below the top of the template the slots stand, those in listings too, if the first of these
stands `level` levels below it. -/
def levels (level : Nat) : Parts → List Nat
  | .done => []
  | .child _ below after => level :: (below.levels (level + 1) ++ after.levels level)
  | .listing _ _ below => level :: below.levels (level + 1)

/-- The tries of the parts under one node, if each slot is tried with `n` nodes. -/
def tries (n : Nat) : Parts → Nat
  | .done => 0
  | .child _ below after => n * (1 + below.tries n) + after.tries n
  | .listing _ _ below => n * (1 + below.tries n)

theorem sum_levels (n level : Nat) (parts : Parts) :
    ((parts.levels level).map fun level => n ^ (level + 1)).sum = n ^ level * parts.tries n := by
  induction parts generalizing level with
  | done => rfl
  | child slot below after ihbelow ihafter =>
      simp only [levels, tries, List.map_cons, List.map_append, List.sum_cons, List.sum_append, ihbelow,
        ihafter]
      ring
  | listing name slot below ih =>
      simp only [levels, tries, List.map_cons, List.sum_cons, ih]
      ring

end Parts

namespace Template

/-- How far below the top of the template its slots stand. -/
def levels (t : Template) : List Nat := 0 :: t.below.levels 1

/-- The sum, over the slots of a template, of the powers of `n` whose exponents say how many slots there are
from the top down to the slot. -/
def effort (t : Template) (n : Nat) : Nat := (t.levels.map fun level => n ^ (level + 1)).sum

theorem effort_eq (t : Template) (n : Nat) : t.effort n = n * (1 + t.below.tries n) := by
  rw [effort, levels, List.map_cons, List.sum_cons, Parts.sum_levels]
  ring

end Template

/-! ### Counting attempts -/

namespace Tally

variable {α β : Type} {bound more : Nat} {x : Tally α}

/-- At most so many attempts are made, and none is one too many. -/
structure Within (bound : Nat) (x : Tally α) : Prop where
  attempts : x.attempts ≤ bound
  unbroken : ∀ limit, x.outcome ≠ .error (.budget limit)

theorem Within.mono (hx : x.Within bound) (hle : bound ≤ more) : x.Within more :=
  ⟨hx.attempts.trans hle, hx.unbroken⟩

theorem within_pure (a : α) : (pure a : Tally α).Within bound := ⟨Nat.zero_le _, nofun⟩

theorem within_attempt : attempt.Within 1 := ⟨Nat.le_refl 1, nofun⟩

theorem within_fail {error : SearchError} (herror : ∀ limit, error ≠ .budget limit) :
    (fail error : Tally α).Within bound :=
  ⟨Nat.zero_le _, fun limit houtcome => herror limit (Except.error.inj houtcome)⟩

/-- The attempts of a sequence are those of its parts. -/
theorem Within.bind {next : α → Tally β} (hx : x.Within bound)
    (hnext : ∀ a, x.outcome = .ok a → (next a).Within more) : (x >>= next).Within (bound + more) := by
  cases houtcome : x.outcome with
  | error error =>
      rw [bind_of_error next houtcome]
      refine ⟨hx.attempts.trans (Nat.le_add_right _ _), fun limit hbudget => ?_⟩
      cases hbudget
      exact hx.unbroken limit houtcome
  | ok a =>
      rw [bind_of_ok next houtcome]
      have hafter := hnext a houtcome
      exact ⟨Nat.add_le_add hx.attempts hafter.attempts, hafter.unbroken⟩

end Tally

/-- No more nodes are found under a node than the document has. -/
theorem Document.length_of_selectAll {doc : Document} {under : Node} {written : Text} {self : Bool}
    {levels : Option Nat} {found : List Node} (hunder : under ∈ doc.root.subtrees)
    (hfound : doc.selectAll under written self levels = .ok found) :
    found.length ≤ doc.nodes.size ∧ ∀ n ∈ found, n ∈ doc.root.subtrees := by
  have hsize : under.subtrees.length ≤ doc.nodes.size := by
    rw [Tree.subtrees, List.length_cons, Forest.length_subtrees, size_nodes]
    rcases Tree.mem_subtrees.mp hunder with rfl | hbelow
    · exact Nat.le_refl _
    · exact (Tree.size_lt_of_mem_below hbelow).le
  have hsublist : found.Sublist under.subtrees := by
    unfold selectAll at hfound
    split at hfound
    next =>
      obtain rfl := Except.ok.inj hfound
      exact List.nil_sublist _
    next =>
      cases hread : Selector.read written with
      | error error =>
          rw [hread] at hfound
          cases hfound
      | ok selector =>
          rw [hread] at hfound
          obtain rfl := Except.ok.inj hfound
          exact sublist_find _ _ _ _
  exact ⟨hsublist.length_le.trans hsize, fun n hn => Tree.subtrees_trans hunder (hsublist.subset hn)⟩

namespace Plain

variable {doc : Document} {slot : Slot} {n under : Node} {taken : Std.ExtHashSet Nat} {bound : Nat}

theorem within_settle (result : Bound Record) : (settle result).Within 0 := by
  cases result with
  | value r => exact Tally.within_pure _
  | misfit reason => exact Tally.within_pure _
  | unknownKind name => exact Tally.within_fail nofun

theorem within_matchSlot {inside : Fit → Tally (Option Fit)} (hinside : ∀ fit, (inside fit).Within bound) :
    (matchSlot slot inside n).Within (1 + bound) := by
  refine Tally.within_attempt.bind fun _ _ => ?_
  rw [← Nat.zero_add bound]
  refine (within_settle _).bind fun settled _ => ?_
  cases settled with
  | none => exact Tally.within_pure _
  | some record =>
      rw [← Nat.add_zero bound]
      refine (hinside _).bind fun result _ => ?_
      cases result with
      | none => exact Tally.within_pure _
      | some fit => exact Tally.within_pure _

/-- Every node is tried at most once. -/
theorem within_tryEach {attempt : Node → Tally (Option Fit)} {nodes : List Node}
    (hattempt : ∀ n ∈ nodes, (attempt n).Within bound) :
    (tryEach attempt taken nodes).Within (nodes.length * bound) := by
  induction nodes with
  | nil => exact Tally.within_pure _
  | cons n nodes ih =>
      obtain ⟨hn, hnodes⟩ := List.forall_mem_cons.mp hattempt
      rw [tryEach, List.length_cons, Nat.succ_mul]
      split
      next => exact (ih hnodes).mono (Nat.le_add_right _ _)
      next =>
        rw [Nat.add_comm]
        refine hn.bind fun outcome _ => ?_
        rw [← Nat.add_zero (nodes.length * bound)]
        refine (ih hnodes).bind fun candidates _ => ?_
        cases outcome with
        | none => exact Tally.within_pure _
        | some fit => exact Tally.within_pure _

theorem within_candidates {attempt : Node → Tally (Option Fit)} {self direct : Bool}
    (hunder : under ∈ doc.root.subtrees) (hattempt : ∀ n ∈ doc.root.subtrees, (attempt n).Within bound) :
    (candidates doc slot attempt taken under self direct).Within (doc.nodes.size * bound) := by
  unfold candidates
  split
  next => exact Tally.within_fail nofun
  next found hfound =>
    obtain ⟨hlength, hmem⟩ := Document.length_of_selectAll hunder hfound
    rw [← Nat.add_zero (doc.nodes.size * bound)]
    refine Tally.Within.bind ?_ fun matched _ => Tally.within_pure _
    exact (within_tryEach fun n hn => hattempt n (hmem n hn)).mono (Nat.mul_le_mul_right bound hlength)

theorem within_matchParts (parts : Parts) (fit : Fit) (hn : n ∈ doc.root.subtrees) :
    (matchParts doc parts n taken fit).Within (parts.tries doc.nodes.size) := by
  induction parts generalizing n taken fit with
  | done => exact Tally.within_pure _
  | child slot below after ihbelow ihafter =>
      refine (within_candidates hn fun m hm => within_matchSlot fun fit => ihbelow fit hm).bind ?_
      intro found _
      cases deepest? found with
      | some best => exact ihafter _ hn
      | none =>
          dsimp only
          split
          next => exact ihafter _ hn
          next => exact Tally.within_pure _
  | listing name slot below ih =>
      rw [Parts.tries, ← Nat.add_zero (doc.nodes.size * _)]
      refine (within_candidates hn fun m hm => within_matchSlot fun fit => ih fit hm).bind ?_
      exact fun found _ => Tally.within_pure _

theorem within_matchMany (t : Template) (taken : Std.ExtHashSet Nat) (self direct : Bool)
    (hunder : under ∈ doc.root.subtrees) :
    (matchMany doc t taken under self direct).Within (t.effort doc.nodes.size) := by
  rw [t.effort_eq]
  exact within_candidates hunder fun n hn => within_matchSlot fun fit => within_matchParts _ fit hn

end Plain

/-! ### Limits that are not met -/

namespace Extraction

variable {doc : Document} {t : Template} {rootSelector : Option Text}

theorem attempts_le (hdoc : doc.Numbered) : attempts t doc rootSelector ≤ t.effort doc.nodes.size := by
  unfold attempts
  split
  next => exact Nat.zero_le _
  next root hroot =>
    have hmem := mem_subtrees_of_rootOf hdoc hroot
    rw [Search.attempts_runFrom_matchMany hdoc hmem (SearchState.sound_empty doc)]
    exact (Nat.zero_add _).trans_le (Plain.within_matchMany t _ _ _ hmem).attempts

/-- No limit is broken where there is none. -/
theorem run_unlimited (hdoc : doc.Numbered) (broken : Int) :
    (run t doc rootSelector none).result ≠ .error (.search (.budget broken)) := by
  cases hroot : rootOf doc rootSelector with
  | error error => simp [run, hroot]
  | ok root =>
      have hmem := mem_subtrees_of_rootOf hdoc hroot
      have hplain := Plain.within_matchMany t SearchState.empty.claims.claimed true false hmem
      rw [result_run_of_rootOf hroot, Search.runFrom_matchMany hdoc hmem (SearchState.sound_empty doc)]
      intro hresult
      cases houtcome : (Plain.matchMany doc t SearchState.empty.claims.claimed root true false).outcome with
      | ok found =>
          rw [houtcome] at hresult
          cases hresult
      | error error =>
          rw [houtcome] at hresult
          cases hresult
          exact hplain.unbroken broken houtcome

/-- Under a limit that allows for all attempts, nothing that comes of an extraction is the limit's doing. -/
theorem run_of_effort_le (hdoc : doc.Numbered) (rootSelector : Option Text) {limit : Int}
    (hlimit : (t.effort doc.nodes.size : Int) ≤ limit) (broken : Int) :
    (run t doc rootSelector (some limit)).result ≠ .error (.search (.budget broken)) := by
  have hattempts : attempts t doc rootSelector ≤ t.effort doc.nodes.size := attempts_le hdoc
  rw [result_run_limited hdoc, if_pos (by omega)]
  exact run_unlimited hdoc broken

end Extraction

namespace Search

/-- The attempts of a new search are bounded by the numbers of slots and of nodes. Under a limit of that
many it finds what it finds without one, and no extraction under such a limit ends for it. -/
theorem attempts_le_effort (skip : List Text) (s : Text) (t : Template) (self direct : Bool)
    {under : Node} (hunder : under ∈ (Markup.parse skip s).root.subtrees) :
    let doc := Markup.parse skip s
    let run := fun limit => (matchMany ⟨doc, limit⟩ t under self direct).runFrom .empty
    (run none).2.attempts ≤ t.effort doc.nodes.size ∧
    ∀ limit : Int, (t.effort doc.nodes.size : Int) ≤ limit →
      (run (some limit)).1 = (run none).1 ∧
      (∀ broken, (run (some limit)).1 ≠ .error (.budget broken)) ∧
      ∀ rootSelector broken,
        (Extraction.first t doc rootSelector (some limit)).result ≠ .error (.search (.budget broken)) ∧
          (Extraction.all t doc rootSelector (some limit)).result ≠ .error (.search (.budget broken)) := by
  intro doc run
  have hdoc : doc.Numbered := Document.numbered_parse skip s
  have hsound := SearchState.sound_empty doc
  have hplain := Plain.within_matchMany t SearchState.empty.claims.claimed self direct hunder
  have hattempts : (run none).2.attempts ≤ t.effort doc.nodes.size :=
    (attempts_runFrom_matchMany hdoc hunder hsound t self direct).trans_le
      ((Nat.zero_add _).trans_le hplain.attempts)
  refine ⟨hattempts, fun limit hlimit => ?_⟩
  have hlimited := runFrom_matchMany_limited hdoc hunder hsound rfl t self direct limit
  have henough : ((run none).2.attempts : Int) ≤ max limit 0 := by omega
  dsimp only at hlimited
  rw [if_pos henough] at hlimited
  refine ⟨hlimited.1, fun broken hbroken => ?_, fun rootSelector broken => ?_⟩
  · refine hplain.unbroken broken ?_
    rw [← runFrom_matchMany hdoc hunder hsound t self direct, ← hbroken]
    exact hlimited.1.symm
  · have hrun := Extraction.run_of_effort_le hdoc rootSelector hlimit broken
    rw [Extraction.result_first, Extraction.result_all]
    cases hresult : (Extraction.run t doc rootSelector (some limit)).result with
    | error error =>
        rw [hresult] at hrun
        exact ⟨fun hfirst => hrun (congrArg _ (Except.error.inj hfirst)),
          fun hall => hrun (congrArg _ (Except.error.inj hall))⟩
    | ok found =>
        refine ⟨fun hfirst => ?_, nofun⟩
        cases hbest : deepest? found with
        | none => simp [Except.bind, hbest] at hfirst
        | some best => simp [Except.bind, hbest] at hfirst

/-- Three nodes and two slots, one below the other: no more than twelve attempts. -/
theorem attempts_le_effort_list :
    let doc := Markup.parse [] "<ul><li>a</li><li>b</li></ul>".toList
    let t : Template := ⟨⟨"ul".toList, false, false, [], []⟩,
      .child ⟨"li".toList, false, true, [], [.field ⟨"x".toList, .string, false⟩]⟩ .done .done⟩
    let run := fun limit => (matchMany ⟨doc, limit⟩ t doc.root true false).runFrom .empty
    t.effort doc.nodes.size = 12 ∧ (run none).2.attempts ≤ 12 ∧ (run (some 12)).1 = (run none).1 := by
  intro doc t run
  have hroot : doc.root ∈ doc.root.subtrees := Tree.mem_subtrees.mpr (.inl rfl)
  have heffort : t.effort doc.nodes.size = 12 := by decide +kernel
  obtain ⟨hattempts, hlimits⟩ :=
    attempts_le_effort [] "<ul><li>a</li><li>b</li></ul>".toList t true false hroot
  have hattempts : (run none).2.attempts ≤ t.effort doc.nodes.size := hattempts
  have hlimit : (t.effort doc.nodes.size : Int) ≤ 12 := by rw [heffort]; rfl
  exact ⟨heffort, heffort ▸ hattempts, (hlimits 12 hlimit).1⟩

end Search
end Gleaner
