import Gleaner.Extract.Extraction
import Gleaner.Proofs.Journal

/-! # Limits on attempts

A limit either leaves a search as it is without one, or ends it with the first attempt that is one too many.
Which of both depends only on how many attempts the search makes when nothing limits it, so any two
limits that suffice come to the same.
-/

namespace Gleaner

variable {doc : Document} {state : SearchState} {under : Node}

/-- A search that begins anew is allowed its attempts if they are no more than the limit; a negative limit
allows none. -/
theorem SearchScope.allows_of_start {limit : Int} {more : Nat} :
    (SearchScope.mk doc (some limit)).Allows 0 more ↔ (more : Int) ≤ max limit 0 := by
  simp only [Allows, Option.some.injEq, forall_eq', Nat.zero_add]
  omega

namespace Search

/-- Without a limit a search makes as many attempts as it makes without state. -/
theorem attempts_runFrom_matchMany (hdoc : doc.Numbered) (hunder : under ∈ doc.root.subtrees)
    (hstate : state.Sound doc) (t : Template) (self direct : Bool) :
    ((matchMany ⟨doc, none⟩ t under self direct).runFrom state).2.attempts =
      state.attempts + (Plain.matchMany doc t state.claims.claimed under self direct).attempts := by
  have hscope : (SearchScope.mk doc none).document.Numbered := hdoc
  have hmirrors := mirrors_matchMany hscope hunder hstate t self direct
  exact (hmirrors.allowed (.inr (by simp))).1

/-- A new search under a limit, in view of the same search without one: it comes to the same if the limit
covers the attempts, and else it stops right behind the limit. -/
theorem runFrom_matchMany_limited (hdoc : doc.Numbered) (hunder : under ∈ doc.root.subtrees)
    (hstate : state.Sound doc) (hstart : state.attempts = 0) (t : Template) (self direct : Bool)
    (limit : Int) :
    let free := (matchMany ⟨doc, none⟩ t under self direct).runFrom state
    let limited := (matchMany ⟨doc, some limit⟩ t under self direct).runFrom state
    if (free.2.attempts : Int) ≤ max limit 0 then
      limited.1 = free.1 ∧ limited.2.attempts = free.2.attempts
    else limited.1 = .error (.budget limit) ∧ (limited.2.attempts : Int) = max limit 0 + 1 := by
  intro free limited
  have houtcome : free.1 = _ := runFrom_matchMany hdoc hunder hstate t self direct
  have hattempts : free.2.attempts = _ := attempts_runFrom_matchMany hdoc hunder hstate t self direct
  have hscope : (SearchScope.mk doc (some limit)).document.Numbered := hdoc
  have hmirrors := mirrors_matchMany hscope hunder hstate t self direct
  have hallows : (SearchScope.mk doc (some limit)).Allows 0
      (Plain.matchMany doc t state.claims.claimed under self direct).attempts ↔ _ :=
    SearchScope.allows_of_start
  rw [← hstart] at hallows
  rw [houtcome, hattempts, hstart, Nat.zero_add]
  split
  next hbound =>
    obtain ⟨hcount, hcorresponds⟩ := hmirrors.allowed (hallows.mpr hbound)
    rw [hstart, Nat.zero_add] at hcount
    exact ⟨hcorresponds.eq.1, hcount⟩
  next hbound =>
    obtain ⟨_, hlimit, herror, hcount⟩ := hmirrors.stopped (mt hallows.mp hbound)
    obtain rfl := Option.some.inj hlimit
    rw [hstart] at hcount
    exact ⟨herror, hcount⟩

end Search

namespace Extraction

/-- The attempts that an extraction makes when nothing limits them. -/
def attempts (t : Template) (doc : Document) (rootSelector : Option Text) : Nat :=
  match rootOf doc rootSelector with
  | .error _ => 0
  | .ok root => ((Search.matchMany ⟨doc, none⟩ t root true false).runFrom .empty).2.attempts

variable {t : Template} {rootSelector : Option Text}

theorem mem_subtrees_of_rootOf (hdoc : doc.Numbered) {root : Node}
    (hroot : rootOf doc rootSelector = .ok root) : root ∈ doc.root.subtrees := by
  have htop : doc.root ∈ doc.root.subtrees := Tree.mem_subtrees.mpr (.inl rfl)
  unfold rootOf at hroot
  split at hroot
  next =>
    obtain rfl := Except.ok.inj hroot
    exact htop
  next written _ =>
    unfold Document.selectOrFail Document.select at hroot
    cases hfound : doc.selectAll doc.root written true none with
    | error error => simp [hfound, Except.map] at hroot
    | ok found =>
        cases found with
        | nil => simp [hfound, Except.map] at hroot
        | cons n more =>
            simp only [hfound, Except.map, List.head?_cons, Except.ok.injEq] at hroot
            subst hroot
            exact ((hdoc.selectAll_sound htop hfound).2 n List.mem_cons_self).1

/-- Once its root is found, an extraction is one new search. -/
theorem result_run_of_rootOf {root : Node} (hroot : rootOf doc rootSelector = .ok root)
    (limit : Option Int) :
    (run t doc rootSelector limit).result =
      ((Search.matchMany ⟨doc, limit⟩ t root true false).runFrom .empty).1.mapError .search := by
  unfold run
  rw [hroot]
  dsimp only
  cases ((Search.matchMany ⟨doc, limit⟩ t root true false).runFrom .empty).1 <;> rfl

/-- The search of an extraction under a limit finds what it finds without one, or ends at the limit. -/
theorem result_run_limited (hdoc : doc.Numbered) (limit : Int) :
    (run t doc rootSelector (some limit)).result =
      if (attempts t doc rootSelector : Int) ≤ max limit 0 then (run t doc rootSelector none).result
      else .error (.search (.budget limit)) := by
  unfold attempts
  cases hroot : rootOf doc rootSelector with
  | error error => simp [run, hroot]
  | ok root =>
      have hlimited := Search.runFrom_matchMany_limited hdoc (mem_subtrees_of_rootOf hdoc hroot)
        (SearchState.sound_empty doc) rfl t true false limit
      rw [result_run_of_rootOf hroot, result_run_of_rootOf hroot]
      dsimp only at hlimited ⊢
      split at hlimited
      next hbound => rw [if_pos hbound, hlimited.1]
      next hbound =>
        rw [if_neg hbound, hlimited.1]
        rfl

theorem result_first (limit : Option Int) :
    (first t doc rootSelector limit).result =
      (run t doc rootSelector limit).result.bind fun candidates =>
        match deepest? candidates with
        | some best => .ok best.record
        | none => .error (.noMatch rootSelector doc.error) := rfl

theorem result_all (limit : Option Int) :
    (all t doc rootSelector limit).result =
      (run t doc rootSelector limit).result.map fun candidates => candidates.map (·.record) := rfl

end Extraction

namespace Search

/-- Without a limit a new search makes some number of attempts. Under a limit it finds the same with as many
attempts if that number is within the limit, and else fails with the first attempt behind the limit. So
what is found under one limit is found under every greater one, and what is extracted under a limit
that suffices is what is extracted without. -/
theorem matchMany_limited (skip : List Text) (s : Text) (t : Template) (self direct : Bool)
    {claims : ClaimSet Nat} {under : Node} (hclaims : claims.Reachable)
    (hunder : under ∈ (Markup.parse skip s).root.subtrees) :
    let doc := Markup.parse skip s
    let run := fun limit => (matchMany ⟨doc, limit⟩ t under self direct).runFrom
      { SearchState.empty with claims := claims }
    let needed := (run none).2.attempts
    (∀ limit : Int, if (needed : Int) ≤ max limit 0 then
        (run (some limit)).1 = (run none).1 ∧ (run (some limit)).2.attempts = needed
      else (run (some limit)).1 = .error (.budget limit) ∧
        ((run (some limit)).2.attempts : Int) = max limit 0 + 1) ∧
    (∀ (limit greater : Int) (found : List Candidate), limit ≤ greater →
      (run (some limit)).1 = .ok found → (run (some greater)).1 = .ok found) ∧
    ∀ (rootSelector : Option Text) (limit : Int),
      if (Extraction.attempts t doc rootSelector : Int) ≤ max limit 0 then
        (Extraction.first t doc rootSelector (some limit)).result =
            (Extraction.first t doc rootSelector none).result ∧
          (Extraction.all t doc rootSelector (some limit)).result =
            (Extraction.all t doc rootSelector none).result
      else
        (Extraction.first t doc rootSelector (some limit)).result = .error (.search (.budget limit)) ∧
          (Extraction.all t doc rootSelector (some limit)).result =
            .error (.search (.budget limit)) := by
  intro doc run needed
  have hdoc : doc.Numbered := Document.numbered_parse skip s
  have hlimited := runFrom_matchMany_limited hdoc hunder
    ((SearchState.sound_empty doc).withClaims hclaims.consistent) rfl t self direct
  refine ⟨hlimited, ?_, ?_⟩
  · intro limit greater found hle hrun
    have hhere := hlimited limit
    have hthere := hlimited greater
    dsimp only at hhere hthere
    split at hhere
    next hbound =>
      rw [if_pos (hbound.trans (max_le_max_right 0 hle))] at hthere
      exact hthere.1.trans (hhere.1.symm.trans hrun)
    next =>
      rw [hhere.1] at hrun
      cases hrun
  · intro rootSelector limit
    rw [Extraction.result_first, Extraction.result_all, Extraction.result_run_limited hdoc limit]
    split
    next => exact ⟨rfl, rfl⟩
    next => exact ⟨rfl, rfl⟩

/-- Of three items one was claimed before. The list, two items, the bold word in the first of them and the
other one again as part of the listing are tried: a limit of five allows that, a limit of four ends the search
at the fifth attempt, and a negative one at the first. -/
theorem matchMany_limited_list :
    let doc := Markup.parse [] "<div><ul><li>a<b>c</b></li><li>d</li><li>e</li></ul></div>".toList
    let bold : Slot := ⟨"b".toList, false, true, [], [.field ⟨"y".toList, .string, false⟩]⟩
    let item : Slot := ⟨"li".toList, false, false, [], [.field ⟨"x".toList, .string, false⟩]⟩
    let t : Template := ⟨⟨"ul".toList, false, false, [], []⟩,
      .child ⟨"li".toList, false, false, [], []⟩ (.child bold .done .done)
        (.listing "xs".toList item .done)⟩
    let claims := ClaimSet.empty.replay [4]
    let run := fun limit => (matchMany ⟨doc, limit⟩ t doc.root true false).runFrom
      { SearchState.empty with claims := claims }
    claims.Reachable ∧ doc.root ∈ doc.root.subtrees ∧
      (∃ found, (run none).1 = .ok found ∧ found.map Candidate.claimed = [[3, 2, 5, 1]]) ∧
      (run none).2.attempts = 5 ∧ (run (some 5)).1 = (run none).1 ∧
      (run (some 4)).1 = .error (.budget 4) ∧ (run (some 4)).2.attempts = 5 ∧
      (run (some (-3))).1 = .error (.budget (-3)) ∧ (run (some (-3))).2.attempts = 1 := by
  intro doc bold item t claims run
  have hdoc : doc.Numbered := Document.numbered_parse [] _
  have hroot : doc.root ∈ doc.root.subtrees := Tree.mem_subtrees.mpr (.inl rfl)
  have hclaims : claims.Reachable := .replay .empty [4]
  have hjournal : claims.journal = [4] := ClaimSet.journal_replay_empty (List.nodup_singleton 4)
  have hsound : SearchState.Sound doc { SearchState.empty with claims := claims } :=
    (SearchState.sound_empty doc).withClaims hclaims.consistent
  have hfound : ∃ found, (run none).1 = .ok found ∧ found.map Candidate.claimed = [[3, 2, 5, 1]] := by
    apply exists_found_of_listed hdoc hroot hsound
    rw [hjournal]
    decide +kernel
  have hneeded : (run none).2.attempts = 5 := by
    refine (attempts_runFrom_matchMany hdoc hroot hsound t true false).trans ?_
    rw [Plain.Listed.matchMany_eq hclaims.consistent.mem_claimed, hjournal]
    decide +kernel
  obtain ⟨hlimited, -, -⟩ := matchMany_limited [] _ t true false hclaims hroot
  have henough := hlimited 5
  have hfew := hlimited 4
  have hnone := hlimited (-3)
  change if ((run none).2.attempts : Int) ≤ _ then _ else _ at henough hfew hnone
  rw [hneeded] at henough hfew hnone
  rw [if_pos (by decide)] at henough
  rw [if_neg (by decide)] at hfew hnone
  have hfour : ((run (some 4)).2.attempts : Int) = 5 := hfew.2
  have hfirst : ((run (some (-3))).2.attempts : Int) = 1 := hnone.2
  exact ⟨hclaims, hroot, hfound, hneeded, henough.1, hfew.1, by exact_mod_cast hfour, hnone.1,
    by exact_mod_cast hfirst⟩

end Search
end Gleaner
