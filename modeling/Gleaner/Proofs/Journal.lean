import Gleaner.Proofs.Embedding
import Gleaner.Proofs.ListedSearch
import Gleaner.Proofs.Mirroring

/-! # The journal gives what copies give

A search that undoes and repeats claims on one journal comes to the same as a search that passes claims
down as values. A tried node leaves the claims as they were, whether it fits or not: what it claimed was
free before, so going back takes away exactly that, and claiming it again in a larger set adds exactly
that.
-/

namespace Gleaner

variable {scope : SearchScope} {state final : SearchState} {slot : Slot} {n under : Node}
variable {start : ClaimSet Nat}

theorem SearchState.Sound.withClaims {doc : Document} {claims : ClaimSet Nat}
    (hstate : state.Sound doc) (hclaims : claims.Consistent) :
    SearchState.Sound doc { state with claims := claims } :=
  ⟨hclaims, hstate.texts⟩

theorem SearchState.sound_empty (doc : Document) : SearchState.empty.Sound doc :=
  ⟨ClaimSet.consistent_empty, by simp [SearchState.empty]⟩

namespace Search

/-- Results of a match that began with the claims `start`: on success the claims of the match were added
to them, on failure anything may have been. -/
def SameFit (start : ClaimSet Nat) :
    Option (Record × Nat) → Option Fit → SearchState → Prop
  | some (record, depthSum), some fit, final =>
    record = fit.record ∧ depthSum = fit.depthSum ∧ final.claims = start.replay fit.claimed
  | none, none, final => start.journal <+: final.claims.journal
  | _, _, _ => False

theorem runFrom_textOf (hdoc : scope.document.Numbered) (hn : n ∈ scope.document.root.subtrees)
    (hstate : state.Sound scope.document) :
    ∃ final, (textOf n).runFrom state = (.ok (n.textContent textSeparator), final) ∧
      final.Sound scope.document ∧ final.attempts = state.attempts ∧ final.claims = state.claims := by
  unfold textOf
  rw [SearchM.runFrom_bind_ok _ (SearchM.runFrom_get state)]
  cases hkept : state.texts[n.index]? with
  | some t =>
      rw [hstate.texts n hn t hkept]
      exact ⟨state, rfl, hstate, rfl, rfl⟩
  | none =>
      refine ⟨_, rfl, ⟨hstate.claims, ?_⟩, rfl, rfl⟩
      intro m hm t ht
      -- only the node itself has its number, so no other node is given its text
      rw [Std.HashMap.getElem?_insert] at ht
      split at ht
      next hindex =>
        rw [← Option.some.inj ht, hdoc.eq_of_index hn hm (beq_iff_eq.mp hindex)]
      next => exact hstate.texts m hm t ht

theorem mirrors_settle (slot : Slot) (n : Node) (bound : Bound Record)
    (hstate : state.Sound scope.document) :
    Mirrors scope state (settle slot n bound) (Plain.settle bound)
      fun a b final => a = b ∧ final.claims = state.claims := by
  cases bound with
  | value r => exact .pure hstate ⟨rfl, rfl⟩
  | misfit reason =>
      exact .after_run (SearchM.runFrom_modify _ state) rfl
        (.pure ⟨hstate.claims, hstate.texts⟩ ⟨rfl, rfl⟩)
  | unknownKind name => exact .fail _ hstate

/-- Settling what is bound first and then what is bound further is settling both together. -/
theorem mirrors_settle_bind (bound : Bound Record) (further : Record → Bound Record)
    {next : Option Record → SearchM (Option Record)} (hnone : next none = pure none)
    (hsome : ∀ r, next (some r) = settle slot n (further r))
    (hstate : state.Sound scope.document) :
    Mirrors scope state (settle slot n bound >>= next) (Plain.settle (bound.bind further))
      fun a b final => a = b ∧ final.claims = state.claims := by
  cases bound with
  | value r =>
      apply Mirrors.after_run rfl rfl
      rw [hsome]
      exact mirrors_settle slot n _ hstate
  | misfit reason =>
      refine .after_run (SearchM.runFrom_bind_ok _ (SearchM.runFrom_modify _ state)) rfl ?_
      rw [hnone]
      exact .pure ⟨hstate.claims, hstate.texts⟩ ⟨rfl, rfl⟩
  | unknownKind name => exact .fail _ hstate

theorem mirrors_bindSlot (hdoc : scope.document.Numbered) (hn : n ∈ scope.document.root.subtrees)
    (hstate : state.Sound scope.document) :
    Mirrors scope state (bindSlot slot n) (Plain.settle (slot.bound n))
      fun a b final => a = b ∧ final.claims = state.claims := by
  unfold bindSlot Slot.bound
  split
  next =>
    exact .after_run rfl rfl (mirrors_settle_bind (.value []) _ rfl (fun _ => rfl) hstate)
  next =>
    obtain ⟨middle, hrun, hmiddle, hattempts, hclaims⟩ := runFrom_textOf hdoc hn hstate
    rw [← hclaims]
    apply Mirrors.after_run hrun hattempts
    exact .after_run rfl rfl (mirrors_settle_bind _ _ rfl (fun _ => rfl) hmiddle)

theorem mirrors_matchSlot (hdoc : scope.document.Numbered) (hn : n ∈ scope.document.root.subtrees)
    (hstate : state.Sound scope.document)
    {inside : Record × Nat → SearchM (Option (Record × Nat))} {plain : Fit → Tally (Option Fit)}
    (hinside : ∀ record middle, middle.Sound scope.document → middle.claims = state.claims →
      Mirrors scope middle (inside (record, n.depth)) (plain ⟨record, n.depth, []⟩)
        (SameFit state.claims)) :
    Mirrors scope state (matchSlot scope slot inside n) (Plain.matchSlot slot plain n)
      (SameFit state.claims) := by
  have hfails : ∀ middle : SearchState, middle.Sound scope.document →
      middle.claims = state.claims →
      Mirrors scope middle (pure none) (pure none) (SameFit state.claims) :=
    fun middle hmiddle hclaims => .pure hmiddle (hclaims ▸ List.prefix_refl _)
  apply (Mirrors.attempt hstate).bind
  intro _ _ counted _ hcounted hclaims
  apply (mirrors_bindSlot hdoc hn hcounted).bind
  rintro bound _ bounded _ hbounded ⟨rfl, hkept⟩
  rw [hclaims] at hkept
  cases bound with
  | none => exact hfails bounded hbounded hkept
  | some record =>
      apply (hinside record bounded hbounded hkept).bind
      intro result fit matched _ hmatched hfit
      cases result with
      | none =>
          cases fit with
          | none => exact .pure hmatched hfit
          | some fit => exact hfit.elim
      | some result =>
          cases fit with
          | none => exact hfit.elim
          | some fit =>
              obtain ⟨hrecord, hdepthSum, hadded⟩ := hfit
              refine .after_run rfl rfl (.pure ?_ ⟨hrecord, hdepthSum, ?_⟩)
              · exact hmatched.withClaims (hmatched.claims.claim n.index)
              · change matched.claims.claim n.index = _
                rw [hadded, ClaimSet.replay_append]
                rfl

/-- Going back after each node makes every node begin with the same claims, and gives what the node
claimed. -/
theorem mirrors_tryEach {attempt : Node → SearchM (Option (Record × Nat))}
    {plain : Node → Tally (Option Fit)} {found : List Node} {claims : ClaimSet Nat}
    (hconsistent : claims.Consistent) (hstate : state.Sound scope.document)
    (hclaims : state.claims = claims)
    (hattempt : ∀ m ∈ found, ∀ middle, middle.Sound scope.document → middle.claims = claims →
      Mirrors scope middle (attempt m) (plain m) (SameFit claims))
    (hfresh : ∀ m ∈ found, m.index ∉ claims.claimed → ∀ fit, (plain m).outcome = .ok (some fit) →
      fit.claimed.Nodup ∧ ∀ i ∈ fit.claimed, i ∉ claims.claimed) :
    Mirrors scope state (tryEach attempt found) (Plain.tryEach plain claims.claimed found)
      fun cs cs' final => cs = cs' ∧ final.claims = claims := by
  induction found generalizing state with
  | nil => exact .pure hstate ⟨rfl, hclaims⟩
  | cons m more ih =>
      rw [List.forall_mem_cons] at hattempt hfresh
      rw [tryEach, Plain.tryEach]
      apply Mirrors.after_run (SearchM.runFrom_get state) rfl
      have htaken : state.claims.contains m.index = true ↔ m.index ∈ claims.claimed := by
        rw [hclaims, ClaimSet.contains_iff]
      by_cases hmem : m.index ∈ claims.claimed
      · rw [if_pos (htaken.mpr hmem), if_pos hmem]
        exact ih hstate hclaims hattempt.2 hfresh.2
      · rw [if_neg (mt htaken.mp hmem), if_neg hmem]
        apply Mirrors.after_run (SearchM.runFrom_get state) rfl
        apply (hattempt.1 state hstate hclaims).bind
        intro outcome fit tried hplain htried hfit
        -- fitting or not, the node only added to the journal, so going back gives the claims it began with
        have hgrown : claims.journal <+: tried.claims.journal := by
          cases outcome <;> cases fit
          · exact hfit
          · exact hfit.elim
          · exact hfit.elim
          · rw [hfit.2.2]
            exact ClaimSet.prefix_journal_replay _ _
        have hback : (rollback state.claims.checkpoint).runFrom tried =
            (.ok (tried.claims.journal.drop claims.journal.length),
              ⟨claims, tried.attempts, tried.texts, tried.notes⟩) := by
          change (Except.ok (tried.claims.rollback state.claims.checkpoint).1, SearchState.mk
            (tried.claims.rollback state.claims.checkpoint).2 _ _ _) = _
          rw [hclaims, hconsistent.rollback_checkpoint htried.claims hgrown]
        apply Mirrors.after_run hback rfl
        apply (ih (htried.withClaims hconsistent) rfl hattempt.2 hfresh.2).bind
        rintro cs _ rest _ hrest ⟨rfl, hkept⟩
        cases outcome <;> cases fit
        · exact .pure hrest ⟨rfl, hkept⟩
        · exact hfit.elim
        · exact hfit.elim
        next result fit =>
          obtain ⟨hrecord, hdepthSum, hadded⟩ := hfit
          obtain ⟨hnodup, hnew⟩ := hfresh.1 hmem fit hplain
          -- nothing claimed was claimed twice or before, so the batch taken back is the whole of it
          have hclaimed : tried.claims.journal.drop claims.journal.length = fit.claimed := by
            rw [hadded, ClaimSet.journal_replay hnodup hnew, List.drop_left]
          refine .pure hrest ⟨?_, hkept⟩
          rw [hrecord, hdepthSum, hclaimed]

theorem mirrors_matchOne (hdoc : scope.document.Numbered) (hn : n ∈ scope.document.root.subtrees)
    (hstate : state.Sound scope.document) (hclaims : state.claims = start) (t : Template)
    (hbelow : ∀ (middle : SearchState) (fit : Fit), middle.Sound scope.document →
      middle.claims = start.replay fit.claimed →
      Mirrors scope middle (matchParts scope t.below n (fit.record, fit.depthSum))
        (Plain.matchParts scope.document t.below n middle.claims.claimed fit) (SameFit start)) :
    Mirrors scope state (matchOne scope t n)
      (Plain.matchOne scope.document t start.claimed n) (SameFit start) := by
  subst hclaims
  apply mirrors_matchSlot hdoc hn hstate
  intro record middle hmiddle hkept
  rw [← hkept] at hbelow ⊢
  exact hbelow middle ⟨record, n.depth, []⟩ hmiddle rfl

theorem fresh_of_matchOne (hdoc : scope.document.Numbered)
    (hn : n ∈ scope.document.root.subtrees) {t : Template} {taken : Std.ExtHashSet Nat} {fit : Fit}
    (hfree : n.index ∉ taken)
    (hfit : (Plain.matchOne scope.document t taken n).outcome = .ok (some fit)) :
    fit.claimed.Nodup ∧ ∀ i ∈ fit.claimed, i ∉ taken := by
  obtain ⟨images, -, himages, hnodup, hplaced⟩ :=
    Plain.placed_of_matchSlot (c := ⟨n, fit.record, fit.depthSum, fit.claimed⟩) hdoc hn hfree
      (Plain.placed_of_matchParts hdoc t.below hn) hfit
  refine ⟨hnodup, ?_⟩
  intro i hi
  change fit.claimed = _ at himages
  rw [himages, List.mem_map] at hi
  obtain ⟨m, hm, rfl⟩ := hi
  exact (hplaced m hm).2

theorem mirrors_candidates (hdoc : scope.document.Numbered)
    (hunder : under ∈ scope.document.root.subtrees) (hstate : state.Sound scope.document)
    (t : Template) {self direct : Bool}
    (hmatch : ∀ m ∈ scope.document.root.subtrees, ∀ middle, middle.Sound scope.document →
      middle.claims = state.claims →
      Mirrors scope middle (matchOne scope t m)
        (Plain.matchOne scope.document t state.claims.claimed m) (SameFit state.claims)) :
    Mirrors scope state (candidates scope t.slot (matchOne scope t) under self direct)
      (Plain.candidates scope.document t.slot
        (Plain.matchOne scope.document t state.claims.claimed) state.claims.claimed under self direct)
      fun cs cs' final => cs = cs' ∧ final.claims = state.claims := by
  unfold candidates Plain.candidates
  cases hfound : scope.document.selectAll under t.slot.selector self
      (if direct then some 1 else none) with
  | error error => exact .fail _ hstate
  | ok found =>
      have hroot : ∀ m ∈ found, m ∈ scope.document.root.subtrees := fun m hm =>
        Tree.subtrees_trans hunder ((hdoc.selectAll_sound hunder hfound).2 m hm).1
      refine Mirrors.bind (mirrors_tryEach hstate.claims hstate rfl
        (fun m hm => hmatch m (hroot m hm))
        (fun m hm hfree _ hfit => fresh_of_matchOne hdoc (hroot m hm) hfree hfit)) ?_
      rintro matched _ tried _ htried ⟨rfl, hkept⟩
      exact .after_run (SearchM.runFrom_modify _ tried) rfl
        (.pure ⟨htried.claims, htried.texts⟩ ⟨rfl, hkept⟩)

/-- Whatever parts of a template are matched, the claims of a child that was chosen and of the items of a
listing are repeated in the order in which copies would add them. -/
theorem mirrors_matchParts (hdoc : scope.document.Numbered) (parts : Parts)
    (hn : n ∈ scope.document.root.subtrees) (hstate : state.Sound scope.document) (fit : Fit)
    (hclaims : state.claims = start.replay fit.claimed) :
    Mirrors scope state (matchParts scope parts n (fit.record, fit.depthSum))
      (Plain.matchParts scope.document parts n state.claims.claimed fit) (SameFit start) := by
  -- the match inside a candidate begins with the claims at the candidate, not at the parts around it
  induction parts generalizing n state start fit with
  | done => exact .pure hstate ⟨rfl, rfl, hclaims⟩
  | child slot below after ihbelow ihafter =>
      rw [matchParts, Plain.matchParts]
      refine (mirrors_candidates hdoc hn hstate ⟨slot, below⟩ ?_).bind ?_
      · intro m hm middle hmiddle hkept
        exact mirrors_matchOne hdoc hm hmiddle hkept ⟨slot, below⟩
          fun _ fit hbegin => ihbelow hm hbegin fit
      · rintro found _ tried _ htried ⟨rfl, hkept⟩
        cases deepest? found with
        | none =>
            dsimp only
            split
            next =>
              rw [← hkept]
              exact ihafter hn htried
                { fit with record := fit.record.update (Template.emptyRecord ⟨slot, below⟩) }
                (hkept.trans hclaims)
            next =>
              apply Mirrors.pure htried
              change start.journal <+: tried.claims.journal
              rw [hkept, hclaims]
              exact ClaimSet.prefix_journal_replay _ _
        | some best =>
            refine .after_run rfl rfl ?_
            dsimp only
            rw [← ClaimSet.claimed_replay, ← hkept]
            refine ihafter hn (htried.withClaims (htried.claims.replay best.claimed))
              (fit.choose best) ?_
            change tried.claims.replay best.claimed = _
            rw [hkept, hclaims, Fit.choose, ClaimSet.replay_append]
  | listing name slot below ihbelow =>
      rw [matchParts, Plain.matchParts]
      refine (mirrors_candidates hdoc hn hstate ⟨slot, below⟩ ?_).bind ?_
      · intro m hm middle hmiddle hkept
        exact mirrors_matchOne hdoc hm hmiddle hkept ⟨slot, below⟩
          fun _ fit hbegin => ihbelow hm hbegin fit
      · rintro found _ tried _ htried ⟨rfl, hkept⟩
        have hitems : found.foldl (fun claims item => claims.replay item.claimed) tried.claims =
            tried.claims.replay (found.flatMap (·.claimed)) := List.foldl_flatMap.symm
        refine .after_run rfl rfl (.pure ?_ ⟨rfl, rfl, ?_⟩)
        · apply htried.withClaims
          change (found.foldl (fun claims item => claims.replay item.claimed) tried.claims).Consistent
          rw [hitems]
          exact htried.claims.replay _
        · change found.foldl (fun claims item => claims.replay item.claimed) tried.claims = _
          rw [hitems, hkept, hclaims, ClaimSet.replay_append]

theorem mirrors_matchMany (hdoc : scope.document.Numbered)
    (hunder : under ∈ scope.document.root.subtrees) (hstate : state.Sound scope.document)
    (t : Template) (self direct : Bool) :
    Mirrors scope state (matchMany scope t under self direct)
      (Plain.matchMany scope.document t state.claims.claimed under self direct)
      fun cs cs' final => cs = cs' ∧ final.claims = state.claims :=
  mirrors_candidates hdoc hunder hstate t fun _ hm _ hmiddle hkept =>
    mirrors_matchOne hdoc hm hmiddle hkept t fun _ fit hbegin =>
      mirrors_matchParts hdoc t.below hm hbegin fit

theorem mirrors_matchOne_of_sound (hdoc : scope.document.Numbered)
    (hn : n ∈ scope.document.root.subtrees) (hstate : state.Sound scope.document) (t : Template) :
    Mirrors scope state (matchOne scope t n)
      (Plain.matchOne scope.document t state.claims.claimed n) (SameFit state.claims) :=
  mirrors_matchOne hdoc hn hstate rfl t fun _ fit hbegin =>
    mirrors_matchParts hdoc t.below hn hbegin fit

/-- Without a limit a search comes to what it comes to without state. -/
theorem runFrom_matchMany {doc : Document} (hdoc : doc.Numbered) (hunder : under ∈ doc.root.subtrees)
    (hstate : state.Sound doc) (t : Template) (self direct : Bool) :
    ((matchMany ⟨doc, none⟩ t under self direct).runFrom state).1 =
      (Plain.matchMany doc t state.claims.claimed under self direct).outcome := by
  have hscope : (SearchScope.mk doc none).document.Numbered := hdoc
  have hmirrors := mirrors_matchMany hscope hunder hstate t self direct
  exact (hmirrors.allowed (.inr (by simp))).2.eq.1

/-- Without a limit a single match comes to what it comes to without state. -/
theorem runFrom_matchOne (hdoc : scope.document.Numbered) (hn : n ∈ scope.document.root.subtrees)
    (hstate : state.Sound scope.document) (hlimit : scope.limit = none) (t : Template) :
    ((matchOne scope t n).runFrom state).1 =
      (Plain.matchOne scope.document t state.claims.claimed n).outcome.map
        (Option.map fun fit => (fit.record, fit.depthSum)) := by
  have hmirrors := mirrors_matchOne_of_sound hdoc hn hstate t
  obtain ⟨-, hcorresponds⟩ := hmirrors.allowed (.inr (by simp [hlimit]))
  revert hcorresponds
  generalize ((matchOne scope t n).runFrom state).1 = result
  generalize (Plain.matchOne scope.document t state.claims.claimed n).outcome = outcome
  intro hcorresponds
  cases hcorresponds with
  | error error => rfl
  | @ok result fit hsame =>
      cases result <;> cases fit
      · rfl
      · exact hsame.elim
      · exact hsame.elim
      next result fit =>
        obtain ⟨hrecord, hdepthSum, -⟩ := hsame
        simp [Except.map, ← hrecord, ← hdepthSum]

/-- What a search finds is seen from what it finds on the list of the claims. -/
theorem exists_found_of_listed {doc : Document} {t : Template} {self direct : Bool} {β : Type}
    {view : Candidate → β} {seen : List β} (hdoc : doc.Numbered) (hunder : under ∈ doc.root.subtrees)
    (hstate : state.Sound doc)
    (hseen : (Plain.Listed.matchMany doc t state.claims.journal under self direct).outcome.map
      (·.map view) = .ok seen) :
    ∃ found, ((matchMany ⟨doc, none⟩ t under self direct).runFrom state).1 = .ok found ∧
      found.map view = seen := by
  rw [runFrom_matchMany hdoc hunder hstate, Plain.Listed.matchMany_eq hstate.claims.mem_claimed]
  cases hfound : (Plain.Listed.matchMany doc t state.claims.journal under self direct).outcome with
  | error error => simp [hfound, Except.map] at hseen
  | ok found =>
      rw [hfound] at hseen
      exact ⟨found, rfl, Except.ok.inj hseen⟩

/-- Whether a node fits is seen from whether it does on the list of the claims. -/
theorem exists_fit_of_listed {doc : Document} {t : Template} (hdoc : doc.Numbered)
    (hn : n ∈ doc.root.subtrees) (hstate : state.Sound doc)
    (hseen : (Plain.Listed.matchOne doc t state.claims.journal n).outcome.map Option.isSome = .ok true) :
    ∃ result, ((matchOne ⟨doc, none⟩ t n).runFrom state).1 = .ok (some result) := by
  have hscope : (SearchScope.mk doc none).document.Numbered := hdoc
  have hrun := runFrom_matchOne hscope hn hstate rfl t
  rw [Plain.Listed.matchOne_eq hstate.claims.mem_claimed] at hrun
  cases hfit : (Plain.Listed.matchOne doc t state.claims.journal n).outcome with
  | error error => simp [hfit, Except.map] at hseen
  | ok fit =>
      cases fit with
      | none => simp [hfit, Except.map] at hseen
      | some fit =>
          rw [hfit] at hrun
          exact ⟨_, hrun⟩

/-- The states in which a call of the search can find an extraction: new, with any claims, or after any
calls that worked on the same document. -/
inductive Reached (scope : SearchScope) : SearchState → Prop
  | start : Reached scope .empty
  | claimed {state : SearchState} {claims : ClaimSet Nat} (hstate : Reached scope state)
      (hclaims : claims.Reachable) : Reached scope { state with claims := claims }
  | matchMany {state : SearchState} {under : Node} (hstate : Reached scope state) (t : Template)
      (hunder : under ∈ scope.document.root.subtrees) (self direct : Bool) :
      Reached scope ((matchMany scope t under self direct).runFrom state).2
  | matchOne {state : SearchState} {n : Node} (hstate : Reached scope state) (t : Template)
      (hn : n ∈ scope.document.root.subtrees) :
      Reached scope ((matchOne scope t n).runFrom state).2

theorem Reached.sound (hdoc : scope.document.Numbered) (hstate : Reached scope state) :
    state.Sound scope.document := by
  induction hstate with
  | start => exact SearchState.sound_empty _
  | claimed _ hclaims ih => exact ih.withClaims hclaims.consistent
  | matchMany _ t hunder self direct ih => exact (mirrors_matchMany hdoc hunder ih t self direct).sound
  | matchOne _ t hn ih => exact (mirrors_matchOne_of_sound hdoc hn ih t).sound

/-- Without a limit, and whatever was searched for before, all matches are found as they are by the
search without state, with as many attempts, and the claims are left as they were. -/
theorem matchMany_eq_plain (skip : List Text) (s : Text) (t : Template) (self direct : Bool)
    {state : SearchState} {under : Node}
    (hstate : Reached ⟨Markup.parse skip s, none⟩ state)
    (hunder : under ∈ (Markup.parse skip s).root.subtrees) :
    let run := (matchMany ⟨Markup.parse skip s, none⟩ t under self direct).runFrom state
    let plain := Plain.matchMany (Markup.parse skip s) t state.claims.claimed under self direct
    run.1 = plain.outcome ∧ run.2.attempts = state.attempts + plain.attempts ∧
      ∀ found, run.1 = .ok found → run.2.claims = state.claims := by
  intro run plain
  have hdoc : (SearchScope.mk (Markup.parse skip s) none).document.Numbered :=
    Document.numbered_parse skip s
  have hmirrors := mirrors_matchMany hdoc hunder (hstate.sound hdoc) t self direct
  obtain ⟨hattempts, hcorresponds⟩ := hmirrors.allowed (.inr (by simp))
  obtain ⟨houtcome, hclaims⟩ := hcorresponds.eq
  exact ⟨houtcome, hattempts, hclaims⟩

/-- A list is searched twice: the second search, too, is the one without state. -/
theorem matchMany_eq_plain_again :
    let doc := Markup.parse [] "<ul><li>a</li><li>b</li></ul>".toList
    let item : Slot := ⟨"li".toList, false, false, [], [.field ⟨"x".toList, .string, false⟩]⟩
    let t : Template := ⟨⟨"ul".toList, false, false, [], []⟩, .listing "xs".toList item .done⟩
    let search := matchMany ⟨doc, none⟩ t doc.root true false
    let state := (search.runFrom .empty).2
    (search.runFrom state).1 =
      (Plain.matchMany doc t state.claims.claimed doc.root true false).outcome :=
  have hroot := Tree.mem_subtrees.mpr (.inl rfl)
  (matchMany_eq_plain [] _ _ true false (.matchMany .start _ hroot true false) hroot).1

/-- Whatever a search returns, with a limit or without, every candidate comes from an embedding of the
template into what was free. -/
theorem matchMany_embeds (skip : List Text) (s : Text) (limit : Option Int) (t : Template)
    (self direct : Bool) {state : SearchState} {under : Node} {found : List Candidate}
    (hstate : Reached ⟨Markup.parse skip s, limit⟩ state)
    (hunder : under ∈ (Markup.parse skip s).root.subtrees)
    (hrun : ((matchMany ⟨Markup.parse skip s, limit⟩ t under self direct).runFrom state).1 =
      .ok found) :
    ∀ c ∈ found, c.Placed (Markup.parse skip s) t state.claims.claimed := by
  have hdoc : (SearchScope.mk (Markup.parse skip s) limit).document.Numbered :=
    Document.numbered_parse skip s
  have hmirrors := mirrors_matchMany hdoc hunder (hstate.sound hdoc) t self direct
  have houtcome := (hmirrors.corresponds_of_ok hrun).eq.1
  exact Plain.placed_of_matchMany hdoc hunder (houtcome.symm.trans hrun)

/-- Of three items one was claimed before. The bold word and the item around it are bound, the link that may
be missing is missing, and the item that is left is listed. -/
theorem matchMany_embeds_list :
    let doc := Markup.parse [] "<div><ul><li>a<b>c</b></li><li>d</li><li>e</li></ul></div>".toList
    let bold : Slot := ⟨"b".toList, false, true, [], [.field ⟨"y".toList, .string, false⟩]⟩
    let link : Slot := ⟨"a".toList, true, false, [], []⟩
    let item : Slot := ⟨"li".toList, false, false, [], [.field ⟨"x".toList, .string, false⟩]⟩
    let t : Template := ⟨⟨"ul".toList, false, false, [], []⟩,
      .child ⟨"li".toList, false, false, [], []⟩ (.child bold .done .done)
        (.child link .done (.listing "xs".toList item .done))⟩
    let search := matchMany ⟨doc, none⟩ t doc.root true false
    let state := { (search.runFrom .empty).2 with claims := ClaimSet.empty.replay [4] }
    Reached ⟨doc, none⟩ state ∧ doc.root ∈ doc.root.subtrees ∧
      ∃ found, (search.runFrom state).1 = .ok found ∧ found.map Candidate.claimed = [[3, 2, 5, 1]] ∧
        ∀ c ∈ found, c.Placed doc t state.claims.claimed := by
  intro doc bold link item t search state
  have hdoc : doc.Numbered := Document.numbered_parse [] _
  have hroot : doc.root ∈ doc.root.subtrees := Tree.mem_subtrees.mpr (.inl rfl)
  have hstate : Reached ⟨doc, none⟩ state :=
    .claimed (.matchMany .start t hroot true false) (.replay .empty [4])
  have hjournal : state.claims.journal = [4] := ClaimSet.journal_replay_empty (List.nodup_singleton 4)
  obtain ⟨found, hrun, hclaimed⟩ : ∃ found, (search.runFrom state).1 = .ok found ∧
      found.map Candidate.claimed = [[3, 2, 5, 1]] := by
    apply exists_found_of_listed hdoc hroot (hstate.sound hdoc)
    rw [hjournal]
    decide +kernel
  exact ⟨hstate, hroot, found, hrun, hclaimed, matchMany_embeds [] _ none t true false hstate hroot hrun⟩

end Search
end Gleaner
