import Gleaner.Proofs.Claims
import Gleaner.Proofs.Numbering
import Gleaner.Proofs.PlainSearch

/-! # Steps of a search and steps without state

A step of the search mirrors a step of the search without state if, as far as attempts are allowed, both
make the same number of attempts and come to the same end. The texts that were kept never make a
difference as long as they are right, and every step leaves them right. Once attempts run out, the step
stops with the first attempt that is one too many.
-/

namespace Gleaner

namespace SearchM

variable {α β : Type} {step : SearchM α} {state middle : SearchState}

theorem runFrom_bind_ok {a : α} (next : α → SearchM β) (hrun : step.runFrom state = (.ok a, middle)) :
    (step >>= next).runFrom state = (next a).runFrom middle := by
  unfold runFrom at *
  rw [ExceptT.run_bind, StateT.run_bind, hrun]
  rfl

theorem runFrom_bind_error {error : SearchError} (next : α → SearchM β)
    (hrun : step.runFrom state = (.error error, middle)) :
    (step >>= next).runFrom state = (.error error, middle) := by
  unfold runFrom at *
  rw [ExceptT.run_bind, StateT.run_bind, hrun]
  rfl

theorem runFrom_get (state : SearchState) :
    (get : SearchM SearchState).runFrom state = (.ok state, state) := rfl

theorem runFrom_modify (change : SearchState → SearchState) (state : SearchState) :
    (modify change : SearchM PUnit).runFrom state = (.ok ⟨⟩, change state) := rfl

theorem runFrom_countAttempt (limit : Option Int) (state : SearchState) :
    (Search.countAttempt limit).runFrom state =
      (match limit with
        | none => .ok ()
        | some limit => if limit < (state.attempts + 1 : Nat) then .error (.budget limit) else .ok (),
        ⟨state.claims, state.attempts + 1, state.texts, state.notes⟩) := by
  unfold Search.countAttempt
  rw [runFrom_bind_ok _ (runFrom_modify _ _)]
  cases limit with
  | none => rfl
  | some limit =>
      rw [runFrom_bind_ok _ (runFrom_get _)]
      dsimp only
      split
      next => rfl
      next => rfl

end SearchM

/-- The claims are consistent, and every text that was kept is the text of its node. -/
structure SearchState.Sound (doc : Document) (state : SearchState) : Prop where
  claims : state.claims.Consistent
  texts : ∀ n ∈ doc.root.subtrees, ∀ t, state.texts[n.index]? = some t →
    t = n.textContent Search.textSeparator

/-- Whether `more` attempts are allowed after `made`. Nothing is asked if there are none. -/
def SearchScope.Allows (scope : SearchScope) (made more : Nat) : Prop :=
  more = 0 ∨ ∀ limit, scope.limit = some limit → (made + more : Nat) ≤ limit

theorem SearchScope.allows_add {scope : SearchScope} {made first second : Nat} :
    scope.Allows made (first + second) ↔
      scope.Allows made first ∧ scope.Allows (made + first) second := by
  unfold Allows
  cases scope.limit with
  | none => simp
  | some limit =>
      simp only [Option.some.injEq, forall_eq']
      omega

/-- Both fail alike, or both succeed with results that agree. -/
inductive Corresponds {α β : Type} (agree : α → β → Prop) :
    Except SearchError α → Except SearchError β → Prop
  | ok {a : α} {b : β} (hagree : agree a b) : Corresponds agree (.ok a) (.ok b)
  | error (error : SearchError) : Corresponds agree (.error error) (.error error)

theorem Corresponds.eq {α : Type} {kept : Prop} {x y : Except SearchError α}
    (h : Corresponds (fun a b => a = b ∧ kept) x y) : x = y ∧ ∀ a, x = .ok a → kept := by
  cases h with
  | ok hagree => exact ⟨congrArg Except.ok hagree.1, fun _ _ => hagree.2⟩
  | error error => exact ⟨rfl, nofun⟩

/-- A step from a state does what a step without state does. Results agree in view of the state after
the step. -/
structure Mirrors {α β : Type} (scope : SearchScope) (state : SearchState) (step : SearchM α)
    (plain : Tally β) (agree : α → β → SearchState → Prop) : Prop where
  sound : (step.runFrom state).2.Sound scope.document
  allowed : scope.Allows state.attempts plain.attempts →
    (step.runFrom state).2.attempts = state.attempts + plain.attempts ∧
      Corresponds (fun a b => agree a b (step.runFrom state).2) (step.runFrom state).1 plain.outcome
  stopped : ¬ scope.Allows state.attempts plain.attempts →
    ∃ limit, scope.limit = some limit ∧ (step.runFrom state).1 = .error (.budget limit) ∧
      ((step.runFrom state).2.attempts : Int) = max limit state.attempts + 1

variable {scope : SearchScope} {state middle final : SearchState}

namespace Mirrors

variable {α β γ δ : Type} {agree : α → β → SearchState → Prop}
variable {agreeLater : γ → δ → SearchState → Prop}

theorem of_run {step : SearchM α} {a : α} {b : β} (hrun : step.runFrom state = (.ok a, final))
    (hfinal : final.Sound scope.document) (hattempts : final.attempts = state.attempts)
    (hagree : agree a b final) : Mirrors scope state step (pure b) agree := by
  refine ⟨?_, ?_, ?_⟩
  · rw [hrun]
    exact hfinal
  · intro _
    rw [hrun]
    exact ⟨hattempts, .ok hagree⟩
  · exact fun hstop => absurd (Or.inl rfl) hstop

theorem pure {a : α} {b : β} (hstate : state.Sound scope.document) (hagree : agree a b state) :
    Mirrors scope state (pure a) (pure b) agree :=
  of_run rfl hstate rfl hagree

theorem fail (error : SearchError) (hstate : state.Sound scope.document) :
    Mirrors scope state (throw error) (Tally.fail error) agree :=
  ⟨hstate, fun _ => ⟨rfl, .error error⟩, fun hstop => absurd (Or.inl rfl) hstop⟩

theorem after_run {first : SearchM α} {a : α} {next : α → SearchM γ} {plain : Tally δ}
    (hrun : first.runFrom state = (.ok a, middle)) (hattempts : middle.attempts = state.attempts)
    (hnext : Mirrors scope middle (next a) plain agreeLater) :
    Mirrors scope state (first >>= next) plain agreeLater := by
  have hall := SearchM.runFrom_bind_ok next hrun
  obtain ⟨hsound, hallowed, hstopped⟩ := hnext
  rw [hattempts] at hallowed hstopped
  rw [← hall] at hsound hallowed hstopped
  exact ⟨hsound, hallowed, hstopped⟩

/-- A sequence mirrors a sequence if the parts do. -/
theorem bind {first : SearchM α} {plain : Tally β} {next : α → SearchM γ} {plainNext : β → Tally δ}
    (hfirst : Mirrors scope state first plain agree)
    (hnext : ∀ a b middle, plain.outcome = .ok b → middle.Sound scope.document →
      agree a b middle → Mirrors scope middle (next a) (plainNext b) agreeLater) :
    Mirrors scope state (first >>= next) (plain >>= plainNext) agreeLater := by
  obtain ⟨hsound, hallowed, hstopped⟩ := hfirst
  obtain ⟨result, middle, hrun⟩ : ∃ result middle, first.runFrom state = (result, middle) :=
    ⟨_, _, rfl⟩
  rw [hrun] at hsound hallowed hstopped
  by_cases hallows : scope.Allows state.attempts plain.attempts
  · obtain ⟨hattempts, hcorresponds⟩ := hallowed hallows
    cases hplain : plain.outcome with
    | error error =>
        rw [hplain] at hcorresponds
        cases hcorresponds
        rw [Tally.bind_of_error plainNext hplain]
        have hall := SearchM.runFrom_bind_error next hrun
        refine ⟨?_, ?_, ?_⟩
        · rw [hall]
          exact hsound
        · intro _
          rw [hall]
          exact ⟨hattempts, .error error⟩
        · exact fun hstop => absurd hallows hstop
    | ok b =>
        rw [hplain] at hcorresponds
        cases hcorresponds with
        | ok hagree =>
          obtain ⟨hsoundLater, hallowedLater, hstoppedLater⟩ := hnext _ b middle hplain hsound hagree
          rw [Tally.bind_of_ok plainNext hplain]
          rw [← SearchM.runFrom_bind_ok next hrun] at hsoundLater hallowedLater hstoppedLater
          replace hattempts : middle.attempts = state.attempts + plain.attempts := hattempts
          rw [hattempts] at hallowedLater hstoppedLater
          refine ⟨hsoundLater, ?_, ?_⟩
          · intro hall
            obtain ⟨hattemptsLater, hcorrespondsLater⟩ :=
              hallowedLater (SearchScope.allows_add.mp hall).2
            exact ⟨by rw [hattemptsLater, Nat.add_assoc], hcorrespondsLater⟩
          · intro hstop
            obtain ⟨limit, hlimit, herror, hcount⟩ := hstoppedLater
              fun hlater => hstop (SearchScope.allows_add.mpr ⟨hallows, hlater⟩)
            refine ⟨limit, hlimit, herror, ?_⟩
            -- the attempts of the first part were within the limit, so it still decides
            rw [hcount]
            rcases hallows with hnone | hbound
            · rw [hnone, Nat.add_zero]
            · have := hbound limit hlimit
              omega
  -- the first part already runs out of attempts, whatever the rest would need
  · obtain ⟨limit, hlimit, rfl, hcount⟩ := hstopped hallows
    have hall := SearchM.runFrom_bind_error next hrun
    have hmore : ¬ scope.Allows state.attempts (plain >>= plainNext).attempts := by
      cases hplain : plain.outcome with
      | error error =>
          rw [Tally.bind_of_error plainNext hplain]
          exact hallows
      | ok b =>
          rw [Tally.bind_of_ok plainNext hplain]
          exact fun hboth => hallows (SearchScope.allows_add.mp hboth).1
    refine ⟨?_, fun hall => absurd hall hmore, fun _ => ⟨limit, hlimit, ?_, ?_⟩⟩
    · rw [hall]
      exact hsound
    · rw [hall]
    · rw [hall]
      exact hcount

theorem attempt (hstate : state.Sound scope.document) :
    Mirrors scope state (Search.countAttempt scope.limit) Tally.attempt
      fun _ _ final => final.claims = state.claims := by
  have hrun := SearchM.runFrom_countAttempt scope.limit state
  refine ⟨?_, ?_, ?_⟩
  · rw [hrun]
    exact ⟨hstate.claims, hstate.texts⟩
  · intro hallows
    rw [hrun]
    refine ⟨rfl, ?_⟩
    cases hlimit : scope.limit with
    | none => exact .ok rfl
    | some limit =>
        have hbound : ¬ limit < (state.attempts + 1 : Nat) := by
          rcases hallows with hnone | hbound
          · cases hnone
          · exact Int.not_lt.mpr (hbound limit hlimit)
        change Corresponds _ (if limit < (state.attempts + 1 : Nat) then _ else _) _
        rw [if_neg hbound]
        exact .ok rfl
  · intro hstop
    cases hlimit : scope.limit with
    | none => exact absurd (.inr (by simp [hlimit])) hstop
    | some limit =>
        have hbound : limit < (state.attempts + 1 : Nat) := by
          by_contra hbound
          refine hstop (.inr ?_)
          intro other hother
          rw [hlimit, Option.some.injEq] at hother
          subst hother
          exact Int.not_lt.mp hbound
        rw [hlimit] at hrun
        rw [hrun]
        refine ⟨limit, rfl, if_pos hbound, ?_⟩
        push_cast
        omega

theorem corresponds_of_ok {step : SearchM α} {plain : Tally β} {a : α}
    (hmirrors : Mirrors scope state step plain agree) (hrun : (step.runFrom state).1 = .ok a) :
    Corresponds (fun a b => agree a b (step.runFrom state).2) (step.runFrom state).1
      plain.outcome := by
  by_cases hallows : scope.Allows state.attempts plain.attempts
  · exact (hmirrors.allowed hallows).2
  · obtain ⟨limit, -, herror, -⟩ := hmirrors.stopped hallows
    rw [hrun] at herror
    cases herror

end Mirrors
end Gleaner
