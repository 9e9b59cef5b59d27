import Gleaner.Proofs.Survivors
import Gleaner.Proofs.TextMatching

/-! # Searches that do not fail

A search without a limit can fail in two ways only: a selector cannot be read, or a binding has a type
without a conversion. A template in which neither occurs always gives a list of matches.
-/

namespace Gleaner

/-- The type of the binding is one that a conversion is known for. -/
def Binding.Known (b : Binding) : Prop := b.kind = .string ∨ b.kind = .number

structure Slot.Usable (slot : Slot) : Prop where
  selector : ∃ s, Selector.read slot.selector = .ok s
  known : ∀ b ∈ slot.bindings, b.Known

def Parts.Usable : Parts → Prop
  | .done => True
  | .child slot below after => slot.Usable ∧ below.Usable ∧ after.Usable
  | .listing _ slot below => slot.Usable ∧ below.Usable

/-- Every selector of the template can be read and every type in it is known, inside of listings too. -/
structure Template.Usable (t : Template) : Prop where
  slot : t.slot.Usable
  below : t.below.Usable

theorem Binding.Known.coerce_ne {b : Binding} (hb : b.Known) (raw : Option Text) (name : Text) :
    b.coerce raw ≠ .unknownKind name := by
  intro hcoerce
  have hkind := Binding.kind_of_coerce hcoerce
  rcases hb with hb | hb
  · rw [hb] at hkind
    cases hkind
  · rw [hb] at hkind
    cases hkind

theorem bindEach_ne_unknownKind {r : Record} {pairs : List (Binding × Option Text)}
    (hpairs : ∀ pair ∈ pairs, pair.1.Known) (name : Text) : bindEach r pairs ≠ .unknownKind name := by
  induction pairs generalizing r with
  | nil => nofun
  | cons pair more ih =>
      obtain ⟨hpair, hmore⟩ := List.forall_mem_cons.mp hpairs
      rw [bindEach]
      cases hcoerce : pair.1.coerce pair.2 with
      | value value => exact ih hmore
      | misfit reason => simp [Bound.bind]
      | unknownKind other => exact absurd hcoerce (hpair.coerce_ne _ _)

theorem bindText_ne_unknownKind {segments : List Segment} {s : Text}
    (hsegments : ∀ b ∈ segments.filterMap Segment.binding?, b.Known) (name : Text) :
    bindText segments s ≠ .unknownKind name := by
  unfold bindText
  split
  next => nofun
  next b =>
    cases hcoerce : b.coerce (some s) with
    | value value => nofun
    | misfit reason => nofun
    | unknownKind other => exact absurd hcoerce ((hsegments b List.mem_cons_self).coerce_ne _ _)
  next =>
    dsimp only
    split
    next => nofun
    next captures _ =>
      rw [bindCaptures_eq]
      apply bindEach_ne_unknownKind
      intro pair hpair
      obtain ⟨⟨b, raw⟩, hmem, rfl⟩ := List.mem_map.mp hpair
      exact hsegments b (List.of_mem_zip hmem).1

theorem Slot.Usable.bound_ne {slot : Slot} (hslot : slot.Usable) (n : Node) (name : Text) :
    slot.bound n ≠ .unknownKind name := by
  have hattributes : ∀ r, bindAttributes n.element r slot.attributes ≠ .unknownKind name := by
    intro r
    rw [bindAttributes_eq]
    apply bindEach_ne_unknownKind
    intro pair hpair
    obtain ⟨written, hmem, rfl⟩ := List.mem_map.mp hpair
    exact hslot.known _ (List.mem_append_right _ (List.mem_map_of_mem hmem))
  unfold Slot.bound
  split
  next => exact hattributes []
  next =>
    cases htext : bindText slot.text (n.textContent Search.textSeparator) with
    | value r => exact hattributes r
    | misfit reason => nofun
    | unknownKind other =>
        refine absurd htext (bindText_ne_unknownKind ?_ other)
        exact fun b hb => hslot.known b (List.mem_append_left _ hb)

/-- A selector that can be read finds something or nothing, in a document without a tree too. -/
theorem Document.exists_selectAll (doc : Document) {written : Text}
    (hread : ∃ selector, Selector.read written = .ok selector) (under : Node) (self : Bool)
    (levels : Option Nat) : ∃ nodes, doc.selectAll under written self levels = .ok nodes := by
  obtain ⟨selector, hread⟩ := hread
  unfold selectAll
  split
  next => exact ⟨[], rfl⟩
  next => exact ⟨_, by rw [hread]; rfl⟩

namespace Plain

variable {doc : Document} {slot : Slot} {n : Node} {parts : Parts} {taken : Std.ExtHashSet Nat}

theorem exists_outcome_matchSlot (hslot : slot.Usable) {inside : Fit → Tally (Option Fit)}
    (hinside : ∀ fit, ∃ outcome, (inside fit).outcome = .ok outcome) :
    ∃ outcome, (matchSlot slot inside n).outcome = .ok outcome := by
  simp only [matchSlot, Tally.outcome_bind_eq_ok, Tally.outcome_attempt, true_and, exists_const]
  cases hbound : slot.bound n with
  | value r =>
      obtain ⟨outcome, houtcome⟩ := hinside ⟨r, n.depth, []⟩
      cases outcome with
      | none => exact ⟨none, some r, rfl, Tally.outcome_bind_eq_ok.mpr ⟨none, houtcome, rfl⟩⟩
      | some fit => exact ⟨_, some r, rfl, Tally.outcome_bind_eq_ok.mpr ⟨some fit, houtcome, rfl⟩⟩
  | misfit reason => exact ⟨none, none, rfl, rfl⟩
  | unknownKind name => exact absurd hbound (hslot.bound_ne n name)

theorem exists_outcome_candidates (doc : Document) (taken : Std.ExtHashSet Nat) (hslot : slot.Usable)
    {attempt : Node → Tally (Option Fit)}
    (hattempt : ∀ m, ∃ outcome, (attempt m).outcome = .ok outcome) (under : Node)
    (self direct : Bool) :
    ∃ found, (candidates doc slot attempt taken under self direct).outcome = .ok found := by
  obtain ⟨nodes, hselect⟩ := doc.exists_selectAll hslot.selector under self
    (if direct then some 1 else none)
  exact ⟨_, (outcome_candidates_eq_ok hselect).mpr ⟨fun m _ _ => hattempt m, rfl⟩⟩

/-- Whatever parts are matched, the match comes to an end with or without a result. -/
theorem exists_outcome_matchParts (hparts : parts.Usable) (n : Node) (taken : Std.ExtHashSet Nat)
    (fit : Fit) : ∃ outcome, (matchParts doc parts n taken fit).outcome = .ok outcome := by
  induction parts generalizing n taken fit with
  | done => exact ⟨some fit, rfl⟩
  | child slot below after ihbelow ihafter =>
      obtain ⟨hslot, hbelow, hafter⟩ := hparts
      obtain ⟨found, hfound⟩ := exists_outcome_candidates doc taken hslot
        (fun m => exists_outcome_matchSlot (n := m) hslot fun fit => ihbelow hbelow m taken fit)
        n false slot.direct
      simp only [matchParts, Tally.outcome_bind_eq_ok]
      refine exists_comm.mp ⟨found, ?_⟩
      cases deepest? found with
      | none =>
          dsimp only
          split
          next =>
            obtain ⟨outcome, houtcome⟩ := ihafter hafter n taken
              { fit with record := fit.record.update (Template.emptyRecord ⟨slot, below⟩) }
            exact ⟨outcome, hfound, houtcome⟩
          next => exact ⟨none, hfound, rfl⟩
      | some best =>
          obtain ⟨outcome, houtcome⟩ :=
            ihafter hafter n (taken.insertMany best.claimed) (fit.choose best)
          exact ⟨outcome, hfound, houtcome⟩
  | listing name slot below ihbelow =>
      obtain ⟨hslot, hbelow⟩ := hparts
      obtain ⟨found, hfound⟩ := exists_outcome_candidates doc taken hslot
        (fun m => exists_outcome_matchSlot (n := m) hslot fun fit => ihbelow hbelow m taken fit)
        n false false
      exact ⟨_, Tally.outcome_bind_eq_ok.mpr ⟨found, hfound, rfl⟩⟩

theorem exists_outcome_matchMany {t : Template} (ht : t.Usable) (taken : Std.ExtHashSet Nat)
    (under : Node) (self direct : Bool) :
    ∃ found, (matchMany doc t taken under self direct).outcome = .ok found :=
  exists_outcome_candidates doc taken ht.slot
    (fun m => exists_outcome_matchSlot ht.slot fun fit =>
      exists_outcome_matchParts ht.below m taken fit) under self direct

end Plain
end Gleaner
