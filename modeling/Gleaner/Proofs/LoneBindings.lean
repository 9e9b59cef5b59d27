import Gleaner.Proofs.TextMatching

/-! # A binding alone

A binding that is all the text of a slot takes the text as it is, without looking for a pattern. The pattern
would find the same: what it captures is the text up to white space at its ends, and there is no match only
where the text is empty and a value is required.
-/

namespace Gleaner

open Text

variable {b : Binding} {s group : Text} {r : Record}

namespace TextPattern

/-- All of a text is a placement of a binding alone, unless there is nothing and something is required. -/
theorem placement_whole (hs : b.nullable = true ∨ s ≠ []) :
    Placement s [.field b] [⟨0, s.length⟩] := by
  have hwhole : between s 0 s.length = s := by simp [between]
  refine placement_field_iff.mpr (.next (Nat.zero_le _) (by simp [between, Blank]) ?_ (.done ?_))
  · refine ⟨Nat.zero_le _, le_rfl, ?_⟩
    rwa [Segment.Covers, Span.text, hwhole]
  · simp [Blank]

/-- What a binding alone takes is the text but for white space at its ends. -/
theorem trim_of_placement {spans : List Span} (hspans : Placement s [.field b] spans) :
    ∃ group, fieldTexts s [.field b] spans = [(b, group)] ∧ trim group = trim s := by
  have hfollows := placement_field_iff.mp hspans
  cases hfollows with
  | @next _ _ _ span _ _ hle hfront hfits hmore =>
      cases hmore with
      | done hback =>
          refine ⟨span.text s, rfl, ?_⟩
          have hsplit : between s 0 span.start ++ span.text s ++ s.drop span.stop = s := by
            rw [Span.text, between_append_between hle hfits.start_le,
              between_append_drop (Nat.zero_le _), List.drop_zero]
          rw [← hfront.trim_append (span.text s) (hback rfl), hsplit]

/-- The pattern of a binding alone captures the text but for white space at its ends. It does not match only
where the text is empty and a value is required. -/
theorem search_field (b : Binding) (s : Text) :
    ((ofSegments [.field b]).search s = none ∧ b.nullable = false ∧ s = []) ∨
      ∃ group, (ofSegments [.field b]).search s = some [group] ∧ trim group = trim s := by
  have hfinds : Finds s [.field b] ((ofSegments [.field b]).search s) :=
    finds_search_field (by simp)
  cases hsearch : (ofSegments [.field b]).search s with
  | none =>
      rw [hsearch] at hfinds
      have hempty := mt placement_whole (hfinds _)
      rw [not_or, not_ne_iff, Bool.not_eq_true] at hempty
      exact .inl ⟨rfl, hempty⟩
  | some captures =>
      rw [hsearch] at hfinds
      obtain ⟨spans, hspans, rfl⟩ := hfinds
      obtain ⟨group, htexts, htrim⟩ := trim_of_placement hspans.toPlacement
      exact .inr ⟨group, by rw [htexts]; rfl, htrim⟩

end TextPattern

/-- A binding alone takes from a text what it takes from the capture of its pattern, and no value where it takes
none from the capture or the pattern does not match. -/
theorem bindText_field (b : Binding) (s : Text) :
    let found := (TextPattern.ofSegments [.field b]).search s
    (∀ r, bindText [.field b] s = .value r ↔
      ∃ group value, found = some [group] ∧ b.coerce (some group) = .value value ∧
        r = [(b.name, value)]) ∧
    ((∃ reason, bindText [.field b] s = .misfit reason) ↔
      found = none ∨ ∃ group reason, found = some [group] ∧ b.coerce (some group) = .misfit reason) ∧
    ∀ name, bindText [.field b] s = .unknownKind name ↔
      ∃ group, found = some [group] ∧ b.coerce (some group) = .unknownKind name := by
  intro found
  have hbind : bindText [.field b] s = (b.coerce (some s)).map fun value => [(b.name, value)] := rfl
  rcases TextPattern.search_field b s with ⟨hnone, hrequired, rfl⟩ | ⟨group, hgroup, htrim⟩
  · have hmissing : bindText [.field b] [] = .misfit (.missing b.name) := by
      rw [hbind, Binding.coerce]
      simp [hrequired, trim, trimLeft, trimRight, Bound.map, Bound.bind]
    have hfound : found = none := hnone
    simp [hfound, hmissing]
  · have hcoerce : b.coerce (some group) = b.coerce (some s) := by
      simp only [Binding.coerce, Option.getD_some, htrim]
    have hfound : found = some [group] := hgroup
    rw [hbind]
    cases hvalue : b.coerce (some s) with
    | value value => simp [hfound, hcoerce, hvalue, Bound.map, Bound.bind, eq_comm]
    | misfit reason => simp [hfound, hcoerce, hvalue, Bound.map, Bound.bind]
    | unknownKind name => simp [hfound, hcoerce, hvalue, Bound.map, Bound.bind]

end Gleaner
