import Gleaner.Markup.Element
import Mathlib.Data.List.Basic

/-! # What an element keeps of its start tag

A start tag is a sequence of named values, and an element answers for a name with the first value that the
sequence has for it. Only the class attribute is different: its words are kept, of all its values.
-/

namespace Gleaner

/-! ### Looking up names -/

section Lookup

variable {α : Type} {name : Text} {pairs : List (Text × α)}

/-- Leaving pairs out by their names changes nothing for the names that stay. -/
theorem lookup_filter (kept : Text → Bool) (hname : kept name = true) :
    (pairs.filter fun pair => kept pair.1).lookup name = pairs.lookup name := by
  induction pairs with
  | nil => rfl
  | cons pair more ih =>
      rw [List.filter_cons, List.lookup_cons]
      by_cases hpair : name = pair.1
      · rw [← hpair, if_pos hname, List.lookup_cons, ← hpair, beq_self_eq_true]
      · rw [beq_false_of_ne hpair]
        split
        next =>
          rw [List.lookup_cons, beq_false_of_ne hpair]
          exact ih
        next => exact ih

/-- Only later pairs of the same name are left out. -/
theorem lookup_eraseDupsBy (pairs : List (Text × α)) (name : Text) :
    (pairs.eraseDupsBy fun pair earlier => pair.1 == earlier.1).lookup name = pairs.lookup name := by
  induction hlength : pairs.length using Nat.strongRecOn generalizing pairs with
  | ind length ih =>
      cases pairs with
      | nil => rfl
      | cons pair more =>
          rw [List.eraseDupsBy_cons, List.lookup_cons, List.lookup_cons]
          by_cases hpair : name = pair.1
          · rw [hpair, beq_self_eq_true]
          · rw [beq_false_of_ne hpair]
            dsimp only
            have hle := List.length_filter_le (fun later => decide ((later.1 == pair.1) = false)) more
            rw [List.length_cons] at hlength
            rw [ih _ (by omega) _ rfl]
            exact lookup_filter (fun later => decide ((later == pair.1) = false)) (by simpa using hpair)

end Lookup

namespace Element

variable {tag name value word : Text} {pairs : List (Text × Text)}

theorem className_ne_idName : className ≠ idName := by decide

theorem rawAttribute_ofAttributes (hname : name ≠ className) :
    (ofAttributes tag pairs).rawAttribute name = pairs.lookup name := by
  rw [rawAttribute, if_neg hname]
  split
  next hid => rw [hid]; rfl
  next hid =>
    unfold ofAttributes
    dsimp only
    rw [lookup_eraseDupsBy]
    exact lookup_filter (fun name => name != className && name != idName) (by simp [hname, hid])

theorem mem_classes_ofAttributes :
    word ∈ (ofAttributes tag pairs).classes ↔
      ∃ value, (className, value) ∈ pairs ∧ word ∈ Text.words value := by
  unfold ofAttributes
  simp only [List.mem_eraseDups, List.mem_flatMap, List.mem_filter, beq_iff_eq]
  constructor
  · rintro ⟨⟨name, value⟩, ⟨hpair, hname⟩, hword⟩
    obtain rfl : name = className := hname
    exact ⟨value, hpair, hword⟩
  · rintro ⟨value, hpair, hword⟩
    exact ⟨(className, value), ⟨hpair, rfl⟩, hword⟩

end Element
end Gleaner
