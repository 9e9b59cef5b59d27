/-! # Texts

A text is the list of its characters, so an offset counts characters and what stands after an offset
is again a text. Readers in this library consume texts from the front; a place in a text is known by
what remains there, and the offset is what the whole has more than the remainder.
-/

namespace Gleaner

/-- A text, character by character. -/
abbrev Text := List Char

namespace Text

/-- Equality of texts as a test is equality of texts. -/
instance : LawfulBEq Text := inferInstance

/-- The text before the first occurrence of `mark` and the text behind it. -/
def cut (mark : Text) : Text → Option (Text × Text)
  | [] => if mark.isEmpty then some ([], []) else none
  | c :: s =>
    if mark.isPrefixOf (c :: s) then some ([], (c :: s).drop mark.length)
    else (cut mark s).map fun (before, behind) => (c :: before, behind)

/-- Cutting loses nothing. -/
theorem eq_of_cut {mark : Text} {s before behind : Text} (hcut : cut mark s = some (before, behind)) :
    s = before ++ mark ++ behind := by
  fun_induction cut mark s generalizing before behind with
  | case1 hempty => simp_all
  | case2 => simp at hcut
  | case3 c s hfront =>
    obtain ⟨rest, hrest⟩ := List.isPrefixOf_iff_prefix.1 hfront
    simp only [Option.some.injEq, Prod.mk.injEq] at hcut
    obtain ⟨rfl, rfl⟩ := hcut
    rw [← hrest]
    simp
  | case4 c s _ ih =>
    obtain ⟨⟨b, a⟩, hrest, hpair⟩ := Option.map_eq_some_iff.1 hcut
    simp only [Prod.mk.injEq] at hpair
    obtain ⟨rfl, rfl⟩ := hpair
    simp [ih hrest]

/-- What stands behind a mark is shorter than the whole by the mark at least. -/
theorem length_of_cut {mark : Text} {s before behind : Text}
    (hcut : cut mark s = some (before, behind)) :
    behind.length + mark.length ≤ s.length := by
  have hlength := congrArg List.length (eq_of_cut hcut)
  simp only [List.length_append] at hlength
  omega

theorem length_dropWhile_le (test : Char → Bool) (s : Text) :
    (s.dropWhile test).length ≤ s.length :=
  (List.dropWhile_suffix test).length_le

/-- A run that is not empty leaves less than there was. -/
theorem length_dropWhile_lt {test : Char → Bool} {s : Text} (hrun : s.takeWhile test ≠ []) :
    (s.dropWhile test).length < s.length := by
  have hlength := congrArg List.length (List.takeWhile_append_dropWhile (p := test) (l := s))
  have hpos := List.length_pos_iff.2 hrun
  simp only [List.length_append] at hlength
  omega

/-- The place that a number stands for in something of the given length. A negative number counts from
the end, and stands for the beginning if it goes back too far. -/
def placeOf (length : Nat) (i : Int) : Nat :=
  if 0 ≤ i then i.toNat else (length + i).toNat

/-- The lines of a text; only a line feed ends a line. -/
def lines (s : Text) : List Text := s.splitOn '\n'

end Text
end Gleaner
