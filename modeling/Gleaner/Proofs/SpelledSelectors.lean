import Gleaner.Proofs.Placements
import Gleaner.Proofs.WrittenSelectors

/-! # Selectors read back

A compound is written as its tag, or a star if it has none, with its classes, its id and its other
conditions behind, and a selector as its compounds with white space between them. Reading gives the selector
back however much white space there is, and whatever quotes, brackets and blanks stand in names and values.
-/

namespace Gleaner

open Text

namespace Compound

def write (compound : Compound) : Text :=
  compound.tag.getD ['*'] ++ (compound.classes.flatMap ('.' :: ·) ++
    (compound.id.toList.flatMap ('#' :: ·) ++ compound.attributes.flatMap AttributeCondition.write))

/-- A tag in small letters of ASCII, and names and values that nothing in them ends. -/
structure Legible (compound : Compound) : Prop where
  tag : ∀ tag ∈ compound.tag, ∃ c more, tag = c :: more ∧ (c.isLower ∨ c = '_') ∧
    ∀ d ∈ more, d.isLower ∨ d.isDigit ∨ d ∈ ['_', ':', '-']
  id : ∀ id ∈ compound.id, id ≠ [] ∧ ∀ c ∈ id, Selector.isNameChar c = true
  classes : ∀ word ∈ compound.classes, word ≠ [] ∧ ∀ c ∈ word, Selector.isNameChar c = true
  attributes : ∀ condition ∈ compound.attributes, condition.Legible

end Compound

namespace Selector

variable {compound : Compound} {selector : Selector} {known : Compound} {tag t gap rest step : Text}
  {steps : List Text} {c : Char}

/-! ### Compounds -/

/-- What a tag in small letters is made of: characters of tags, which lower-casing keeps. -/
theorem tagChar_facts (hc : c.isLower ∨ c.isDigit ∨ c ∈ ['_', ':', '-']) :
    isTagChar c = true ∧ isBlank c = false ∧ c ≠ '[' ∧ c.toNat < 128 ∧ c.toLower = c := by
  have hascii : c.toNat < 128 := by
    rcases hc with hlower | hdigit | hmark
    · exact toNat_lt_of_isAlphanum (by simp [Char.isAlphanum, Char.isAlpha, hlower])
    · exact toNat_lt_of_isAlphanum (by simp [Char.isAlphanum, hdigit])
    · fin_cases hmark
      all_goals decide
  exact forall_ascii (P := fun c => (c.isLower ∨ c.isDigit ∨ c ∈ ['_', ':', '-']) →
      isTagChar c = true ∧ isBlank c = false ∧ c ≠ '[' ∧ c.toNat < 128 ∧ c.toLower = c)
    (by decide +kernel) hascii hc

theorem forall_mem_tag (hcompound : compound.Legible) (htag : tag ∈ compound.tag) :
    tag ≠ [] ∧ (∀ c ∈ tag.head?, isTagStart c = true) ∧
      ∀ c ∈ tag, c.isLower ∨ c.isDigit ∨ c ∈ ['_', ':', '-'] := by
  obtain ⟨c, more, rfl, hc, hmore⟩ := hcompound.tag tag htag
  refine ⟨List.cons_ne_nil _ _, ?_, List.forall_mem_cons.mpr ⟨?_, hmore⟩⟩
  · intro d hd
    obtain rfl := Option.some.inj hd
    rcases hc with hlower | rfl
    · simp [isTagStart, Char.isAlpha, hlower]
    · rfl
  · rcases hc with hlower | rfl
    · exact .inl hlower
    · exact .inr (.inr (by simp))

theorem lower_tag (hcompound : compound.Legible) (htag : tag ∈ compound.tag) : lower tag = tag := by
  have hfacts := fun c hc => tagChar_facts ((forall_mem_tag hcompound htag).2.2 c hc)
  rw [lower_of_ascii fun c hc => (hfacts c hc).2.2.2.1]
  exact (List.map_congr_left fun c hc => (hfacts c hc).2.2.2.2).trans (List.map_id tag)

theorem solid_compound (hcompound : compound.Legible) : Solid compound.write := by
  have htag : Solid (compound.tag.getD ['*']) := by
    cases htag : compound.tag with
    | none => exact solid_of_forall (by simp [isBlank])
    | some tag =>
        refine solid_of_forall fun c hc => ?_
        have hfacts := tagChar_facts ((forall_mem_tag hcompound htag).2.2 c hc)
        exact ⟨hfacts.2.1, hfacts.2.2.1⟩
  refine htag.append (.append (solid_flatMap fun word hword => ?_)
    (.append (solid_flatMap fun id hid => ?_) (solid_flatMap fun condition hcondition => ?_)))
  · exact solid_name rfl (by decide) (hcompound.classes word hword).2
  · exact solid_name rfl (by decide) (hcompound.id id (Option.mem_toList.mp hid)).2
  · exact solid_write (hcompound.attributes condition hcondition)

theorem write_ne_nil (hcompound : compound.Legible) : compound.write ≠ [] := by
  unfold Compound.write
  cases htag : compound.tag with
  | none => simp
  | some tag => simp [(forall_mem_tag hcompound htag).1]

theorem readConditions_id {id : Text} (hid : id ≠ []) (hchars : ∀ c ∈ id, isNameChar c = true)
    (hknown : known.id = none) (hrest : ∀ c ∈ rest.head?, isNameChar c = false) :
    readConditions known ('#' :: (id ++ rest)) = readConditions { known with id := some id } rest := by
  obtain ⟨htake, hdrop⟩ := takeWhile_run_append hchars hrest
  rw [readConditions]
  simp [htake, hdrop, hid, hknown]

/-- What is written behind the tag of a compound begins with a mark. -/
theorem mark_of_mem_head (classes ids : List Text) (attributes : List AttributeCondition) :
    ∀ c ∈ (classes.flatMap ('.' :: ·) ++ (ids.flatMap ('#' :: ·) ++
      attributes.flatMap AttributeCondition.write)).head?, c = '.' ∨ c = '#' ∨ c = '[' := by
  refine forall_head?_append (forall_head?_flatMap ?_)
    (forall_head?_append (forall_head?_flatMap ?_) (forall_head?_flatMap ?_))
  · intro word _ c hc
    exact .inl (Option.some.inj hc).symm
  · intro id _ c hc
    exact .inr (.inl (Option.some.inj hc).symm)
  · intro condition _ c hc
    rw [condition.head?_write] at hc
    exact .inr (.inr (Option.some.inj hc).symm)

/-- The conditions of a compound are read in the order in which they are written. -/
theorem readConditions_compound (hcompound : compound.Legible) :
    readConditions (.ofTag compound.tag) (compound.classes.flatMap ('.' :: ·) ++
      (compound.id.toList.flatMap ('#' :: ·) ++
        compound.attributes.flatMap AttributeCondition.write)) = .ok compound := by
  have hends : ∀ {c}, c = '.' ∨ c = '#' ∨ c = '[' → isNameChar c = false := by
    rintro c (rfl | rfl | rfl)
    all_goals rfl
  have hattributes : ∀ known : Compound,
      readConditions known (compound.attributes.flatMap AttributeCondition.write) =
        .ok { known with attributes := known.attributes ++ compound.attributes } := by
    intro known
    have hwritten : readConditions known
        (compound.attributes.flatMap AttributeCondition.write ++ []) = _ :=
      readConditions_written hcompound.attributes []
    rwa [List.append_nil, readConditions] at hwritten
  have hbehind : ∀ c ∈ (compound.id.toList.flatMap ('#' :: ·) ++
      compound.attributes.flatMap AttributeCondition.write).head?, isNameChar c = false :=
    fun c hc => hends (mark_of_mem_head [] _ _ c hc)
  have hlast : ∀ c ∈ (compound.attributes.flatMap AttributeCondition.write).head?,
      isNameChar c = false :=
    fun c hc => hends (mark_of_mem_head [] [] _ c hc)
  rw [readConditions_classes hcompound.classes hbehind]
  obtain ⟨tag, id, classes, attributes⟩ := compound
  cases id with
  | none => exact hattributes _
  | some id =>
      obtain ⟨hne, hchars⟩ := hcompound.id id rfl
      rw [Option.toList_some, List.flatMap_singleton, List.cons_append,
        readConditions_id hne hchars rfl hlast]
      exact hattributes _

theorem readStep_write (hcompound : compound.Legible) : readStep compound.write = .ok compound := by
  have hconditions := readConditions_compound hcompound
  cases htag : compound.tag with
  | none =>
      rw [htag] at hconditions
      rw [Compound.write, htag]
      exact hconditions
  | some tag =>
      obtain ⟨hne, hstart, hchars⟩ := forall_mem_tag hcompound htag
      have hends : ∀ {c}, c = '.' ∨ c = '#' ∨ c = '[' → isTagChar c = false := by
        rintro c (rfl | rfl | rfl)
        all_goals rfl
      rw [Compound.write, htag, Option.getD_some,
        readStep_tag hstart hne (fun c hc => (tagChar_facts (hchars c hc)).1)
          fun c hc => hends (mark_of_mem_head _ _ _ c hc),
        lower_tag hcompound htag, ← htag]
      exact hconditions

/-! ### Steps -/

/-- White space in front of a step ends whatever stands before it. -/
theorem splitFrom?_gap (hgap : gap ≠ []) (hblank : Blank gap) (hstep : step ≠ [])
    (hrest : splitFrom? .plain rest = some (step, steps)) :
    splitFrom? .plain (gap ++ rest) = some ([], step :: steps) := by
  induction gap with
  | nil => exact absurd rfl hgap
  | cons c gap ih =>
      obtain ⟨hc, hblank⟩ := List.forall_mem_cons.mp hblank
      rw [List.cons_append, splitFrom?, if_pos ⟨rfl, hc⟩]
      cases gap with
      | nil =>
          rw [List.nil_append, hrest]
          simp [hstep]
      | cons d gap =>
          rw [ih (List.cons_ne_nil d gap) hblank]
          rfl

/-- Steps with white space between them are told apart. -/
theorem splitFrom?_of_spells (ht : Spells (step :: steps) t)
    (hsteps : ∀ s ∈ step :: steps, Solid s ∧ s ≠ []) :
    splitFrom? .plain t = some (step, steps) := by
  generalize hws : step :: steps = ws at ht
  induction ht generalizing step steps with
  | none => cases hws
  | last w =>
      obtain ⟨rfl, rfl⟩ := List.cons.inj hws
      have hkept := (hsteps step List.mem_cons_self).1.kept []
      rw [List.append_nil] at hkept
      simpa [splitFrom?] using hkept
  | @more w v gap behind ws hgap hblank _ ih =>
      obtain ⟨rfl, rfl⟩ := List.cons.inj hws
      obtain ⟨⟨hsolid, -⟩, hmore⟩ := List.forall_mem_cons.mp hsteps
      have hv := (hmore v List.mem_cons_self).2
      rw [List.append_assoc, hsolid.kept, splitFrom?_gap hgap hblank hv (ih hmore rfl)]
      simp

/-- Steps that are spelled out begin and end as the first and the last of them do. -/
theorem ends_of_spells (ht : Spells (step :: steps) t)
    (hsteps : ∀ s ∈ step :: steps, Solid s ∧ s ≠ []) :
    t ≠ [] ∧ (∀ c ∈ t.head?, isBlank c = false) ∧ ∀ c ∈ t.getLast?, isBlank c = false := by
  generalize hws : step :: steps = ws at ht
  induction ht generalizing step steps with
  | none => cases hws
  | last w =>
      obtain ⟨rfl, rfl⟩ := List.cons.inj hws
      obtain ⟨hsolid, hne⟩ := hsteps step List.mem_cons_self
      exact ⟨hne, hsolid.first, hsolid.last⟩
  | @more w v gap behind ws _ _ _ ih =>
      obtain ⟨rfl, rfl⟩ := List.cons.inj hws
      obtain ⟨⟨hsolid, hne⟩, hmore⟩ := List.forall_mem_cons.mp hsteps
      obtain ⟨hbehind, -, hlast⟩ := ih hmore rfl
      refine ⟨by simp [hne], ?_, ?_⟩
      · rw [List.append_assoc, List.head?_append_of_ne_nil _ hne]
        exact hsolid.first
      · rw [List.getLast?_append_of_ne_nil _ hbehind]
        exact hlast

theorem mapM_readStep {compounds : List Compound} (hcompounds : ∀ compound ∈ compounds, compound.Legible) :
    (compounds.map Compound.write).mapM readStep = .ok compounds := by
  induction compounds with
  | nil => rfl
  | cons compound more ih =>
      obtain ⟨hcompound, hmore⟩ := List.forall_mem_cons.mp hcompounds
      rw [List.map_cons, List.mapM_cons, readStep_write hcompound, ih hmore]
      rfl

/-- A selector that is written as its compounds with white space between them, and perhaps around them all, is
read back. -/
theorem read_of_spells {front back : Text} (hfront : Blank front) (hback : Blank back)
    (ht : Spells (selector.compounds.map Compound.write) t)
    (hlegible : ∀ compound ∈ selector.compounds, compound.Legible) :
    read (front ++ t ++ back) = .ok selector := by
  obtain ⟨first, inner⟩ := selector
  have hsteps : ∀ s ∈ first.write :: inner.map Compound.write, Solid s ∧ s ≠ [] := by
    rw [← List.map_cons, List.forall_mem_map]
    exact fun compound hcompound =>
      ⟨solid_compound (hlegible compound hcompound), write_ne_nil (hlegible compound hcompound)⟩
  obtain ⟨hfirst, hinner⟩ := List.forall_mem_cons.mp hlegible
  obtain ⟨-, hhead, hlast⟩ := ends_of_spells ht hsteps
  rw [read, hfront.trim_append t hback, trim_of_ends hhead hlast, splitSteps?,
    splitFrom?_of_spells ht hsteps]
  simp [write_ne_nil hfirst, readStep_write hfirst, mapM_readStep hinner]

/-- A quote in a class, a bracket and a blank in a value, and a bracket in a name. -/
theorem read_of_spells_quoted :
    read "\n *.it's#x[title=\"a] b\"] \t _p:q[r[]\u3000".toList =
      .ok ⟨⟨none, some ['x'], ["it's".toList], [⟨"title".toList, some "a] b".toList⟩]⟩,
        [⟨some "_p:q".toList, none, [], [⟨"r[".toList, none⟩]⟩]⟩ := by
  let first : Compound := ⟨none, some ['x'], ["it's".toList], [⟨"title".toList, some "a] b".toList⟩]⟩
  let second : Compound := ⟨some "_p:q".toList, none, [], [⟨"r[".toList, none⟩]⟩
  have hfirst : first.Legible := by
    refine ⟨nofun, ?_, List.forall_mem_singleton.mpr ?_, List.forall_mem_singleton.mpr ?_⟩
    · intro id hid
      obtain rfl := Option.some.inj hid
      exact ⟨List.cons_ne_nil _ _, List.all_eq_true.mp (by decide +kernel)⟩
    · exact ⟨List.cons_ne_nil _ _, List.all_eq_true.mp (by decide +kernel)⟩
    · refine ⟨List.cons_ne_nil _ _, List.all_eq_true.mp (by decide +kernel), by decide +kernel, ?_⟩
      intro value hvalue
      obtain rfl := Option.some.inj hvalue
      decide
  have hsecond : second.Legible := by
    refine ⟨?_, nofun, nofun, List.forall_mem_singleton.mpr ?_⟩
    · intro tag htag
      obtain rfl := Option.some.inj htag
      exact ⟨'_', "p:q".toList, rfl, .inr rfl, by simp⟩
    · exact ⟨List.cons_ne_nil _ _, List.all_eq_true.mp (by decide +kernel), by decide +kernel, nofun⟩
  have hspells : Spells [first.write, second.write] (first.write ++ " \t ".toList ++ second.write) :=
    .more (List.cons_ne_nil _ _) (List.all_eq_true.mp (by decide +kernel)) (.last _)
  have hread : read ("\n ".toList ++ (first.write ++ " \t ".toList ++ second.write) ++ "\u3000".toList) =
      .ok ⟨first, [second]⟩ :=
    read_of_spells (List.all_eq_true.mp (by decide +kernel)) (List.all_eq_true.mp (by decide +kernel))
      hspells (List.forall_mem_cons.mpr ⟨hfirst, List.forall_mem_singleton.mpr hsecond⟩)
  exact hread

end Selector
end Gleaner
