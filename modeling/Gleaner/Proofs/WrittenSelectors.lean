import Gleaner.Proofs.Bindings
import Gleaner.Proofs.LowerCase
import Gleaner.Selector.Reader

/-! # Reading written selectors

A condition of a compound has a written form that is read back with whatever stands behind it: a class
behind a dot, and an attribute in brackets with its value in double quotes. None of these forms is split,
whatever its name or value holds, so conditions written one after the other are one step.
-/

namespace Gleaner

open Text

namespace AttributeCondition

def write (condition : AttributeCondition) : Text :=
  match condition.value with
  | none => '[' :: condition.name ++ [']']
  | some value => '[' :: condition.name ++ "=\"".toList ++ value ++ "\"]".toList

theorem head?_write (condition : AttributeCondition) : condition.write.head? = some '[' := by
  unfold write
  split
  all_goals rfl

/-- A name in lower case that nothing ends, and a value that no quote ends. -/
structure Legible (condition : AttributeCondition) : Prop where
  name_ne : condition.name ≠ []
  name : ∀ c ∈ condition.name, Selector.isAttributeChar c = true
  lower : lower condition.name = condition.name
  value : ∀ value ∈ condition.value, '"' ∉ value

end AttributeCondition

namespace Selector

variable {t rest word : Text} {c : Char} {zone : Zone} {known : Compound}
  {condition : AttributeCondition}

/-! ### Splitting into steps -/

theorem splitFrom?_cons (hc : zone = .plain → isBlank c = false) (rest : Text) :
    splitFrom? zone (c :: rest) =
      (splitFrom? (zone.next c) rest).map fun (step, steps) => (c :: step, steps) := by
  rw [splitFrom?, if_neg]
  rintro ⟨hzone, hblank⟩
  rw [hc hzone] at hblank
  cases hblank

/-- A text that begins and ends in the zone and is part of one step, whatever stands behind it. -/
def Kept (zone : Zone) (t : Text) : Prop :=
  ∀ rest, splitFrom? zone (t ++ rest) =
    (splitFrom? zone rest).map fun (step, steps) => (t ++ step, steps)

theorem Kept.append (ht : Kept zone t) (hword : Kept zone word) : Kept zone (t ++ word) := by
  intro rest
  rw [List.append_assoc, ht, hword, Option.map_map]
  congr 1
  funext pair
  simp

/-- A run of characters that stay in their zone. -/
theorem kept_of_forall (ht : ∀ c ∈ t, zone.next c = zone ∧ (zone = .plain → isBlank c = false)) :
    Kept zone t := by
  induction t with
  | nil => simp [Kept]
  | cons c t ih =>
      obtain ⟨⟨hnext, hblank⟩, ht⟩ := List.forall_mem_cons.mp ht
      intro rest
      rw [List.cons_append, splitFrom?_cons hblank, hnext, ih ht, Option.map_map]
      rfl

/-- What is kept in a zone of its own is kept together with the marks around it. -/
theorem Kept.enclose {inner : Zone} {opening closing : Char} (ht : Kept inner t)
    (hopening : zone.next opening = inner) (hclosing : inner.next closing = zone)
    (hblank : isBlank opening = false) (hinner : inner ≠ .plain) :
    Kept zone (opening :: (t ++ [closing])) := by
  intro rest
  have hshape : opening :: (t ++ [closing]) ++ rest = opening :: (t ++ closing :: rest) := by simp
  rw [hshape, splitFrom?_cons fun _ => hblank, hopening, ht,
    splitFrom?_cons fun hplain => absurd hplain hinner, hclosing, Option.map_map, Option.map_map]
  congr 1
  funext pair
  simp

/-- A text that is part of one step, with no white space at its ends. -/
structure Solid (t : Text) : Prop where
  first : ∀ c ∈ t.head?, isBlank c = false
  last : ∀ c ∈ t.getLast?, isBlank c = false
  kept : Kept .plain t

theorem Solid.append (ht : Solid t) (hword : Solid word) : Solid (t ++ word) := by
  refine ⟨forall_head?_append ht.first hword.first, ?_, ht.kept.append hword.kept⟩
  intro c hc
  rw [List.getLast?_append] at hc
  rcases Option.or_eq_some_iff.mp hc with hc | ⟨-, hc⟩
  · exact hword.last c hc
  · exact ht.last c hc

/-- A text without white space and brackets. -/
theorem solid_of_forall (ht : ∀ c ∈ t, isBlank c = false ∧ c ≠ '[') : Solid t := by
  refine ⟨fun c hc => (ht c (List.mem_of_mem_head? hc)).1,
    fun c hc => (ht c (List.mem_of_getLast? hc)).1, kept_of_forall ?_⟩
  intro c hc
  exact ⟨by simp [Zone.next, (ht c hc).2], fun _ => (ht c hc).1⟩

/-- A class or an id behind its mark. -/
theorem solid_name (hblank : isBlank c = false) (hc : c ≠ '[') (ht : ∀ d ∈ t, isNameChar d = true) :
    Solid (c :: t) := by
  refine solid_of_forall (List.forall_mem_cons.mpr ⟨⟨hblank, hc⟩, fun d hd => ?_⟩)
  have hchar := ht d hd
  simp only [isNameChar, Bool.and_eq_true, Bool.not_eq_true', bne_iff_ne] at hchar
  exact ⟨hchar.1.1.1.1, hchar.1.2⟩

theorem solid_flatMap {α : Type} {write : α → Text} {items : List α}
    (hitems : ∀ item ∈ items, Solid (write item)) : Solid (items.flatMap write) := by
  induction items with
  | nil => exact solid_of_forall nofun
  | cons item more ih =>
      obtain ⟨hitem, hmore⟩ := List.forall_mem_cons.mp hitems
      rw [List.flatMap_cons]
      exact hitem.append (ih hmore)

theorem kept_of_isAttributeChar (ht : ∀ c ∈ t, isAttributeChar c = true) : Kept .bracket t := by
  refine kept_of_forall fun c hc => ⟨?_, nofun⟩
  have hchar := ht c hc
  simp only [isAttributeChar, Bool.and_eq_true, bne_iff_ne] at hchar
  simp [Zone.next, hchar]

theorem kept_quoted (ht : '"' ∉ t) : Kept .bracket ('"' :: (t ++ ['"'])) := by
  have hinside : Kept (.quoted '"') t := by
    refine kept_of_forall fun c hc => ⟨?_, nofun⟩
    rw [Zone.next, if_neg]
    rintro rfl
    exact ht hc
  exact hinside.enclose rfl rfl rfl nofun

/-- What stands between the brackets of a condition keeps them together, also if it holds brackets or
white space itself. -/
theorem solid_write (hcondition : condition.Legible) : Solid condition.write := by
  obtain ⟨name, value⟩ := condition
  have hname : Kept .bracket name := kept_of_isAttributeChar hcondition.name
  have hbracket : ∀ inside, Kept .bracket inside → Solid ('[' :: (inside ++ [']'])) := by
    intro inside hinside
    refine ⟨?_, ?_, hinside.enclose rfl rfl rfl nofun⟩
    · intro c hc
      obtain rfl := Option.some.inj hc
      rfl
    · intro c hc
      rw [← List.cons_append, List.getLast?_concat] at hc
      obtain rfl := Option.some.inj hc
      rfl
  cases value with
  | none => exact hbracket name hname
  | some value =>
      have hequals : Kept .bracket ['='] := kept_of_forall (by simp [Zone.next])
      have hinside := (hname.append hequals).append (kept_quoted (hcondition.value value rfl))
      have hshape : AttributeCondition.write ⟨name, some value⟩ =
          '[' :: (name ++ ['='] ++ ('"' :: (value ++ ['"'])) ++ [']']) := by
        simp [AttributeCondition.write]
      rw [hshape]
      exact hbracket _ hinside

/-! ### Conditions -/

/-- A class is read behind its dot up to the next mark. -/
theorem readConditions_class (hword : word ≠ []) (hchars : ∀ c ∈ word, isNameChar c = true)
    (hrest : ∀ c ∈ rest.head?, isNameChar c = false) :
    readConditions known ('.' :: (word ++ rest)) =
      readConditions { known with classes := known.classes ++ [word] } rest := by
  have hrun := takeWhile_run_append hchars hrest
  rw [readConditions]
  simp only [hrun, hword, true_or, if_true, if_false]

theorem takeWhile_name (hcondition : condition.Legible) (hc : isAttributeChar c = false) (rest : Text) :
    trimLeft (condition.name ++ c :: rest) = condition.name ++ c :: rest ∧
      (condition.name ++ c :: rest).takeWhile isAttributeChar = condition.name ∧
      (condition.name ++ c :: rest).dropWhile isAttributeChar = c :: rest := by
  refine ⟨?_, takeWhile_run hcondition.name hc rest⟩
  obtain ⟨d, front, hfront⟩ := List.exists_cons_of_ne_nil hcondition.name_ne
  have hd := hcondition.name d (hfront ▸ List.mem_cons_self)
  simp only [isAttributeChar, Bool.and_eq_true, Bool.not_eq_true'] at hd
  rw [hfront]
  exact trimLeft_cons_of_not hd.1.1.1.1

theorem readAttribute?_name (hcondition : AttributeCondition.Legible ⟨t, none⟩) (rest : Text) :
    readAttribute? (t ++ ']' :: rest) = some (⟨t, none⟩, rest) := by
  have hlower : lower t = t := hcondition.lower
  obtain ⟨htrim, htake, hdrop⟩ := takeWhile_name (c := ']') hcondition rfl rest
  rw [readAttribute?, htrim, htake, hdrop, if_neg hcondition.name_ne, trimLeft_cons_of_not rfl, hlower]
  rfl

theorem readAttribute?_value {value : Text} (hcondition : AttributeCondition.Legible ⟨t, some value⟩)
    (rest : Text) :
    readAttribute? (t ++ '=' :: '"' :: (value ++ '"' :: ']' :: rest)) = some (⟨t, some value⟩, rest) := by
  have hlower : lower t = t := hcondition.lower
  have hclose : closeBracket? (']' :: rest) = some rest := rfl
  have hcut := cut_of_notMem (hcondition.value value rfl) (']' :: rest)
  obtain ⟨htrim, htake, hdrop⟩ :=
    takeWhile_name (c := '=') hcondition rfl ('"' :: (value ++ '"' :: ']' :: rest))
  rw [readAttribute?, htrim, htake, hdrop, if_neg hcondition.name_ne, trimLeft_cons_of_not rfl]
  simp only [trimLeft_cons_of_not (c := '"') rfl, readValue?, hcut, Option.bind_some, hclose, hlower]
  rfl

/-- A condition is read up to its closing bracket. -/
theorem readConditions_attribute (hcondition : condition.Legible) (rest : Text) :
    readConditions known (condition.write ++ rest) =
      readConditions { known with attributes := known.attributes ++ [condition] } rest := by
  obtain ⟨inside, hwrite, hread⟩ : ∃ inside, condition.write ++ rest = '[' :: inside ∧
      readAttribute? inside = some (condition, rest) := by
    obtain ⟨name, value⟩ := condition
    cases value with
    | none =>
        refine ⟨name ++ ']' :: rest, ?_, readAttribute?_name hcondition rest⟩
        simp [AttributeCondition.write]
    | some value =>
        refine ⟨name ++ '=' :: '"' :: (value ++ '"' :: ']' :: rest), ?_,
          readAttribute?_value hcondition rest⟩
        simp [AttributeCondition.write]
  rw [hwrite, readConditions, if_neg (by decide), if_pos rfl]
  split
  next hnone =>
    rw [hread] at hnone
    cases hnone
  next hsome =>
    rw [hread] at hsome
    cases hsome
    rfl

theorem readConditions_classes {ws : List Text}
    (hws : ∀ word ∈ ws, word ≠ [] ∧ ∀ c ∈ word, isNameChar c = true)
    (hrest : ∀ c ∈ rest.head?, isNameChar c = false) :
    readConditions known (ws.flatMap ('.' :: ·) ++ rest) =
      readConditions { known with classes := known.classes ++ ws } rest := by
  induction ws generalizing known with
  | nil => simp
  | cons word ws ih =>
      obtain ⟨⟨hne, hchars⟩, hws⟩ := List.forall_mem_cons.mp hws
      have hbehind : ∀ c ∈ (ws.flatMap ('.' :: ·) ++ rest).head?, isNameChar c = false := by
        refine forall_head?_append (forall_head?_flatMap fun word _ c hc => ?_) hrest
        obtain rfl := Option.some.inj hc
        rfl
      rw [List.flatMap_cons, List.append_assoc, List.cons_append,
        readConditions_class hne hchars hbehind, ih hws, List.append_assoc]
      rfl

theorem readConditions_written {conditions : List AttributeCondition}
    (hconditions : ∀ condition ∈ conditions, condition.Legible) (rest : Text) :
    readConditions known (conditions.flatMap AttributeCondition.write ++ rest) =
      readConditions { known with attributes := known.attributes ++ conditions } rest := by
  induction conditions generalizing known with
  | nil => simp
  | cons condition more ih =>
      obtain ⟨hcondition, hmore⟩ := List.forall_mem_cons.mp hconditions
      rw [List.flatMap_cons, List.append_assoc, readConditions_attribute hcondition, ih hmore,
        List.append_assoc]
      rfl

/-- A tag in front of conditions ends where they begin. -/
theorem readStep_tag {tag : Text} (hstart : ∀ c ∈ tag.head?, isTagStart c = true) (hne : tag ≠ [])
    (hchars : ∀ c ∈ tag, isTagChar c = true) (hrest : ∀ c ∈ rest.head?, isTagChar c = false) :
    readStep (tag ++ rest) = readConditions (.ofTag (some (lower tag))) rest := by
  obtain ⟨c, more, rfl⟩ := List.exists_cons_of_ne_nil hne
  have hc := hstart c rfl
  have hstar : c ≠ '*' := by
    rintro rfl
    cases hc
  obtain ⟨htake, hdrop⟩ := takeWhile_run_append (List.forall_mem_cons.mp hchars).2 hrest
  rw [List.cons_append]
  unfold readStep
  split
  next heq => exact absurd (List.cons.inj heq).1 hstar
  next heq =>
    obtain ⟨rfl, rfl⟩ := List.cons.inj heq
    rw [if_pos hc, htake, hdrop]
  next heq => cases heq

theorem splitSteps?_of_solid (ht : Solid t) (hne : t ≠ []) : splitSteps? (trim t) = some [t] := by
  have hsplit : splitFrom? .plain t = some (t, []) := by
    have hsolid := ht.kept []
    simpa [splitFrom?] using hsolid
  rw [trim_of_ends ht.first ht.last, splitSteps?, hsplit]
  simp [hne]

/-- A step that reads as a compound is a selector by itself. -/
theorem read_of_solid {compound : Compound} (ht : Solid t) (hne : t ≠ [])
    (hstep : readStep t = .ok compound) : read t = .ok ⟨compound, []⟩ := by
  rw [read, splitSteps?_of_solid ht hne]
  simp only [hstep]
  rfl

/-- A step that does not read as a compound is no selector, for the same cause. -/
theorem read_of_solid_error {cause : SelectorCause} (ht : Solid t) (hne : t ≠ [])
    (hstep : readStep t = .error cause) : read t = .error ⟨cause, t⟩ := by
  rw [read, splitSteps?_of_solid ht hne]
  simp only [hstep]

end Selector
end Gleaner
