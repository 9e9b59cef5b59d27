import Gleaner.Proofs.Elements
import Gleaner.Proofs.Writing

/-! # Elements and their start tags

An element can be written as a start tag: its id, its classes in one value and then its attributes. If
the names and values are proper ones, reading the tag gives the element back.
-/

namespace Gleaner

namespace Text

/-- Words that are joined by spaces are found again. -/
theorem words_intercalate {ws : List Text}
    (hwords : ∀ w ∈ ws, w ≠ [] ∧ ∀ c ∈ w, isBlank c = false) : words ([' '].intercalate ws) = ws := by
  induction ws with
  | nil => rfl
  | cons w ws ih =>
      rw [List.forall_mem_cons] at hwords
      cases ws with
      | nil =>
          rw [List.intercalate_singleton, words, List.splitOnP_eq_singleton hwords.1.2]
          simp [hwords.1.1]
      | cons v ws =>
          rw [List.intercalate_cons_cons, List.append_assoc, List.singleton_append, words,
            List.splitOnP_append_cons_of_forall_mem hwords.1.2 ' ' (by decide),
            List.filter_cons_of_pos (by simp [hwords.1.1])]
          exact congrArg (w :: ·) (ih hwords.2)

theorem notMem_intercalate {q : Char} {ws : List Text} (hspace : q ≠ ' ') (hws : ∀ w ∈ ws, q ∉ w) :
    q ∉ [' '].intercalate ws := by
  induction ws with
  | nil => exact List.not_mem_nil
  | cons w ws ih =>
      rw [List.forall_mem_cons] at hws
      cases ws with
      | nil =>
          rw [List.intercalate_singleton]
          exact hws.1
      | cons v ws =>
          rw [List.intercalate_cons_cons]
          simp only [List.mem_append, List.mem_singleton, not_or]
          exact ⟨⟨hws.1, hspace⟩, ih hws.2⟩

end Text

namespace Element

theorem eraseDupsBy_of_pairwise {α : Type} {same : α → α → Bool} {l : List α}
    (hl : l.Pairwise fun a b => same b a = false) : l.eraseDupsBy same = l := by
  induction l with
  | nil => rfl
  | cons a l ih =>
      obtain ⟨ha, hl⟩ := List.pairwise_cons.mp hl
      rw [List.eraseDupsBy_cons, List.filter_eq_self.mpr (by simpa using ha), ih hl]

/-- The start tag of an element: id and class only if there is one, then the attributes. -/
def startTag (e : Element) : Markup.StartTag where
  name := e.tag
  pairs := e.id.toList.map (fun value => (idName, value)) ++
    ((if e.classes.isEmpty then [] else [(className, [' '].intercalate e.classes)]) ++ e.attributes)

/-- An element, without its text, that can be written: the name of the tag, the names of the attributes
and the classes are proper ones, nothing is repeated, and no value has a double quote. -/
structure Proper (e : Element) : Prop where
  tag : ∃ c more, e.tag = c :: more ∧ c.isLower = true ∧
    ∀ d ∈ more, d.isLower = true ∨ d.isDigit = true ∨ d ∈ ['_', ':', '-']
  id : ∀ value ∈ e.id, '"' ∉ value
  classes : ∀ word ∈ e.classes, word ≠ [] ∧ ∀ c ∈ word, Text.isBlank c = false ∧ c ≠ '"'
  distinct : e.classes.Nodup
  names : ∀ pair ∈ e.attributes, pair.1 ≠ [] ∧ Text.lower pair.1 = pair.1 ∧
    pair.1 ≠ className ∧ pair.1 ≠ idName ∧
    ∀ c ∈ pair.1, Text.isBlank c = false ∧ c ∉ ['"', '\'', '>', '/', '=']
  values : ∀ pair ∈ e.attributes, '"' ∉ pair.2
  different : (e.attributes.map Prod.fst).Nodup
  text : e.text = []

namespace Proper

variable {e : Element}

theorem isNameChar (he : e.Proper) : ∀ c ∈ e.tag, Markup.isNameChar c = true ∧ c.toLower = c := by
  have hall : ∀ c : Char, c.isLower = true ∨ c.isDigit = true ∨ c ∈ ['_', ':', '-'] →
      Markup.isNameChar c = true ∧ c.toLower = c := by
    intro c hc
    have hname : Markup.isNameChar c = true := by
      rcases hc with hlower | hdigit | hother
      · simp [Markup.isNameChar, Char.isAlphanum, Char.isAlpha, hlower]
      · simp [Markup.isNameChar, Char.isAlphanum, hdigit]
      · simpa [Markup.isNameChar, or_assoc] using Or.inr hother
    refine ⟨hname, ?_⟩
    exact Text.forall_ascii
      (P := fun c => c.isLower = true ∨ c.isDigit = true ∨ c ∈ ['_', ':', '-'] → c.toLower = c)
      (by decide +kernel) (Markup.toNat_lt_of_isNameChar hname) hc
  obtain ⟨c, more, htag, hc, hmore⟩ := he.tag
  rw [htag, List.forall_mem_cons]
  exact ⟨hall c (.inl hc), fun d hd => hall d (hmore d hd)⟩

theorem tag_startTag (he : e.Proper) : e.startTag.tag = e.tag := by
  change Text.lower e.tag = e.tag
  rw [Text.lower_of_ascii fun c hc => Markup.toNat_lt_of_isNameChar (he.isNameChar c hc).1]
  exact (List.map_congr_left fun c hc => (he.isNameChar c hc).2).trans (List.map_id _)

theorem mem_pairs {pair : Text × Text} (hpair : pair ∈ e.startTag.pairs) :
    (∃ value, e.id = some value ∧ pair = (idName, value)) ∨
      pair = (className, [' '].intercalate e.classes) ∨ pair ∈ e.attributes := by
  simp only [startTag, List.mem_append, List.mem_map, Option.mem_toList] at hpair
  rcases hpair with ⟨value, hid, rfl⟩ | hclass | hpair
  · exact .inl ⟨value, hid, rfl⟩
  · split at hclass
    next => cases hclass
    next => exact .inr (.inl (List.mem_singleton.mp hclass))
  · exact .inr (.inr hpair)

theorem legible (he : e.Proper) : e.startTag.Legible := by
  refine ⟨?_, ?_, ?_⟩
  · obtain ⟨c, more, htag, hc, hmore⟩ := he.tag
    refine ⟨c, more, htag, by simp [Char.isAlpha, hc], ?_⟩
    intro d hd
    exact (he.isNameChar d (by rw [htag]; exact List.mem_cons_of_mem c hd)).1
  · intro pair hpair
    rcases mem_pairs hpair with ⟨value, -, rfl⟩ | rfl | hpair
    · have hid : idName.all Markup.isAttributeChar = true := by decide
      exact ⟨List.cons_ne_nil _ _, List.all_eq_true.mp hid⟩
    · have hclass : className.all Markup.isAttributeChar = true := by decide
      exact ⟨List.cons_ne_nil _ _, List.all_eq_true.mp hclass⟩
    · obtain ⟨hname, -, -, -, hchars⟩ := he.names pair hpair
      refine ⟨hname, ?_⟩
      intro c hc
      obtain ⟨hblank, hother⟩ := hchars c hc
      simp only [List.mem_cons, List.not_mem_nil, or_false, not_or] at hother
      simp [Markup.isAttributeChar, hblank, hother]
  · intro pair hpair
    rcases mem_pairs hpair with ⟨value, hid, rfl⟩ | rfl | hpair
    · exact he.id value hid
    · apply Text.notMem_intercalate (by decide)
      exact fun word hword hquote => ((he.classes word hword).2 _ hquote).2 rfl
    · exact he.values pair hpair

theorem readPairs_startTag (he : e.Proper) : e.startTag.readPairs = e.startTag.pairs := by
  refine (List.map_congr_left ?_).trans (List.map_id _)
  -- every name in the tag is in lower case already
  intro pair hpair
  rcases mem_pairs hpair with ⟨value, -, rfl⟩ | rfl | hpair
  · have hid : Text.lower idName = idName := by decide
    rw [hid]
    rfl
  · have hclass : Text.lower className = className := by decide
    rw [hclass]
    rfl
  · exact Prod.ext (he.names pair hpair).2.1 rfl

theorem lookup_id (he : e.Proper) : e.startTag.pairs.lookup idName = e.id := by
  cases hid : e.id with
  | some value => simp [startTag, hid]
  | none =>
      rw [List.lookup_eq_none_iff]
      intro pair hpair
      rcases mem_pairs hpair with ⟨value, hsome, rfl⟩ | rfl | hpair
      · rw [hid] at hsome
        cases hsome
      · exact bne_iff_ne.mpr className_ne_idName.symm
      · exact bne_iff_ne.mpr (he.names pair hpair).2.2.2.1.symm

theorem filter_class (he : e.Proper) : e.startTag.pairs.filter (·.1 == className) =
    if e.classes.isEmpty then [] else [(className, [' '].intercalate e.classes)] := by
  have hattributes : e.attributes.filter (·.1 == className) = [] := by
    rw [List.filter_eq_nil_iff]
    intro pair hpair
    simpa using (he.names pair hpair).2.2.1
  have hid : (e.id.toList.map fun value => (idName, value)).filter (·.1 == className) = [] := by
    rw [List.filter_eq_nil_iff]
    simp only [List.mem_map]
    rintro _ ⟨value, -, rfl⟩
    exact mt beq_iff_eq.mp className_ne_idName.symm
  rw [startTag, List.filter_append, List.filter_append, hid, hattributes, List.nil_append,
    List.append_nil]
  split
  next => rfl
  next => simp

theorem filter_attributes (he : e.Proper) :
    e.startTag.pairs.filter (fun pair => pair.1 != className && pair.1 != idName) =
      e.attributes := by
  have hattributes :
      e.attributes.filter (fun pair => pair.1 != className && pair.1 != idName) = e.attributes := by
    rw [List.filter_eq_self]
    intro pair hpair
    obtain ⟨-, -, hclass, hid, -⟩ := he.names pair hpair
    rw [Bool.and_eq_true, bne_iff_ne, bne_iff_ne]
    exact ⟨hclass, hid⟩
  rw [startTag, List.filter_append, List.filter_append, hattributes]
  have hid : (e.id.toList.map fun value => (idName, value)).filter
      (fun pair => pair.1 != className && pair.1 != idName) = [] := by
    rw [List.filter_eq_nil_iff]
    simp only [List.mem_map]
    rintro _ ⟨value, -, rfl⟩
    simp
  rw [hid]
  split
  next => rfl
  next => simp

theorem words_classes (he : e.Proper) :
    (e.startTag.pairs.filter (·.1 == className)).flatMap (Text.words ·.2) = e.classes := by
  rw [he.filter_class]
  split
  next hempty =>
    rw [List.isEmpty_iff.mp hempty]
    rfl
  next =>
    rw [List.flatMap_singleton]
    exact Text.words_intercalate fun word hword =>
      ⟨(he.classes word hword).1, fun c hc => ((he.classes word hword).2 c hc).1⟩

/-- The start tag of an element says what the element is. -/
theorem element_startTag (he : e.Proper) : e.startTag.element = e := by
  have hclasses : e.classes.eraseDups = e.classes :=
    eraseDupsBy_of_pairwise (he.distinct.imp fun hne => beq_eq_false_iff_ne.mpr hne.symm)
  have hattributes : e.attributes.eraseDupsBy (fun pair earlier => pair.1 == earlier.1) =
      e.attributes := by
    apply eraseDupsBy_of_pairwise
    exact (List.pairwise_map.mp he.different).imp fun hne => beq_eq_false_iff_ne.mpr hne.symm
  rw [Markup.StartTag.element, he.tag_startTag, he.readPairs_startTag]
  unfold ofAttributes
  rw [he.lookup_id, he.words_classes, hclasses, he.filter_attributes, hattributes, ← he.text]

end Proper

end Element

end Gleaner
