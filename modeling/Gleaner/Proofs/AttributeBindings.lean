import Gleaner.Proofs.Chains
import Gleaner.Proofs.CompilerSteps
import Gleaner.Proofs.Elements
import Gleaner.Proofs.Limits
import Gleaner.Proofs.MarkupAttributes
import Gleaner.Proofs.RoundTrip
import Gleaner.Proofs.TagNames
import Gleaner.Proofs.WrittenTemplates

/-! # Bound attributes

A template that binds attributes of one element, on markup with that element: the record has what the start
tag says. Template and markup each put the names into lower case, so a name may be spelled in two ways; the
order in the tag and other attributes in it do not count.
-/

namespace Gleaner

open Text

/-- An attribute that a template binds and markup has. -/
structure BoundAttribute where
  /-- The name in the template. -/
  name : Text
  /-- The field that takes the value. -/
  field : Text
  /-- The name in the markup. -/
  spelling : Text
  value : Text
deriving DecidableEq

namespace BoundAttribute

/-- The attribute in a template. -/
def writeBinding (b : BoundAttribute) : Text := ' ' :: (b.name ++ '=' :: '{' :: (b.field ++ ['}']))

/-- The attribute in markup. -/
def given (b : BoundAttribute) : Markup.Attribute := .quoted b.spelling b.value

/-- The field of the record. -/
def entry (b : BoundAttribute) : Text × Value := (b.field, .text (trim b.value))

/-- A name that is no name of classes, a field that values may be bound to, a name in markup that is the same
one in lower case, and a value that is not blank and can stand between double quotes. -/
structure Legible (b : BoundAttribute) : Prop where
  name_ne : b.name ≠ []
  name : ∀ c ∈ b.name, Template.isAttributeChar c = true
  not_class : lower b.name ≠ Element.className
  field : Template.isName b.field = true
  spelling : ∀ c ∈ b.spelling, Markup.isAttributeChar c = true
  same : lower b.spelling = lower b.name
  value_ne : trim b.value ≠ []
  value : '"' ∉ b.value

instance (b : BoundAttribute) : Decidable b.Legible :=
  decidable_of_iff (b.name ≠ [] ∧ b.name.all Template.isAttributeChar = true ∧
      lower b.name ≠ Element.className ∧ Template.isName b.field = true ∧
      b.spelling.all Markup.isAttributeChar = true ∧ lower b.spelling = lower b.name ∧
      trim b.value ≠ [] ∧ '"' ∉ b.value) <| by
    simp only [List.all_eq_true]
    constructor
    · rintro ⟨hne, hname, hclass, hfield, hspelling, hsame, hblank, hvalue⟩
      exact ⟨hne, hname, hclass, hfield, hspelling, hsame, hblank, hvalue⟩
    · rintro ⟨hne, hname, hclass, hfield, hspelling, hsame, hblank, hvalue⟩
      exact ⟨hne, hname, hclass, hfield, hspelling, hsame, hblank, hvalue⟩

end BoundAttribute

/-- The tag of the one element, in the template and in the markup. -/
def divisionTag : Text := ['d', 'i', 'v']

theorem read_divisionTag : Selector.read divisionTag = .ok ⟨.ofTag (some divisionTag), []⟩ := by
  decide +kernel

/-- A template of one slot that binds the attributes. -/
def Template.writeDivision (bounds : List BoundAttribute) : Text :=
  '<' :: (divisionTag ++ (bounds.flatMap BoundAttribute.writeBinding ++ '>' ::
    '<' :: '/' :: (divisionTag ++ ['>'])))

/-- Markup of one element with the attributes. -/
def Markup.writeDivision (attributes : List Markup.Attribute) : Text :=
  '<' :: (divisionTag ++ (attributes.flatMap Markup.Attribute.write ++ '>' ::
    '<' :: '/' :: (divisionTag ++ ['>'])))

/-! ### The template -/

namespace BoundAttribute

variable {b : BoundAttribute} {bounds : List BoundAttribute}

/-- The attribute as a slot binds it. -/
def binding (b : BoundAttribute) : Text × Binding := (lower b.name, ⟨b.field, .string, false⟩)

theorem Legible.wellFormed (hb : b.Legible) : b.binding.2.WellFormed := ⟨hb.field, .inl rfl⟩

theorem Legible.readPiece (hb : b.Legible) (start : Text) {bound : List Text} (hnew : b.binding.1 ∉ bound)
    (rest : Text) :
    Template.readPiece start bound (.whole (b.writeBinding ++ rest)) =
      .ok (.binding b.binding.1 b.binding.2, .whole rest) := by
  have hhead : b.binding.2.head = b.field := List.append_nil _
  have hread : Template.readBinding b.field = .ok b.binding.2 :=
    hhead ▸ Template.readBinding_head hb.wellFormed rfl
  have hbrace : '}' ∉ b.field := by
    rw [← hhead]
    exact fun hmem => (Template.not_mark_of_mem_head hb.wellFormed hmem).2.2.2 rfl
  have hshape : b.writeBinding ++ rest = [' '] ++ (b.name ++ '=' :: '{' :: (b.field ++ '}' :: rest)) := by
    simp [writeBinding]
  have hblank : ∀ c ∈ [' '], isBlank c = true := List.forall_mem_singleton.mpr rfl
  unfold Template.Slice.whole
  rw [hshape, Template.readPiece_name start bound hblank hb.name_ne hb.name rfl, if_pos rfl]
  simp only [Template.readValue, cut_of_notMem hbrace, hread]
  exact if_neg hnew

/-- The tag of the template is read as a slot that binds the attributes. -/
theorem readTag_bounds (hbounds : ∀ b ∈ bounds, b.Legible)
    (hnames : (bounds.map fun b => lower b.name).Nodup) (start rest : Text) :
    Template.readTag start
        (.whole (divisionTag ++ (bounds.flatMap writeBinding ++ '>' :: rest))) =
      .ok ⟨⟨divisionTag, false, false, bounds.map binding, []⟩, false, .whole rest⟩ := by
  have hbody : Template.readBody start divisionTag []
      ⟨bounds.flatMap writeBinding ++ '>' :: rest, [], false⟩ =
        .ok ⟨divisionTag, [] ++ bounds.map binding, false, ⟨rest, [], false⟩⟩ := by
    refine Template.readBody_of_bindings ?_ ?_
    · exact fun b hb bound rest hnew => (hbounds b hb).readPiece start hnew rest
    · rw [List.nil_append, List.map_map]
      exact hnames
  obtain ⟨q, more, htail, hq⟩ : ∃ q more, bounds.flatMap writeBinding ++ '>' :: rest = q :: more ∧
      Template.isSelectorChar q = false := by
    cases bounds with
    | nil => exact ⟨'>', rest, rfl, rfl⟩
    | cons b more => exact ⟨' ', _, rfl, rfl⟩
  have hselector : divisionTag.all Template.isSelectorChar = true := rfl
  have hflags : ∀ tail : Text, (divisionTag ++ tail).takeWhile (fun c => c == '?' || c == '!') = [] ∧
      (divisionTag ++ tail).dropWhile (fun c => c == '?' || c == '!') = divisionTag ++ tail :=
    fun tail => ⟨rfl, rfl⟩
  obtain ⟨hrun, hdrop⟩ := takeWhile_run (List.all_eq_true.mp hselector) hq more
  obtain ⟨hnone, hall⟩ := hflags (q :: more)
  rw [htail] at hbody ⊢
  unfold Template.readTag Template.Slice.whole
  simp only [hnone, hall, hrun, hdrop, hbody, read_divisionTag]
  rfl

/-- The template is compiled to one slot without anything below it. -/
theorem compile_bounds (hbounds : ∀ b ∈ bounds, b.Legible)
    (hnames : (bounds.map fun b => lower b.name).Nodup) :
    Template.compile (Template.writeDivision bounds) =
      .ok ⟨⟨divisionTag, false, false, bounds.map binding, []⟩, .done⟩ := by
  have hclosing : '>' ∉ divisionTag := by decide
  unfold Template.compile Template.compileSlice Template.writeDivision Template.Slice.whole
  rw [Template.compileFrom_tag (by exact nofun) (fun start => readTag_bounds hbounds hnames start _) rfl]
  exact congrArg (Except.mapError _)
    ((Template.compileFrom_close hclosing).trans (Template.compileFrom_end rfl))

end BoundAttribute

/-! ### The markup -/

namespace Markup

variable {attributes : List Attribute}

/-- The attributes of a tag begin with white space, or the tag ends. -/
theorem not_isTagChar_division (hattributes : ∀ a ∈ attributes, a.Legible)
    (hfirst : ∀ a ∈ attributes.head?, a.gap ≠ []) (rest : Text) :
    ∀ c ∈ (attributes.flatMap Attribute.write ++ '>' :: rest).head?, isTagChar c = false := by
  intro c hc
  cases attributes with
  | nil =>
      obtain rfl := Option.some.inj hc
      rfl
  | cons a more =>
      obtain ⟨q, front, hgap⟩ := List.exists_cons_of_ne_nil (hfirst a rfl)
      rw [List.flatMap_cons, Attribute.write, hgap] at hc
      obtain rfl := Option.some.inj hc
      refine isTagChar_of_isBlank ((hattributes a List.mem_cons_self).gap _ ?_)
      rw [hgap]
      exact List.mem_cons_self

/-- One element without text, begun by its attributes. White space keeps the first one from the tag. -/
theorem parse_division (hattributes : ∀ a ∈ attributes, a.Legible)
    (hfirst : ∀ a ∈ attributes.head?, a.gap ≠ []) (hseparate : Attribute.Separate ['>'] attributes) :
    parse [] (writeDivision attributes) =
      .ofTree ⟨.ofAttributes divisionTag (attributes.map Attribute.pair), .nil⟩ := by
  let tag : StartTag := ⟨divisionTag, []⟩
  let pairs := attributes.map Attribute.pair
  have hname : ['i', 'v'].all isNameChar = true := rfl
  have htag : tag.Legible := ⟨⟨'d', ['i', 'v'], rfl, rfl, List.all_eq_true.mp hname⟩, nofun, nofun⟩
  have hlower : tag.tag = divisionTag := by decide +kernel
  have hmarkup : readMarkup [] (writeDivision attributes)
      (divisionTag ++ (attributes.flatMap Attribute.write ++ '>' :: tag.writeClosing)) =
        .ok (some (.enter divisionTag pairs), tag.writeClosing) := by
    rw [readMarkup_name htag.name (not_isTagChar_division hattributes hfirst _)]
    change readElement [] _ tag.tag _ = _
    rw [hlower, readElement, Attribute.readBody_close hattributes hseparate]
    rfl
  have hreach : reach [] .empty (writeDivision attributes) =
      (Builder.empty.addElement (.ofAttributes divisionTag pairs) .empty, none) := by
    have hleave := Builder.empty.leave_extend_enter divisionTag tag.writeClosing pairs .empty
    rw [Builder.extend_empty] at hleave
    have hclosing : reach [] (Builder.empty.place (.enter divisionTag pairs)) tag.writeClosing = _ :=
      htag.reach_writeClosing []
    rw [hlower, List.append_nil, hleave, reach_nil] at hclosing
    rw [writeDivision] at hmarkup ⊢
    exact (reach_markup rfl hmarkup).trans hclosing
  exact parse_of_reach [] hreach

end Markup

/-! ### One element and one slot -/

section Lone

variable {e : Element} {slot : Slot} {r : Record}

/-- A slot alone is matched with the one element of a document that has its tag. -/
theorem Plain.outcome_matchMany_lone
    (hread : Selector.read slot.selector = .ok ⟨.ofTag (some slot.selector), []⟩)
    (htag : e.tag = slot.selector) (hbound : slot.bound (Document.ofTree ⟨e, .nil⟩).root = .value r) :
    let doc := Document.ofTree ⟨e, .nil⟩
    (matchMany doc ⟨slot, .done⟩ ∅ doc.root true false).outcome = .ok [⟨doc.root, r, 0, [0]⟩] := by
  intro doc
  have hselect : doc.selectAll doc.root slot.selector true none = .ok [doc.root] := by
    have hall : doc.root.subtrees.filter (·.element.tag = slot.selector) = [doc.root] :=
      List.filter_eq_self.mpr (List.forall_mem_singleton.mpr (decide_eq_true htag))
    rw [Document.selectAll_of_read rfl hread, hall]
  have hone : (matchOne doc ⟨slot, .done⟩ ∅ doc.root).outcome = .ok (some ⟨r, 0, [0]⟩) :=
    outcome_matchSlot_eq_some.mpr ⟨r, ⟨r, 0, []⟩, hbound, rfl, rfl⟩
  refine (outcome_candidates_eq_ok hselect).mpr ⟨?_, ?_⟩
  · exact List.forall_mem_singleton.mpr fun _ => ⟨_, hone⟩
  · have hcandidate :
        candidate? (matchOne doc ⟨slot, .done⟩ ∅) ∅ doc.root = some ⟨doc.root, r, 0, [0]⟩ :=
      candidate?_eq_some.mpr ⟨Std.ExtHashSet.not_mem_empty, rfl, hone⟩
    change doc.innermost ([doc.root].filterMap (candidate? (matchOne doc ⟨slot, .done⟩ ∅) ∅)) = _
    rw [List.filterMap_cons_some hcandidate]
    rfl

/-- Its record is the first one that is extracted. -/
theorem Extraction.result_first_lone
    (hread : Selector.read slot.selector = .ok ⟨.ofTag (some slot.selector), []⟩)
    (htag : e.tag = slot.selector) (hbound : slot.bound (Document.ofTree ⟨e, .nil⟩).root = .value r) :
    (first ⟨slot, .done⟩ (.ofTree ⟨e, .nil⟩) none none).result = .ok r := by
  have hdoc : (Document.ofTree ⟨e, .nil⟩).Numbered := Document.numbered_ofTree _
  have hroot : rootOf (.ofTree ⟨e, .nil⟩) none = .ok (Document.ofTree ⟨e, .nil⟩).root := rfl
  have hmatched := Plain.outcome_matchMany_lone hread htag hbound
  rw [result_first, result_run_of_rootOf hroot, Search.runFrom_matchMany hdoc
    (mem_subtrees_of_rootOf hdoc hroot) (SearchState.sound_empty _)]
  change ((Plain.matchMany _ _ ∅ _ _ _).outcome.mapError _).bind _ = _
  rw [hmatched]
  rfl

end Lone

namespace BoundAttribute

variable {bounds : List BoundAttribute} {attributes further : List Markup.Attribute}

/-- The element has the value of each attribute that is bound, whatever the order of the attributes. -/
theorem rawAttribute_bounds (hbounds : ∀ b ∈ bounds, b.Legible)
    (hnames : (bounds.map fun b => lower b.name).Nodup)
    (hfurther : ∀ a ∈ further, lower a.name ∉ bounds.map fun b => lower b.name)
    (hattributes : attributes.Perm (bounds.map given ++ further)) {b : BoundAttribute} (hb : b ∈ bounds) :
    (Element.ofAttributes divisionTag (attributes.map Markup.Attribute.pair)).rawAttribute (lower b.name) =
      some b.value := by
  rw [Element.rawAttribute_ofAttributes (hbounds b hb).not_class]
  refine lookup_of_unique ?_ ?_
  · have hmem : b.given ∈ attributes :=
      hattributes.mem_iff.mpr (List.mem_append_left _ (List.mem_map_of_mem hb))
    refine List.mem_map.mpr ⟨_, hmem, ?_⟩
    exact Prod.ext (hbounds b hb).same rfl
  · intro other hother
    obtain ⟨a, ha, hpair⟩ := List.mem_map.mp hother
    obtain ⟨hname, hvalue⟩ := Prod.mk.inj hpair
    rcases List.mem_append.mp (hattributes.mem_iff.mp ha) with hgiven | hfree
    · obtain ⟨c, hc, rfl⟩ := List.mem_map.mp hgiven
      have hsame : lower c.name = lower b.name := (hbounds c hc).same.symm.trans hname
      obtain rfl := List.inj_on_of_nodup_map hnames hc hb hsame
      exact hvalue.symm
    · exact absurd (hname ▸ List.mem_map_of_mem hb) (hfurther a hfree)

/-- A value that is not blank is coerced to itself without the white space at its ends. -/
theorem Legible.coerce {b : BoundAttribute} (hb : b.Legible) :
    b.binding.2.coerce (some b.value) = .value (.text (trim b.value)) := by
  rw [Binding.coerce, Option.getD_some]
  exact if_neg (by simpa using hb.value_ne)

theorem Legible.given {b : BoundAttribute} (hb : b.Legible) : b.given.Legible := by
  have hne : b.spelling ≠ [] := by
    intro hnone
    have hsame := hb.same
    rw [hnone] at hsame
    exact lower_ne_nil hb.name_ne hsame.symm
  exact Markup.Attribute.legible_quoted ⟨hne, hb.spelling⟩ hb.value

/-- The record of an element that has the value of each attribute. -/
theorem bindAttributes_bounds {e : Element} (hbounds : ∀ b ∈ bounds, b.Legible)
    (hfields : (bounds.map (·.field)).Nodup)
    (hvalues : ∀ b ∈ bounds, e.rawAttribute (lower b.name) = some b.value) :
    bindAttributes e [] (bounds.map binding) = .value (bounds.map entry) := by
  have hpairs : (bounds.map binding).map (fun pair => (pair.2, e.rawAttribute pair.1)) =
      bounds.map fun b => (b.binding.2, some b.value) := by
    rw [List.map_map]
    exact List.map_congr_left fun b hb => Prod.ext rfl (hvalues b hb)
  have hcoerce : ∀ pair ∈ bounds.map fun b => (b.binding.2, some b.value),
      pair.1.coerce pair.2 = .value (.text (trim (pair.2.getD []))) := by
    intro pair hpair
    obtain ⟨b, hb, rfl⟩ := List.mem_map.mp hpair
    exact (hbounds b hb).coerce
  rw [bindAttributes_eq, hpairs, bindEach_of_forall hcoerce]
  · rw [List.map_map]
    rfl
  · rw [List.map_map]
    exact hfields

/-- What is extracted from an element by a template that binds attributes of it are their values in the start
tag, without white space at the ends and in the order of the template. -/
theorem first_read_back (hbounds : ∀ b ∈ bounds, b.Legible)
    (hnames : (bounds.map fun b => lower b.name).Nodup) (hfields : (bounds.map (·.field)).Nodup)
    (hfurther : ∀ a ∈ further, a.Legible ∧ lower a.name ∉ bounds.map fun b => lower b.name)
    (hattributes : attributes.Perm (bounds.map given ++ further))
    (hfirst : ∀ a ∈ attributes.head?, a.gap ≠ [])
    (hseparate : Markup.Attribute.Separate ['>'] attributes) :
    ∃ t, Template.compile (Template.writeDivision bounds) = .ok t ∧
      (Extraction.first t (Markup.parse [] (Markup.writeDivision attributes)) none none).result =
        .ok (bounds.map entry) := by
  refine ⟨_, compile_bounds hbounds hnames, ?_⟩
  have hlegible : ∀ a ∈ attributes, a.Legible := by
    intro a ha
    rcases List.mem_append.mp (hattributes.mem_iff.mp ha) with hgiven | hfree
    · obtain ⟨b, hb, rfl⟩ := List.mem_map.mp hgiven
      exact (hbounds b hb).given
    · exact (hfurther a hfree).1
  rw [Markup.parse_division hlegible hfirst hseparate]
  have hbound : bindAttributes (.ofAttributes divisionTag (attributes.map Markup.Attribute.pair)) []
      (bounds.map binding) = .value (bounds.map entry) :=
    bindAttributes_bounds hbounds hfields fun b hb =>
      rawAttribute_bounds hbounds hnames (fun a ha => (hfurther a ha).2) hattributes hb
  exact Extraction.result_first_lone read_divisionTag rfl hbound

/-- Two attributes that are spelled otherwise in the markup, in the other order and among others. -/
theorem first_read_back_spelled :
    ∃ t, Template.compile "<div data-Id={v} TITLE={t}></div>".toList = .ok t ∧
      (Extraction.first t (Markup.parse []
          "<div CLASS='a' title=\"x y\" checked DATA-ID=\" 7 \" k = {y}></div>".toList) none none).result =
        .ok [("v".toList, .text "7".toList), ("t".toList, .text "x y".toList)] := by
  let number : BoundAttribute := ⟨"data-Id".toList, "v".toList, "DATA-ID".toList, " 7 ".toList⟩
  let title : BoundAttribute := ⟨"TITLE".toList, "t".toList, "title".toList, "x y".toList⟩
  let marked : Markup.Attribute := ⟨[' '], "CLASS".toList, [], [], .quoted '\'' "a".toList⟩
  let checked : Markup.Attribute := ⟨[' '], "checked".toList, [], [], .bare⟩
  let spaced : Markup.Attribute := ⟨[' '], "k".toList, [' '], [' '], .plain "{y}".toList⟩
  let attributes := [marked, title.given, checked, number.given, spaced]
  obtain ⟨t, hcompile, hresult⟩ :=
    @first_read_back [number, title] attributes [marked, checked, spaced] (by decide +kernel)
      (by decide +kernel) (by decide +kernel) (by decide +kernel) (by decide +kernel) (by decide +kernel)
      (by decide +kernel)
  have htemplate : Template.writeDivision [number, title] =
      "<div data-Id={v} TITLE={t}></div>".toList := by decide +kernel
  have hmarkup : Markup.writeDivision attributes =
      "<div CLASS='a' title=\"x y\" checked DATA-ID=\" 7 \" k = {y}></div>".toList := by decide +kernel
  have htrim : trim number.value = "7".toList ∧ trim title.value = "x y".toList := by decide +kernel
  have hrecord : [number, title].map entry =
      [("v".toList, .text "7".toList), ("t".toList, .text "x y".toList)] := by
    rw [List.map_cons, List.map_singleton, entry, entry, htrim.1, htrim.2]
  rw [htemplate] at hcompile
  rw [hmarkup, hrecord] at hresult
  exact ⟨t, hcompile, hresult⟩

end BoundAttribute
end Gleaner
