import Gleaner.Proofs.Elements
import Gleaner.Proofs.LiteralConditions
import Gleaner.Proofs.Placements
import Gleaner.Proofs.WrittenSelectors
import Gleaner.Selector.Search

/-! # Literal attributes mean the same in a template as in markup

The conditions of a tag are read a second time, as a selector. They are read back as they were written
unless a name or value has a mark of selectors in it, and then the tag finds the elements that agree with
the element it begins in markup.
-/

namespace Gleaner

open Text

namespace LiteralAttribute

variable {a : LiteralAttribute} {attributes : List LiteralAttribute} {known : Compound} {word : Text}

/-- The classes that the attribute asks for. -/
def classes (a : LiteralAttribute) : List Text :=
  match a.value.text? with
  | some value => if lower a.name = Element.className then words value else []
  | none => []

/-- The conditions that the attribute adds, apart from classes. -/
def conditions (a : LiteralAttribute) : List AttributeCondition :=
  match a.value.text? with
  | some value => if lower a.name = Element.className then [] else [⟨lower a.name, some value⟩]
  | none => [⟨lower a.name, none⟩]

/-- Nothing in the attribute is a mark of selectors: the name does not close a bracket, the words of a class
have none of the characters that end a class, and other values have no double quotes. Single quotes begin no
value in a template. -/
structure Clear (a : LiteralAttribute) : Prop where
  name : ']' ∉ a.name
  shared : a.value.Shared
  words : lower a.name = Element.className → ∀ value ∈ a.value.text?, ∀ word ∈ words value,
    ∀ c ∈ word, c ∉ ['.', '#', '[', ']']
  value : lower a.name ≠ Element.className → ∀ value ∈ a.value.text?, '"' ∉ value

/-- What the attribute asks of the element `m` if its tag begins the element `e` in markup. -/
def Agrees (a : LiteralAttribute) (e m : Element) : Prop :=
  match a.value.text? with
  | none => m.hasAttribute (lower a.name) = true
  | some _ =>
    if lower a.name = Element.className then ∀ word ∈ e.classes, word ∈ m.classes
    else m.rawAttribute (lower a.name) = e.rawAttribute (lower a.name)

/-! ### Reading the conditions -/

theorem condition_eq (a : LiteralAttribute) :
    a.condition = a.classes.flatMap ('.' :: ·) ++ a.conditions.flatMap AttributeCondition.write := by
  unfold condition classes conditions Template.condition
  cases a.value.text? with
  | none => simp [AttributeCondition.write]
  | some value =>
      dsimp only
      split
      next => simp
      next => simp [AttributeCondition.write]

theorem isNameChar_of_mem_classes (hclear : a.Clear) (hword : word ∈ a.classes) :
    word ≠ [] ∧ ∀ c ∈ word, Selector.isNameChar c = true := by
  unfold classes at hword
  cases hvalue : a.value.text? with
  | none =>
      rw [hvalue] at hword
      cases hword
  | some value =>
      rw [hvalue] at hword
      dsimp only at hword
      split at hword
      next hclass =>
        obtain ⟨hne, hblank⟩ := isWord_of_mem_words hword
        refine ⟨hne, fun c hc => ?_⟩
        have hmarks := hclear.words hclass value hvalue word hword c hc
        simp only [List.mem_cons, List.not_mem_nil, or_false, not_or] at hmarks
        simp [Selector.isNameChar, hblank c hc, hmarks]
      next => cases hword

theorem legible_of_mem_conditions (hclear : a.Clear)
    (hname : a.name ≠ [] ∧ ∀ c ∈ a.name, Markup.isAttributeChar c = true) {condition : AttributeCondition}
    (hcondition : condition ∈ a.conditions) : condition.Legible := by
  have hchars : ∀ c ∈ lower a.name, Selector.isAttributeChar c = true := by
    apply forall_mem_lower
    · intro c hblank hplace
      have hother : c ≠ '=' ∧ c ≠ ']' ∧ c ≠ '"' ∧ c ≠ '\'' := by
        refine ⟨?_, ?_, ?_, ?_⟩
        all_goals
          rintro rfl
          exact absurd hplace (by decide)
      simp [Selector.isAttributeChar, hblank, hother]
    · intro c hc
      have hbracket : c ≠ ']' := by
        rintro rfl
        exact hclear.name hc
      have hchar := hname.2 c hc
      simp only [Markup.isAttributeChar, Bool.and_eq_true, Bool.not_eq_true', bne_iff_ne] at hchar
      simp [Selector.isAttributeChar, hchar, hbracket]
  have hlegible : ∀ value, (∀ v ∈ value, '"' ∉ v) → AttributeCondition.Legible ⟨lower a.name, value⟩ :=
    fun value hvalue => ⟨lower_ne_nil hname.1, hchars, lower_lower _, hvalue⟩
  unfold conditions at hcondition
  cases hvalue : a.value.text? with
  | none =>
      rw [hvalue] at hcondition
      obtain rfl := List.mem_singleton.mp hcondition
      exact hlegible none (by simp)
  | some value =>
      rw [hvalue] at hcondition
      dsimp only at hcondition
      split at hcondition
      next => cases hcondition
      next hother =>
        obtain rfl := List.mem_singleton.mp hcondition
        refine hlegible (some value) fun v hv => ?_
        exact hclear.value hother v (hvalue.trans (congrArg some (Option.some.inj hv)))

/-- Conditions begin with a dot or a bracket. -/
theorem head?_conditions (attributes : List LiteralAttribute) :
    ∀ c ∈ (attributes.flatMap condition).head?, c = '.' ∨ c = '[' := by
  refine forall_head?_flatMap fun a _ => ?_
  rw [condition_eq]
  refine forall_head?_append (forall_head?_flatMap ?_) (forall_head?_flatMap ?_)
  · intro word _ c hc
    exact .inl (Option.some.inj hc).symm
  · intro condition _ c hc
    rw [condition.head?_write] at hc
    exact .inr (Option.some.inj hc).symm

/-- The conditions of clear attributes are read back. -/
theorem readConditions_conditions (hclear : ∀ a ∈ attributes, a.Clear)
    (hnames : ∀ a ∈ attributes, a.name ≠ [] ∧ ∀ c ∈ a.name, Markup.isAttributeChar c = true) :
    Selector.readConditions known (attributes.flatMap condition) =
      .ok { known with
        classes := known.classes ++ attributes.flatMap classes
        attributes := known.attributes ++ attributes.flatMap conditions } := by
  induction attributes generalizing known with
  | nil => simp [Selector.readConditions]
  | cons a more ih =>
      obtain ⟨hhere, hclear⟩ := List.forall_mem_cons.mp hclear
      obtain ⟨hname, hnames⟩ := List.forall_mem_cons.mp hnames
      have hwords : ∀ word ∈ a.classes, word ≠ [] ∧ ∀ c ∈ word, Selector.isNameChar c = true :=
        fun word hword => isNameChar_of_mem_classes hhere hword
      have hlegible : ∀ condition ∈ a.conditions, condition.Legible :=
        fun condition hcondition => legible_of_mem_conditions hhere hname hcondition
      have hrest : ∀ c ∈ (a.conditions.flatMap AttributeCondition.write ++
          more.flatMap condition).head?, Selector.isNameChar c = false := by
        refine forall_head?_append (forall_head?_flatMap fun condition _ c hc => ?_) fun c hc => ?_
        · rw [condition.head?_write] at hc
          obtain rfl := Option.some.inj hc
          rfl
        · rcases head?_conditions more c hc with rfl | rfl
          all_goals rfl
      rw [List.flatMap_cons, condition_eq, List.append_assoc,
        Selector.readConditions_classes hwords hrest, Selector.readConditions_written hlegible,
        ih hclear hnames]
      simp

end LiteralAttribute

namespace LiteralTag

variable {tag : LiteralTag} {a : LiteralAttribute}

theorem solid_selector (htag : tag.Legible) (hclear : ∀ a ∈ tag.attributes, a.Clear) :
    Selector.Solid tag.selector := by
  have hname : Selector.Solid tag.name := by
    apply Selector.solid_of_forall
    intro c hc
    have hchar := Markup.forall_isNameChar htag.name c hc
    refine ⟨(Markup.nameFacts hchar).notBlank, ?_⟩
    rintro rfl
    cases hchar
  refine hname.append (Selector.solid_flatMap fun a ha => ?_)
  rw [LiteralAttribute.condition_eq]
  apply Selector.Solid.append
  · exact Selector.solid_flatMap fun word hword =>
      Selector.solid_name rfl (by decide) (LiteralAttribute.isNameChar_of_mem_classes (hclear a ha) hword).2
  · exact Selector.solid_flatMap fun condition hcondition => Selector.solid_write
      (LiteralAttribute.legible_of_mem_conditions (hclear a ha) (htag.names a ha) hcondition)

/-- The compound that the selector of the tag spells. -/
def compound (tag : LiteralTag) : Compound :=
  ⟨some (lower tag.name), none, tag.attributes.flatMap LiteralAttribute.classes,
    tag.attributes.flatMap LiteralAttribute.conditions⟩

theorem readStep_selector (htag : tag.Legible) (hclear : ∀ a ∈ tag.attributes, a.Clear) :
    Selector.readStep tag.selector = .ok tag.compound := by
  -- both readers allow the same characters in the name of a tag
  have hchars : ∀ c ∈ tag.name, Selector.isTagChar c = true := Markup.forall_isNameChar htag.name
  obtain ⟨c, more, hname, hc, -⟩ := htag.name
  have hstart : ∀ c ∈ tag.name.head?, Selector.isTagStart c = true := by
    rw [hname]
    rintro d hd
    obtain rfl := Option.some.inj hd
    simp [Selector.isTagStart, hc]
  -- the first condition begins with a mark, so the name ends before it
  have hends : ∀ q ∈ (tag.attributes.flatMap LiteralAttribute.condition).head?,
      Selector.isTagChar q = false := by
    intro q hq
    rcases LiteralAttribute.head?_conditions _ q hq with rfl | rfl
    all_goals rfl
  have hne : tag.name ≠ [] := hname ▸ List.cons_ne_nil c more
  rw [selector, Selector.readStep_tag hstart hne hchars hends,
    LiteralAttribute.readConditions_conditions hclear htag.names, compound]
  rfl

/-- The selector of a tag is read as its name and the conditions of its attributes. -/
theorem read_selector (htag : tag.Legible) (hclear : ∀ a ∈ tag.attributes, a.Clear) :
    Selector.read tag.selector = .ok ⟨tag.compound, []⟩ := by
  apply Selector.read_of_solid (solid_selector htag hclear)
  · obtain ⟨c, more, hname, -⟩ := htag.name
    simp [selector, hname]
  · exact readStep_selector htag hclear

/-! ### Agreement -/

theorem nodup_names (htag : tag.Legible) :
    ((tag.attributes.map LiteralAttribute.pair).map (·.1)).Nodup := by
  rw [List.map_map]
  exact htag.different

/-- In markup the element has the value of each attribute but the class. -/
theorem rawAttribute_element (htag : tag.Legible) (ha : a ∈ tag.attributes)
    (hother : lower a.name ≠ Element.className) :
    tag.element.rawAttribute (lower a.name) = some a.pair.2 := by
  rw [element, Element.rawAttribute_ofAttributes hother]
  exact lookup_of_mem (nodup_names htag) (List.mem_map_of_mem ha)

theorem mem_classes_element (htag : tag.Legible) (ha : a ∈ tag.attributes)
    (hclass : lower a.name = Element.className) {word : Text} :
    word ∈ tag.element.classes ↔ word ∈ words a.pair.2 := by
  have hhere : (Element.className, a.pair.2) ∈ tag.attributes.map LiteralAttribute.pair := by
    rw [← hclass]
    exact List.mem_map_of_mem ha
  rw [element, Element.mem_classes_ofAttributes]
  constructor
  · rintro ⟨value, hpair, hword⟩
    have hvalue := lookup_of_mem (nodup_names htag) hpair
    rwa [Option.some.inj ((lookup_of_mem (nodup_names htag) hhere).symm.trans hvalue)]
  · intro hword
    exact ⟨a.pair.2, hhere, hword⟩

/-- What the attribute asks of an element is what its classes and conditions ask. -/
theorem agrees_iff (htag : tag.Legible) (ha : a ∈ tag.attributes) (m : Element) :
    a.Agrees tag.element m ↔
      (∀ word ∈ a.classes, word ∈ m.classes) ∧ ∀ condition ∈ a.conditions, condition.Holds m := by
  unfold LiteralAttribute.Agrees LiteralAttribute.classes LiteralAttribute.conditions
  cases hvalue : a.value.text? with
  | none => simp [AttributeCondition.Holds]
  | some value =>
      have hpair : a.pair.2 = value := by simp [LiteralAttribute.pair, hvalue]
      dsimp only
      split
      next hclass => simp [mem_classes_element htag ha hclass, hpair]
      next hother => simp [AttributeCondition.Holds, rawAttribute_element htag ha hother, hpair]

/-- The element of the tag agrees with itself; a class without a value is the word that names it. -/
theorem agrees_element (htag : tag.Legible) (ha : a ∈ tag.attributes) :
    a.Agrees tag.element tag.element := by
  unfold LiteralAttribute.Agrees
  split
  next hvalue =>
    have hpair : a.pair.2 = lower a.name := by simp [LiteralAttribute.pair, hvalue]
    unfold Element.hasAttribute
    by_cases hclass : lower a.name = Element.className
    · have hword : Element.className ∈ tag.element.classes := by
        rw [mem_classes_element htag ha hclass, hpair, hclass]
        decide
      have hne := List.ne_nil_of_mem hword
      simp [hclass, Element.rawAttribute, hne]
    · rw [rawAttribute_element htag ha hclass]
      rfl
  next =>
    split
    next => exact fun word hword => hword
    next => rfl

theorem finds_iff (htag : tag.Legible) (m : Element) :
    Selector.Finds ⟨tag.compound, []⟩ m ↔
      m.tag = tag.element.tag ∧ ∀ a ∈ tag.attributes, a.Agrees tag.element m := by
  have hagrees : (∀ a ∈ tag.attributes, a.Agrees tag.element m) ↔
      (∀ word ∈ tag.attributes.flatMap LiteralAttribute.classes, word ∈ m.classes) ∧
        ∀ condition ∈ tag.attributes.flatMap LiteralAttribute.conditions, condition.Holds m := by
    simp only [List.mem_flatMap]
    constructor
    · intro hagrees
      constructor
      · rintro word ⟨a, ha, hword⟩
        exact ((agrees_iff htag ha m).mp (hagrees a ha)).1 word hword
      · rintro condition ⟨a, ha, hcondition⟩
        exact ((agrees_iff htag ha m).mp (hagrees a ha)).2 condition hcondition
    · rintro ⟨hclasses, hconditions⟩ a ha
      exact (agrees_iff htag ha m).mpr ⟨fun word hword => hclasses word ⟨a, ha, hword⟩,
        fun condition hcondition => hconditions condition ⟨a, ha, hcondition⟩⟩
  have htagged : tag.element.tag = lower tag.name := rfl
  rw [hagrees, htagged]
  simp [Selector.Finds, Compound.Matches, compound]

/-- A tag with clear literal attributes means the same in a template as in markup: as a template it finds
the element that it begins in markup, and just the elements with the same tag that agree with that one in
every attribute of the tag. -/
theorem finds_iff_agrees (htag : tag.Legible) (hclear : ∀ a ∈ tag.attributes, a.Clear) {t : Template}
    (hcompile : Template.compile tag.write = .ok t) :
    let doc := Markup.parse [] tag.document
    doc.isError = false ∧
    ∃ selector, Selector.read t.slot.selector = .ok selector ∧
      selector.Finds doc.root.element ∧
      ∀ m : Element, selector.Finds m ↔
        m.tag = doc.root.element.tag ∧ ∀ a ∈ tag.attributes, a.Agrees doc.root.element m := by
  intro doc
  have hdoc : doc = .ofTree ⟨tag.element, .nil⟩ := parse_document htag
  have hroot : doc.root.element = tag.element := by
    rw [hdoc]
    rfl
  have herror : doc.isError = false := by
    rw [hdoc]
    rfl
  obtain rfl := eq_of_compile htag (fun a ha => (hclear a ha).shared) hcompile
  rw [hroot]
  refine ⟨herror, _, read_selector htag hclear, ?_, finds_iff htag⟩
  exact (finds_iff htag tag.element).mpr ⟨rfl, fun a ha => agrees_element htag ha⟩

/-- Classes may be in any order and among others, and a name is looked up in lower case. -/
theorem finds_iff_agrees_item :
    let source := "<Li CLASS=\"a b\" data-k=x/y checked>".toList
    let n := (Markup.parse [] source).root.element
    ∃ t selector, Template.compile source = .ok t ∧ Selector.read t.slot.selector = .ok selector ∧
      selector.Finds n ∧
      ∀ m : Element, selector.Finds m ↔
        m.tag = n.tag ∧ (∀ word ∈ n.classes, word ∈ m.classes) ∧
          m.rawAttribute "data-k".toList = n.rawAttribute "data-k".toList ∧
          m.hasAttribute "checked".toList = true := by
  intro source n
  let tag : LiteralTag :=
    ⟨"Li".toList, [⟨[' '], "CLASS".toList, .quoted '"' "a b".toList⟩,
      ⟨[' '], "data-k".toList, .plain "x/y".toList⟩, ⟨[' '], "checked".toList, .bare⟩], [], false⟩
  have htag : tag.Legible := {
    name := ⟨'L', ['i'], rfl, rfl, List.forall_mem_singleton.mpr rfl⟩
    first := by simp [tag]
    gaps := by simp [tag, isBlank]
    trailing := by simp [tag]
    names := by simp [tag, Markup.isAttributeChar, isBlank]
    different := by decide +kernel
    values := by decide +kernel
    separate := by decide +kernel }
  have hwords : words "a b".toList = ["a".toList, "b".toList] := by decide +kernel
  have hlower : lower "CLASS".toList = Element.className ∧ lower "data-k".toList = "data-k".toList ∧
      lower "checked".toList = "checked".toList := by decide +kernel
  have hclear : ∀ a ∈ tag.attributes, a.Clear := by
    simp only [tag, List.forall_mem_cons]
    refine ⟨⟨by decide, rfl, ?_, fun hother => absurd hlower.1 hother⟩,
      ⟨by decide, trivial, ?_, ?_⟩, ⟨by decide, trivial, ?_, ?_⟩, by simp⟩
    · intro _ value hvalue word hword
      obtain rfl := Option.some.inj hvalue
      rw [hwords] at hword
      fin_cases hword
      all_goals simp
    · rw [hlower.2.1]
      exact fun hclass => absurd hclass (by decide)
    · intro _ value hvalue
      obtain rfl := Option.some.inj hvalue
      decide
    all_goals simp [LiteralValue.text?]
  have hcompile : Template.compile tag.write =
      .ok ⟨⟨"Li.a.b[data-k=\"x/y\"][checked]".toList, false, false, [], []⟩, .done⟩ := by decide +kernel
  have hsource : tag.document = source := by decide +kernel
  obtain ⟨-, selector, hread, hself, hfinds⟩ := finds_iff_agrees htag hclear hcompile
  rw [hsource] at hself hfinds
  refine ⟨_, selector, hcompile, hread, hself, fun m => (hfinds m).trans ?_⟩
  have hother : "data-k".toList ≠ Element.className := by decide
  simp only [tag, List.forall_mem_cons, LiteralAttribute.Agrees, LiteralValue.text?, hlower, if_true,
    if_neg hother, List.not_mem_nil, false_implies, implies_true, and_true]
  rfl

/-- A start tag that a template accepts and that does not find its own element. -/
def MissesItself (source : Text) : Prop :=
  ∃ t selector, Template.compile source = .ok t ∧ Selector.read t.slot.selector = .ok selector ∧
    ¬ selector.Finds (Markup.parse [] source).root.element

/-- A class with a mark in it, a value in single quotes, a name that closes a bracket, and a value with
double quotes inside. -/
theorem not_finds_marks :
    MissesItself "<p class=\"a.b\">".toList ∧ MissesItself "<p a='x'>".toList ∧
      MissesItself "<p x][y>".toList ∧ MissesItself "<p a=x\"][b=\"y>".toList := by
  have hshow : ∀ (source written : Text) (compound : Compound),
      Template.compile source = .ok ⟨⟨written, false, false, [], []⟩, .done⟩ →
      Selector.read written = .ok ⟨compound, []⟩ →
      ¬ compound.Matches (Markup.parse [] source).root.element → MissesItself source :=
    fun source written compound hcompile hread hmatches =>
      ⟨_, _, hcompile, hread, fun hfinds => hmatches hfinds.2⟩
  refine ⟨?_, ?_, ?_, ?_⟩
  · exact hshow _ "p.a.b".toList ⟨some "p".toList, none, ["a".toList, "b".toList], []⟩
      (by decide +kernel) (by decide +kernel) (by decide +kernel)
  · exact hshow _ "p[a=\"'x'\"]".toList ⟨some "p".toList, none, [], [⟨"a".toList, some "'x'".toList⟩]⟩
      (by decide +kernel) (by decide +kernel) (by decide +kernel)
  · exact hshow _ "p[x][y]".toList
      ⟨some "p".toList, none, [], [⟨"x".toList, none⟩, ⟨"y".toList, none⟩]⟩
      (by decide +kernel) (by decide +kernel) (by decide +kernel)
  · exact hshow _ "p[a=\"x\"][b=\"y\"]".toList
      ⟨some "p".toList, none, [], [⟨"a".toList, some "x".toList⟩, ⟨"b".toList, some "y".toList⟩]⟩
      (by decide +kernel) (by decide +kernel) (by decide +kernel)

end LiteralTag
end Gleaner
