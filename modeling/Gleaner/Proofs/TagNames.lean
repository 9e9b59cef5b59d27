import Gleaner.Proofs.Selection
import Gleaner.Proofs.TagPlaces
import Gleaner.Proofs.WrittenSelectors

/-! # Tags as selectors

Markup takes the names of its tags where case is ignored, which lets in four letters beyond ASCII that
fold to one of its letters; selectors spell out both cases and let in none. Lower-casing makes an ASCII
letter of one of the four, and of another one a letter with a mark behind it. A tag with what is left of
the others is no selector; every other tag of a document is one, and finds the elements that have it.
-/

namespace Gleaner

open Text

namespace Markup

variable {c d : Char} {before name tag : Text}

/-! ### The characters of tags -/

/-- What beyond ASCII there may be in a tag that is in lower case. -/
def foreignChars : List Char := ['ı', 'ſ', '\u0307']

theorem ascii_or_mem_of_isTagChar (hc : isTagChar c = true) :
    c.toNat < 128 ∨ c ∈ ['\u212a', '\u0130', '\u0131', '\u017f'] := by
  rw [or_iff_not_imp_right]
  intro hnot
  simp only [List.mem_cons, List.not_mem_nil, or_false, not_or] at hnot
  obtain ⟨hkelvin, hdotted, hdotless, hlong⟩ := hnot
  simp only [isTagChar, isTagStart, caseKey, hkelvin, hdotted, hdotless, hlong, or_self, if_false,
    Bool.or_eq_true, beq_iff_eq] at hc
  rcases hc with (((hlower | hdigit) | rfl) | rfl) | rfl
  · by_contra hlarge
    have hkept : c.toLower = c := by
      unfold Char.toLower
      rw [dif_neg]
      rintro ⟨-, hupper⟩
      exact hlarge (lt_of_le_of_lt (UInt32.le_iff_toNat_le.mp hupper) (by decide))
    rw [hkept] at hlower
    exact hlarge (toNat_lt_of_isAlphanum (by simp [Char.isAlphanum, Char.isAlpha, hlower]))
  · exact toNat_lt_of_isAlphanum (by simp [Char.isAlphanum, hdigit])
  all_goals decide

/-- What a character of a tag becomes in lower case. -/
def tagForm (c : Char) : List Char := if c = 'İ' then ['i', '\u0307'] else [lowerChar c]

/-- A selector spells what a character of a tag becomes in lower case, or it is one of the foreign ones. -/
theorem tagForm_facts (hc : isTagChar c = true) :
    c ≠ 'Σ' ∧ (tagForm c).all (fun d => Selector.isTagChar d || foreignChars.contains d) = true ∧
      (isTagStart c = true →
        (tagForm c).head?.all (fun d => Selector.isTagStart d || foreignChars.contains d) = true) := by
  rcases ascii_or_mem_of_isTagChar hc with hascii | hmem
  · exact forall_ascii (P := fun c => isTagChar c = true → c ≠ 'Σ' ∧
        (tagForm c).all (fun d => Selector.isTagChar d || foreignChars.contains d) = true ∧
        (isTagStart c = true →
          (tagForm c).head?.all (fun d => Selector.isTagStart d || foreignChars.contains d) = true))
      (by decide +kernel) hascii hc
  · fin_cases hmem
    all_goals decide +kernel

theorem lowerAfter_of_isTagChar (hname : ∀ c ∈ name, isTagChar c = true) :
    lowerAfter before name = name.flatMap tagForm := by
  induction name generalizing before with
  | nil => rfl
  | cons c name ih =>
      obtain ⟨hc, hname⟩ := List.forall_mem_cons.mp hname
      rw [lowerAfter, if_neg (tagForm_facts hc).1, ih hname]
      rfl

/-- A tag that a selector spells, but for foreign characters. -/
structure Spellable (tag : Text) : Prop where
  ne_nil : tag ≠ []
  start : ∀ c ∈ tag.head?, Selector.isTagStart c = true ∨ c ∈ foreignChars
  chars : ∀ c ∈ tag, Selector.isTagChar c = true ∨ c ∈ foreignChars
  lower_eq : lower tag = tag

theorem spellable_lower (hc : isTagStart c = true) (hname : ∀ d ∈ name, isTagChar d = true) :
    Spellable (lower (c :: name)) := by
  have hstart : isTagChar c = true := by simp [isTagChar, hc]
  have hall : ∀ d ∈ c :: name, isTagChar d = true := List.forall_mem_cons.mpr ⟨hstart, hname⟩
  refine ⟨lower_ne_nil (List.cons_ne_nil _ _), ?_, ?_, lower_lower _⟩
  · have hfirst : (lower (c :: name)).head? = (tagForm c).head? := by
      rw [lower, lowerAfter_of_isTagChar hall, List.flatMap_cons]
      unfold tagForm
      split
      all_goals rfl
    rw [hfirst]
    intro d hd
    have hstarts := (tagForm_facts hstart).2.2 hc
    rw [Option.mem_def.mp hd] at hstarts
    simpa using hstarts
  · rw [lower, lowerAfter_of_isTagChar hall]
    intro d hd
    obtain ⟨e, he, hd⟩ := List.mem_flatMap.mp hd
    simpa using List.all_eq_true.mp (tagForm_facts (hall e he)).2.1 d hd

theorem ReadTag.StandsIn.spellable {whole : Text} {tag : ReadTag} (htag : tag.StandsIn whole) :
    Spellable tag.name := by
  cases htag with
  | @intro name inside body hplace hfirst hname hend hinside =>
      cases name with
      | nil => cases hfirst
      | cons c more => exact spellable_lower (by simpa using hfirst) (List.forall_mem_cons.mp hname).2

theorem Begins.spellable {whole : Text} {e : Element} (he : Begins whole e) : Spellable e.tag := by
  obtain ⟨tag, htag, rfl⟩ := he
  exact htag.spellable

end Markup

/-! ### Reading a tag as a selector -/

namespace Selector

variable {c : Char} {tag : Text}

theorem foreign_facts (hc : c ∈ Markup.foreignChars) :
    0x80 ≤ c.toNat ∧ isBlank c = false ∧ c ≠ '[' ∧ isTagStart c = false ∧ isTagChar c = false := by
  fin_cases hc
  all_goals decide +kernel

theorem readConditions_foreign (hc : c ∈ Markup.foreignChars) (known : Compound) (rest : Text) :
    readConditions known (c :: rest) = .error (.unexpected c) := by
  fin_cases hc
  all_goals
    rw [readConditions]
    rfl

/-- A tag stays one step, whether it is a selector or not. -/
theorem solid_spellable (htag : Markup.Spellable tag) : Solid tag := by
  refine solid_of_forall fun c hc => ?_
  rcases htag.chars c hc with hchar | hforeign
  · refine ⟨(Markup.nameFacts hchar).notBlank, ?_⟩
    rintro rfl
    cases hchar
  · exact ⟨(foreign_facts hforeign).2.1, (foreign_facts hforeign).2.2.1⟩

/-- A tag of ASCII is the selector of its elements. -/
theorem read_tag (htag : Markup.Spellable tag) (hascii : ∀ c ∈ tag, c.toNat < 0x80) :
    read tag = .ok ⟨.ofTag (some tag), []⟩ := by
  have hchars : ∀ c ∈ tag, isTagChar c = true := by
    intro c hc
    refine (htag.chars c hc).resolve_right fun hforeign => ?_
    exact absurd (hascii c hc) (Nat.not_lt.mpr (foreign_facts hforeign).1)
  have hstart : ∀ c ∈ tag.head?, isTagStart c = true := by
    intro c hc
    refine (htag.start c hc).resolve_right fun hforeign => ?_
    have hplace := hascii c (List.mem_of_mem_head? hc)
    exact absurd hplace (Nat.not_lt.mpr (foreign_facts hforeign).1)
  refine read_of_solid (solid_spellable htag) htag.ne_nil ?_
  have hstep : readStep (tag ++ []) = _ := readStep_tag hstart htag.ne_nil hchars nofun
  rw [List.append_nil, htag.lower_eq, readConditions] at hstep
  exact hstep

/-- A tag with a foreign character is refused at the first of them. -/
theorem read_tag_foreign {front rest : Text} (htag : Markup.Spellable (front ++ c :: rest))
    (hfront : ∀ d ∈ front, d.toNat < 0x80) (hc : c ∈ Markup.foreignChars) :
    read (front ++ c :: rest) = .error ⟨.unexpected c, front ++ c :: rest⟩ := by
  obtain ⟨-, -, -, hstart, hchar⟩ := foreign_facts hc
  have hplain : ∀ d ∈ front, d ∉ Markup.foreignChars := fun d hd hforeign =>
    absurd (hfront d hd) (Nat.not_lt.mpr (foreign_facts hforeign).1)
  refine read_of_solid_error (solid_spellable htag) htag.ne_nil ?_
  cases front with
  | nil =>
      have hstar : c ≠ '*' := by
        rintro rfl
        exact absurd hc (by decide)
      unfold readStep
      split
      next heq => exact absurd (List.cons.inj heq).1 hstar
      next heq =>
        obtain ⟨rfl, rfl⟩ := List.cons.inj heq
        rw [hstart]
        exact readConditions_foreign hc _ _
      next heq => cases heq
  | cons d more =>
      have hd := (htag.start d rfl).resolve_right (hplain d List.mem_cons_self)
      have hchars : ∀ e ∈ d :: more, isTagChar e = true := fun e he =>
        (htag.chars e (List.mem_append_left _ he)).resolve_right (hplain e he)
      rw [readStep_tag _ (List.cons_ne_nil d more) hchars _]
      · exact readConditions_foreign hc _ _
      · intro e he
        obtain rfl := Option.some.inj he
        exact hd
      · intro e he
        obtain rfl := Option.some.inj he
        exact hchar

end Selector

/-! ### Selecting by tag -/

/-- Without further compounds and limits a search finds what meets the compound, wherever it stands. -/
theorem Forest.collect_compound (compound : Compound) (f : Forest Place) :
    f.collect ⟨compound, []⟩ none = f.subtrees.filter fun n => compound.Matches n.element := by
  induction f with
  | nil => rfl
  | cons top below after ihbelow ihafter =>
      have hadvance : Selector.advance ⟨compound, []⟩ top.toElement = ⟨compound, []⟩ := rfl
      have hfinds : Selector.Finds ⟨compound, []⟩ top.toElement ↔ compound.Matches top.toElement :=
        and_iff_right rfl
      have hunlimited : (none : Option Nat) ≠ some 0 := nofun
      rw [collect, hadvance, Option.map_none, ihbelow, ihafter, if_neg hunlimited, subtrees,
        List.filter_cons, List.filter_append]
      by_cases hmatches : compound.Matches top.toElement
      · have hhere : decide (compound.Matches (Tree.element ⟨top, below⟩)) = true := decide_eq_true hmatches
        rw [if_pos (hfinds.mpr hmatches), if_pos hhere]
        rfl
      · have hhere : ¬ decide (compound.Matches (Tree.element ⟨top, below⟩)) = true :=
          fun hholds => hmatches (of_decide_eq_true hholds)
        rw [if_neg (hfinds.not.mpr hmatches), if_neg hhere]
        rfl

theorem Compound.matches_ofTag (tag : Text) (e : Element) : (ofTag (some tag)).Matches e ↔ e.tag = tag := by
  simp [Matches, ofTag]

namespace Document

variable {doc : Document} {tag : Text}

theorem selectAll_of_read (htree : doc.isError = false)
    (hread : Selector.read tag = .ok ⟨.ofTag (some tag), []⟩) :
    doc.selectAll doc.root tag true none = .ok (doc.root.subtrees.filter (·.element.tag = tag)) := by
  rw [selectAll, htree, hread, if_neg Bool.false_ne_true, Except.map, Tree.find, Forest.collect_compound,
    Tree.subtrees_toForest]
  simp only [Bool.true_or, List.filter_true, Compound.matches_ofTag]

/-- Every element of a tree that was read is selected by its own tag, together with all others that have it,
if the tag is of ASCII. Otherwise it has a dotless i, a long s or the dot of a dotted capital I in it, and the
first of these is complained about. -/
theorem selectAll_own_tag (skip : List Text) (s : Text) (n : Node)
    (htree : (Markup.parse skip s).isError = false)
    (hn : n ∈ (Markup.parse skip s).root.subtrees) (hfragment : n.element.tag ≠ Markup.fragmentTag) :
    let doc := Markup.parse skip s
    let tag := n.element.tag
    match tag.find? (0x80 ≤ ·.toNat) with
    | none => doc.selectAll doc.root tag true none = .ok (doc.root.subtrees.filter (·.element.tag = tag))
    | some c =>
      c ∈ Markup.foreignChars ∧ doc.selectAll doc.root tag true none = .error ⟨.unexpected c, tag⟩ := by
  intro doc tag
  have htag : Markup.Spellable tag := (begins_of_mem htree hn hfragment).spellable
  split
  next hnone =>
    refine selectAll_of_read htree (Selector.read_tag htag fun c hc => ?_)
    have hplace := List.find?_eq_none.mp hnone c hc
    rwa [decide_eq_true_eq, Nat.not_le] at hplace
  next c hsome =>
    obtain ⟨hplace, front, rest, hshape, hfront⟩ := List.find?_eq_some_iff_append.mp hsome
    rw [decide_eq_true_eq] at hplace
    have hc : c ∈ Markup.foreignChars := by
      refine (htag.chars c (hshape ▸ List.mem_append_right _ List.mem_cons_self)).resolve_left fun hchar => ?_
      exact absurd (Markup.toNat_lt_of_isNameChar hchar) (Nat.not_lt.mpr hplace)
    have hread : Selector.read tag = .error ⟨.unexpected c, tag⟩ := by
      rw [hshape] at htag ⊢
      exact Selector.read_tag_foreign htag (by simpa using hfront) hc
    refine ⟨hc, ?_⟩
    rw [selectAll, if_neg (by simp [doc, htree]), hread]
    rfl

/-- The Kelvin sign is taken as the letter k, also by the selector. -/
theorem selectAll_own_tag_kelvin :
    let doc := Markup.parse [] "<\u212a><b></b></\u212a>".toList
    doc.root.element.tag = "k".toList ∧
      doc.selectAll doc.root doc.root.element.tag true none =
        .ok (doc.root.subtrees.filter (·.element.tag = doc.root.element.tag)) := by
  have hascii : (Markup.parse [] "<\u212a><b></b></\u212a>".toList).root.element.tag.find?
      (0x80 ≤ ·.toNat) = none := by decide +kernel
  have hselect := selectAll_own_tag [] "<\u212a><b></b></\u212a>".toList _ (by decide +kernel)
    (Tree.mem_subtrees.mpr (.inl rfl)) (by decide +kernel)
  dsimp only at hselect
  rw [hascii] at hselect
  exact ⟨by decide +kernel, hselect⟩

/-- The dotless i is taken where case is ignored and stays what it is in lower case: the element with this
tag is not selected by it. -/
theorem not_selectAll_dotless :
    let doc := Markup.parse [] "<ı></ı>".toList
    doc.isError = false ∧ doc.root.element.tag = "ı".toList ∧
      doc.selectAll doc.root doc.root.element.tag true none = .error ⟨.unexpected 'ı', "ı".toList⟩ := by
  decide +kernel

end Document
end Gleaner
