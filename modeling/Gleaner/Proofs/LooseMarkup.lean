import Gleaner.Proofs.RoundTrip

/-! # Missing and stray closing tags

Closing tags are often left out in markup that people write, and some are left over. An element that is
not closed itself is closed with the one around it, so the last element in another may go without its
closing tag; the end of the text closes the rest. A closing tag that names no element around it closes
nothing. The main statement is that a text with such faults is read as the text without them.

The two readings are compared where they stand at the same place of the tree. The one of the faulty text
may still have elements open that the other has closed. They stand innermost, and none of them has the
tag of the next element that will be closed by a tag of its own.
-/

namespace Gleaner.Markup

open Text

/-! ## Builders with elements left open -/

namespace Builder

variable {b b' b₀ : Builder} {element : Element} {content : Content} {outer : List (Element × Content)}
  {kept : Option Text} {tag rest : Text}

/-- The tags of the open elements, the innermost first. -/
def around (b : Builder) : List Text := b.opened.map (·.1.tag)

/-- The element of a start tag is opened. -/
def enter (start : StartTag) (b : Builder) : Builder := b.place (.enter start.tag start.readPairs)

/-- The same elements are open and hold the same. The notes on stray tags do not count. -/
structure Alike (b b' : Builder) : Prop where
  opened : b.opened = b'.opened
  top : b.top = b'.top

namespace Alike

theorem refl (b : Builder) : b.Alike b := ⟨rfl, rfl⟩

theorem trans (hfirst : b.Alike b') (hsecond : b'.Alike b₀) : b.Alike b₀ :=
  ⟨hfirst.opened.trans hsecond.opened, hfirst.top.trans hsecond.top⟩

theorem around_eq (halike : b.Alike b') : b.around = b'.around := by
  rw [around, halike.opened, around]

theorem extend (halike : b.Alike b') (more : Content) : (b.extend more).Alike (b'.extend more) := by
  obtain ⟨opened, top, strays⟩ := b
  obtain ⟨hopened, htop⟩ := halike
  unfold Builder.extend modifyContent
  rw [← hopened, ← htop]
  cases opened with
  | nil => exact ⟨rfl, rfl⟩
  | cons inner outer => exact ⟨rfl, rfl⟩

theorem enter (halike : b.Alike b') (start : StartTag) : (b.enter start).Alike (b'.enter start) :=
  ⟨congrArg (_ :: ·) halike.opened, halike.top⟩

theorem close (halike : b.Alike b') : b.close.Alike b'.close := by
  unfold Builder.close
  rw [← halike.opened]
  split
  next => exact halike
  next element content outer _ =>
    have houter : Alike { b with opened := outer } { b' with opened := outer } := ⟨rfl, halike.top⟩
    rw [addElement_eq_extend, addElement_eq_extend]
    exact houter.extend _

theorem closeMany (count : Nat) (halike : b.Alike b') :
    (b.closeMany count).Alike (b'.closeMany count) := by
  induction count generalizing b b' with
  | zero => exact halike
  | succ count ih => exact ih halike.close

theorem finish_eq (halike : b.Alike b') : b.finish = b'.finish := by
  rw [finish, halike.opened]
  exact (halike.closeMany _).top

end Alike

theorem around_extend (more : Content) (b : Builder) : (b.extend more).around = b.around := by
  obtain ⟨opened, top, strays⟩ := b
  cases opened with
  | nil => rfl
  | cons inner outer => rfl

theorem around_addText (run : Text) (b : Builder) : (b.addText run).around = b.around := by
  rw [addText_eq_extend, around_extend]

theorem around_close (hopened : b.opened = (element, content) :: outer) :
    b.close.around = outer.map (·.1.tag) := by
  unfold close
  rw [hopened]
  dsimp only
  rw [addElement_eq_extend]
  exact around_extend _ _

theorem finish_close (hopened : b.opened = (element, content) :: outer) : b.close.finish = b.finish := by
  have hlength : b.close.opened.length = outer.length := by
    simpa [around] using congrArg List.length (around_close hopened)
  rw [finish, hlength, finish, hopened]
  rfl

theorem opened_extend_enter (start : StartTag) (content : Content) (b : Builder) :
    ((b.enter start).extend content).opened = (start.element, Content.empty.extend content) :: b.opened :=
  rfl

/-- Closing an element just opened adds it with what it holds. -/
theorem close_extend_enter (start : StartTag) (content : Content) (b : Builder) :
    ((b.enter start).extend content).close = b.addElement start.element content := by
  unfold close
  rw [opened_extend_enter]
  rfl

theorem leave_of_eq (hopened : b.opened = (element, content) :: outer) (htag : element.tag = tag) :
    b.leave tag rest = b.close := by
  unfold leave
  rw [hopened, List.findIdx?_cons, beq_iff_eq.mpr htag]
  rfl

/-- A closing tag for an element further out closes the innermost one on the way. -/
theorem leave_of_ne (hopened : b.opened = (element, content) :: outer) (htag : element.tag ≠ tag)
    (houter : tag ∈ b.close.around) : b.leave tag rest = b.close.leave tag rest := by
  have hfind : ∀ opened : List (Element × Content),
      opened.findIdx? (·.1.tag == tag) = (opened.map (·.1.tag)).findIdx? (· == tag) := by
    intro opened
    rw [List.findIdx?_map]
    rfl
  have hclosed : b.close.opened.findIdx? (·.1.tag == tag) = outer.findIdx? (·.1.tag == tag) := by
    rw [hfind, hfind, ← around_close hopened]
    rfl
  unfold leave
  rw [hclosed, hopened, List.findIdx?_cons, beq_false_of_ne htag]
  cases hinner : outer.findIdx? (·.1.tag == tag) with
  | some inner => rfl
  | none =>
      rw [around_close hopened] at houter
      obtain ⟨pair, hpair, hpairTag⟩ := List.mem_map.mp houter
      have hother := List.findIdx?_eq_none_iff.mp hinner pair hpair
      rw [beq_iff_eq.mpr hpairTag] at hother
      cases hother

theorem leave_of_notMem (htag : tag ∉ b.around) : (b.leave tag rest).Alike b := by
  have hnone : b.opened.findIdx? (·.1.tag == tag) = none := by
    rw [List.findIdx?_eq_none_iff]
    intro pair hpair
    apply beq_false_of_ne
    exact fun hpairTag => htag (List.mem_map.mpr ⟨pair, hpair, hpairTag⟩)
  unfold leave
  rw [hnone]
  exact ⟨rfl, rfl⟩

/-- Closing the innermost elements of one builder, as many as needed, leads to the other. None of these
elements has the tag `kept`. -/
inductive Unclosed (kept : Option Text) (b₀ : Builder) : Builder → Prop where
  | alike {b : Builder} (halike : b.Alike b₀) : Unclosed kept b₀ b
  | close {b : Builder} {inner : Element} {held : Content} {others : List (Element × Content)}
      (hopened : b.opened = (inner, held) :: others) (hkept : some inner.tag ≠ kept)
      (hclosed : Unclosed kept b₀ b.close) : Unclosed kept b₀ b

namespace Unclosed

/-- An element that the other builder has closed may be left open in turn. -/
theorem of_close (hopened : b₀.opened = (element, content) :: outer) (hkept : some element.tag ≠ kept)
    (hunclosed : Unclosed kept b₀ b) : Unclosed kept b₀.close b := by
  induction hunclosed with
  | alike halike => exact .close (halike.opened.trans hopened) hkept (.alike halike.close)
  | close hinner hother _ ih => exact .close hinner hother ih

theorem finish_eq (hunclosed : Unclosed kept b₀ b) : b.finish = b₀.finish := by
  induction hunclosed with
  | alike halike => exact halike.finish_eq
  | close hopened _ _ ih => rw [← ih, finish_close hopened]

theorem mem_around (hunclosed : Unclosed kept b₀ b) (htag : tag ∈ b₀.around) : tag ∈ b.around := by
  induction hunclosed with
  | alike halike => rwa [halike.around_eq]
  | close hopened _ _ ih =>
      rw [around_close hopened] at ih
      rw [around, hopened]
      exact List.mem_cons_of_mem _ ih

/-- The closing tag of the element that is kept closes what was left open in it as well. -/
theorem leave (hopened : b₀.opened = (element, content) :: outer)
    (hunclosed : Unclosed (some element.tag) b₀ b) : (b.leave element.tag rest).Alike b₀.close := by
  induction hunclosed with
  | alike halike =>
      rw [leave_of_eq (halike.opened.trans hopened) rfl]
      exact halike.close
  | close hinner hother hclosed ih =>
      have htag : element.tag ∈ b₀.around := by
        rw [around, hopened]
        exact List.mem_cons_self
      rwa [leave_of_ne hinner (fun heq => hother (congrArg some heq)) (hclosed.mem_around htag)]

end Unclosed
end Builder

/-! ## Loose markup -/

variable {skip around : List Text} {kept : Option Text} {rest : Text}

/-- What stands in an element, with closing tags that may be missing or stray. -/
inductive Loose where
  | nil
  | text (run : Text) (after : Loose)
  /-- A closing tag that belongs to nothing, with what stands in it behind the slash. -/
  | stray (inside : Text) (after : Loose)
  /-- An element, with or without its closing tag. -/
  | element (start : StartTag) (closed : Bool) (below after : Loose)
deriving DecidableEq

/-- The name in a closing tag. -/
def closingTag (inside : Text) : Text := lower (inside.takeWhile isTagChar)

/-- What stands in a closing tag: a letter first, and no bracket that ends the tag. -/
structure IsClosing (inside : Text) : Prop where
  begins : inside.head?.any isTagStart = true
  ends : '>' ∉ inside

/-- A start tag whose element stays open: neither skipped nor void nor of raw text. -/
structure StartTag.Opens (skip : List Text) (start : StartTag) : Prop where
  legible : start.Legible
  notSkipped : start.tag ∉ skip
  notVoid : start.tag ∉ voidTags
  notRaw : start.tag ∉ rawTextTags

namespace Loose

def write : Loose → Text
  | nil => []
  | text run after => run ++ after.write
  | stray inside after => '<' :: '/' :: (inside ++ '>' :: after.write)
  | element start closed below after =>
    start.write ++ (below.write ++ ((if closed then start.writeClosing else []) ++ after.write))

/-- The same with every element closed and no stray tag. -/
def tidy : Loose → Passage StartTag
  | nil => .nil
  | text run after => .text run after.tidy
  | stray _ after => after.tidy
  | element start _ below after => .element start below.tidy after.tidy

/-- The faults that do no harm, where `around` are the tags of the elements around this place and `kept`
is the tag of the innermost of them that is closed by a tag of its own. A stray tag names none of the
elements around it. An element without closing tag is the last in its parent, and its tag differs from
`kept`. -/
def Harmless (skip : List Text) : List Text → Option Text → Loose → Prop
  | _, _, nil => True
  | around, kept, text run after =>
    '<' ∉ run ∧ after.tidy.beginsWithText = false ∧ after.Harmless skip around kept
  | around, kept, stray inside after =>
    IsClosing inside ∧ closingTag inside ∉ around ∧ after.Harmless skip around kept
  | around, kept, element start closed below after =>
    start.Opens skip ∧ (closed = false → after = nil ∧ some start.tag ≠ kept) ∧
      below.Harmless skip (start.tag :: around) (if closed then some start.tag else kept) ∧
      after.Harmless skip around kept

end Loose

theorem inert_of_notMem {t : Text} (ht : '<' ∉ t) : Inert t := by
  intro i _ hbracket
  exact absurd (List.mem_of_getElem? hbracket) ht

theorem IsClosing.beginsMarkup {inside : Text} (hinside : IsClosing inside) (rest : Text) :
    beginsMarkup ('<' :: '/' :: (inside ++ rest)) = true := by
  have hbegins := hinside.begins
  cases inside with
  | nil => cases hbegins
  | cons c more => exact hbegins

theorem IsClosing.readMarkup {inside s : Text} (hinside : IsClosing inside) (rest : Text) :
    readMarkup skip s ('/' :: (inside ++ '>' :: rest)) =
      .ok (some (.leave (closingTag inside) s), rest) := by
  have hends : '>' ∉ inside.dropWhile isTagChar :=
    fun hmem => hinside.ends ((List.dropWhile_sublist _).mem hmem)
  -- the name ends within the tag, at its closing bracket at the latest
  have hbehind : ∀ q ∈ (inside.dropWhile isTagChar ++ '>' :: rest).head?, isTagChar q = false := by
    refine forall_head?_append (forall_head?_dropWhile isTagChar inside) fun q hq => ?_
    obtain rfl := Option.some.inj hq
    rfl
  obtain ⟨hname, htail⟩ := takeWhile_run_append (s := inside.takeWhile isTagChar)
    (List.all_eq_true.mp List.all_takeWhile) hbehind
  rw [← List.append_assoc, List.takeWhile_append_dropWhile] at hname htail
  rw [Markup.readMarkup, hname, htail, cut_of_notMem hends]
  rfl

theorem StartTag.Opens.reach_write {start : StartTag} (hstart : start.Opens skip) (b : Builder)
    (rest : Text) :
    reach skip b (start.write ++ rest) = reach skip (b.enter start) rest :=
  hstart.legible.reach_write
    (hstart.legible.readElement_enter hstart.notSkipped hstart.notVoid hstart.notRaw _ _)

theorem IsClosing.reach_write {inside : Text} (hinside : IsClosing inside) (b : Builder) (rest : Text) :
    reach skip b ('<' :: '/' :: (inside ++ '>' :: rest)) =
      reach skip (b.leave (closingTag inside) ('<' :: '/' :: (inside ++ '>' :: rest))) rest :=
  reach_markup (hinside.beginsMarkup _) (hinside.readMarkup _)

namespace Loose

theorem beginsMarkup_write (l : Loose) (hl : l.Harmless skip around kept)
    (hfront : l.tidy.beginsWithText = false) (hrest : rest = [] ∨ beginsMarkup rest = true) :
    l.write ++ rest = [] ∨ beginsMarkup (l.write ++ rest) = true := by
  cases l with
  | nil => exact hrest
  | text run after => cases hfront
  | stray inside after =>
      right
      simp only [write, List.cons_append, List.append_assoc]
      exact hl.1.beginsMarkup _
  | element start closed below after =>
      right
      simp only [write, StartTag.write, List.cons_append, List.append_assoc]
      exact hl.1.legible.beginsMarkup_write _

/-- Reading loose markup and reading it tidied up lead to the same builder, except that the first may have
elements at its end left open. -/
theorem reach_write (l : Loose) {b b₀ : Builder} (hl : l.Harmless skip around kept)
    (haround : b.around = around) (halike : b.Alike b₀) (hrest : rest = [] ∨ beginsMarkup rest = true) :
    ∃ built, reach skip b (l.write ++ rest) = reach skip built rest ∧
      Builder.Unclosed kept (b₀.extend (l.tidy.content skip)) built := by
  induction l generalizing b b₀ around kept rest with
  | nil =>
      refine ⟨b, rfl, .alike ?_⟩
      have hcontent : (tidy nil).content skip = .empty := rfl
      rwa [hcontent, Builder.extend_empty]
  | text run after ih =>
      obtain ⟨hrun, hfront, hafter⟩ := hl
      have hadded : (b.addText run).Alike (b₀.addText run) := by
        rw [Builder.addText_eq_extend, Builder.addText_eq_extend]
        exact halike.extend _
      obtain ⟨built, hreach, hbuilt⟩ :=
        ih hafter ((Builder.around_addText run b).trans haround) hadded hrest
      refine ⟨built, ?_, ?_⟩
      · rw [write, List.append_assoc, ← hreach]
        exact reach_text (inert_of_notMem hrun) (after.beginsMarkup_write hafter hfront hrest)
      · rw [Builder.addText_eq_extend, Builder.extend_extend] at hbuilt
        exact hbuilt
  | stray inside after ih =>
      obtain ⟨hinside, hname, hafter⟩ := hl
      have hshape : (stray inside after).write ++ rest =
          '<' :: '/' :: (inside ++ '>' :: (after.write ++ rest)) := by
        simp [write]
      -- the tag only leaves a note
      have hleft : (b.leave (closingTag inside) ((stray inside after).write ++ rest)).Alike b :=
        Builder.leave_of_notMem (haround ▸ hname)
      obtain ⟨built, hreach, hbuilt⟩ :=
        ih hafter (hleft.around_eq.trans haround) (hleft.trans halike) hrest
      refine ⟨built, ?_, hbuilt⟩
      rw [← hreach, hshape]
      exact hinside.reach_write b _
  | element start closed below after ihbelow ihafter =>
      obtain ⟨hstart, hclosed, hbelow, hafter⟩ := hl
      have hinside : (b.enter start).around = start.tag :: around := congrArg (_ :: ·) haround
      have hopened := Builder.opened_extend_enter start (below.tidy.content skip) b₀
      -- tidied up, the element is closed before what follows it is read
      have hdone : b₀.extend ((tidy (element start closed below after)).content skip) =
          ((b₀.enter start).extend (below.tidy.content skip)).close.extend
            (after.tidy.content skip) := by
        rw [Builder.close_extend_enter, tidy, Passage.content_kept hstart.notSkipped,
          Builder.addElement_eq_extend, Builder.extend_extend]
        rfl
      rw [hdone]
      cases closed with
      | false =>
          obtain ⟨rfl, hkept⟩ := hclosed rfl
          obtain ⟨built, hreach, hbuilt⟩ := ihbelow hbelow hinside (halike.enter start) hrest
          refine ⟨built, ?_, ?_⟩
          · simpa [write, hstart.reach_write] using hreach
          · have hempty : (tidy nil).content skip = .empty := rfl
            rw [hempty, Builder.extend_empty]
            exact hbuilt.of_close hopened hkept
      | true =>
          have hclosing : beginsMarkup (start.writeClosing ++ (after.write ++ rest)) = true := by
            simp only [StartTag.writeClosing, List.cons_append, List.append_assoc]
            exact hstart.legible.beginsMarkup_writeClosing _
          obtain ⟨inner, hreach, hinner⟩ :=
            ihbelow hbelow hinside (halike.enter start) (.inr hclosing)
          -- the closing tag closes what was left open below as well
          have hleft : (inner.leave start.tag (start.writeClosing ++ (after.write ++ rest))).Alike
              ((b₀.enter start).extend (below.tidy.content skip)).close := hinner.leave hopened
          have houtside : ((b₀.enter start).extend (below.tidy.content skip)).close.around = around := by
            rw [Builder.around_close hopened, ← haround, halike.around_eq]
            rfl
          obtain ⟨built, hlater, hbuilt⟩ :=
            ihafter hafter (hleft.around_eq.trans houtside) hleft hrest
          refine ⟨built, ?_, hbuilt⟩
          calc reach skip b ((element start true below after).write ++ rest)
            _ = reach skip (b.enter start)
                (below.write ++ (start.writeClosing ++ (after.write ++ rest))) := by
              simp [write, hstart.reach_write]
            _ = reach skip inner (start.writeClosing ++ (after.write ++ rest)) := hreach
            _ = reach skip (inner.leave start.tag _) (after.write ++ rest) :=
              hstart.legible.reach_writeClosing _
            _ = reach skip built rest := hlater

/-- Tidied up, loose markup whose faults do no harm is well formed. -/
theorem Harmless.wellFormed {l : Loose} (hl : l.Harmless skip around kept) :
    l.tidy.WellFormed StartTag.tag StartTag.Legible Inert := by
  induction l generalizing around kept with
  | nil => trivial
  | text run after ih => exact ⟨inert_of_notMem hl.1, hl.2.1, ih hl.2.2⟩
  | stray inside after ih => exact ih hl.2.2
  | element start closed below after ihbelow ihafter =>
      obtain ⟨hstart, -, hbelow, hafter⟩ := hl
      exact Passage.wellFormed_enter hstart.legible ⟨hstart.notVoid, hstart.notRaw⟩ (ihbelow hbelow)
        (ihafter hafter)

theorem Harmless.skippable {l : Loose} (hl : l.Harmless skip around kept) : l.tidy.Skippable skip := by
  induction l generalizing around kept with
  | nil => trivial
  | text run after ih => exact ih hl.2.2
  | stray inside after ih => exact ih hl.2.2
  | element start closed below after ihbelow ihafter =>
      obtain ⟨hstart, -, hbelow, hafter⟩ := hl
      refine ⟨?_, ihafter hafter⟩
      rw [if_neg hstart.notSkipped]
      exact ihbelow hbelow

theorem Harmless.content_tidy {l : Loose} (hl : l.Harmless skip around kept) :
    l.tidy.content skip = ⟨l.tidy.runs, l.tidy.elements StartTag.element⟩ := by
  induction l generalizing around kept with
  | nil => rfl
  | text run after ih =>
      rw [tidy, Passage.runs, Passage.elements]
      exact congrArg (Content.extend ⟨_, .nil⟩) (ih hl.2.2)
  | stray inside after ih => exact ih hl.2.2
  | element start closed below after ihbelow ihafter =>
      obtain ⟨hstart, -, hbelow, hafter⟩ := hl
      rw [tidy, Passage.content_kept hstart.notSkipped, ihbelow hbelow, ihafter hafter]
      rfl

/-- Loose markup is read as what it is tidied up. -/
theorem Harmless.parse_tidy {l : Loose} (hl : l.Harmless (skip.map lower) [] none) :
    parse skip l.write = parse skip l.tidy.write := by
  obtain ⟨built, hreach, hbuilt⟩ := reach_write _ hl rfl (.refl .empty) (.inl rfl)
  have htidy := Passage.reach_write (b := .empty) _ hl.wellFormed hl.skippable (.inl rfl)
  rw [List.append_nil, reach_nil] at hreach htidy
  obtain ⟨hloose, hfault⟩ := Prod.mk.inj hreach
  obtain ⟨hplain, hnone⟩ := Prod.mk.inj htidy
  unfold parse read
  simp only
  rw [hfault, hnone]
  unfold Builder.ofTokens
  rw [hloose, hplain, hbuilt.finish_eq]

/-- Tidied up, an element is read as the tree that was written, with nothing left out. -/
theorem Harmless.parse_element {start : StartTag} {closed : Bool} {below : Loose}
    (hl : (element start closed below nil).Harmless (skip.map lower) [] none) :
    parse skip (element start closed below nil).tidy.write =
      .ofTree ⟨{ start.element with text := [' '].intercalate below.tidy.runs },
        below.tidy.elements StartTag.element⟩ := by
  have hkept : (below.tidy.elements StartTag.element).prune (fun e => e.tag ∈ skip.map lower) =
      below.tidy.elements StartTag.element := congrArg Content.elements hl.2.2.1.content_tidy
  rw [tidy, tidy, Passage.parse_write_pruned skip start below.tidy hl.wellFormed hl.1.notSkipped
    hl.2.2.1.skippable, hkept]

/-- An element with closing tags missing, the own one perhaps among them, and with stray ones is read as
the same element with every closing tag in its place and no other. That is the tree that was written. -/
theorem parse_loose (skip : List Text) (start : StartTag) (closed : Bool) (below : Loose)
    (hl : (element start closed below nil).Harmless (skip.map lower) [] none) :
    parse skip (element start closed below nil).write =
        parse skip (element start closed below nil).tidy.write ∧
      parse skip (element start closed below nil).tidy.write =
        .ofTree ⟨{ start.element with text := [' '].intercalate below.tidy.runs },
          below.tidy.elements StartTag.element⟩ :=
  ⟨hl.parse_tidy, hl.parse_element⟩

/-- A list whose own closing tag is missing, as are those of its last item and of the paragraph in it, with
stray tags between a text and an element, between two items, and twice in the last item. -/
theorem parse_loose_list :
    let item : Loose := .text "a > b".toList
      (.stray "p class".toList (.element ⟨"em".toList, []⟩ true .nil .nil))
    let last : Loose := .text "two".toList (.stray "em".toList (.stray "Br/".toList
      (.element ⟨"P".toList, []⟩ false (.text " three ".toList .nil) .nil)))
    let below : Loose := .element ⟨"LI".toList, []⟩ true item
      (.stray "em".toList (.element ⟨"li".toList, []⟩ false last .nil))
    let list : Loose := .element ⟨"ul".toList, []⟩ false below .nil
    list.Harmless (["nav".toList].map lower) [] none ∧
      parse ["nav".toList] list.write = parse ["nav".toList] list.tidy.write ∧
      parse ["nav".toList] list.tidy.write =
        .ofTree ⟨StartTag.element ⟨"ul".toList, []⟩, below.tidy.elements StartTag.element⟩ := by
  intro item last below list
  have hopens : ∀ name ∈ ["em".toList, "P".toList, "LI".toList, "li".toList, "ul".toList],
      StartTag.Opens (["nav".toList].map lower) ⟨name, []⟩ := by
    have hnames : ∀ name ∈ ["em".toList, "P".toList, "LI".toList, "li".toList, "ul".toList],
        (name.head?.any Char.isAlpha = true ∧ name.all isNameChar = true) ∧
          lower name ∉ ["nav".toList].map lower ∧ lower name ∉ voidTags ∧
          lower name ∉ rawTextTags := by decide +kernel
    intro name hname
    obtain ⟨hlegible, hskip, hvoid, hraw⟩ := hnames name hname
    exact ⟨Passage.legible_of_name hlegible, hskip, hvoid, hraw⟩
  have hclosing : ∀ inside ∈ ["p class".toList, "em".toList, "Br/".toList], IsClosing inside := by
    have hinside : ∀ inside ∈ ["p class".toList, "em".toList, "Br/".toList],
        inside.head?.any isTagStart = true ∧ '>' ∉ inside := by decide +kernel
    exact fun inside hmem => ⟨(hinside inside hmem).1, (hinside inside hmem).2⟩
  have hlist : list.Harmless (["nav".toList].map lower) [] none := by
    refine ⟨hopens _ (by simp), fun _ => ⟨rfl, nofun⟩, ⟨hopens _ (by simp), nofun, ?_, ?_⟩, trivial⟩
    · exact ⟨by decide +kernel, rfl, hclosing _ (by simp), by decide +kernel, hopens _ (by simp),
        nofun, trivial, trivial⟩
    · refine ⟨hclosing _ (by simp), by decide +kernel, hopens _ (by simp), fun _ => ⟨rfl, nofun⟩, ?_,
        trivial⟩
      exact ⟨by decide +kernel, rfl, hclosing _ (by simp), by decide +kernel, hclosing _ (by simp),
        by decide +kernel, hopens _ (by simp), fun _ => ⟨rfl, nofun⟩, ⟨by decide +kernel, rfl, trivial⟩,
        trivial⟩
  exact ⟨hlist, parse_loose ["nav".toList] ⟨"ul".toList, []⟩ false below hlist⟩

/-- The nodes of the document are numbered, and they have the elements that were written, in order. -/
theorem Harmless.nodes_parse {start : StartTag} {closed : Bool} {below : Loose}
    (hl : (element start closed below nil).Harmless (skip.map lower) [] none) :
    let doc := parse skip (element start closed below nil).write
    doc.error = none ∧ doc.Numbered ∧ doc.nodes.toList.map Tree.element =
      ((element start closed below nil).tidy.elements StartTag.element).subtrees.map Tree.top := by
  dsimp only
  rw [hl.parse_tidy, hl.parse_element]
  exact Document.nodes_ofTree _

end Loose
end Gleaner.Markup
