import Gleaner.Markup.Reading
import Gleaner.Proofs.Forest
import Gleaner.Proofs.Origins
import Gleaner.Proofs.Skipping
import Gleaner.Proofs.StartTags

/-! # Written markup is read back

Reading goes through a written passage item by item; whatever was built before is extended by what the
passage holds, and the reading goes on behind it. An element that is skipped adds nothing, provided that
it mentions its own tag nowhere but in tags.
-/

namespace Gleaner.Markup

open Text

def Content.extend (content more : Content) : Content :=
  ⟨content.texts ++ more.texts, content.elements ++ more.elements⟩

namespace Builder

/-- The innermost open element holds more. -/
def extend (more : Content) (b : Builder) : Builder := b.modifyContent (·.extend more)

theorem extend_empty (b : Builder) : b.extend .empty = b := by
  obtain ⟨opened, top, strays⟩ := b
  cases opened with
  | nil => simp [extend, modifyContent, Content.extend, Content.empty]
  | cons inner outer => simp [extend, modifyContent, Content.extend, Content.empty]

theorem extend_extend (b : Builder) (first second : Content) :
    (b.extend first).extend second = b.extend (first.extend second) := by
  obtain ⟨opened, top, strays⟩ := b
  cases opened with
  | nil => simp [extend, modifyContent, Content.extend, Forest.append_assoc]
  | cons inner outer => simp [extend, modifyContent, Content.extend, Forest.append_assoc]

theorem addText_eq_extend (run : Text) (b : Builder) :
    b.addText run = b.extend ⟨if (trim run).isEmpty then [] else [trim run], .nil⟩ := by
  by_cases hblank : (trim run).isEmpty = true
  · simp only [addText, if_pos hblank]
    exact (extend_empty b).symm
  · simp only [addText, if_neg hblank, extend, Content.extend, Forest.append_nil]

theorem addElement_eq_extend (element : Element) (content : Content) (b : Builder) :
    b.addElement element content =
      b.extend ⟨[], .cons { element with text := [' '].intercalate content.texts }
        content.elements .nil⟩ := by
  unfold addElement extend Content.extend
  simp

theorem leave_extend_enter (b : Builder) (tag rest : Text) (pairs : List (Text × Text))
    (content : Content) :
    ((b.place (.enter tag pairs)).extend content).leave tag rest =
      b.addElement (.ofAttributes tag pairs) content := by
  have htag : (Element.ofAttributes tag pairs).tag = tag := rfl
  simp [place, extend, modifyContent, leave, List.findIdx?_cons, htag, closeMany, close,
    Content.extend, Content.empty]

end Builder

/-- Where placing the tokens of a text leads from a builder, and the fault that ends it. -/
def reach (skip : List Text) (b : Builder) (s : Text) : Builder × Option Fault :=
  ((scan skip s).tokens.foldl Builder.place b, (scan skip s).fault)

variable {skip : List Text} {b : Builder} {c : Char} {s t rest behind : Text}

theorem scan_of_end (hs : (takeText s).2 = []) : scan skip s = ⟨[.text (takeText s).1], none⟩ := by
  rw [scan]
  split
  next => rfl
  next h => rw [hs] at h; cases h

theorem scan_of_markup {token : Option Token} (hs : (takeText s).2 = c :: behind)
    (hmarkup : readMarkup skip (c :: behind) behind = .ok (token, rest)) :
    scan skip s =
      ⟨.text (takeText s).1 :: token.toList ++ (scan skip rest).tokens, (scan skip rest).fault⟩ := by
  rw [scan]
  split
  next h => rw [hs] at h; cases h
  next d more h =>
    rw [hs] at h
    obtain ⟨rfl, rfl⟩ := List.cons.inj h
    split
    next fault h => rw [hmarkup] at h; cases h
    next other left h => rw [hmarkup] at h; cases h; rfl

theorem scan_of_fault {fault : Fault} (hs : (takeText s).2 = c :: behind)
    (hmarkup : readMarkup skip (c :: behind) behind = .error fault) :
    scan skip s = ⟨[.text (takeText s).1], some fault⟩ := by
  rw [scan]
  split
  next h => rw [hs] at h; cases h
  next d more h =>
    rw [hs] at h
    obtain ⟨rfl, rfl⟩ := List.cons.inj h
    split
    next other h => rw [hmarkup] at h; cases h; rfl
    next other left h => rw [hmarkup] at h; cases h

theorem reach_nil (skip : List Text) (b : Builder) : reach skip b [] = (b, none) := by
  unfold reach
  rw [scan_of_end rfl]
  rfl

/-- Without a fault a text is read as what the builder holds in the end. -/
theorem parse_of_reach (skip : List Text) (hreach : reach (skip.map lower) .empty s = (b, none)) :
    parse skip s = b.finish.toDocument := by
  obtain ⟨hbuilt, hfault⟩ := Prod.mk.inj hreach
  unfold parse read
  simp only
  rw [hfault]
  unfold Builder.ofTokens
  rw [hbuilt]

theorem reach_markup {token : Option Token} (hbegins : beginsMarkup (c :: behind) = true)
    (hmarkup : readMarkup skip (c :: behind) behind = .ok (token, rest)) :
    reach skip b (c :: behind) = reach skip (token.elim b b.place) rest := by
  have htake : takeText (c :: behind) = ([], c :: behind) := by rw [takeText, if_pos hbegins]
  unfold reach
  rw [scan_of_markup (by rw [htake]) hmarkup, htake]
  cases token with
  | none => rfl
  | some token => rfl

theorem reach_text (ht : Inert t) (hs : s = [] ∨ beginsMarkup s = true) :
    reach skip b (t ++ s) = reach skip (b.addText t) s := by
  have hwhole : takeText (t ++ s) = (t, s) := takeText_append ht hs
  have hrest : takeText s = ([], s) := takeText_append (t := []) (by simp [Inert]) hs
  unfold reach
  cases s with
  | nil =>
      rw [scan_of_end (by rw [hwhole]), scan_of_end (s := []) rfl, hwhole]
      rfl
  | cons c behind =>
      cases hmarkup : readMarkup skip (c :: behind) behind with
      | error fault =>
          rw [scan_of_fault (by rw [hwhole]) hmarkup,
            scan_of_fault (s := c :: behind) (by rw [hrest]) hmarkup, hwhole, hrest]
          rfl
      | ok result =>
          obtain ⟨token, rest⟩ := result
          rw [scan_of_markup (by rw [hwhole]) hmarkup,
            scan_of_markup (s := c :: behind) (by rw [hrest]) hmarkup, hwhole, hrest]
          rfl

namespace StartTag.Legible

variable {start : StartTag}

theorem beginsMarkup_write (hstart : start.Legible) (rest : Text) :
    beginsMarkup ('<' :: (start.name ++ rest)) = true := by
  obtain ⟨c, more, hname, hc, -⟩ := hstart.name
  rw [hname, List.cons_append, beginsMarkup_bracket, isTagStart_of_isAlpha hc]
  all_goals
    rintro rfl
    exact absurd hc (by decide)

theorem beginsMarkup_writeClosing (hstart : start.Legible) (rest : Text) :
    beginsMarkup ('<' :: '/' :: (start.name ++ rest)) = true := by
  obtain ⟨c, more, hname, hc, -⟩ := hstart.name
  rw [hname]
  exact isTagStart_of_isAlpha hc

/-- Reading goes on behind a written start tag with the element that it begins. -/
theorem reach_write (hstart : start.Legible) {token : Option Token}
    (helement : readElement skip (start.write ++ t) start.tag
      (start.pairs.flatMap writePair ++ '>' :: t) = .ok (token, rest)) :
    reach skip b (start.write ++ t) = reach skip (token.elim b b.place) rest := by
  have hshape : start.write ++ t =
      '<' :: (start.name ++ (start.pairs.flatMap writePair ++ '>' :: t)) := by
    simp [write]
  rw [hshape] at helement ⊢
  apply reach_markup (hstart.beginsMarkup_write _)
  rw [hstart.readMarkup_start, helement]

theorem reach_writeClosing (hstart : start.Legible) (rest : Text) :
    reach skip b (start.writeClosing ++ rest) =
      reach skip (b.leave start.tag (start.writeClosing ++ rest)) rest := by
  have hshape : start.writeClosing ++ rest = '<' :: '/' :: (start.name ++ '>' :: rest) := by
    simp [writeClosing]
  rw [hshape]
  exact reach_markup (hstart.beginsMarkup_writeClosing _) (hstart.readMarkup_closing rest)

end StartTag.Legible

namespace Passage

/-- What an element holds of a passage when the elements of some tags are skipped. -/
def content (skip : List Text) (p : Passage StartTag) : Content :=
  ⟨p.runs, (p.elements StartTag.element).prune fun e => e.tag ∈ skip⟩

theorem content_skipped {start : StartTag} {below after : Passage StartTag} (hskip : start.tag ∈ skip) :
    content skip (element start below after) = content skip after := by
  have hdrop : decide (start.element.tag ∈ skip) = true := decide_eq_true hskip
  rw [content, elements, Forest.prune, if_pos hdrop]
  rfl

theorem content_kept {start : StartTag} {below after : Passage StartTag} (hskip : start.tag ∉ skip) :
    content skip (element start below after) =
      Content.extend ⟨[], .cons { start.element with text := [' '].intercalate below.runs }
        (content skip below).elements .nil⟩ (content skip after) := by
  have hdrop : ¬ decide (start.element.tag ∈ skip) = true := fun h => hskip (of_decide_eq_true h)
  rw [content, elements, Forest.prune, if_neg hdrop]
  rfl

theorem beginsMarkup_write (p : Passage StartTag)
    (hp : p.WellFormed StartTag.tag StartTag.Legible Inert) (hfront : p.beginsWithText = false)
    (hrest : rest = [] ∨ beginsMarkup rest = true) :
    p.write ++ rest = [] ∨ beginsMarkup (p.write ++ rest) = true := by
  cases p with
  | nil => exact hrest
  | text run after => cases hfront
  | comment body after => exact .inr rfl
  | element start below after =>
      right
      simp only [write, StartTag.write, List.cons_append, List.append_assoc]
      exact hp.1.beginsMarkup_write _

/-- A written passage is read as what it holds, wherever it stands. -/
theorem reach_write (p : Passage StartTag)
    (hp : p.WellFormed StartTag.tag StartTag.Legible Inert) (hskip : p.Skippable skip)
    (hrest : rest = [] ∨ beginsMarkup rest = true) :
    reach skip b (p.write ++ rest) = reach skip (b.extend (p.content skip)) rest := by
  induction p generalizing b rest with
  | nil =>
      have hcontent : content skip nil = .empty := rfl
      rw [hcontent, Builder.extend_empty]
      rfl
  | text run after ih =>
      obtain ⟨hrun, hfront, hafter⟩ := hp
      rw [write, List.append_assoc, reach_text hrun (after.beginsMarkup_write hafter hfront hrest),
        ih hafter hskip hrest, Builder.addText_eq_extend, Builder.extend_extend]
      rfl
  | comment body after ih =>
      obtain ⟨hbody, hafter⟩ := hp
      have hshape : (comment body after).write ++ rest =
          '<' :: '!' :: '-' :: '-' :: (body ++ '-' :: '-' :: '>' :: (after.write ++ rest)) := by
        simp [write, writeComment]
      rw [hshape, reach_markup rfl (readMarkup_comment hbody _)]
      exact ih hafter hskip hrest
  | element start below after ihbelow ihafter =>
      obtain ⟨hinside, hskipAfter⟩ := hskip
      have helement : (element start below nil).WellFormed StartTag.tag StartTag.Legible Inert :=
        ⟨hp.1, trivial, hp.2.2⟩
      obtain ⟨hstart, hafter, hbelow⟩ := hp
      rw [write, List.append_assoc]
      by_cases hskipped : start.tag ∈ skip
      -- nothing is placed for an element that is skipped
      · rw [if_pos hskipped] at hinside
        rw [List.append_assoc, hstart.reach_write (readElement_skip helement hskipped hinside _),
          content_skipped hskipped]
        exact ihafter hafter hskipAfter hrest
      rw [if_neg hskipped] at hinside
      -- a void element, raw text and an entered element all end up as one added element
      have hadded : ∀ held : Content, held = content skip below →
          reach skip (b.addElement start.element held) (after.write ++ rest) =
            reach skip (b.extend (content skip (element start below after))) rest := by
        rintro _ rfl
        rw [ihafter hafter hskipAfter hrest, Builder.addElement_eq_extend, Builder.extend_extend,
          content_kept hskipped]
        rfl
      rw [List.append_assoc]
      split at hbelow
      next hvoid =>
        subst hbelow
        rw [if_pos hvoid, List.nil_append,
          hstart.reach_write (hstart.readElement_void hskipped hvoid _ _)]
        exact hadded ⟨[], .nil⟩ rfl
      next hvoid =>
        rw [if_neg hvoid]
        split at hbelow
        next hraw =>
          obtain ⟨run, rfl, hrun⟩ := hbelow
          have hheld : (text run nil : Passage StartTag).write = run := List.append_nil run
          rw [hheld, List.append_assoc,
            hstart.reach_write (hstart.readElement_raw hskipped hvoid hraw hrun _ _)]
          apply hadded ⟨if (trim run).isEmpty then [] else [trim run], .nil⟩
          simp [content, runs, elements, Forest.prune]
        next hraw =>
          rw [hstart.reach_write (hstart.readElement_enter hskipped hvoid hraw _ _),
            List.append_assoc]
          -- the passage below ends where the closing tag begins, which leaves the element entered for it
          have hclosing : beginsMarkup (start.writeClosing ++ (after.write ++ rest)) = true := by
            simp only [StartTag.writeClosing, List.cons_append, List.append_assoc]
            exact hstart.beginsMarkup_writeClosing _
          rw [ihbelow hbelow hinside (.inr hclosing), hstart.reach_writeClosing]
          refine Eq.trans (congrArg (reach skip · _) ?_) (hadded (content skip below) rfl)
          exact Builder.leave_extend_enter b _ _ _ _

/-- A written element is read, without a fault, as the document of the element without what is skipped in
it. -/
theorem parse_write_pruned (skip : List Text) (start : StartTag) (below : Passage StartTag)
    (hp : (element start below nil).WellFormed StartTag.tag StartTag.Legible Inert)
    (htop : start.tag ∉ skip.map lower) (hskip : below.Skippable (skip.map lower)) :
    parse skip (element start below nil).write =
      .ofTree ⟨{ start.element with text := [' '].intercalate below.runs },
        (below.elements StartTag.element).prune fun e => e.tag ∈ skip.map lower⟩ := by
  have hwhole : (element start below nil).Skippable (skip.map lower) :=
    ⟨by rw [if_neg htop]; exact hskip, trivial⟩
  have hreach := reach_write (b := .empty) (element start below nil) hp hwhole (.inl rfl)
  rw [List.append_nil, reach_nil, content_kept htop] at hreach
  exact parse_of_reach skip hreach

/-- A written element is read, without a fault, as the document of the element. -/
theorem parse_write_element (start : StartTag) (below : Passage StartTag)
    (hp : (element start below nil).WellFormed StartTag.tag StartTag.Legible Inert) :
    parse [] (element start below nil).write =
      .ofTree ⟨{ start.element with text := [' '].intercalate below.runs },
        below.elements StartTag.element⟩ := by
  have hnone : ∀ e : Element, decide (e.tag ∈ ([] : List Text).map lower) = false := by simp
  rw [parse_write_pruned [] start below hp List.not_mem_nil below.skippable_nil,
    Forest.prune_of_none hnone]

/-- An element tree that can be written down: texts are trimmed and not blank, and no markup begins in
them. -/
def Writable (p : Passage Element) : Prop :=
  p.WellFormed Element.tag Element.Proper fun t => trim t = t ∧ t ≠ [] ∧ Inert t

theorem beginsWithText_map {η θ : Type} (change : η → θ) (p : Passage η) :
    (p.map change).beginsWithText = p.beginsWithText := by
  cases p with
  | nil => rfl
  | text run after => rfl
  | comment body after => rfl
  | element head below after => rfl

theorem runs_map {η θ : Type} (change : η → θ) (p : Passage η) : (p.map change).runs = p.runs := by
  induction p with
  | nil => rfl
  | text run after ih => rw [map, runs, runs, ih]
  | comment body after ih => exact ih
  | element head below after ihbelow ihafter => exact ihafter

theorem Writable.wellFormed {p : Passage Element} (hp : p.Writable) :
    (p.map Element.startTag).WellFormed StartTag.tag StartTag.Legible Inert := by
  induction p with
  | nil => trivial
  | text run after ih =>
      obtain ⟨⟨-, -, hinert⟩, hfront, hafter⟩ := hp
      exact ⟨hinert, by rw [beginsWithText_map, hfront], ih hafter⟩
  | comment body after ih => exact ⟨hp.1, ih hp.2⟩
  | element head below after ihbelow ihafter =>
      obtain ⟨hhead, hafter, hbelow⟩ := hp
      refine ⟨hhead.legible, ihafter hafter, ?_⟩
      rw [hhead.tag_startTag]
      split at hbelow
      next hvoid =>
        rw [if_pos hvoid, hbelow]
        rfl
      next hvoid =>
        rw [if_neg hvoid]
        split at hbelow
        next hraw =>
          obtain ⟨content, rfl, hcontent⟩ := hbelow
          rw [if_pos hraw]
          exact ⟨content, rfl, hcontent⟩
        next hraw =>
          rw [if_neg hraw]
          exact ihbelow hbelow

theorem Writable.elements_map {p : Passage Element} (hp : p.Writable) :
    (p.map Element.startTag).elements StartTag.element = p.elements fun e => e := by
  induction p with
  | nil => rfl
  | text run after ih => exact ih hp.2.2
  | comment body after ih => exact ih hp.2
  | element head below after ihbelow ihafter =>
      obtain ⟨hhead, hafter, hbelow⟩ := hp
      have hinside : (below.map Element.startTag).elements StartTag.element =
          below.elements fun e => e := by
        split at hbelow
        next => rw [hbelow]; rfl
        next =>
          split at hbelow
          next => obtain ⟨content, rfl, -⟩ := hbelow; rfl
          next => exact ihbelow hbelow
      simp only [map, elements]
      rw [hhead.element_startTag, runs_map, hinside, ihafter hafter]

/-- Every element tree that can be written is read back from what was written: without a fault, with the
same elements in the same order and places, and with the same text in each. -/
theorem parse_write (e : Element) (below : Passage Element) (hp : (element e below nil).Writable) :
    parse [] ((element e below nil).map Element.startTag).write =
      .ofTree ⟨{ e with text := [' '].intercalate below.runs }, below.elements fun e => e⟩ := by
  have hwell := hp.wellFormed
  have helements := hp.elements_map
  simp only [map, elements, Forest.cons.injEq] at hwell helements
  obtain ⟨htop, hbelow, -⟩ := helements
  rw [map, map, parse_write_element _ _ hwell, htop, hbelow]

/-- A division with an id, two classes and a title, and in it a text with a bracket, a line break, a
comment and a script. -/
theorem parse_write_division :
    let division : Element := ⟨"div".toList, some "a".toList, ["b".toList, "c".toList],
      [("title".toList, "1 > 0".toList)], []⟩
    let below : Passage Element := .text "x < 1".toList (.element ⟨"br".toList, none, [], [], []⟩ .nil
      (.comment "note".toList
        (.element ⟨"script".toList, none, [], [], []⟩ (.text "a<b".toList .nil) .nil)))
    parse [] ((element division below nil).map Element.startTag).write =
      .ofTree ⟨{ division with text := [' '].intercalate below.runs }, below.elements fun e => e⟩ := by
  intro division below
  have hname : lower "title".toList = "title".toList ∧ "title".toList ≠ Element.className ∧
      "title".toList ≠ Element.idName := by decide +kernel
  have hdivision : division.Proper :=
    ⟨⟨'d', "iv".toList, rfl, rfl, by simp⟩, by simp [division], by simp [division, isBlank],
      by simp [division],
      List.forall_mem_singleton.mpr ⟨by simp, hname.1, hname.2.1, hname.2.2, by simp [isBlank]⟩,
      by simp [division], by simp [division], rfl⟩
  have hbr : (Element.mk "br".toList none [] [] []).Proper :=
    ⟨⟨'b', "r".toList, rfl, rfl, by simp⟩, by simp, by simp, List.nodup_nil, by simp, by simp,
      List.nodup_nil, rfl⟩
  have hscript : (Element.mk "script".toList none [] [] []).Proper :=
    ⟨⟨'s', "cript".toList, rfl, rfl, by simp⟩, by simp, by simp, List.nodup_nil, by simp, by simp,
      List.nodup_nil, rfl⟩
  have hraw : ∀ t, IsRawEnd "script".toList t → ¬ t <:+: "a<b".toList := by
    rintro _ ⟨name, blanks, rfl, -, -⟩ hwithin
    have hbegins : ['<', '/'] <:+: "a<b".toList := List.IsInfix.trans ⟨[], _, rfl⟩ hwithin
    exact absurd hbegins (by decide +kernel)
  have hrun : trim "x < 1".toList = "x < 1".toList ∧ "x < 1".toList ≠ [] ∧ Inert "x < 1".toList := by
    decide +kernel
  have hcomment : ¬ "-->".toList <:+: "note".toList := by decide +kernel
  have hbelow : below.Writable :=
    ⟨hrun, rfl, hbr, ⟨hcomment, hscript, trivial, _, rfl, hraw⟩, rfl⟩
  exact parse_write division below ⟨hdivision, trivial, hbelow⟩

/-- The nodes of the document of what was written are numbered, and they have the elements of the tree in
the order in which these were written. -/
theorem Writable.nodes_parse {e : Element} {below : Passage Element} (hp : (element e below nil).Writable) :
    let doc := parse [] ((element e below nil).map Element.startTag).write
    doc.error = none ∧ doc.Numbered ∧ doc.nodes.toList.map Tree.element =
      ((element e below nil).elements fun e => e).subtrees.map Tree.top := by
  dsimp only
  rw [← hp.elements_map, map, map, parse_write_element _ _ hp.wellFormed]
  exact Document.nodes_ofTree _

/-! ## Skipped elements -/

section Plain

variable {start : StartTag} {below after : Passage StartTag}

theorem legible_of_name {name : Text}
    (hname : name.head?.any Char.isAlpha = true ∧ name.all isNameChar = true) :
    StartTag.Legible ⟨name, []⟩ := by
  obtain ⟨hfront, hchars⟩ := hname
  refine ⟨?_, nofun, nofun⟩
  cases name with
  | nil => cases hfront
  | cons c more =>
      exact ⟨c, more, rfl, hfront, fun d hd => List.all_eq_true.mp hchars d (List.mem_cons_of_mem c hd)⟩

theorem wellFormed_enter (hstart : start.Legible)
    (htag : start.tag ∉ voidTags ∧ start.tag ∉ rawTextTags)
    (hbelow : below.WellFormed StartTag.tag StartTag.Legible Inert)
    (hafter : after.WellFormed StartTag.tag StartTag.Legible Inert) :
    (element start below after).WellFormed StartTag.tag StartTag.Legible Inert :=
  ⟨hstart, hafter, by rwa [if_neg htag.1, if_neg htag.2]⟩

theorem wellFormed_raw (hstart : start.Legible)
    (htag : start.tag ∉ voidTags ∧ start.tag ∈ rawTextTags) {content : Text}
    (hcontent : ¬ ['<', '/'] <:+: content)
    (hafter : after.WellFormed StartTag.tag StartTag.Legible Inert) :
    (element start (text content nil) after).WellFormed StartTag.tag StartTag.Legible Inert := by
  refine ⟨hstart, hafter, ?_⟩
  rw [if_neg htag.1, if_pos htag.2]
  refine ⟨content, rfl, ?_⟩
  rintro _ ⟨name, blanks, rfl, -, -⟩ hwithin
  exact hcontent (List.IsInfix.trans ⟨[], _, rfl⟩ hwithin)

end Plain

/-- Where every skipped element is silent about its own tag, skipping only prunes: the document is that of
the whole text without the trees of the skipped elements. -/
theorem parse_prunes (skip : List Text) (start : StartTag) (below : Passage StartTag)
    (hp : (element start below nil).WellFormed StartTag.tag StartTag.Legible Inert)
    (htop : start.tag ∉ skip.map lower) (hskip : below.Skippable (skip.map lower)) :
    let t : Tree Element := ⟨{ start.element with text := [' '].intercalate below.runs },
      below.elements StartTag.element⟩
    parse [] (element start below nil).write = .ofTree t ∧
      parse skip (element start below nil).write =
        .ofTree ⟨t.top, t.below.prune fun e => e.tag ∈ skip.map lower⟩ :=
  ⟨parse_write_element start below hp, parse_write_pruned skip start below hp htop hskip⟩

/-- A menu in a menu, with a comment and a script, is left out before a paragraph. -/
theorem parse_prunes_menu :
    let menu : Passage StartTag := .comment "menu".toList
      (.element ⟨"nav".toList, []⟩ (.text "one".toList .nil)
        (.element ⟨"script".toList, []⟩ (.text "a<b".toList .nil) .nil))
    let below : Passage StartTag := .element ⟨"NAV".toList, [("title".toList, "<nav>".toList)]⟩ menu
      (.element ⟨"p".toList, []⟩ (.text "two".toList .nil) .nil)
    let text := (element ⟨"div".toList, []⟩ below nil).write
    let t : Tree Element := ⟨StartTag.element ⟨"div".toList, []⟩, below.elements StartTag.element⟩
    parse [] text = .ofTree t ∧
      parse ["Nav".toList] text =
        .ofTree ⟨t.top, t.below.prune fun e => e.tag ∈ ["Nav".toList].map lower⟩ := by
  intro menu below text t
  have hdiv : StartTag.Legible ⟨"div".toList, []⟩ := legible_of_name (by decide +kernel)
  have hp : StartTag.Legible ⟨"p".toList, []⟩ := legible_of_name (by decide +kernel)
  have hscript : StartTag.Legible ⟨"script".toList, []⟩ := legible_of_name (by decide +kernel)
  have hnav : StartTag.Legible ⟨"nav".toList, []⟩ := legible_of_name (by decide +kernel)
  have htop : StartTag.Legible ⟨"NAV".toList, [("title".toList, "<nav>".toList)]⟩ :=
    ⟨⟨'N', "AV".toList, rfl, rfl, List.all_eq_true.mp (by decide +kernel)⟩,
      List.forall_mem_singleton.mpr ⟨nofun, List.all_eq_true.mp (by decide +kernel)⟩,
      List.forall_mem_singleton.mpr (by decide +kernel)⟩
  have hmenu : menu.WellFormed StartTag.tag StartTag.Legible Inert :=
    ⟨by decide +kernel, wellFormed_enter hnav (by decide +kernel)
      ⟨by decide +kernel, rfl, trivial⟩
      (wellFormed_raw hscript (by decide +kernel) (by decide +kernel) trivial)⟩
  have hbelow : below.WellFormed StartTag.tag StartTag.Legible Inert :=
    wellFormed_enter htop (by decide +kernel) hmenu
      (wellFormed_enter hp (by decide +kernel) ⟨by decide +kernel, rfl, trivial⟩ trivial)
  have hskip : below.Skippable (["Nav".toList].map lower) := by
    have hquiet : ∀ {s : Text}, findMention? "nav".toList s = none → Quiet "nav".toList s :=
      hnav.isTag.quiet_iff.mpr
    have hsilent : menu.Silent "nav".toList :=
      ⟨hquiet (by decide +kernel), nofun, nofun, trivial,
        nofun, fun _ => hquiet (by decide +kernel), trivial, trivial⟩
    have hinside : (element ⟨"NAV".toList, [("title".toList, "<nav>".toList)]⟩ menu nil).Silent
        (StartTag.tag ⟨"NAV".toList, [("title".toList, "<nav>".toList)]⟩) :=
      ⟨fun hother => absurd rfl hother, fun hraw => absurd hraw (by decide +kernel), hsilent, trivial⟩
    refine ⟨?_, ?_, trivial⟩
    · rw [if_pos (by decide +kernel)]
      exact hinside
    · rw [if_neg (by decide +kernel)]
      trivial
  exact parse_prunes _ _ below (wellFormed_enter hdiv (by decide +kernel) hbelow trivial)
    (by decide +kernel) hskip

/-- A script that only speaks of scripts ends the reading when scripts are skipped. Its text is not
silent, and the element that the text mentions is missed at the end. -/
theorem parse_skip_script_fault :
    let division : StartTag := ⟨"div".toList, []⟩
    let below : Passage StartTag :=
      .element ⟨"script".toList, []⟩ (.text "s='<script>';".toList .nil) .nil
    (element division below nil).WellFormed StartTag.tag StartTag.Legible Inert ∧
      division.tag ∉ ["script".toList].map lower ∧
      (parse [] (element division below nil).write).error = none ∧
      (parse ["script".toList] (element division below nil).write).error =
        some (.fault (.skipped "script".toList) 5) := by
  intro division below
  have hdivision : division.Legible := legible_of_name (by decide +kernel)
  have hscript : StartTag.Legible ⟨"script".toList, []⟩ := legible_of_name (by decide +kernel)
  have hbelow : below.WellFormed StartTag.tag StartTag.Legible Inert :=
    wellFormed_raw hscript (by decide +kernel) (by decide +kernel) trivial
  have hwell : (element division below nil).WellFormed StartTag.tag StartTag.Legible Inert :=
    wellFormed_enter hdivision (by decide +kernel) hbelow trivial
  refine ⟨hwell, by decide +kernel, ?_, by decide +kernel⟩
  rw [parse_write_element division below hwell]
  rfl

end Passage

end Gleaner.Markup
