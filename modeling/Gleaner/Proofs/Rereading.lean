import Gleaner.Proofs.MarkupAttributes
import Gleaner.Proofs.Writing

/-! # Reading what was written

Each reader of markup, given something written followed by anything at all, reads back what was written
and leaves the rest.
-/

namespace Gleaner.Markup

open Text

variable {c : Char} {s t rest run more : Text}

/-! ## Tags -/

theorem readBody_write (start rest : Text) {pairs : List (Text × Text)}
    (hnames : ∀ pair ∈ pairs, pair.1 ≠ [] ∧ ∀ c ∈ pair.1, isAttributeChar c = true)
    (hvalues : ∀ pair ∈ pairs, '"' ∉ pair.2) :
    readBody start (pairs.flatMap StartTag.writePair ++ '>' :: rest) =
      .ok ⟨pairs.map fun pair => (lower pair.1, pair.2), false, rest⟩ := by
  have hlegible : ∀ a ∈ pairs.map fun pair => Attribute.quoted pair.1 pair.2, a.Legible := by
    intro a ha
    obtain ⟨pair, hpair, rfl⟩ := List.mem_map.mp ha
    exact Attribute.legible_quoted (hnames pair hpair) (hvalues pair hpair)
  have hread := Attribute.readBody_close hlegible (Attribute.separate_quoted ['>'] pairs) start rest
  rw [List.flatMap_map, List.map_map] at hread
  exact hread

/-! ## Texts and comments -/

theorem Inert.tail (hinert : Inert (c :: t)) : Inert t := by
  intro i hi hbracket
  exact hinert (i + 1) (Nat.succ_lt_succ hi) hbracket

theorem beginsMarkup_bracket (hbang : c ≠ '!') (hquestion : c ≠ '?') (hslash : c ≠ '/') :
    beginsMarkup ('<' :: c :: s) = isTagStart c := by
  unfold beginsMarkup
  split
  all_goals simp_all

/-- Text in which no markup begins is taken as far as it goes. -/
theorem takeText_append (hinert : Inert t) (hs : s = [] ∨ beginsMarkup s = true) :
    takeText (t ++ s) = (t, s) := by
  induction t with
  | nil =>
      cases s with
      | nil => rfl
      | cons c s => rw [List.nil_append, takeText, if_pos (hs.resolve_left (List.cons_ne_nil _ _))]
  | cons c t ih =>
      have hbegins : beginsMarkup (c :: (t ++ s)) = false := by
        by_cases hc : c = '<'
        -- a bracket of the text stands before a space or a digit, neither of which begins a name
        · subst hc
          have hnext := hinert 0 (Nat.succ_pos _) rfl
          cases t with
          | nil => cases hnext
          | cons d t =>
              have hd : (d == ' ' || d.isDigit) = true := hnext
              rw [Bool.or_eq_true, beq_iff_eq] at hd
              rcases hd with rfl | hdigit
              · rfl
              · rw [List.cons_append, beginsMarkup_bracket, isTagStart_of_isDigit hdigit]
                all_goals
                  rintro rfl
                  exact absurd hdigit (by decide)
        · unfold beginsMarkup
          split
          all_goals simp_all
      rw [List.cons_append, takeText, if_neg (by simp [hbegins]), ih hinert.tail]

theorem cut_writeComment {body : Text} (hbody : ¬ "-->".toList <:+: body) (rest : Text) :
    cut ['-', '-', '>'] (body ++ '-' :: '-' :: '>' :: rest) = some (body, rest) := by
  induction body with
  | nil => simp [cut]
  | cons c body ih =>
      have hfront : ['-', '-', '>'].isPrefixOf (c :: (body ++ '-' :: '-' :: '>' :: rest)) = false := by
        rw [← Bool.not_eq_true, List.isPrefixOf_iff_prefix]
        intro hstands
        -- the mark would have to end among the hyphens, or it stands in the comment already
        rcases body with _ | ⟨d, _ | ⟨e, more⟩⟩
        · simp at hstands
        · simp at hstands
        · simp only [List.cons_append, List.cons_prefix_cons, List.nil_prefix, and_true] at hstands
          obtain ⟨rfl, rfl, rfl⟩ := hstands
          exact hbody ⟨[], more, rfl⟩
      rw [List.cons_append, cut, if_neg (by simp [hfront]), ih ?_]
      · rfl
      · exact fun hwithin => hbody (hwithin.trans (List.suffix_cons c body).isInfix)

/-! ## Raw text -/

theorem dropIgnoringCase?_eq_some {word : Text} :
    dropIgnoringCase? word s = some rest ↔
      ∃ name, s = name ++ rest ∧ name.map caseKey = word.map caseKey := by
  induction word generalizing s with
  | nil => simp [dropIgnoringCase?, eq_comm]
  | cons d word ih =>
      cases s with
      | nil => simp [dropIgnoringCase?]
      | cons c s =>
          rw [dropIgnoringCase?]
          constructor
          · intro hrest
            split at hrest
            next hkey =>
              obtain ⟨name, rfl, hname⟩ := ih.mp hrest
              exact ⟨c :: name, rfl, by rw [List.map_cons, List.map_cons, hname, hkey]⟩
            next => cases hrest
          · rintro ⟨name, hs, hname⟩
            cases name with
            | nil => cases hname
            | cons b name =>
                obtain ⟨rfl, rfl⟩ := List.cons.inj hs
                rw [List.map_cons, List.map_cons] at hname
                obtain ⟨hkey, hmore⟩ := List.cons.inj hname
                rw [if_pos hkey.symm]
                exact ih.mpr ⟨name, rfl, hmore⟩

theorem closeRawText?_eq_some {tag : Text} :
    closeRawText? tag s = some rest ↔ ∃ t, IsRawEnd tag t ∧ s = t ++ rest := by
  constructor
  · intro hclose
    unfold closeRawText? at hclose
    split at hclose
    next s =>
      obtain ⟨left, hleft, hbracket⟩ := Option.bind_eq_some_iff.mp hclose
      obtain ⟨name, rfl, hname⟩ := dropIgnoringCase?_eq_some.mp hleft
      split at hbracket
      next more htrim =>
        obtain rfl := Option.some.inj hbracket
        have hsplit : left.takeWhile isBlank ++ '>' :: more = left := by
          rw [← htrim]
          exact List.takeWhile_append_dropWhile
        have hblanks : ∀ c ∈ left.takeWhile isBlank, isBlank c = true :=
          List.all_eq_true.mp List.all_takeWhile
        generalize left.takeWhile isBlank = blanks at hsplit hblanks
        subst hsplit
        exact ⟨_, ⟨name, blanks, rfl, hname, hblanks⟩, by simp⟩
      next => cases hbracket
    next => cases hclose
  · rintro ⟨_, ⟨name, blanks, rfl, hname, hblanks⟩, rfl⟩
    have hleft : dropIgnoringCase? tag (name ++ (blanks ++ '>' :: rest)) =
        some (blanks ++ '>' :: rest) := dropIgnoringCase?_eq_some.mpr ⟨name, rfl, hname⟩
    have htrim : trimLeft (blanks ++ '>' :: rest) = '>' :: rest :=
      (takeWhile_run hblanks (by decide) rest).2
    simp [closeRawText?, hleft, htrim]

theorem IsRawEnd.notMem_tail {tag : Text} (ht : IsRawEnd tag t) (hbracket : '<' ∉ tag.map caseKey) :
    '<' ∉ t.tail := by
  obtain ⟨name, blanks, rfl, hname, hblanks⟩ := ht
  simp only [List.tail_cons, List.mem_cons, List.mem_append, List.not_mem_nil, or_false, not_or]
  refine ⟨by decide, ?_, ?_, by decide⟩
  · intro hmem
    rw [← hname] at hbracket
    exact hbracket (List.mem_map_of_mem (f := caseKey) hmem)
  · intro hmem
    exact absurd (hblanks _ hmem) (by decide)

/-- Raw text is read up to its own closing tag. -/
theorem takeRawText?_append {tag name content : Text} (hname : name.map caseKey = tag.map caseKey)
    (hbracket : '<' ∉ tag.map caseKey) (hcontent : ∀ t, IsRawEnd tag t → ¬ t <:+: content) :
    takeRawText? tag (content ++ '<' :: '/' :: (name ++ '>' :: rest)) = some (content, rest) := by
  have hend : IsRawEnd tag ('<' :: '/' :: (name ++ ([] ++ ['>']))) := ⟨name, [], rfl, hname, by simp⟩
  induction content with
  | nil =>
      have hclose : closeRawText? tag ('<' :: '/' :: (name ++ '>' :: rest)) = some rest :=
        closeRawText?_eq_some.mpr ⟨_, hend, by simp⟩
      rw [List.nil_append, takeRawText?, hclose]
  | cons c content ih =>
      have hnone : closeRawText? tag (c :: (content ++ '<' :: '/' :: (name ++ '>' :: rest))) = none := by
        rw [Option.eq_none_iff_forall_ne_some]
        intro left hleft
        obtain ⟨t, ht, hsplit⟩ := closeRawText?_eq_some.mp hleft
        rw [← List.cons_append, List.append_eq_append_iff] at hsplit
        rcases hsplit with ⟨excess, hexcess, hbehind⟩ | ⟨excess, hexcess, -⟩
        · cases excess with
          | nil =>
              rw [List.append_nil] at hexcess
              subst hexcess
              exact hcontent _ ht (List.infix_refl _)
          | cons d excess =>
              -- an end that began in the content would have a second bracket in it
              obtain rfl := (List.cons.inj hbehind).1
              exact ht.notMem_tail hbracket (by rw [hexcess]; simp)
        · rw [hexcess] at hcontent
          exact hcontent t ht (List.prefix_append _ _).isInfix
      rw [List.cons_append, takeRawText?, hnone, ih]
      · rfl
      · exact fun t ht hwithin => hcontent t ht (hwithin.trans (List.suffix_cons c content).isInfix)

/-! ## Markup -/

variable {skip : List Text} {start : StartTag}

theorem readMarkup_comment {body : Text} (hbody : ¬ "-->".toList <:+: body) (rest : Text) :
    readMarkup skip s ('!' :: '-' :: '-' :: (body ++ '-' :: '-' :: '>' :: rest)) = .ok (none, rest) := by
  rw [readMarkup, cut_writeComment hbody]

/-- A name and its lower case are the same where case is ignored. -/
theorem map_caseKey_lower {name : Text} (hname : ∀ c ∈ name, isNameChar c = true) :
    (lower name).map caseKey = name.map caseKey := by
  rw [lower_of_ascii fun c hc => toNat_lt_of_isNameChar (hname c hc), List.map_map]
  exact List.map_congr_left fun c hc => (nameFacts (hname c hc)).caseKey_toLower

theorem bracket_notMem_lower {name : Text} (hname : ∀ c ∈ name, isNameChar c = true) :
    '<' ∉ (lower name).map caseKey := by
  rw [map_caseKey_lower hname, List.mem_map]
  rintro ⟨c, hc, hkey⟩
  exact (nameFacts (hname c hc)).caseKey_ne hkey

theorem forall_isNameChar {name : Text}
    (hname : ∃ c more, name = c :: more ∧ c.isAlpha = true ∧ ∀ d ∈ more, isNameChar d = true) :
    ∀ c ∈ name, isNameChar c = true := by
  obtain ⟨c, more, rfl, hc, hmore⟩ := hname
  exact List.forall_mem_cons.mpr ⟨by simp [isNameChar, Char.isAlphanum, hc], hmore⟩

/-- An element begins with its name, up to the first character that cannot belong to it. -/
theorem readMarkup_name {name tail : Text}
    (hname : ∃ c more, name = c :: more ∧ c.isAlpha = true ∧ ∀ d ∈ more, isNameChar d = true)
    (htail : ∀ q ∈ tail.head?, isTagChar q = false) :
    readMarkup skip s (name ++ tail) = readElement skip s (lower name) tail := by
  have hchars : ∀ c ∈ name, isTagChar c = true :=
    fun c hc => (nameFacts (forall_isNameChar hname c hc)).isTagChar
  have hrun := takeWhile_run_append hchars htail
  obtain ⟨c, more, rfl, hc, -⟩ := hname
  rw [List.cons_append] at hrun ⊢
  unfold readMarkup
  split
  next h =>
    obtain rfl := (List.cons.inj h).1
    exact absurd hc (by decide)
  next h =>
    obtain rfl := (List.cons.inj h).1
    exact absurd hc (by decide)
  next d s _ _ h =>
    obtain ⟨rfl, rfl⟩ := List.cons.inj h
    have hother : ¬ (c = '!' ∨ c = '?') := by
      rintro (rfl | rfl)
      · exact absurd hc (by decide)
      · exact absurd hc (by decide)
    rw [if_neg hother, hrun.1, hrun.2]
  next h => cases h

namespace StartTag.Legible

theorem isNameChar (hstart : start.Legible) : ∀ c ∈ start.name, isNameChar c = true :=
  forall_isNameChar hstart.name

theorem isTagChar (hstart : start.Legible) : ∀ c ∈ start.name, isTagChar c = true :=
  fun c hc => (nameFacts (hstart.isNameChar c hc)).isTagChar

theorem map_caseKey_tag (hstart : start.Legible) :
    start.tag.map caseKey = start.name.map caseKey := map_caseKey_lower hstart.isNameChar

theorem readMarkup_closing (hstart : start.Legible) (rest : Text) :
    readMarkup skip s ('/' :: (start.name ++ '>' :: rest)) =
      .ok (some (.leave start.tag s), rest) := by
  obtain ⟨hname, hbehind⟩ := takeWhile_run (q := '>') hstart.isTagChar (by decide) rest
  rw [readMarkup, hname, hbehind]
  rfl

theorem readMarkup_start (hstart : start.Legible) (rest : Text) :
    readMarkup skip s (start.name ++ (start.pairs.flatMap writePair ++ '>' :: rest)) =
      readElement skip s start.tag (start.pairs.flatMap writePair ++ '>' :: rest) := by
  refine readMarkup_name hstart.name ?_
  -- a blank or the closing bracket ends the name
  cases start.pairs with
  | nil =>
      intro q hq
      obtain rfl := Option.some.inj hq
      rfl
  | cons pair pairs =>
      intro q hq
      obtain rfl := Option.some.inj hq
      rfl

theorem readBody_write (hstart : start.Legible) (s rest : Text) :
    readBody s (start.pairs.flatMap writePair ++ '>' :: rest) = .ok ⟨start.readPairs, false, rest⟩ :=
  Markup.readBody_write s rest hstart.names hstart.values

theorem readElement_void (hstart : start.Legible) (hskip : start.tag ∉ skip)
    (hvoid : start.tag ∈ voidTags) (s rest : Text) :
    readElement skip s start.tag (start.pairs.flatMap writePair ++ '>' :: rest) =
      .ok (some (.leaf start.tag start.readPairs []), rest) := by
  rw [readElement, hstart.readBody_write]
  simp [hskip, hvoid]

theorem readElement_enter (hstart : start.Legible) (hskip : start.tag ∉ skip)
    (hvoid : start.tag ∉ voidTags) (hraw : start.tag ∉ rawTextTags) (s rest : Text) :
    readElement skip s start.tag (start.pairs.flatMap writePair ++ '>' :: rest) =
      .ok (some (.enter start.tag start.readPairs), rest) := by
  rw [readElement, hstart.readBody_write]
  simp [hskip, hvoid, hraw]

theorem readElement_raw (hstart : start.Legible) (hskip : start.tag ∉ skip)
    (hvoid : start.tag ∉ voidTags) (hraw : start.tag ∈ rawTextTags) {content : Text}
    (hcontent : ∀ t, IsRawEnd start.tag t → ¬ t <:+: content) (s rest : Text) :
    readElement skip s start.tag
        (start.pairs.flatMap writePair ++ '>' :: (content ++ (start.writeClosing ++ rest))) =
      .ok (some (.leaf start.tag start.readPairs content), rest) := by
  have htake : takeRawText? start.tag (content ++ (start.writeClosing ++ rest)) =
      some (content, rest) := by
    have hbracket : '<' ∉ start.tag.map caseKey := bracket_notMem_lower hstart.isNameChar
    rw [← takeRawText?_append hstart.map_caseKey_tag.symm hbracket hcontent]
    simp [writeClosing]
  rw [readElement, hstart.readBody_write]
  simp [hskip, hvoid, hraw, htake]

end StartTag.Legible
end Gleaner.Markup
