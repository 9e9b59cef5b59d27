import Gleaner.Proofs.Rereading

/-! # Mentions of a tag

Inside a skipped element its tag counts wherever it is mentioned. What is written for an element of
another name, and text in which no markup begins, hold no mention, and none begins in them and ends behind
them.
-/

namespace Gleaner.Markup

open Text

variable {tag s t u rest : Text} {q : Char}

/-- A tag as it counts inside a skipped element, up to the character that ends its name: opening or
closing, in any case of the letters. -/
def IsMention (tag t : Text) : Prop :=
  ∃ slash name q, t = '<' :: (slash ++ (name ++ [q])) ∧ (slash = [] ∨ slash = ['/']) ∧
    name.map caseKey = tag.map caseKey ∧ endsTagName [q] = true

/-- The tag is mentioned nowhere in the text. -/
def Quiet (tag s : Text) : Prop := ∀ t, IsMention tag t → ¬ t <:+: s

/-- A tag as the names of elements are read: of ASCII, in small letters. -/
structure IsTag (tag : Text) : Prop where
  head : ∃ c more, tag = c :: more ∧ c.isAlpha = true
  chars : ∀ c ∈ tag, isNameChar c = true ∧ c.toLower = c

/-! ## Tags -/

theorem IsTag.map_caseKey (htag : IsTag tag) : tag.map caseKey = tag := by
  conv_rhs => rw [← List.map_id tag]
  exact List.map_congr_left fun c hc => (nameFacts (htag.chars c hc).1).caseKey_eq (htag.chars c hc).2

/-- A name that stands for a tag holds nothing but letters that stand for those of names. -/
theorem IsTag.isNameChar_caseKey (htag : IsTag tag) {name : Text}
    (hname : name.map caseKey = tag.map caseKey) : ∀ c ∈ name, isNameChar (caseKey c) = true := by
  intro c hc
  have hkey : caseKey c ∈ tag := by
    rw [← htag.map_caseKey, ← hname]
    exact List.mem_map_of_mem hc
  exact (htag.chars _ hkey).1

theorem IsTag.name_ne_nil (htag : IsTag tag) {name : Text}
    (hname : name.map caseKey = tag.map caseKey) : name ≠ [] := by
  rintro rfl
  obtain ⟨c, more, rfl, -⟩ := htag.head
  cases hname

theorem endsTagName_of_isAttributeChar (hq : isAttributeChar q = true) :
    endsTagName [q] = false := by
  simp only [isAttributeChar, Bool.and_eq_true, bne_iff_ne, Bool.not_eq_true'] at hq
  simp [endsTagName, hq]

theorem endsTagName_of_isNameChar (hq : isNameChar q = true) : endsTagName [q] = false := by
  have hother : q ≠ '/' ∧ q ≠ '>' := by
    constructor
    all_goals
      rintro rfl
      cases hq
  simp [endsTagName, (nameFacts hq).notBlank, hother]

theorem StartTag.Legible.isTag {start : StartTag} (hstart : start.Legible) : IsTag start.tag := by
  have hlower : start.tag = start.name.map Char.toLower :=
    lower_of_ascii fun c hc => toNat_lt_of_isNameChar (hstart.isNameChar c hc)
  obtain ⟨c, more, hname, hc, -⟩ := hstart.name
  constructor
  · refine ⟨c.toLower, more.map Char.toLower, by rw [hlower, hname, List.map_cons], ?_⟩
    exact (nameFacts (hstart.isNameChar c (hname ▸ List.mem_cons_self))).isAlpha_toLower hc
  · rw [hlower]
    intro d hd
    obtain ⟨c, hc, rfl⟩ := List.mem_map.mp hd
    have hfacts := nameFacts (hstart.isNameChar c hc)
    exact ⟨hfacts.isNameChar_toLower, hfacts.toLower_toLower⟩

/-! ## Mentions -/

theorem isMention_of_mention? {found : Mention} (hfound : mention? tag s = some found) :
    ∃ t, IsMention tag t ∧ t <+: s := by
  have hname : ∀ slash after rest, (slash = [] ∨ slash = ['/']) →
      (dropIgnoringCase? tag after).filter endsTagName = some rest →
      ∃ t, IsMention tag t ∧ t <+: '<' :: (slash ++ after) := by
    intro slash after rest hslash hrest
    obtain ⟨hdrop, hends⟩ := Option.filter_eq_some_iff.mp hrest
    obtain ⟨name, rfl, hname⟩ := dropIgnoringCase?_eq_some.mp hdrop
    cases rest with
    | nil => cases hends
    | cons q rest =>
        exact ⟨_, ⟨slash, name, q, rfl, hslash, hname, hends⟩, rest, by simp⟩
  unfold mention? at hfound
  split at hfound
  next after =>
    obtain ⟨rest, hrest, -⟩ := Option.map_eq_some_iff.mp hfound
    exact hname ['/'] after rest (.inr rfl) hrest
  next after _ =>
    obtain ⟨rest, hrest, -⟩ := Option.map_eq_some_iff.mp hfound
    exact hname [] after rest (.inl rfl) hrest
  next => cases hfound

theorem findMention?_of_none {c : Char} (hnone : ∀ t, IsMention tag t → ¬ t <+: c :: s) :
    findMention? tag (c :: s) = findMention? tag s := by
  have hhere : mention? tag (c :: s) = none := by
    rw [Option.eq_none_iff_forall_ne_some]
    intro found hfound
    obtain ⟨t, ht, hfront⟩ := isMention_of_mention? hfound
    exact hnone t ht hfront
  rw [findMention?, hhere, Option.none_or]

/-- No mention is found where none begins. -/
theorem findMention?_append
    (hnone : ∀ b, b <:+ u → b ≠ [] → ∀ t, IsMention tag t → ¬ t <+: b ++ rest) :
    findMention? tag (u ++ rest) = findMention? tag rest := by
  induction u with
  | nil => rfl
  | cons c u ih =>
      have hhere : ∀ t, IsMention tag t → ¬ t <+: c :: (u ++ rest) :=
        hnone (c :: u) (List.suffix_refl _) (List.cons_ne_nil _ _)
      rw [List.cons_append, findMention?_of_none hhere]
      apply ih
      intro b hb
      exact hnone b (hb.trans (List.suffix_cons c u))

theorem mention?_closing {name : Text} (hname : name.map caseKey = tag.map caseKey)
    (hends : endsTagName rest = true) :
    mention? tag ('<' :: '/' :: (name ++ rest)) =
      some ⟨true, '<' :: '/' :: (name ++ rest), rest⟩ := by
  rw [mention?, dropIgnoringCase?_eq_some.mpr ⟨name, rfl, hname⟩, Option.filter_some_pos hends]
  rfl

theorem IsTag.mention?_opening (htag : IsTag tag) {name : Text}
    (hname : name.map caseKey = tag.map caseKey) (hends : endsTagName rest = true) :
    mention? tag ('<' :: (name ++ rest)) = some ⟨false, '<' :: (name ++ rest), rest⟩ := by
  have hdrop : dropIgnoringCase? tag (name ++ rest) = some rest :=
    dropIgnoringCase?_eq_some.mpr ⟨name, rfl, hname⟩
  unfold mention?
  split
  -- a name does not begin with a slash
  next h =>
    obtain ⟨c, more, rfl⟩ := List.exists_cons_of_ne_nil (htag.name_ne_nil hname)
    obtain rfl := (List.cons.inj (List.cons.inj h).2).1
    exact absurd (htag.isNameChar_caseKey hname '/' List.mem_cons_self) (by decide)
  next h =>
    obtain rfl := (List.cons.inj h).2
    rw [hdrop, Option.filter_some_pos hends]
    rfl
  next h => exact absurd rfl (h _)

/-- Mentions are what the search for them finds. -/
theorem IsTag.quiet_iff (htag : IsTag tag) : Quiet tag s ↔ findMention? tag s = none := by
  constructor
  · intro hquiet
    rw [← List.append_nil s]
    apply findMention?_append
    intro b hb _ t ht hfront
    rw [List.append_nil] at hfront
    exact hquiet t ht (hfront.isInfix.trans hb.isInfix)
  · intro hnone t ht hwithin
    induction s with
    | nil =>
        obtain ⟨slash, name, q, rfl, -⟩ := ht
        cases List.infix_nil.mp hwithin
    | cons c s ih =>
        rw [findMention?, Option.or_eq_none_iff] at hnone
        rcases List.infix_cons_iff.mp hwithin with ⟨behind, hhere⟩ | hlater
        · obtain ⟨slash, name, q, rfl, hslash, hname, hend⟩ := ht
          have hends : endsTagName (q :: behind) = true := hend
          simp only [List.cons_append, List.append_assoc, List.nil_append] at hhere
          rw [← hhere] at hnone
          rcases hslash with rfl | rfl
          · rw [List.nil_append, htag.mention?_opening hname hends] at hnone
            cases hnone.1
          · rw [List.cons_append, List.nil_append, mention?_closing hname hends] at hnone
            cases hnone.1
        · exact ih hnone.2 hlater

theorem findMention?_cons (hq : q ≠ '<') : findMention? tag (q :: rest) = findMention? tag rest := by
  apply findMention?_of_none
  rintro t ⟨slash, name, last, rfl, -⟩ hfront
  exact hq (List.cons_prefix_cons.mp hfront).1.symm

/-- A mention that begins in a text without mentions ends behind it. -/
theorem Quiet.exists_excess {b : Text} (hu : Quiet tag u) (ht : IsMention tag t) (hb : b <:+ u)
    (hfront : t <+: b ++ rest) : ∃ d excess, t = b ++ d :: excess ∧ d :: excess <+: rest := by
  obtain ⟨behind, hsplit⟩ := hfront
  rw [List.append_eq_append_iff] at hsplit
  rcases hsplit with ⟨excess, hexcess, -⟩ | ⟨excess, hexcess, hbehind⟩
  · exact absurd (List.IsInfix.trans ⟨[], excess, hexcess.symm⟩ hb.isInfix) (hu t ht)
  · cases excess with
    | nil =>
        rw [List.append_nil] at hexcess
        exact absurd (hexcess ▸ hb.isInfix) (hu t ht)
    | cons d excess => exact ⟨d, excess, hexcess, behind, hbehind.symm⟩

/-- A character that a mention has only at its beginning cannot end one that began before it. -/
theorem findMention?_append_of_stop (hu : Quiet tag u) (hq : ∀ t, IsMention tag t → q ∉ t.tail) :
    findMention? tag (u ++ q :: rest) = findMention? tag (q :: rest) := by
  apply findMention?_append
  intro b hb hne t ht hfront
  obtain ⟨d, excess, rfl, hbehind⟩ := hu.exists_excess ht hb hfront
  obtain ⟨rfl, -⟩ := List.cons_prefix_cons.mp hbehind
  obtain ⟨c, b, rfl⟩ := List.exists_cons_of_ne_nil hne
  exact hq _ ht (by simp)

/-- Nor does a mention go on behind a character that can only end it. -/
theorem findMention?_append_of_end (hu : Quiet tag (u ++ [q]))
    (hq : ∀ t, IsMention tag t → q ∉ t.dropLast) :
    findMention? tag (u ++ q :: rest) = findMention? tag rest := by
  rw [List.append_cons]
  apply findMention?_append
  intro b hb hne t ht hfront
  obtain ⟨d, excess, rfl, -⟩ := hu.exists_excess ht hb hfront
  rcases List.suffix_concat_iff.mp hb with rfl | ⟨before, rfl, -⟩
  · exact hne rfl
  · apply hq _ ht
    rw [List.dropLast_append_of_ne_nil (List.cons_ne_nil d excess)]
    simp

namespace IsMention

theorem notMem_tail (ht : IsMention tag t) (htag : IsTag tag)
    (hkey : isNameChar (caseKey q) = false) (hend : endsTagName [q] = false) : q ∉ t.tail := by
  obtain ⟨slash, name, last, rfl, hslash, hname, hlast⟩ := ht
  simp only [List.tail_cons, List.mem_append, List.mem_singleton, not_or]
  refine ⟨?_, ?_, ?_⟩
  · rcases hslash with rfl | rfl
    · exact List.not_mem_nil
    · rw [List.mem_singleton]
      rintro rfl
      exact absurd hend (by decide)
  · intro hmem
    rw [htag.isNameChar_caseKey hname q hmem] at hkey
    cases hkey
  · rintro rfl
    rw [hlast] at hend
    cases hend

theorem notMem_dropLast (ht : IsMention tag t) (htag : IsTag tag)
    (hkey : isNameChar (caseKey q) = false) (hbracket : q ≠ '<') (hslash : q ≠ '/') :
    q ∉ t.dropLast := by
  obtain ⟨slash, name, last, rfl, hshape, hname, -⟩ := ht
  rw [← List.append_assoc, ← List.cons_append, List.dropLast_concat, List.mem_cons, List.mem_append,
    not_or, not_or]
  refine ⟨hbracket, ?_, ?_⟩
  · rcases hshape with rfl | rfl
    · exact List.not_mem_nil
    · exact fun hmem => hslash (List.mem_singleton.mp hmem)
  · intro hmem
    rw [htag.isNameChar_caseKey hname q hmem] at hkey
    cases hkey

/-- The end of a mention is a character that no attribute's name has. -/
theorem exists_end (ht : IsMention tag t) : ∃ q ∈ t, endsTagName [q] = true := by
  obtain ⟨slash, name, q, rfl, -, -, hend⟩ := ht
  exact ⟨q, by simp, hend⟩

end IsMention

/-- A name that is mentioned before a character that ends it is the tag. -/
theorem IsTag.eq_of_name {name written behind more : Text} {z : Char} (htag : IsTag tag)
    (hname : name.map caseKey = tag.map caseKey) (hq : endsTagName [q] = true)
    (hwritten : ∀ c ∈ written, isNameChar c = true) (hz : isNameChar (caseKey z) = false)
    (hsame : name ++ q :: behind = written ++ z :: more) : name = written := by
  rw [List.append_eq_append_iff] at hsame
  rcases hsame with ⟨excess, hexcess, hbehind⟩ | ⟨excess, hexcess, hbehind⟩
  · cases excess with
    | nil => rw [hexcess, List.append_nil]
    | cons d excess =>
        obtain rfl := (List.cons.inj hbehind).1
        have hd : isNameChar q = true := hwritten q (by rw [hexcess]; simp)
        rw [endsTagName_of_isNameChar hd] at hq
        cases hq
  · cases excess with
    | nil => rw [hexcess, List.append_nil]
    | cons d excess =>
        obtain rfl := (List.cons.inj hbehind).1
        have hd := htag.isNameChar_caseKey hname z (by rw [hexcess]; simp)
        rw [hd] at hz
        cases hz

/-- Behind its bracket a mention goes on with a slash or a letter. -/
theorem IsMention.exists_second (ht : IsMention tag t) (htag : IsTag tag) :
    ∃ c more, t = '<' :: c :: more ∧ (c = '/' ∨ (caseKey c).isAlpha = true) := by
  obtain ⟨slash, name, q, rfl, hslash, hname, -⟩ := ht
  obtain ⟨d, more, htagShape, hd⟩ := htag.head
  rw [htag.map_caseKey, htagShape] at hname
  obtain ⟨c, name, rfl, rfl, -⟩ := List.map_eq_cons_iff.mp hname
  rcases hslash with rfl | rfl
  · exact ⟨c, name ++ [q], rfl, .inr hd⟩
  · exact ⟨'/', _, rfl, .inl rfl⟩

/-- In a text in which no markup begins no mention begins, whatever follows. -/
theorem findMention?_append_of_inert (htag : IsTag tag) (hu : Inert u) :
    findMention? tag (u ++ rest) = findMention? tag rest := by
  induction u with
  | nil => rfl
  | cons c u ih =>
      rw [List.cons_append, findMention?_of_none, ih hu.tail]
      intro t ht hfront
      obtain ⟨d, more, rfl, hd⟩ := ht.exists_second htag
      obtain ⟨rfl, hbehind⟩ := List.cons_prefix_cons.mp hfront
      have hnext := hu 0 (Nat.succ_pos _) rfl
      cases u with
      | nil => cases hnext
      | cons e u =>
          obtain ⟨rfl, -⟩ := List.cons_prefix_cons.mp hbehind
          have hspace : (d == ' ' || d.isDigit) = true := hnext
          have hascii : d.toNat < 128 := by
            rw [Bool.or_eq_true, beq_iff_eq] at hspace
            rcases hspace with rfl | hdigit
            · decide
            · exact toNat_lt_of_isAlphanum (by simp [Char.isAlphanum, hdigit])
          exact forall_ascii (P := fun d => (d == ' ' || d.isDigit) = true →
            ¬ (d = '/' ∨ (caseKey d).isAlpha = true)) (by decide +kernel) hascii hspace hd

/-- The name of another element, opening or closing, is no mention. -/
theorem findMention?_name {slash written more : Text} {z : Char} (htag : IsTag tag)
    (hslash : slash = [] ∨ slash = ['/']) (hwritten : ∀ c ∈ written, isNameChar c = true)
    (hne : written ≠ []) (hother : written.map caseKey ≠ tag.map caseKey)
    (hz : isNameChar (caseKey z) = false) :
    findMention? tag ('<' :: (slash ++ (written ++ z :: more))) = findMention? tag (z :: more) := by
  have hchars : ∀ c ∈ slash ++ written, c = '/' ∨ isNameChar c = true := by
    intro c hc
    rcases List.mem_append.mp hc with hc | hc
    · rcases hslash with rfl | rfl
      · cases hc
      · exact .inl (List.mem_singleton.mp hc)
    · exact .inr (hwritten c hc)
  have hhere : ∀ t, IsMention tag t → ¬ t <+: '<' :: (slash ++ (written ++ z :: more)) := by
    rintro t ⟨slash', name, q, rfl, hslash', hname, hq⟩ ⟨behind, hsame⟩
    obtain ⟨c, name', rfl⟩ := List.exists_cons_of_ne_nil (htag.name_ne_nil hname)
    obtain ⟨d, written, rfl⟩ := List.exists_cons_of_ne_nil hne
    have hc := htag.isNameChar_caseKey hname c List.mem_cons_self
    have hd := hwritten d List.mem_cons_self
    rw [List.cons_append, List.cons_inj_right, List.append_assoc, List.append_assoc] at hsame
    -- the mention has a slash if and only if the tag has one, and its name is the whole name
    rcases hslash' with rfl | rfl <;> rcases hslash with rfl | rfl
    · exact hother (htag.eq_of_name hname hq hwritten hz hsame ▸ hname)
    · obtain rfl := (List.cons.inj hsame).1
      exact absurd hc (by decide)
    · obtain rfl := (List.cons.inj hsame).1
      exact absurd hd (by decide)
    · exact hother (htag.eq_of_name hname hq hwritten hz (List.cons.inj hsame).2 ▸ hname)
  rw [findMention?_of_none hhere, ← List.append_assoc]
  apply findMention?_append
  intro b hb hne t ht hfront
  obtain ⟨c, b, rfl⟩ := List.exists_cons_of_ne_nil hne
  obtain ⟨d, t, rfl, -⟩ := ht.exists_second htag
  obtain ⟨rfl, -⟩ := List.cons_prefix_cons.mp hfront
  exact absurd (hchars '<' (hb.subset List.mem_cons_self)) (by decide)

namespace StartTag.Legible

variable {start : StartTag}

theorem name_ne_nil (hstart : start.Legible) : start.name ≠ [] := by
  obtain ⟨c, more, hname, -⟩ := hstart.name
  rw [hname]
  exact List.cons_ne_nil c more

theorem name_ne (hstart : start.Legible) (htag : IsTag tag) (hother : start.tag ≠ tag) :
    start.name.map caseKey ≠ tag.map caseKey := by
  rw [← hstart.map_caseKey_tag, hstart.isTag.map_caseKey, htag.map_caseKey]
  exact hother

theorem findMention?_writePair (htag : IsTag tag) {pair : Text × Text}
    (hname : ∀ c ∈ pair.1, isAttributeChar c = true) (hvalue : Quiet tag pair.2) :
    findMention? tag (writePair pair ++ rest) = findMention? tag rest := by
  have hquiet : Quiet tag pair.1 := by
    intro t ht hwithin
    obtain ⟨q, hq, hend⟩ := ht.exists_end
    rw [endsTagName_of_isAttributeChar (hname q (hwithin.subset hq))] at hend
    cases hend
  have hequals : ∀ t, IsMention tag t → '=' ∉ t.tail :=
    fun t ht => ht.notMem_tail htag (by decide) (by decide)
  have hquote : ∀ t, IsMention tag t → '"' ∉ t.tail :=
    fun t ht => ht.notMem_tail htag (by decide) (by decide)
  have hshape : writePair pair ++ rest =
      ' ' :: (pair.1 ++ '=' :: '"' :: (pair.2 ++ '"' :: rest)) := by
    simp [writePair]
  rw [hshape, findMention?_cons (by decide), findMention?_append_of_stop hquiet hequals,
    findMention?_cons (by decide), findMention?_cons (by decide),
    findMention?_append_of_stop hvalue hquote, findMention?_cons (by decide)]

theorem findMention?_write (hstart : start.Legible) (htag : IsTag tag) (hother : start.tag ≠ tag)
    (hvalues : ∀ pair ∈ start.pairs, Quiet tag pair.2) :
    findMention? tag (start.write ++ rest) = findMention? tag rest := by
  have hpairs : ∀ pairs : List (Text × Text),
      (∀ pair ∈ pairs, (∀ c ∈ pair.1, isAttributeChar c = true) ∧ Quiet tag pair.2) →
      findMention? tag (pairs.flatMap writePair ++ '>' :: rest) = findMention? tag rest := by
    intro pairs hpairs
    induction pairs with
    | nil => exact findMention?_cons (by decide)
    | cons pair pairs ih =>
        obtain ⟨⟨hname, hvalue⟩, hmore⟩ := List.forall_mem_cons.mp hpairs
        rw [List.flatMap_cons, List.append_assoc, findMention?_writePair htag hname hvalue, ih hmore]
  have hshape : start.write ++ rest =
      '<' :: ([] ++ (start.name ++ (start.pairs.flatMap writePair ++ '>' :: rest))) := by
    simp [write]
  -- a blank or the closing bracket ends the name
  have hend : ∃ z more, start.pairs.flatMap writePair ++ '>' :: rest = z :: more ∧
      Markup.isNameChar (caseKey z) = false := by
    cases start.pairs with
    | nil => exact ⟨'>', rest, rfl, by decide⟩
    | cons pair pairs => exact ⟨' ', _, rfl, by decide⟩
  obtain ⟨z, more, hmore, hz⟩ := hend
  rw [hshape, hmore, findMention?_name htag (.inl rfl) hstart.isNameChar hstart.name_ne_nil
    (hstart.name_ne htag hother) hz, ← hmore]
  apply hpairs
  intro pair hpair
  exact ⟨(hstart.names pair hpair).2, hvalues pair hpair⟩

theorem findMention?_writeClosing (hstart : start.Legible) (htag : IsTag tag)
    (hother : start.tag ≠ tag) :
    findMention? tag (start.writeClosing ++ rest) = findMention? tag rest := by
  have hshape : start.writeClosing ++ rest = '<' :: (['/'] ++ (start.name ++ '>' :: rest)) := by
    simp [writeClosing]
  rw [hshape, findMention?_name htag (.inr rfl) hstart.isNameChar hstart.name_ne_nil
    (hstart.name_ne htag hother) (by decide), findMention?_cons (by decide)]

theorem findMention?_own (hstart : start.Legible) (rest : Text) :
    findMention? start.tag (start.write ++ rest) =
      some ⟨false, start.write ++ rest, start.pairs.flatMap writePair ++ '>' :: rest⟩ := by
  have hshape : start.write ++ rest =
      '<' :: (start.name ++ (start.pairs.flatMap writePair ++ '>' :: rest)) := by
    simp [write]
  have hends : endsTagName (start.pairs.flatMap writePair ++ '>' :: rest) = true := by
    cases start.pairs with
    | nil => rfl
    | cons pair pairs => rfl
  rw [hshape, findMention?, hstart.isTag.mention?_opening hstart.map_caseKey_tag.symm hends,
    Option.some_or]

theorem findMention?_ownClosing (hstart : start.Legible) (rest : Text) :
    findMention? start.tag (start.writeClosing ++ rest) =
      some ⟨true, start.writeClosing ++ rest, '>' :: rest⟩ := by
  have hshape : start.writeClosing ++ rest = '<' :: '/' :: (start.name ++ '>' :: rest) := by
    simp [writeClosing]
  rw [hshape, findMention?, mention?_closing hstart.map_caseKey_tag.symm rfl, Option.some_or]

end StartTag.Legible

end Gleaner.Markup
