import Gleaner.Proofs.Mentions

/-! # Passing over skipped elements

The end of a skipped element is found by its tag alone: neither comments nor values nor raw text are told
apart. Where none of these mentions the tag, the mentions are the tags of elements, and what is written in
between makes no difference to where the element ends.
-/

namespace Gleaner.Markup

open Text

variable {tag s t u rest front : Text} {depth : Nat}

/-- The tag of the element is not mentioned in any comment below or in any raw text, and in attributes
only of elements that have the tag themselves. -/
def Passage.Silent (tag : Text) : Passage StartTag → Prop
  | .nil => True
  | .text _ after => after.Silent tag
  | .comment body after => Quiet tag (writeComment body) ∧ after.Silent tag
  | .element start below after =>
    (start.tag ≠ tag → ∀ pair ∈ start.pairs, Quiet tag pair.2) ∧
      (start.tag ∈ rawTextTags → Quiet tag below.write) ∧ below.Silent tag ∧ after.Silent tag

/-- Every element of the passage that is skipped is silent about its own tag. -/
def Passage.Skippable (skip : List Text) : Passage StartTag → Prop
  | .nil => True
  | .text _ after => after.Skippable skip
  | .comment _ after => after.Skippable skip
  | .element start below after =>
    (if start.tag ∈ skip then (Passage.element start below .nil).Silent start.tag
      else below.Skippable skip) ∧ after.Skippable skip

theorem Passage.skippable_nil (p : Passage StartTag) : p.Skippable [] := by
  induction p with
  | nil => trivial
  | text run after ih => exact ih
  | comment body after ih => exact ih
  | element start below after ihbelow ihafter => exact ⟨ihbelow, ihafter⟩

/-! ## The end of a skipped element -/

/-- What is passed over depends only on the first mention. -/
theorem skipContent_congr (hfind : findMention? tag s = findMention? tag u) :
    skipContent tag front depth s = skipContent tag front depth u := by
  rw [skipContent]
  conv_rhs => rw [skipContent]
  grind

theorem skipContent_of_opening {found : Mention} {body : TagBody}
    (hfind : findMention? tag s = some found) (hopening : found.closing = false)
    (hbody : readBody found.start found.rest = .ok body) :
    skipContent tag front depth s =
      skipContent tag front (if body.selfClosed then depth else depth + 1) body.rest := by
  rw [skipContent]
  grind

theorem skipContent_of_closing {found : Mention} (hfind : findMention? tag s = some found)
    (hclosing : found.closing = true) (hcut : cut ['>'] found.rest = some (t, rest)) :
    skipContent tag front depth s =
      if depth = 0 then .ok rest else skipContent tag front (depth - 1) rest := by
  rw [skipContent]
  grind

namespace StartTag.Legible

variable {start : StartTag}

theorem skipContent_own (hstart : start.Legible) (rest : Text) :
    skipContent start.tag front depth (start.write ++ rest) =
      skipContent start.tag front (depth + 1) rest :=
  skipContent_of_opening (hstart.findMention?_own rest) rfl (hstart.readBody_write _ rest)

theorem skipContent_ownClosing (hstart : start.Legible) (rest : Text) :
    skipContent start.tag front depth (start.writeClosing ++ rest) =
      if depth = 0 then .ok rest else skipContent start.tag front (depth - 1) rest :=
  skipContent_of_closing (hstart.findMention?_ownClosing rest) rfl
    (cut_of_notMem List.not_mem_nil rest)

end StartTag.Legible

namespace Passage

/-- What an element holds is passed over up to its closing tag, if that is so where the content is no raw
text. -/
theorem skipContent_below (htag : IsTag tag) {start : StartTag} {below : Passage StartTag}
    (hp : (element start below nil).WellFormed StartTag.tag StartTag.Legible Inert)
    (hsilent : (element start below nil).Silent tag) (hvoid : start.tag ∉ voidTags)
    (hbelow : below.WellFormed StartTag.tag StartTag.Legible Inert → below.Silent tag →
      ∀ rest, skipContent tag front depth (below.write ++ rest) = skipContent tag front depth rest) :
    skipContent tag front depth (below.write ++ (start.writeClosing ++ rest)) =
      skipContent tag front depth (start.writeClosing ++ rest) := by
  obtain ⟨-, -, hcontent⟩ := hp
  obtain ⟨-, hraw, hinside, -⟩ := hsilent
  rw [if_neg hvoid] at hcontent
  split at hcontent
  next hrawTag =>
    -- a mention that began in the raw text would have a second bracket in it
    have hbracket : ∀ t, IsMention tag t → '<' ∉ t.tail :=
      fun t ht => ht.notMem_tail htag (by decide) (by decide)
    exact skipContent_congr (findMention?_append_of_stop (hraw hrawTag) hbracket)
  next => exact hbelow hcontent hinside _

/-- In a written passage that is silent about a tag the elements of the tag are balanced, so passing over
it changes nothing. -/
theorem skipContent_write (htag : IsTag tag) (hvoid : tag ∉ voidTags) (p : Passage StartTag)
    (hp : p.WellFormed StartTag.tag StartTag.Legible Inert) (hsilent : p.Silent tag) (rest : Text) :
    skipContent tag front depth (p.write ++ rest) = skipContent tag front depth rest := by
  induction p generalizing depth rest with
  | nil => rfl
  | text run after ih =>
      rw [write, List.append_assoc, skipContent_congr (findMention?_append_of_inert htag hp.1)]
      exact ih hp.2.2 hsilent rest
  | comment body after ih =>
      obtain ⟨hbody, hafter⟩ := hsilent
      have hend : ∀ t, IsMention tag t → '>' ∉ t.dropLast :=
        fun t ht => ht.notMem_dropLast htag (by decide) (by decide) (by decide)
      have hshape : writeComment body = ("<!--".toList ++ (body ++ ['-', '-'])) ++ ['>'] := by
        simp [writeComment]
      rw [write, List.append_assoc, hshape, ← List.append_cons,
        skipContent_congr (findMention?_append_of_end (hshape ▸ hbody) hend)]
      exact ih hp.2 hafter rest
  | element start below after ihbelow ihafter =>
      have hwithin : ∀ depth, start.tag ∉ voidTags →
          skipContent tag front depth (below.write ++ (start.writeClosing ++ (after.write ++ rest))) =
            skipContent tag front depth (start.writeClosing ++ (after.write ++ rest)) :=
        fun depth hvoid => skipContent_below htag ⟨hp.1, trivial, hp.2.2⟩
          ⟨hsilent.1, hsilent.2.1, hsilent.2.2.1, trivial⟩ hvoid ihbelow
      obtain ⟨hstart, hafter, -⟩ := hp
      obtain ⟨hvalues, -, -, hbehind⟩ := hsilent
      rw [write, List.append_assoc]
      by_cases hown : start.tag = tag
      -- one level down at the start tag, and up again at the closing tag
      · subst hown
        rw [if_neg hvoid, List.append_assoc, List.append_assoc, hstart.skipContent_own,
          hwithin _ hvoid, hstart.skipContent_ownClosing, if_neg (Nat.succ_ne_zero depth),
          Nat.add_sub_cancel]
        exact ihafter hafter hbehind rest
      · rw [List.append_assoc, skipContent_congr (hstart.findMention?_write htag hown (hvalues hown))]
        split
        next => exact ihafter hafter hbehind rest
        next hnot =>
          rw [List.append_assoc, hwithin _ hnot,
            skipContent_congr (hstart.findMention?_writeClosing htag hown)]
          exact ihafter hafter hbehind rest

/-- Reading an element that is skipped leads behind its closing tag. -/
theorem readElement_skip {skip : List Text} {start : StartTag} {below : Passage StartTag}
    (hp : (element start below nil).WellFormed StartTag.tag StartTag.Legible Inert)
    (hskip : start.tag ∈ skip) (hsilent : (element start below nil).Silent start.tag) (rest : Text) :
    let behind := (if start.tag ∈ voidTags then [] else below.write ++ start.writeClosing) ++ rest
    readElement skip (start.write ++ behind) start.tag
      (start.pairs.flatMap StartTag.writePair ++ '>' :: behind) = .ok (none, rest) := by
  intro behind
  have hstart := hp.1
  rw [readElement, hstart.readBody_write]
  by_cases hvoid : start.tag ∈ voidTags
  · simp [hskip, hvoid, behind]
  · have hcontent : skipContent start.tag (start.write ++ behind) 0 behind = .ok rest := by
      have hbehind : behind = below.write ++ (start.writeClosing ++ rest) := by
        simp only [behind, if_neg hvoid, List.append_assoc]
      rw [hbehind, skipContent_below hstart.isTag hp hsilent hvoid
        (fun hbelow hinside => skipContent_write hstart.isTag hvoid below hbelow hinside),
        hstart.skipContent_ownClosing, if_pos rfl]
    simp [hskip, hvoid, hcontent, Except.map]

end Passage

end Gleaner.Markup
