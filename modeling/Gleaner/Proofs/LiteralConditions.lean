import Gleaner.Proofs.CompilerSteps
import Gleaner.Proofs.LiteralTags

/-! # Literal tags as templates

A template reads a tag with literal attributes as one slot and writes a condition into its selector for each
of them. Names and values end where they end in markup, except that braces belong to bindings and single
quotes are characters like others.
-/

namespace Gleaner

open Text Template

namespace LiteralValue

/-- The value has the same limits in a template as in markup. -/
def Shared : LiteralValue → Prop
  | quoted mark _ => mark = '"'
  | _ => True

end LiteralValue

namespace LiteralAttribute

variable {a : LiteralAttribute} {attributes : List LiteralAttribute}
  {start selector ending gap name value rest more : Text} {bound : List Text}
  {bindings : List (Text × Binding)} {q : Char} {body : TagBody}

/-! ### Literal attributes in a template -/

theorem takeBareValue_whole (s : Text) :
    Template.takeBareValue (.whole s) =
      ((Markup.takeBareValue s).1, .whole (Markup.takeBareValue s).2) := by
  have hsame : Template.isBareChar = Markup.isBareChar := rfl
  unfold Template.takeBareValue Markup.takeBareValue Slice.whole
  simp only [hsame, List.append_nil]
  split
  next => rfl
  next => rfl

/-- A value is read as in markup where it has the same limits. -/
theorem readValue_whole (bound : List Text) (name : Text) {value : LiteralValue}
    (hvalue : value.Legible) (hshared : value.Shared) (hends : value.EndsBefore rest) {t : Text}
    (ht : value.text? = some t) :
    ∃ behind, value.write ++ rest = '=' :: behind ∧
      Template.readValue bound name (.whole behind) =
        .ok (.condition (Template.condition name t), .whole rest) := by
  cases value with
  | bare => cases ht
  | plain value =>
      obtain rfl := Option.some.inj ht
      refine ⟨value ++ rest, rfl, ?_⟩
      obtain ⟨c, more, hcons, hblank, hmark⟩ :=
        LiteralValue.cons_of_plain (by decide) hvalue.1 hvalue.2 hends
      have htake := LiteralValue.takeBareValue_plain hvalue.1 hends
      have hwhole := takeBareValue_whole (value ++ rest)
      rw [htake] at hwhole
      unfold Template.readValue
      split
      next heq =>
        obtain rfl := (List.cons.inj (hcons.symm.trans heq)).1
        exact absurd (by decide) hmark
      next heq =>
        obtain rfl := (List.cons.inj (hcons.symm.trans heq)).1
        exact absurd (by decide) hmark
      next heq => exact absurd (hcons.symm.trans heq) (List.cons_ne_nil _ _)
      next => rw [hwhole]
  | quoted mark value =>
      obtain rfl := Option.some.inj ht
      obtain rfl : mark = '"' := hshared
      refine ⟨'"' :: (value ++ '"' :: rest), by simp [LiteralValue.write], ?_⟩
      have hcut := cut_of_notMem hvalue.2 rest
      simp only [Template.readValue, Slice.whole, hcut]

/-- A template reads a literal attribute as its condition. -/
theorem readPiece_write (start : Text) (bound : List Text) (hgap : ∀ c ∈ a.gap, isBlank c = true)
    (hne : a.name ≠ []) (hname : ∀ c ∈ a.name, Template.isAttributeChar c = true)
    (hvalue : a.value.Legible) (hshared : a.value.Shared) (hends : a.value.EndsBefore rest) :
    Template.readPiece start bound (.whole (a.write ++ rest)) =
      .ok (.condition a.condition, .whole rest) := by
  have hshape : a.write ++ rest = a.gap ++ (a.name ++ (a.value.write ++ rest)) := by simp [write]
  rw [hshape, condition]
  cases htext : a.value.text? with
  | some t =>
      obtain ⟨behind, hwrite, hread⟩ :=
        readValue_whole bound (lower a.name) hvalue hshared hends htext
      rw [hwrite, Slice.whole, readPiece_name start bound hgap hne hname rfl, if_pos rfl, ← Slice.whole, hread]
  | none =>
      obtain ⟨gap, name, value⟩ := a
      cases value with
      | plain value => cases htext
      | quoted mark value => cases htext
      | bare =>
          obtain ⟨q, more, rfl⟩ : ∃ q more, rest = q :: more := by
            apply List.exists_cons_of_ne_nil
            rintro rfl
            cases hends
          have hmark : (isBlank q || q == '>' || q == '/') = true := hends
          simp only [Bool.or_eq_true, beq_iff_eq] at hmark
          have hq : Template.isAttributeChar q = false ∧ q ≠ '=' := by
            rcases hmark with (hblank | rfl) | rfl
            · refine ⟨by simp [Template.isAttributeChar, hblank], ?_⟩
              rintro rfl
              cases hblank
            all_goals decide
          change Template.readPiece start bound (.whole (gap ++ (name ++ q :: more))) = _
          rw [Slice.whole, readPiece_name start bound hgap hne hname hq.1, if_neg hq.2]
          rfl

/-- A template takes no brace for the beginning of an attribute. -/
theorem readBody_brace (start selector : Text) (bindings : List (Text × Binding))
    (hgap : ∀ c ∈ gap, isBlank c = true) (hq : q ∈ ['{', '}']) (more : Text) :
    Template.readBody start selector bindings (.whole (gap ++ q :: more)) ≠ .ok body := by
  have hblank : isBlank q = false := by
    fin_cases hq
    all_goals rfl
  have htrim : trimLeft (gap ++ q :: more) = q :: more := by
    rw [trimLeft_append hgap]
    exact trimLeft_cons_of_not hblank
  have hpiece : ∀ bound, Template.readPiece start bound (.whole (gap ++ q :: more)) =
      .error (.here (.strayInTag q) (q :: more)) := by
    intro bound
    unfold Template.readPiece Slice.whole
    dsimp only
    rw [htrim]
    fin_cases hq
    all_goals simp [Template.isAttributeChar]
  rw [Template.readBody_eq, hpiece]
  intro hbody
  cases hbody

/-- A name that a template reads to its end has no brace in it. -/
theorem isAttributeChar_of_readBody (hgap : ∀ c ∈ gap, isBlank c = true)
    (hname : ∀ c ∈ name, Markup.isAttributeChar c = true)
    (hbody : Template.readBody start selector bindings (.whole (gap ++ (name ++ rest))) = .ok body) :
    ∀ c ∈ name, Template.isAttributeChar c = true := by
  by_contra hbrace
  obtain ⟨front, q, back, hsplit, hfront, hq⟩ : ∃ front q back, name = front ++ q :: back ∧
      (∀ c ∈ front, Template.isAttributeChar c = true) ∧ Template.isAttributeChar q = false := by
    cases hdrop : name.dropWhile Template.isAttributeChar with
    | nil => exact absurd (List.dropWhile_eq_nil_iff.mp hdrop) hbrace
    | cons q back =>
        have hstop := forall_head?_dropWhile Template.isAttributeChar name q (hdrop ▸ rfl)
        refine ⟨name.takeWhile Template.isAttributeChar, q, back, ?_, ?_, hstop⟩
        · rw [← hdrop, List.takeWhile_append_dropWhile]
        · exact List.all_eq_true.mp List.all_takeWhile
  have hmark : q ∈ ['{', '}'] := by
    have hchar := hname q (by simp [hsplit])
    simp only [Markup.isAttributeChar, Bool.and_eq_true, Bool.not_eq_true', bne_iff_ne] at hchar
    simp [Template.isAttributeChar, hchar] at hq
    simp
    tauto
  rw [hsplit, List.append_assoc, List.cons_append] at hbody
  by_cases hnone : front = []
  · rw [hnone, List.nil_append] at hbody
    exact readBody_brace start selector bindings hgap hmark _ hbody
  · have hother : q ≠ '=' := by
      rintro rfl
      exact absurd hmark (by decide)
    rw [Template.readBody_eq, Slice.whole, readPiece_name start _ hgap hnone hfront hq,
      if_neg hother] at hbody
    exact readBody_brace start _ bindings (List.forall_mem_nil _) hmark _ hbody

/-- A template reads literal attributes as their conditions, up to the end of the tag. -/
theorem eq_of_readBody {selfClosed : Bool} (hgaps : ∀ a ∈ attributes, ∀ c ∈ a.gap, isBlank c = true)
    (hnames : ∀ a ∈ attributes, a.name ≠ [] ∧ ∀ c ∈ a.name, Markup.isAttributeChar c = true)
    (hvalues : ∀ a ∈ attributes, a.value.Legible) (hshared : ∀ a ∈ attributes, a.value.Shared)
    (hseparate : Separate ending attributes)
    (hfinish : ∀ bound, Template.readPiece start bound (.whole ending) =
      .ok (.finish selfClosed, .whole []))
    (hbody : Template.readBody start selector bindings (.whole (attributes.flatMap write ++ ending)) =
      .ok body) :
    body = ⟨selector ++ attributes.flatMap condition, bindings, selfClosed, .whole []⟩ := by
  induction attributes generalizing selector with
  | nil =>
      rw [List.flatMap_nil, List.nil_append, Template.readBody_eq, hfinish] at hbody
      rw [List.flatMap_nil, List.append_nil]
      exact (Except.ok.inj hbody).symm
  | cons a more ih =>
      obtain ⟨hgap, hgaps⟩ := List.forall_mem_cons.mp hgaps
      obtain ⟨⟨hne, hname⟩, hnames⟩ := List.forall_mem_cons.mp hnames
      obtain ⟨hvalue, hvalues⟩ := List.forall_mem_cons.mp hvalues
      obtain ⟨hlimits, hshared⟩ := List.forall_mem_cons.mp hshared
      obtain ⟨hends, hseparate⟩ := hseparate
      rw [List.flatMap_cons, List.append_assoc] at hbody
      have hchars : ∀ c ∈ a.name, Template.isAttributeChar c = true := by
        have hshape : a.write ++ (more.flatMap write ++ ending) =
            a.gap ++ (a.name ++ (a.value.write ++ (more.flatMap write ++ ending))) := by simp [write]
        rw [hshape] at hbody
        exact isAttributeChar_of_readBody hgap hname hbody
      rw [Template.readBody_eq, readPiece_write start _ hgap hne hchars hvalue hlimits hends] at hbody
      rw [List.flatMap_cons, ← List.append_assoc]
      exact ih hgaps hnames hvalues hshared hseparate hbody

end LiteralAttribute

namespace LiteralTag

variable {tag : LiteralTag} {start : Text} {t : Template}

/-- What follows the name of a tag ends a piece of any reader. -/
theorem readPiece_ending (htag : tag.Legible) (start : Text) (bound : List Text) :
    Template.readPiece start bound (.whole tag.ending) = .ok (.finish tag.selfClosed, .whole []) := by
  have htrim := trimLeft_ending htag []
  rw [List.append_nil, List.append_nil] at htrim
  unfold Template.readPiece Slice.whole
  dsimp only
  rw [htrim]
  cases tag.selfClosed with
  | true => rfl
  | false => rfl

/-- The name of a tag begins with a letter, so a template finds no flags before it. -/
theorem takeWhile_flags (htag : tag.Legible) (rest : Text) :
    (tag.name ++ rest).takeWhile (fun c => c == '?' || c == '!') = [] ∧
      (tag.name ++ rest).dropWhile (fun c => c == '?' || c == '!') = tag.name ++ rest := by
  obtain ⟨c, front, hname, hc, -⟩ := htag.name
  have hflag : (c == '?' || c == '!') = false := by
    simp only [Bool.or_eq_false_iff, beq_eq_false_iff_ne]
    constructor
    all_goals
      rintro rfl
      exact absurd hc (by decide)
  rw [hname]
  simp [hflag]

theorem takeWhile_selector (htag : tag.Legible) :
    (tag.name ++ tag.writeBody).takeWhile Template.isSelectorChar = tag.name ∧
      (tag.name ++ tag.writeBody).dropWhile Template.isSelectorChar = tag.writeBody := by
  obtain ⟨q, hhead, hq⟩ := head?_writeBody htag
  obtain ⟨more, hmore⟩ := List.head?_eq_some_iff.mp hhead
  have hselector : ∀ c ∈ tag.name, Template.isSelectorChar c = true := by
    intro c hc
    have hchar := Markup.forall_isNameChar htag.name c hc
    have hother : c ≠ '/' ∧ c ≠ '>' ∧ c ≠ '{' ∧ c ≠ '}' := by
      refine ⟨?_, ?_, ?_, ?_⟩
      all_goals
        rintro rfl
        cases hchar
    simp [Template.isSelectorChar, (Markup.nameFacts hchar).notBlank, hother]
  have hends : Template.isSelectorChar q = false := by
    rcases hq with hblank | rfl | rfl
    · simp [Template.isSelectorChar, hblank]
    all_goals rfl
  rw [hmore]
  exact takeWhile_run hselector hends more

theorem eq_of_readTag (htag : tag.Legible) (hshared : ∀ a ∈ tag.attributes, a.value.Shared) {read : Tag}
    (hread : Template.readTag start (.whole (tag.name ++ tag.writeBody)) = .ok read) :
    read = ⟨⟨tag.selector, false, false, [], []⟩, tag.selfClosed, .whole []⟩ := by
  obtain ⟨hnoFlags, hbehind⟩ := takeWhile_flags htag tag.writeBody
  obtain ⟨htake, hdrop⟩ := takeWhile_selector htag
  have hne : tag.name ≠ [] := by
    obtain ⟨c, front, hname, -⟩ := htag.name
    rw [hname]
    exact List.cons_ne_nil _ _
  unfold Template.readTag Slice.whole at hread
  dsimp only at hread
  rw [hnoFlags, hbehind, htake, hdrop, if_neg fun hcut => Bool.false_ne_true hcut.2, if_neg hne] at hread
  split at hread
  next => cases hread
  next body hbody =>
    obtain rfl := LiteralAttribute.eq_of_readBody htag.gaps htag.names htag.values hshared htag.separate
      (readPiece_ending htag start) hbody
    split at hread
    next => cases hread
    next => exact (Except.ok.inj hread).symm

/-- The template of a tag alone is its slot. -/
theorem eq_of_compile (htag : tag.Legible) (hshared : ∀ a ∈ tag.attributes, a.value.Shared)
    (hcompile : compile tag.write = .ok t) : t = ⟨⟨tag.selector, false, false, [], []⟩, .done⟩ := by
  have hslice : compileSlice (.whole tag.write) = .ok t := by
    unfold compile at hcompile
    cases hslice : compileSlice (.whole tag.write) with
    | error fault =>
        rw [hslice] at hcompile
        cases hcompile
    | ok other =>
        rw [hslice] at hcompile
        exact congrArg Except.ok (Except.ok.inj hcompile)
  have hpeek : Slice.peek ⟨tag.name ++ tag.writeBody, [], false⟩ ≠ some '/' := by
    obtain ⟨c, front, hname, hc, -⟩ := htag.name
    simp only [Slice.peek, Slice.rest, hname, List.append_nil, List.cons_append, List.head?_cons]
    intro heq
    obtain rfl := Option.some.inj heq
    exact absurd hc (by decide)
  obtain ⟨htake, hdrop⟩ := takeWhile_mark (c := '<') rfl (tag.name ++ tag.writeBody)
  unfold compileSlice at hslice
  rw [compileFrom_eq, write] at hslice
  simp only [Slice.whole, htake, hdrop, addLiteral_nil] at hslice
  rw [if_neg hpeek] at hslice
  split at hslice
  next => cases hslice
  next read hread =>
    obtain rfl := eq_of_readTag htag hshared hread
    cases hclosed : tag.selfClosed with
    | true =>
        rw [hclosed] at hslice
        exact (Except.ok.inj ((compileFrom_end rfl).symm.trans hslice)).symm
    | false =>
        rw [hclosed] at hslice
        exact (Except.ok.inj ((compileFrom_end rfl).symm.trans hslice)).symm

end LiteralTag
end Gleaner
