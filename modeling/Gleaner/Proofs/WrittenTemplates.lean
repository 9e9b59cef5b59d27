import Gleaner.Proofs.Compiled
import Gleaner.Proofs.CompilerSteps
import Mathlib

/-! # Written templates

The ordinary way to write a template down, under which conditions it can be told apart again, and that each
piece of a tag is read back as it was written. A slot is written as a start tag with its flags, selector
and bound attributes, then its text, what stands below it, and a closing tag, whose name is free.
-/

namespace Gleaner

open Text

namespace Text

variable {s : Text}

theorem trim_of_forall (hs : ∀ c ∈ s, isBlank c = false) : trim s = s := by
  have hright : ∀ s : Text, (∀ c ∈ s, isBlank c = false) → s.dropWhile isBlank = s := by
    intro s hs
    cases s with
    | nil => rfl
    | cons c s => exact trimLeft_cons_of_not (hs c List.mem_cons_self)
  rw [trim, trimLeft, hright s hs, trimRight, hright _ fun c hc => hs c (List.mem_reverse.mp hc),
    List.reverse_reverse]

theorem trimRight_of_forall (hs : ∀ c ∈ s, isBlank c = false) : trimRight s = s := by
  have htrim := trim_of_forall hs
  cases s with
  | nil => rfl
  | cons c s => rwa [trim, trimLeft_cons_of_not (hs c List.mem_cons_self)] at htrim

end Text

/-- The name of a binding as it is written. -/
def Binding.head (b : Binding) : Text := b.name ++ if b.nullable then ['?'] else []

/-- What stands between the braces of a written binding. -/
def Binding.body (b : Binding) : Text := b.head ++ ':' :: b.kind.name

def Segment.write : Segment → Text
  | literal t => t
  | field b => b.shown

namespace Slot

def flags (slot : Slot) : Text :=
  (if slot.optional then ['?'] else []) ++ (if slot.direct then ['!'] else [])

def writeAttribute (pair : Text × Binding) : Text := ' ' :: (pair.1 ++ '=' :: pair.2.shown)

/-- The slot without its text, which is what the start tag tells of it. -/
def head (slot : Slot) : Slot := { slot with text := [] }

/-- The start tag behind its opening bracket. -/
def writeHead (slot : Slot) : Text :=
  slot.flags ++ (slot.selector ++ (slot.attributes.flatMap writeAttribute ++ ['>']))

/-- The slot with what is written below it and a closing tag of the given name. -/
def write (closing : Text) (slot : Slot) (below : Text) : Text :=
  '<' :: (slot.writeHead ++ (slot.text.flatMap Segment.write ++
    (below ++ '<' :: '/' :: (closing ++ ['>']))))

/-- A slot that can be told apart when it is written with the parts below it and a closing tag of the
given name. In front of a listing there is no room for text of the slot. -/
structure Legible (closing : Text) (slot : Slot) (below : Parts) : Prop where
  selector_ne : slot.selector ≠ []
  selector : ∀ c ∈ slot.selector, Template.isSelectorChar c = true
  attributes : ∀ pair ∈ slot.attributes,
    pair.1 ≠ [] ∧ lower pair.1 = pair.1 ∧ ∀ c ∈ pair.1, Template.isAttributeChar c = true
  literals : ∀ t, .literal t ∈ slot.text → ∀ c ∈ t, c ≠ '<' ∧ c ≠ '{' ∧ c ≠ '}'
  /-- No two literals are neighbours. -/
  apart : slot.text.IsChain fun one next => one.binding?.isSome ∨ next.binding?.isSome
  room : slot.text ≠ [] → below.listing?.isSome → below.children ≠ []
  closing : ∀ c ∈ closing, c ≠ '>' ∧ c ≠ '{' ∧ c ≠ '}'

end Slot

namespace Parts

variable (closing : Slot → Text)

/-- The parts in order, where `closing` names the closing tags. -/
def write : Parts → Text
  | done => []
  | child slot below after => slot.write (closing slot) below.write ++ after.write
  | listing name slot below =>
    '{' :: '{' :: (name ++ ':' :: ' ' :: (slot.write (closing slot) below.write ++ ['}', '}']))

def Legible : Parts → Prop
  | done => True
  | child slot below after => slot.Legible (closing slot) below ∧ below.Legible ∧ after.Legible
  | listing _ slot below => slot.Legible (closing slot) below ∧ below.Legible

end Parts

namespace Template

def write (closing : Slot → Text) (t : Template) : Text :=
  t.slot.write (closing t.slot) (t.below.write closing)

structure Legible (closing : Slot → Text) (t : Template) : Prop where
  slot : t.slot.Legible (closing t.slot) t.below
  below : t.below.Legible closing

/-! ### Names -/

variable {c : Char} {rest beyond name start : Text} {cutShort : Bool} {b : Binding} {slot : Slot}
  {below : Parts}

theorem toNat_lt_of_isNameChar (hc : isNameChar c = true) : c.toNat < 128 := by
  simp only [isNameChar, Bool.or_eq_true, beq_iff_eq] at hc
  rcases hc with ((halphanum | rfl) | rfl) | rfl
  · exact toNat_lt_of_isAlphanum halphanum
  all_goals decide

/-- A character of a name is none of those that mean something where names are written. -/
theorem not_mark_of_isNameChar (hc : isNameChar c = true) :
    isBlank c = false ∧ c ≠ ':' ∧ c ≠ '?' ∧ c ≠ '{' ∧ c ≠ '}' :=
  forall_ascii (P := fun c => isNameChar c = true →
      isBlank c = false ∧ c ≠ ':' ∧ c ≠ '?' ∧ c ≠ '{' ∧ c ≠ '}')
    (by decide +kernel) (toNat_lt_of_isNameChar hc) hc

theorem trim_of_isName (hname : isName name = true) : trim name = name :=
  trim_of_forall fun c hc => (not_mark_of_isNameChar ((forall_isNameChar_of_isName hname).2 c hc)).1

theorem notMem_of_isName (hname : isName name = true) : ':' ∉ name :=
  fun hmem => (not_mark_of_isNameChar ((forall_isNameChar_of_isName hname).2 _ hmem)).2.1 rfl

/-! ### Bindings -/

theorem shown_eq (b : Binding) : b.shown = '{' :: (b.body ++ ['}']) := by
  simp [Binding.shown, Binding.body, Binding.head]

theorem isName_kind (hb : b.WellFormed) : isName b.kind.name = true := by
  rcases hb.kind with hkind | hkind
  · rw [hkind]
    rfl
  · rw [hkind]
    rfl

theorem not_mark_of_mem_head (hb : b.WellFormed) (hc : c ∈ b.head) :
    isBlank c = false ∧ c ≠ ':' ∧ c ≠ '{' ∧ c ≠ '}' := by
  rcases List.mem_append.mp hc with hc | hc
  · have hmark := not_mark_of_isNameChar ((forall_isNameChar_of_isName hb.name).2 c hc)
    exact ⟨hmark.1, hmark.2.1, hmark.2.2.2⟩
  · split at hc
    next =>
      obtain rfl := List.mem_singleton.mp hc
      decide
    next => cases hc

/-- No brace stands in a written binding. -/
theorem brace_notMem_body (hb : b.WellFormed) : ∀ c ∈ b.body, c ≠ '{' ∧ c ≠ '}' := by
  intro c hc
  rcases List.mem_append.mp hc with hc | hc
  · exact (not_mark_of_mem_head hb hc).2.2
  · rcases List.mem_cons.mp hc with rfl | hc
    · decide
    · have hchars := (forall_isNameChar_of_isName (isName_kind hb)).2
      exact (not_mark_of_isNameChar (hchars c hc)).2.2.2

/-- A name has no question mark, so one at the end tells that the binding is nullable. -/
theorem getLast?_head (hb : b.WellFormed) : (b.head.getLast? == some '?') = b.nullable := by
  obtain ⟨hne, hchars⟩ := forall_isNameChar_of_isName hb.name
  unfold Binding.head
  cases b.nullable with
  | true => simp
  | false =>
      obtain ⟨c, hlast⟩ := Option.ne_none_iff_exists'.mp (mt List.getLast?_eq_none_iff.mp hne)
      have hc := (not_mark_of_isNameChar (hchars c (List.mem_of_getLast? hlast))).2.2.1
      simpa [hlast] using hc

theorem name_of_head (hb : b.WellFormed) :
    (if b.nullable then trimRight b.head.dropLast else b.head) = b.name := by
  unfold Binding.head
  cases b.nullable with
  | true =>
      have hchars := (forall_isNameChar_of_isName hb.name).2
      rw [if_pos rfl, if_pos rfl, List.dropLast_concat]
      exact trimRight_of_forall fun c hc => (not_mark_of_isNameChar (hchars c hc)).1
  | false => simp

/-- A binding of text may be written without its type. -/
theorem readBinding_head (hb : b.WellFormed) (hkind : b.kind = .string) : readBinding b.head = .ok b := by
  have hcolon : ∀ c ∈ b.head, (c != ':') = true := fun c hc => by
    simpa using (not_mark_of_mem_head hb hc).2.1
  have hdrop : b.head.dropWhile (· != ':') = [] := List.dropWhile_eq_nil_iff.mpr hcolon
  have hhead : trim b.head = b.head := trim_of_forall fun c hc => (not_mark_of_mem_head hb hc).1
  unfold readBinding
  simp only [List.takeWhile_eq_self_iff.mpr hcolon, hdrop, hhead, getLast?_head hb, name_of_head hb,
    hb.name]
  obtain ⟨name, kind, nullable⟩ := b
  obtain rfl : kind = .string := hkind
  rfl

theorem readBinding_body (hb : b.WellFormed) : readBinding b.body = .ok b := by
  obtain ⟨htake, hdrop⟩ : b.body.takeWhile (· != ':') = b.head ∧
      b.body.dropWhile (· != ':') = ':' :: b.kind.name :=
    takeWhile_run (fun c hc => by simpa using (not_mark_of_mem_head hb hc).2.1) rfl _
  have hhead : trim b.head = b.head := trim_of_forall fun c hc => (not_mark_of_mem_head hb hc).1
  have hkind := trim_of_isName (isName_kind hb)
  unfold readBinding
  simp only [htake, hdrop, hhead, getLast?_head hb, name_of_head hb, hkind, hb.name]
  obtain ⟨name, kind, nullable⟩ := b
  rcases hb.kind with hkind | hkind
  · obtain rfl : kind = .string := hkind
    rfl
  · obtain rfl : kind = .number := hkind
    rfl

/-! ### Tags -/

theorem readPiece_attribute {pair : Text × Binding} {bound : List Text} (hb : pair.2.WellFormed)
    (hne : pair.1 ≠ []) (hlower : lower pair.1 = pair.1)
    (hchars : ∀ c ∈ pair.1, isAttributeChar c = true) (hnew : pair.1 ∉ bound) :
    readPiece start bound ⟨Slot.writeAttribute pair ++ rest, beyond, cutShort⟩ =
      .ok (.binding pair.1 pair.2, ⟨rest, beyond, cutShort⟩) := by
  obtain ⟨name, b⟩ := pair
  have hshape : Slot.writeAttribute (name, b) ++ rest =
      [' '] ++ (name ++ '=' :: '{' :: (b.body ++ '}' :: rest)) := by
    simp [Slot.writeAttribute, shown_eq]
  have hcut : cut ['}'] (b.body ++ '}' :: rest) = some (b.body, rest) :=
    cut_of_notMem (fun hmem => (brace_notMem_body hb _ hmem).2 rfl) rest
  rw [hshape, readPiece_name start bound (List.forall_mem_singleton.mpr rfl) hne hchars rfl, if_pos rfl]
  simp only [readValue, hcut, readBinding_body hb, hlower, if_neg hnew]

theorem readPiece_close {bound : List Text} :
    readPiece start bound ⟨'>' :: rest, beyond, cutShort⟩ =
      .ok (.finish false, ⟨rest, beyond, cutShort⟩) := by
  have htrim : trimLeft ('>' :: rest) = '>' :: rest := trimLeft_cons_of_not (by decide)
  simp only [readPiece, htrim]

/-- Attributes that are each read as a binding are read one after the other, up to the closing bracket. -/
theorem readBody_of_bindings {α : Type} {write : α → Text} {binding : α → Text × Binding} {items : List α}
    {selector : Text} {known : List (Text × Binding)}
    (hitems : ∀ item ∈ items, ∀ bound rest, (binding item).1 ∉ bound →
      readPiece start bound ⟨write item ++ rest, beyond, cutShort⟩ =
        .ok (.binding (binding item).1 (binding item).2, ⟨rest, beyond, cutShort⟩))
    (hnodup : ((known ++ items.map binding).map (·.1)).Nodup) :
    readBody start selector known ⟨items.flatMap write ++ '>' :: rest, beyond, cutShort⟩ =
      .ok ⟨selector, known ++ items.map binding, false, ⟨rest, beyond, cutShort⟩⟩ := by
  induction items generalizing known with
  | nil =>
      rw [List.flatMap_nil, List.nil_append, readBody_eq, readPiece_close, List.map_nil, List.append_nil]
  | cons item more ih =>
      obtain ⟨hitem, hmore⟩ := List.forall_mem_cons.mp hitems
      rw [List.map_cons] at hnodup
      have hnew : (binding item).1 ∉ known.map (·.1) := by
        rw [List.map_append, List.nodup_append] at hnodup
        intro hmem
        exact hnodup.2.2 _ hmem _ List.mem_cons_self rfl
      rw [List.append_cons] at hnodup
      have hread := ih hmore hnodup
      rw [List.append_assoc, List.singleton_append, ← List.map_cons] at hread
      rw [List.flatMap_cons, List.append_assoc, readBody_eq, hitem _ _ hnew]
      exact hread

/-- The attributes of a written tag are read one after the other, up to the closing bracket. -/
theorem readBody_attributes {selector : Text} {known attributes : List (Text × Binding)}
    (hbindings : ∀ pair ∈ attributes, pair.2.WellFormed)
    (hnames : ∀ pair ∈ attributes,
      pair.1 ≠ [] ∧ lower pair.1 = pair.1 ∧ ∀ c ∈ pair.1, isAttributeChar c = true)
    (hnodup : ((known ++ attributes).map (·.1)).Nodup) :
    readBody start selector known
        ⟨attributes.flatMap Slot.writeAttribute ++ '>' :: rest, beyond, cutShort⟩ =
      .ok ⟨selector, known ++ attributes, false, ⟨rest, beyond, cutShort⟩⟩ := by
  rw [← List.map_id attributes] at hnodup
  conv_rhs => rw [← List.map_id attributes]
  refine readBody_of_bindings (fun pair hpair bound rest hnew => ?_) hnodup
  obtain ⟨hne, hlower, hchars⟩ := hnames pair hpair
  exact readPiece_attribute (hbindings pair hpair) hne hlower hchars hnew

/-- A selector does not begin with a character that is a flag. -/
theorem not_flag_of_read {selector : Text} {parsed : Selector}
    (hread : Selector.read (c :: selector) = .ok parsed) : (c == '?' || c == '!') = false := by
  by_contra hflag
  simp only [Bool.not_eq_false, Bool.or_eq_true, beq_iff_eq] at hflag
  have hblank : isBlank c = false := by
    rcases hflag with rfl | rfl
    all_goals decide
  obtain ⟨more, htrim⟩ : ∃ more, trim (c :: selector) = c :: more := by
    rw [trim, trimLeft_cons_of_not hblank, trimRight_eq_rdropWhile]
    cases hright : (c :: selector).rdropWhile isBlank with
    | nil =>
        have hall := List.rdropWhile_eq_nil_iff.mp hright c List.mem_cons_self
        exact absurd hall (by simp [hblank])
    | cons d more =>
        have hprefix : d :: more <+: c :: selector := hright ▸ List.rdropWhile_prefix isBlank _
        exact ⟨more, congrArg (· :: more) (List.cons_prefix_cons.mp hprefix).1⟩
  have hstep : ∀ step, Selector.readStep (c :: step) = .error (.unexpected c) := by
    intro step
    rcases hflag with rfl | rfl
    all_goals simp [Selector.readStep, Selector.isTagStart, Selector.readConditions]
  rw [Selector.read, htrim, Selector.splitSteps?, Selector.splitFrom?, if_neg (by simp [hblank])] at hread
  cases hsplit : Selector.splitFrom? (Selector.Zone.plain.next c) more with
  | none => simp [hsplit] at hread
  | some result => simp [hsplit, hstep] at hread

/-- The flags of a written tag end where its selector begins. -/
theorem takeWhile_flags (hselector : slot.selector ≠ []) {parsed : Selector}
    (hread : Selector.read slot.selector = .ok parsed) (rest : Text) :
    (slot.flags ++ (slot.selector ++ rest)).takeWhile (fun c => c == '?' || c == '!') = slot.flags ∧
      (slot.flags ++ (slot.selector ++ rest)).dropWhile (fun c => c == '?' || c == '!') =
        slot.selector ++ rest := by
  obtain ⟨c, more, hcons⟩ := List.exists_cons_of_ne_nil hselector
  rw [hcons] at hread ⊢
  refine takeWhile_run ?_ (not_flag_of_read hread) _
  unfold Slot.flags
  cases slot.optional <;> cases slot.direct <;> simp

/-- The selector of a written tag ends where its attributes or the tag end. -/
theorem takeWhile_selector (hselector : ∀ c ∈ slot.selector, isSelectorChar c = true) (rest : Text) :
    let tail := slot.attributes.flatMap Slot.writeAttribute ++ '>' :: rest
    (slot.selector ++ tail).takeWhile isSelectorChar = slot.selector ∧
      (slot.selector ++ tail).dropWhile isSelectorChar = tail := by
  cases slot.attributes with
  | nil => exact takeWhile_run hselector (by decide) _
  | cons pair pairs => exact takeWhile_run hselector (by decide) _

/-- A written start tag is read as the slot without its text. -/
theorem readTag_writeHead {inOptional : Bool} {closing : Text} (hslot : slot.WellFormed inOptional)
    (hlegible : slot.Legible closing below) :
    readTag start ⟨slot.writeHead ++ rest, beyond, cutShort⟩ =
      .ok ⟨slot.head, false, ⟨rest, beyond, cutShort⟩⟩ := by
  obtain ⟨parsed, hread⟩ := hslot.selector
  have hinside : slot.writeHead ++ rest =
      slot.flags ++ (slot.selector ++ (slot.attributes.flatMap Slot.writeAttribute ++ '>' :: rest)) := by
    simp [Slot.writeHead]
  obtain ⟨hflags, hbehind⟩ := takeWhile_flags hlegible.selector_ne hread
    (slot.attributes.flatMap Slot.writeAttribute ++ '>' :: rest)
  obtain ⟨hselector, htail⟩ := takeWhile_selector hlegible.selector rest
  have hbody : readBody start slot.selector []
      ⟨slot.attributes.flatMap Slot.writeAttribute ++ '>' :: rest, beyond, cutShort⟩ = _ :=
    readBody_attributes hslot.attributes hlegible.attributes hslot.nodup
  have hoptional : slot.flags.contains '?' = slot.optional := by
    unfold Slot.flags
    cases slot.optional <;> cases slot.direct <;> rfl
  have hdirect : slot.flags.contains '!' = slot.direct := by
    unfold Slot.flags
    cases slot.optional <;> cases slot.direct <;> rfl
  unfold readTag
  simp only [hinside, hflags, hbehind, hselector, htail, List.append_eq_nil_iff, hlegible.selector_ne,
    false_and, if_false, hbody, hread, hoptional, hdirect]
  rfl

theorem peek_writeHead {closing : Text} (hlegible : slot.Legible closing below) :
    Slice.peek ⟨slot.writeHead ++ rest, beyond, cutShort⟩ ≠ some '/' := by
  obtain ⟨c, more, hselector⟩ := List.exists_cons_of_ne_nil hlegible.selector_ne
  have hc := hlegible.selector c (hselector ▸ List.mem_cons_self)
  simp only [isSelectorChar, Bool.and_eq_true, bne_iff_ne] at hc
  rw [Slice.peek, Slice.rest, Slot.writeHead, Slot.flags, hselector]
  cases slot.optional <;> cases slot.direct <;> simp [hc.1.1.1.2]

end Template
end Gleaner
