import Gleaner.Proofs.CompilerSteps
import Gleaner.Proofs.WrittenTemplates

/-! # Recompiling written templates

Compiling undoes writing. What is written below a slot changes the draft and the run of text in a way that
can be told without reading it, whatever follows; and braces are balanced in everything written, so that
the end of a listing is found at any depth.
-/

namespace Gleaner

open Text

namespace Template

variable {start beyond rest t name inside : Text} {cutShort : Bool} {d : Draft} {r : Run} {c : Char}
  {b : Binding} {slot : Slot} {below p : Parts} {s : Slice} {closing : Slot → Text}

/-! ### Text of a slot -/

theorem readField_body (hb : b.WellFormed) :
    readField ⟨'{' :: (b.body ++ '}' :: rest), beyond, cutShort⟩ = .ok (b, ⟨rest, beyond, cutShort⟩) := by
  have hcut : cut ['}'] (b.body ++ '}' :: rest) = some (b.body, rest) :=
    cut_of_notMem (fun hmem => (brace_notMem_body hb _ hmem).2 rfl) rest
  simp only [readField, List.tail_cons, hcut, readBinding_body hb]

theorem peek_body (hb : b.WellFormed) : Slice.peek ⟨b.body ++ rest, beyond, cutShort⟩ ≠ some '{' := by
  obtain ⟨c, more, hbody⟩ : ∃ c more, b.body = c :: more := by
    apply List.exists_cons_of_ne_nil
    simp [Binding.body]
  have hc := (brace_notMem_body hb c (hbody ▸ List.mem_cons_self)).1
  simpa [Slice.peek, Slice.rest, hbody] using hc

theorem addLiteral_trimmed (ht : t ≠ [] ∧ trim t = t) :
    r.addLiteral t = { r with segments := r.segments ++ [.literal t] } := by
  simp only [Run.addLiteral, ht.2, List.isEmpty_iff, ht.1, if_false]

/-- The text of a slot goes to the run, up to the tag or listing behind it. -/
theorem compileFrom_segments {text : List Segment} (hopened : d.opened ≠ [])
    (hc : endsLiteral c = true) (htext : ∀ segment ∈ text, segment.WellFormed d.inOptional)
    (hliterals : ∀ t, .literal t ∈ text → ∀ c ∈ t, c ≠ '<' ∧ c ≠ '{' ∧ c ≠ '}')
    (hapart : text.IsChain fun one next => one.binding?.isSome ∨ next.binding?.isSome) :
    compileFrom start d r ⟨text.flatMap Segment.write ++ c :: rest, beyond, cutShort⟩ =
      compileFrom start d { r with segments := r.segments ++ text } ⟨c :: rest, beyond, cutShort⟩ := by
  induction text generalizing r with
  | nil => rw [List.append_nil, List.flatMap_nil, List.nil_append]
  | cons segment more ih =>
      obtain ⟨hsegment, htext⟩ := List.forall_mem_cons.mp htext
      have hmore := fun r => ih (r := r) htext (fun t ht => hliterals t (List.mem_cons_of_mem _ ht))
        hapart.tail
      rw [List.flatMap_cons, List.append_assoc, List.append_cons r.segments]
      cases segment with
      | field b =>
          rw [Segment.write, shown_eq, List.cons_append, List.append_assoc, List.singleton_append,
            compileFrom_field hopened (peek_body hsegment.1) (readField_body hsegment.1) hsegment.2,
            hmore]
          rfl
      | literal t =>
          have ht : ∀ c ∈ t, endsLiteral c = false := by
            intro c hc
            have hmark := hliterals t List.mem_cons_self c hc
            simp [endsLiteral, hmark.1, hmark.2.1]
          -- a binding comes next, or the end of the text
          obtain ⟨c', rest', hc', hnext⟩ : ∃ c' rest', endsLiteral c' = true ∧
              more.flatMap Segment.write ++ c :: rest = c' :: rest' := by
            cases more with
            | nil => exact ⟨c, rest, hc, rfl⟩
            | cons next more =>
                cases next with
                | literal t => simp [Segment.binding?] at hapart
                | field b =>
                    refine ⟨'{', b.body ++ '}' :: (more.flatMap Segment.write ++ c :: rest), rfl, ?_⟩
                    simp [Segment.write, shown_eq]
          rw [Segment.write, hnext, compileFrom_literal ht hc', ← hnext, addLiteral_trimmed hsegment,
            hmore]

/-! ### Balanced braces -/

/-- A text whose braces are balanced: inside of braces it ends nothing. -/
def Balanced (s : Text) : Prop :=
  ∀ depth rest, closeBraces? (depth + 1) (s ++ rest) =
    (closeBraces? (depth + 1) rest).map fun (inner, left) => (s ++ inner, left)

theorem balanced_nil : Balanced [] := by
  intro depth rest
  simp

theorem Balanced.append (hs : Balanced t) (ht : Balanced rest) : Balanced (t ++ rest) := by
  intro depth more
  rw [List.append_assoc, hs, ht, Option.map_map]
  congr 1
  funext pair
  simp

theorem balanced_of_notMem (ht : ∀ c ∈ t, c ≠ '{' ∧ c ≠ '}') : Balanced t := by
  induction t with
  | nil => exact balanced_nil
  | cons c t ih =>
      obtain ⟨hc, ht⟩ := List.forall_mem_cons.mp ht
      intro depth rest
      rw [List.cons_append, closeBraces?, if_neg (fun hclose => hc.2 hclose.1)]
      simp only [if_neg hc.1, if_neg hc.2]
      rw [ih ht, Option.map_map]
      rfl

theorem Balanced.braces (ht : Balanced t) : Balanced ('{' :: (t ++ ['}'])) := by
  intro depth rest
  rw [List.cons_append, List.append_assoc, List.singleton_append, closeBraces?, if_neg (by simp)]
  simp only [if_true]
  rw [ht, closeBraces?, if_neg (by simp)]
  simp [Option.map_map, Function.comp_def]

theorem balanced_flatMap {α : Type} {write : α → Text} {items : List α}
    (hitems : ∀ item ∈ items, Balanced (write item)) : Balanced (items.flatMap write) := by
  induction items with
  | nil => exact balanced_nil
  | cons item more ih =>
      obtain ⟨hitem, hmore⟩ := List.forall_mem_cons.mp hitems
      rw [List.flatMap_cons]
      exact hitem.append (ih hmore)

theorem balanced_shown (hb : b.WellFormed) : Balanced b.shown := by
  rw [shown_eq]
  exact (balanced_of_notMem (brace_notMem_body hb)).braces

theorem balanced_attribute {pair : Text × Binding} (hb : pair.2.WellFormed)
    (hname : ∀ c ∈ pair.1, isAttributeChar c = true) : Balanced (Slot.writeAttribute pair) := by
  have hfront : Balanced (' ' :: (pair.1 ++ ['='])) := by
    refine balanced_of_notMem ?_
    simp only [List.forall_mem_cons, List.forall_mem_append]
    refine ⟨by decide, ?_, by decide, List.forall_mem_nil _⟩
    intro c hc
    have hchar := hname c hc
    simp only [isAttributeChar, Bool.and_eq_true, bne_iff_ne] at hchar
    exact ⟨hchar.1.1.1.2, hchar.1.1.2⟩
  have hwritten : Slot.writeAttribute pair = ' ' :: (pair.1 ++ ['=']) ++ pair.2.shown := by
    simp [Slot.writeAttribute]
  rw [hwritten]
  exact hfront.append (balanced_shown hb)

theorem balanced_writeHead {inOptional : Bool} {name : Text} (hslot : slot.WellFormed inOptional)
    (hlegible : slot.Legible name below) : Balanced slot.writeHead := by
  have hflags : Balanced slot.flags := by
    refine balanced_of_notMem ?_
    unfold Slot.flags
    cases slot.optional <;> cases slot.direct <;> simp
  have hselector : Balanced slot.selector := by
    refine balanced_of_notMem ?_
    intro c hc
    have hchar := hlegible.selector c hc
    simp only [isSelectorChar, Bool.and_eq_true, bne_iff_ne] at hchar
    exact ⟨hchar.1.2, hchar.2⟩
  have hattributes : Balanced (slot.attributes.flatMap Slot.writeAttribute) := by
    refine balanced_flatMap ?_
    intro pair hpair
    exact balanced_attribute (hslot.attributes pair hpair) (hlegible.attributes pair hpair).2.2
  have hending : Balanced ['>'] := balanced_of_notMem (by simp)
  exact hflags.append (hselector.append (hattributes.append hending))

theorem balanced_text {inOptional : Bool} {name : Text} (hslot : slot.WellFormed inOptional)
    (hlegible : slot.Legible name below) : Balanced (slot.text.flatMap Segment.write) := by
  refine balanced_flatMap ?_
  intro segment hsegment
  cases segment with
  | literal t => exact balanced_of_notMem fun c hc => (hlegible.literals t hsegment c hc).2
  | field b => exact balanced_shown (hslot.text _ hsegment).1

theorem balanced_write {inOptional : Bool} {name : Text} (hslot : slot.WellFormed inOptional)
    (hlegible : slot.Legible name below) (hinside : Balanced inside) :
    Balanced (slot.write name inside) := by
  have hopening : Balanced ['<'] := balanced_of_notMem (by simp)
  have hclosing : Balanced ('<' :: '/' :: (name ++ ['>'])) := by
    refine balanced_of_notMem ?_
    simp only [List.forall_mem_cons, List.forall_mem_append]
    exact ⟨by decide, by decide, fun c hc => (hlegible.closing c hc).2, by decide,
      List.forall_mem_nil _⟩
  exact hopening.append ((balanced_writeHead hslot hlegible).append
    ((balanced_text hslot hlegible).append (hinside.append hclosing)))

/-- Braces are balanced in all that is written below a slot. -/
theorem balanced_parts {inOptional : Bool} (hp : p.WellFormed inOptional)
    (hlegible : p.Legible closing) : Balanced (p.write closing) := by
  induction p generalizing inOptional with
  | done => exact balanced_nil
  | child slot below after ihbelow ihafter =>
      obtain ⟨hslot, hbelow, hafter⟩ := hp
      obtain ⟨hlegibleSlot, hlegibleBelow, hlegibleAfter⟩ := hlegible
      exact (balanced_write hslot hlegibleSlot (ihbelow hbelow hlegibleBelow)).append
        (ihafter hafter hlegibleAfter)
  | listing name slot below ih =>
      obtain ⟨hname, -, -, hslot, hbelow⟩ := hp
      have hnameBalanced : Balanced (name ++ [':', ' ']) := by
        refine balanced_of_notMem ?_
        intro c hc
        rcases List.mem_append.mp hc with hc | hc
        · exact (not_mark_of_isNameChar ((forall_isNameChar_of_isName hname).2 c hc)).2.2.2
        · fin_cases hc
          all_goals decide
      have hitems := hnameBalanced.append
        (balanced_write hslot hlegible.1 (ih hbelow hlegible.2))
      have hwritten : Parts.write closing (.listing name slot below) =
          '{' :: ('{' :: ((name ++ [':', ' '] ++ slot.write (closing slot) (below.write closing)) ++
            ['}']) ++ ['}']) := by
        simp [Parts.write]
      rw [hwritten]
      exact hitems.braces.braces

/-- A written listing ends where it was ended. -/
theorem readListing_write (rest beyond : Text) (cutShort : Bool) {items : Text}
    (hname : isName name = true) (hitems : Balanced items) :
    readListing ⟨'{' :: '{' :: (name ++ ':' :: ' ' :: (items ++ '}' :: '}' :: rest)), beyond, cutShort⟩ =
      .ok ⟨name, ⟨' ' :: items, '}' :: '}' :: (rest ++ beyond), false⟩, ⟨rest, beyond, cutShort⟩⟩ := by
  obtain ⟨inner, hinner⟩ : ∃ inner : Text, inner = name ++ ':' :: ' ' :: items := ⟨_, rfl⟩
  have hbalanced : Balanced inner := by
    rw [hinner]
    have hnameBalanced := balanced_of_notMem fun c hc =>
      (not_mark_of_isNameChar ((forall_isNameChar_of_isName hname).2 c hc)).2.2.2
    have hcolon : Balanced [':', ' '] := balanced_of_notMem (by simp)
    exact hnameBalanced.append (hcolon.append hitems)
  have hclose : closeBraces? 2 (inner ++ '}' :: '}' :: rest) = some (inner ++ ['}'], rest) := by
    rw [hbalanced 1]
    simp [closeBraces?]
  have hcut : cut [':'] inner = some (name, ' ' :: items) := by
    rw [hinner]
    exact cut_of_notMem (notMem_of_isName hname) _
  have hinside : name ++ ':' :: ' ' :: (items ++ '}' :: '}' :: rest) = inner ++ '}' :: '}' :: rest := by
    simp [hinner]
  simp only [readListing, List.drop_succ_cons, List.drop_zero, hinside, hclose, List.dropLast_concat, hcut,
    trim_of_isName hname, hname, if_true]
  simp

/-! ### Drafts -/

/-- The draft and the run after the parts below the innermost open slot have been read. -/
def readInto : Parts → Draft → Run → Draft × Run
  | .done, d, r => (d, r)
  | .child slot below after, d, r => readInto after ((r.settle d).attach ⟨slot, below⟩) .empty
  | .listing name slot below, d, r => (d.setListing name ⟨slot, below⟩, { r with listed := true })

/-- An open slot that has taken in the text of a run. -/
def OpenSlot.settle (o : OpenSlot) (r : Run) : OpenSlot :=
  { o with slot := { o.slot with text := o.slot.text ++ if r.listed then [] else r.segments } }

/-- An open slot that has taken in text and all parts below it. -/
def OpenSlot.fill (o : OpenSlot) (segments : List Segment) (p : Parts) : OpenSlot :=
  { slot := { o.slot with text := o.slot.text ++ segments }
    inOptional := o.inOptional
    children := o.children ++ p.children
    listing := p.listing? }

/-- The slot as its start tag opens it. -/
def OpenSlot.ofSlot (slot : Slot) (inOptional : Bool) : OpenSlot := ⟨slot.head, inOptional, [], none⟩

variable {root : Option Template} {o : OpenSlot} {outer : List OpenSlot}

theorem settle_opened : r.settle ⟨root, o :: outer⟩ = ⟨root, o.settle r :: outer⟩ := by
  unfold Run.settle OpenSlot.settle
  split
  next => rw [List.append_nil]
  next => rfl

theorem close_opened (root : Option Template) (o : OpenSlot) (outer : List OpenSlot) :
    (Draft.mk root (o :: outer)).close = (Draft.mk root outer).attach o.template := rfl

/-- Once the text is settled an open slot has taken in the parts as they are. -/
theorem settle_readInto (root : Option Template) (outer : List OpenSlot)
    (hlisted : r.listed = false) (hlisting : o.listing = none)
    (hroom : r.segments ≠ [] → p.listing?.isSome → p.children ≠ []) :
    (readInto p ⟨root, o :: outer⟩ r).2.settle (readInto p ⟨root, o :: outer⟩ r).1 =
      ⟨root, o.fill r.segments p :: outer⟩ := by
  induction p generalizing o r with
  | done =>
      rw [readInto, settle_opened, OpenSlot.settle, if_neg (by simp [hlisted])]
      simp [OpenSlot.fill, Parts.children, Parts.listing?, hlisting]
  | child slot below after _ ih =>
      rw [readInto, settle_opened, Draft.attach]
      have hafter := ih (r := .empty)
        (o := { o.settle r with children := o.children ++ [⟨slot, below⟩] }) rfl hlisting
        fun hne => absurd rfl hne
      refine hafter.trans ?_
      simp [OpenSlot.fill, OpenSlot.settle, hlisted, Run.empty, Parts.children, Parts.listing?]
  | listing name slot below _ =>
      have hnone : r.segments = [] := by
        by_contra hsome
        exact hroom hsome rfl rfl
      rw [readInto, Draft.setListing]
      dsimp only
      rw [settle_opened]
      simp [OpenSlot.fill, OpenSlot.settle, hnone, Parts.children, Parts.listing?]

theorem build_parts (p : Parts) : Parts.build p.listing? p.children = p := by
  induction p with
  | done => rfl
  | child slot below after _ ih => rw [Parts.listing?, Parts.children, Parts.build, ih]
  | listing name slot below _ => rfl

theorem template_fill (slot : Slot) (inOptional : Bool) (p : Parts) :
    ((OpenSlot.ofSlot slot inOptional).fill slot.text p).template = ⟨slot, p⟩ := by
  simp [OpenSlot.template, OpenSlot.fill, OpenSlot.ofSlot, Slot.head, build_parts]

theorem endsLiteral_write (closing : Slot → Text) (p : Parts) (rest : Text) :
    ∃ c more, p.write closing ++ '<' :: rest = c :: more ∧ endsLiteral c = true := by
  cases p with
  | done => exact ⟨'<', rest, rfl, rfl⟩
  | child slot below after =>
      rw [Parts.write, Slot.write]
      exact ⟨'<', _, rfl, rfl⟩
  | listing name slot below =>
      rw [Parts.write]
      exact ⟨'{', _, rfl, rfl⟩

/-- Whatever surrounds them, the written parts of an open slot are read into the draft. -/
def Reads (closing : Slot → Text) (p : Parts) : Prop :=
  ∀ start root o outer r rest beyond cutShort, o.listing = none → p.WellFormed o.inOptional →
    compileFrom start ⟨root, o :: outer⟩ r ⟨p.write closing ++ rest, beyond, cutShort⟩ =
      compileFrom start (readInto p ⟨root, o :: outer⟩ r).1 (readInto p ⟨root, o :: outer⟩ r).2
        ⟨rest, beyond, cutShort⟩

/-- A written slot with what is below it is attached to the draft. -/
theorem compileFrom_slot (hslot : slot.WellFormed (slot.optional || (r.settle d).inOptional))
    (hbelow : below.WellFormed (slot.optional || (r.settle d).inOptional))
    (hlegible : slot.Legible (closing slot) below) (hreads : Reads closing below)
    (hrefusal : (r.settle d).refusal? slot.head = none) :
    compileFrom start d r
        ⟨slot.write (closing slot) (below.write closing) ++ rest, beyond, cutShort⟩ =
      compileFrom start ((r.settle d).attach ⟨slot, below⟩) .empty ⟨rest, beyond, cutShort⟩ := by
  have hname : '>' ∉ closing slot := fun hmem => (hlegible.closing _ hmem).1 rfl
  -- the tag opens the slot without text, then its text is read into the run
  obtain ⟨c, more, hmore, hc⟩ := endsLiteral_write closing below
    ('/' :: (closing slot ++ '>' :: rest))
  have hwritten : slot.write (closing slot) (below.write closing) ++ rest =
      '<' :: (slot.writeHead ++ (slot.text.flatMap Segment.write ++ c :: more)) := by
    simp [Slot.write, ← hmore]
  have hinOptional : ((r.settle d).enter slot.head).inOptional =
      (slot.optional || (r.settle d).inOptional) := rfl
  rw [hwritten, compileFrom_tag (peek_writeHead hlegible) (fun _ => readTag_writeHead hslot hlegible)
    hrefusal]
  dsimp only
  rw [if_neg Bool.false_ne_true, compileFrom_segments (List.cons_ne_nil _ _) hc (hinOptional ▸ hslot.text)
    hlegible.literals hlegible.apart, ← hmore]
  -- so are the parts below, and the closing tag puts everything together
  have hstep := hreads start (r.settle d).root (.ofSlot slot (slot.optional || (r.settle d).inOptional))
    (r.settle d).opened ⟨slot.text, false⟩ ('<' :: '/' :: (closing slot ++ '>' :: rest)) beyond cutShort
    rfl hbelow
  have hsettled := settle_readInto (r := ⟨slot.text, false⟩) (p := below)
    (o := .ofSlot slot (slot.optional || (r.settle d).inOptional)) (r.settle d).root
    (r.settle d).opened rfl rfl hlegible.room
  rw [compileFrom_close hname, hsettled, close_opened, template_fill] at hstep
  exact hstep

/-- A written template on its own is compiled to what it was. -/
theorem compileFrom_root (hoptional : slot.optional = false) (hdirect : slot.direct = false)
    (hslot : slot.WellFormed false) (hbelow : below.WellFormed false)
    (hlegible : slot.Legible (closing slot) below) (hreads : Reads closing below) :
    compileFrom start .empty .empty
        ⟨slot.write (closing slot) (below.write closing), beyond, cutShort⟩ = .ok ⟨slot, below⟩ := by
  have hin : (slot.optional || (Run.empty.settle .empty).inOptional) = false := by
    rw [hoptional]
    rfl
  have hrefusal : (Run.empty.settle .empty).refusal? slot.head = none := by
    simp [Draft.refusal?, Run.settle, Run.empty, Draft.addText, Draft.empty, Slot.head, hoptional, hdirect]
  have hread : compileFrom start .empty .empty
      ⟨slot.write (closing slot) (below.write closing) ++ [], beyond, cutShort⟩ = _ :=
    compileFrom_slot (hin.symm ▸ hslot) (hin.symm ▸ hbelow) hlegible hreads hrefusal
  rw [List.append_nil] at hread
  exact hread.trans (compileFrom_end rfl)

theorem reads_of_legible (hlegible : p.Legible closing) : Reads closing p := by
  induction p with
  | done => exact fun _ _ _ _ _ _ _ _ _ _ => rfl
  | child slot below after ihbelow ihafter =>
      obtain ⟨hslotLegible, hbelowLegible, hafterLegible⟩ := hlegible
      intro start root o outer r rest beyond cutShort hlisting hp
      obtain ⟨hslot, hbelow, hafter⟩ := hp
      have hin : (slot.optional || (r.settle ⟨root, o :: outer⟩).inOptional) =
          (o.inOptional || slot.optional) := by
        rw [settle_opened, Bool.or_comm]
        rfl
      have hrefusal : (r.settle ⟨root, o :: outer⟩).refusal? slot.head = none := by
        rw [settle_opened]
        rfl
      rw [Parts.write, List.append_assoc, compileFrom_slot (hin.symm ▸ hslot) (hin.symm ▸ hbelow)
        hslotLegible (ihbelow hbelowLegible) hrefusal, readInto, settle_opened]
      exact ihafter hafterLegible start root
        { o.settle r with children := (o.settle r).children ++ [⟨slot, below⟩] } outer .empty rest beyond
        cutShort hlisting hafter
  | listing name slot below ih =>
      intro start root o outer r rest beyond cutShort hlisting hp
      obtain ⟨hname, hoptional, hdirect, hslot, hbelow⟩ := hp
      have hitems : Balanced (slot.write (closing slot) (below.write closing)) :=
        balanced_write hslot hlegible.1 (balanced_parts hbelow hlegible.2)
      have hwritten := readListing_write rest beyond cutShort hname hitems
      have hcompile : ∀ start beyond, compileFrom start .empty .empty
          ⟨' ' :: slot.write (closing slot) (below.write closing), beyond, false⟩ = .ok ⟨slot, below⟩ := by
        intro start beyond
        have hroot : compileFrom start .empty .empty
            ⟨slot.write (closing slot) (below.write closing), beyond, false⟩ = .ok ⟨slot, below⟩ :=
          compileFrom_root hoptional hdirect hslot hbelow hlegible.1 (ih hlegible.2)
        rw [← hroot, Slot.write]
        exact compileFrom_literal (t := [' ']) (by simp [endsLiteral]) rfl
      have hinside : Parts.write closing (.listing name slot below) ++ rest =
          '{' :: '{' :: (name ++ ':' :: ' ' ::
            (slot.write (closing slot) (below.write closing) ++ '}' :: '}' :: rest)) := by
        simp [Parts.write]
      have hfirst : (Draft.mk root (o :: outer)).hasListing = false := by
        simp [Draft.hasListing, hlisting]
      rw [hinside, compileFrom_listing (List.cons_ne_nil _ _) rfl hfirst hwritten (hcompile _ _)]
      rfl

/-- Compiling undoes writing: a well-formed template that can be told apart when it is written is what its
written form is compiled to, whatever the names in its closing tags are. -/
theorem compile_write {t : Template} (ht : t.WellFormed) (hlegible : t.Legible closing) :
    compile (t.write closing) = .ok t := by
  have hread : compileFrom (t.write closing) .empty .empty ⟨t.write closing, [], false⟩ = .ok t :=
    compileFrom_root ht.notOptional ht.notDirect ht.slot ht.below hlegible.slot
      (reads_of_legible hlegible.below)
  have hslice : compileSlice (.whole (t.write closing)) = .ok t := by
    rw [compileSlice, Slice.rest, Slice.whole, List.append_nil]
    exact hread
  rw [compile, hslice]
  rfl

/-- A list with a title, a direct child that may be missing, and a listing of its items. -/
theorem compile_write_list :
    let t : Template :=
      ⟨⟨['u', 'l'], false, false, [(['i', 'd'], ⟨['x'], .string, false⟩)],
        [.literal ['N', 'o'], .field ⟨['n'], .number, true⟩]⟩,
        .child ⟨['b'], true, true, [], [.field ⟨['n'], .number, true⟩]⟩ .done
          (.listing ['t'] ⟨['l', 'i'], false, false, [], [.field ⟨['x'], .string, false⟩]⟩ .done)⟩
    let source :=
      "<ul id={x:string}>No{n?:number}<?!b>{n?:number}</b>{{t: <li>{x:string}</li>}}</ul>".toList
    t.write Slot.selector = source ∧ compile source = .ok t := by
  intro t source
  have hx : Binding.WellFormed ⟨['x'], .string, false⟩ := ⟨rfl, .inl rfl⟩
  have hn : Binding.WellFormed ⟨['n'], .number, true⟩ := ⟨rfl, .inr rfl⟩
  have hwellFormed : t.WellFormed := by
    refine ⟨rfl, rfl, ⟨⟨⟨.ofTag (some ['u', 'l']), []⟩, by cbv⟩, ?_, ?_, ?_⟩,
      ⟨⟨⟨.ofTag (some ['b']), []⟩, by cbv⟩, ?_, ?_, ?_⟩, trivial, rfl, rfl, rfl,
      ⟨⟨⟨.ofTag (some ['l', 'i']), []⟩, by cbv⟩, ?_, ?_, ?_⟩, trivial⟩
    all_goals simp [t, Segment.WellFormed, hx, hn]
    decide
  have hlegible : t.Legible Slot.selector := by
    refine ⟨⟨?_, ?_, ?_, ?_, ?_, ?_, ?_⟩, ⟨?_, ?_, ?_, ?_, ?_, ?_, ?_⟩, trivial,
      ⟨?_, ?_, ?_, ?_, ?_, ?_, ?_⟩, trivial⟩
    all_goals simp [t, Segment.binding?, isSelectorChar, isAttributeChar]
    all_goals decide
  have hsource : t.write Slot.selector = source := by rfl
  exact ⟨hsource, hsource ▸ compile_write hwellFormed hlegible⟩

end Template
end Gleaner
