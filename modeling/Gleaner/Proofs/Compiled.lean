import Gleaner.Proofs.Bindings
import Gleaner.Proofs.ListingEnds

/-! # Compiled templates

What compiling guarantees of a template at every depth: the top of a template or listing is neither optional
nor direct, selectors can be read, names are names, literals are trimmed, and text that belongs to
something optional is bound to nullable names only. While a template is read this holds of all that
is complete and of every open slot.
-/

namespace Gleaner

structure Binding.WellFormed (b : Binding) : Prop where
  name : Template.isName b.name = true
  kind : b.kind = .string ∨ b.kind = .number

/-- A segment of a slot, which is optional or stands within an optional one if `inOptional`. -/
def Segment.WellFormed (inOptional : Bool) : Segment → Prop
  | .literal t => t ≠ [] ∧ Text.trim t = t
  | .field b => b.WellFormed ∧ (inOptional = true → b.nullable = true)

structure Slot.WellFormed (slot : Slot) (inOptional : Bool) : Prop where
  selector : ∃ s, Selector.read slot.selector = .ok s
  nodup : (slot.attributes.map (·.1)).Nodup
  attributes : ∀ pair ∈ slot.attributes, pair.2.WellFormed
  text : ∀ segment ∈ slot.text, segment.WellFormed inOptional

/-- Parts of a slot, which is optional or stands within an optional one if `inOptional`. A listing begins
anew. -/
def Parts.WellFormed (inOptional : Bool) : Parts → Prop
  | .done => True
  | .child slot below after =>
    slot.WellFormed (inOptional || slot.optional) ∧
      below.WellFormed (inOptional || slot.optional) ∧ after.WellFormed inOptional
  | .listing name slot below =>
    Template.isName name = true ∧ slot.optional = false ∧ slot.direct = false ∧
      slot.WellFormed false ∧ below.WellFormed false

namespace Template

/-- The template may be a child where `inOptional` says whether something around it is optional. -/
structure WellFormedIn (t : Template) (inOptional : Bool) : Prop where
  slot : t.slot.WellFormed (inOptional || t.slot.optional)
  below : t.below.WellFormed (inOptional || t.slot.optional)

structure WellFormed (t : Template) : Prop where
  notOptional : t.slot.optional = false
  notDirect : t.slot.direct = false
  slot : t.slot.WellFormed false
  below : t.below.WellFormed false

theorem wellFormed_build {inOptional : Bool} {listing : Option (Text × Template)}
    {children : List Template} (hchildren : ∀ t ∈ children, t.WellFormedIn inOptional)
    (hlisting : ∀ name t, listing = some (name, t) → isName name = true ∧ t.WellFormed) :
    (Parts.build listing children).WellFormed inOptional := by
  induction children with
  | nil =>
      cases listing with
      | none => trivial
      | some pair =>
          obtain ⟨hname, ht⟩ := hlisting pair.1 pair.2 rfl
          exact ⟨hname, ht.notOptional, ht.notDirect, ht.slot, ht.below⟩
  | cons t more ih =>
      obtain ⟨ht, hmore⟩ := List.forall_mem_cons.mp hchildren
      exact ⟨ht.slot, ht.below, ih hmore⟩

structure OpenSlot.WellFormed (o : OpenSlot) : Prop where
  slot : o.slot.WellFormed o.inOptional
  children : ∀ t ∈ o.children, t.WellFormedIn o.inOptional
  listing : ∀ name t, o.listing = some (name, t) → isName name = true ∧ t.WellFormed

/-- Open slots, the innermost first, each of which knows whether it belongs to something optional. -/
inductive Stacked : List OpenSlot → Prop
  | empty : Stacked []
  | root {o : OpenSlot} (ho : o.WellFormed) (hoptional : o.slot.optional = false)
      (hdirect : o.slot.direct = false) (hin : o.inOptional = false) : Stacked [o]
  | inner {o outer : OpenSlot} {more : List OpenSlot} (ho : o.WellFormed)
      (hin : o.inOptional = (outer.inOptional || o.slot.optional))
      (hmore : Stacked (outer :: more)) : Stacked (o :: outer :: more)

variable {o changed outer : OpenSlot} {more : List OpenSlot}

theorem Stacked.innermost (hstack : Stacked (o :: more)) : o.WellFormed := by
  cases hstack with
  | root ho => exact ho
  | inner ho => exact ho

/-- The innermost slot may take in text, a child or a listing. -/
theorem Stacked.change (hstack : Stacked (o :: more)) (hchanged : changed.WellFormed)
    (hoptional : changed.slot.optional = o.slot.optional)
    (hdirect : changed.slot.direct = o.slot.direct) (hin : changed.inOptional = o.inOptional) :
    Stacked (changed :: more) := by
  cases hstack with
  | root _ ho hd hi => exact .root hchanged (hoptional.trans ho) (hdirect.trans hd) (hin.trans hi)
  | inner _ hi hmore => exact .inner hchanged (by rw [hin, hoptional, hi]) hmore

structure Draft.WellFormed (d : Draft) : Prop where
  root : ∀ t, d.root = some t → t.WellFormed
  opened : Stacked d.opened

namespace Draft

variable {d : Draft}

theorem wellFormed_empty : empty.WellFormed := ⟨nofun, .empty⟩

theorem WellFormed.addText (hd : d.WellFormed) {segments : List Segment}
    (hsegments : ∀ segment ∈ segments, segment.WellFormed d.inOptional) :
    (d.addText segments).WellFormed := by
  unfold Draft.addText
  split
  next => exact hd
  next o more hopened =>
    have hstack := hopened ▸ hd.opened
    have ho := hstack.innermost
    have hin : d.inOptional = o.inOptional := by simp [inOptional, hopened]
    refine ⟨hd.root, hstack.change ⟨?_, ho.children, ho.listing⟩ rfl rfl rfl⟩
    refine ⟨ho.slot.selector, ho.slot.nodup, ho.slot.attributes, ?_⟩
    intro segment hsegment
    rcases List.mem_append.mp hsegment with hsegment | hsegment
    · exact ho.slot.text segment hsegment
    · exact hin ▸ hsegments segment hsegment

theorem WellFormed.setListing (hd : d.WellFormed) {name : Text} {t : Template}
    (hname : isName name = true) (ht : t.WellFormed) : (d.setListing name t).WellFormed := by
  unfold Draft.setListing
  split
  next => exact hd
  next o more hopened =>
    have hstack := hopened ▸ hd.opened
    have ho := hstack.innermost
    refine ⟨hd.root, hstack.change ⟨ho.slot, ho.children, ?_⟩ rfl rfl rfl⟩
    intro _ _ heq
    cases heq
    exact ⟨hname, ht⟩

theorem inOptional_setListing (name : Text) (t : Template) (d : Draft) :
    (d.setListing name t).inOptional = d.inOptional := by
  unfold setListing
  split
  next => rfl
  next o more hopened => simp [inOptional, hopened]

/-- A complete slot is well-formed at the place it goes to. -/
theorem WellFormed.close (hd : d.WellFormed) : d.close.WellFormed := by
  unfold Draft.close
  split
  next => exact hd
  next o more hopened =>
    have hstack := hopened ▸ hd.opened
    have ho := hstack.innermost
    have hbelow := wellFormed_build ho.children ho.listing
    unfold attach
    cases hstack with
    | root _ hoptional hdirect hin =>
        refine ⟨?_, .empty⟩
        intro t ht
        obtain rfl := Option.some.inj ht
        exact ⟨hoptional, hdirect, hin ▸ ho.slot, hin ▸ hbelow⟩
    | @inner _ outer more _ hin hmore =>
        have houter := hmore.innermost
        refine ⟨hd.root, hmore.change ⟨houter.slot, ?_, houter.listing⟩ rfl rfl rfl⟩
        intro t ht
        rcases List.mem_append.mp ht with ht | ht
        · exact houter.children t ht
        · obtain rfl := List.mem_singleton.mp ht
          exact ⟨hin ▸ ho.slot, hin ▸ hbelow⟩

theorem WellFormed.finish (hd : d.WellFormed) {t : Template} (ht : d.finish = some t) :
    t.WellFormed := by
  have hmany : ∀ count d, WellFormed d → (closeMany count d).WellFormed := by
    intro count
    induction count with
    | zero => exact fun d hd => hd
    | succ count ih => exact fun d hd => ih d.close hd.close
  exact (hmany d.opened.length d hd).root t ht

theorem WellFormed.enter (hd : d.WellFormed) {slot : Slot}
    (hslot : slot.WellFormed (d.inOptional || slot.optional)) (hrefusal : d.refusal? slot = none) :
    (d.enter slot).WellFormed := by
  refine ⟨hd.root, ?_⟩
  unfold Draft.enter
  rw [Bool.or_comm]
  have ho : OpenSlot.WellFormed ⟨slot, d.inOptional || slot.optional, [], none⟩ :=
    ⟨hslot, nofun, nofun⟩
  cases hopened : d.opened with
  | nil =>
      have hin : d.inOptional = false := by simp [inOptional, hopened]
      simp only [refusal?, hopened, List.isEmpty_nil, Bool.not_true, Bool.false_eq_true,
        if_false] at hrefusal
      -- without a refusal the first slot is neither optional nor direct
      split at hrefusal
      next => cases hrefusal
      next =>
        split at hrefusal
        next => cases hrefusal
        next hoptional =>
          split at hrefusal
          next => cases hrefusal
          next hdirect =>
            exact .root ho (by simpa using hoptional) (by simpa using hdirect)
              (by simpa [hin] using hoptional)
  | cons outer more =>
      have hin : d.inOptional = outer.inOptional := by simp [inOptional, hopened]
      exact .inner ho (by rw [hin]) (hopened ▸ hd.opened)

end Draft

theorem wellFormed_of_readBinding {body : Text} {b : Binding} (hread : readBinding body = .ok b) :
    b.WellFormed := by
  unfold readBinding at hread
  extract_lets head nullable name kind at hread
  split at hread
  next => cases hread
  next hname =>
    split at hread
    next =>
      obtain rfl := Except.ok.inj hread
      exact ⟨by simpa using hname, .inl rfl⟩
    next =>
      split at hread
      next =>
        obtain rfl := Except.ok.inj hread
        exact ⟨by simpa using hname, .inr rfl⟩
      next => cases hread

theorem wellFormed_of_readField {s rest : Slice} {b : Binding}
    (hread : readField s = .ok (b, rest)) : b.WellFormed := by
  unfold readField at hread
  split at hread
  next => cases hread
  next =>
    split at hread
    next => cases hread
    next hbinding =>
      cases hread
      exact wellFormed_of_readBinding hbinding

theorem isName_of_readListing {s : Slice} {written : WrittenListing}
    (hread : readListing s = .ok written) : isName written.name = true := by
  obtain ⟨c, name, -, hname, -, hwritten⟩ := of_readListing hread
  rw [hwritten]
  exact hname

theorem binding_of_readValue {bound : List Text} {written name : Text} {s rest : Slice}
    {b : Binding} (hread : readValue bound written s = .ok (.binding name b, rest)) :
    name ∉ bound ∧ b.WellFormed := by
  unfold readValue at hread
  split at hread
  next =>
    split at hread
    next => cases hread
    next =>
      split at hread
      next => cases hread
      next hbinding =>
        split at hread
        next => cases hread
        next hnew =>
          cases hread
          exact ⟨hnew, wellFormed_of_readBinding hbinding⟩
  next => split at hread <;> cases hread
  next => split at hread <;> [cases hread; (split at hread <;> cases hread)]
  next => cases hread

/-- A piece of a tag that binds an attribute binds one that is not bound yet. -/
theorem binding_of_readPiece {start : Text} {bound : List Text} {name : Text} {s rest : Slice}
    {b : Binding} (hread : readPiece start bound s = .ok (.binding name b, rest)) :
    name ∉ bound ∧ b.WellFormed := by
  unfold readPiece at hread
  split at hread
  next => cases hread
  next => cases hread
  next =>
    dsimp only at hread
    split at hread
    next => cases hread
    next =>
      split at hread
      next => cases hread
      next =>
        split at hread
        next => exact binding_of_readValue hread
        next =>
          split at hread
          next =>
            unfold readBeyond at hread
            split at hread <;> cases hread
          next => cases hread

theorem attributes_of_readBody {start selector : Text} {attributes : List (Text × Binding)}
    {s : Slice} {body : TagBody} (hnodup : (attributes.map (·.1)).Nodup)
    (hattributes : ∀ pair ∈ attributes, pair.2.WellFormed)
    (hread : readBody start selector attributes s = .ok body) :
    (body.attributes.map (·.1)).Nodup ∧ ∀ pair ∈ body.attributes, pair.2.WellFormed := by
  fun_induction readBody start selector attributes s with
  | case1 => cases hread
  | case2 =>
      obtain rfl := Except.ok.inj hread
      exact ⟨hnodup, hattributes⟩
  | case3 selector attributes s written rest hpiece ih => exact ih hnodup hattributes hread
  | case4 selector attributes s name binding rest hpiece ih =>
      obtain ⟨hnew, hbinding⟩ := binding_of_readPiece hpiece
      apply ih ?_ ?_ hread
      · rw [List.map_append, List.map_singleton]
        exact List.nodup_append'.mpr ⟨hnodup, List.nodup_singleton name, by simpa using hnew⟩
      · intro pair hpair
        rcases List.mem_append.mp hpair with hpair | hpair
        · exact hattributes pair hpair
        · obtain rfl := List.mem_singleton.mp hpair
          exact hbinding

theorem wellFormed_of_readTag {start : Text} {s : Slice} {tag : Tag}
    (hread : readTag start s = .ok tag) (inOptional : Bool) : tag.slot.WellFormed inOptional := by
  unfold readTag at hread
  dsimp only at hread
  split at hread
  next => cases hread
  next =>
    split at hread
    next => cases hread
    next =>
      split at hread
      next => cases hread
      next hbody =>
        split at hread
        next => cases hread
        next hselector =>
          obtain rfl := Except.ok.inj hread
          obtain ⟨hnodup, hattributes⟩ := attributes_of_readBody (by simp) (by simp) hbody
          exact ⟨⟨_, hselector⟩, hnodup, hattributes, nofun⟩

namespace Run

variable {r : Run} {d : Draft} {inOptional : Bool}

theorem wellFormed_empty (inOptional : Bool) :
    ∀ segment ∈ empty.segments, segment.WellFormed inOptional := by
  simp [empty]

theorem wellFormed_addLiteral (hr : ∀ segment ∈ r.segments, segment.WellFormed inOptional)
    (t : Text) : ∀ segment ∈ (r.addLiteral t).segments, segment.WellFormed inOptional := by
  unfold addLiteral
  dsimp only
  split
  next => exact hr
  next hsome =>
    intro segment hsegment
    rcases List.mem_append.mp hsegment with hsegment | hsegment
    · exact hr segment hsegment
    · obtain rfl := List.mem_singleton.mp hsegment
      exact ⟨by simpa using hsome, Text.trim_trim t⟩

theorem wellFormed_settle (hr : ∀ segment ∈ r.segments, segment.WellFormed d.inOptional)
    (hd : d.WellFormed) : (r.settle d).WellFormed := by
  unfold settle
  split
  next => exact hd
  next => exact hd.addText hr

end Run

/-- Whatever is read of a template, the rest completes it to one that is well-formed. -/
theorem wellFormed_of_compileFrom {start : Text} {d : Draft} {r : Run} {s : Slice} {t : Template}
    (hd : d.WellFormed) (hr : ∀ segment ∈ r.segments, segment.WellFormed d.inOptional)
    (hcompile : compileFrom start d r s = .ok t) : t.WellFormed := by
  fun_induction compileFrom start d r s generalizing t with
  | case1 => cases hcompile
  | case2 start d r s run _ t' =>
      rename_i hfinish
      obtain rfl := Except.ok.inj hcompile
      exact (Run.wellFormed_settle (Run.wellFormed_addLiteral hr _) hd).finish hfinish
  | case3 => cases hcompile
  | case4 start d r s run inside _ behind _ before rest _ =>
      rename_i ih
      apply ih ?_ (Run.wellFormed_empty _) hcompile
      exact (Run.wellFormed_settle (Run.wellFormed_addLiteral hr _) hd).close
  | case5 => cases hcompile
  | case6 => cases hcompile
  | case7 start d r s run inside _ behind _ tag htag settled hrefusal entered =>
      rename_i ih
      have hsettled : settled.WellFormed :=
        Run.wellFormed_settle (Run.wellFormed_addLiteral hr _) hd
      have hentered := hsettled.enter (wellFormed_of_readTag htag _) hrefusal
      apply ih ?_ (Run.wellFormed_empty _) hcompile
      split
      next => exact hentered.close
      next => exact hentered
  | case8 => cases hcompile
  | case9 => cases hcompile
  | case10 => cases hcompile
  | case11 => cases hcompile
  | case12 start d r s run c inside _ _ here _ _ _ written hlisting items hitems ihitems =>
      rename_i ih
      have hwritten := ihitems Draft.wellFormed_empty (Run.wellFormed_empty _) hitems
      apply ih (hd.setListing (isName_of_readListing hlisting) hwritten) ?_ hcompile
      rw [Draft.inOptional_setListing]
      exact Run.wellFormed_addLiteral hr _
  | case13 => cases hcompile
  | case14 => cases hcompile
  | case15 start d r s run c inside _ _ here _ _ binding rest hfield hnullable =>
      rename_i ih
      apply ih hd ?_ hcompile
      intro segment hsegment
      rcases List.mem_append.mp hsegment with hsegment | hsegment
      · exact Run.wellFormed_addLiteral hr _ segment hsegment
      · obtain rfl := List.mem_singleton.mp hsegment
        exact ⟨wellFormed_of_readField hfield, by simpa using hnullable⟩

theorem wellFormed_of_compile {source : Text} {t : Template} (hcompile : compile source = .ok t) :
    t.WellFormed := by
  unfold compile at hcompile
  cases hslice : compileSlice (.whole source) with
  | error fault => simp [hslice, Except.mapError] at hcompile
  | ok compiled =>
      rw [hslice] at hcompile
      obtain rfl := Except.ok.inj hcompile
      exact wellFormed_of_compileFrom Draft.wellFormed_empty (Run.wellFormed_empty _) hslice

end Template
end Gleaner
