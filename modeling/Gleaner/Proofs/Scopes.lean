import Gleaner.Proofs.Compiled

/-! # Slots and scopes of compiled templates

What compiling guarantees of a template, slot by slot. A scope is the template itself or the template of
a listing anywhere in it; a slot belongs to the scope that it can be reached in along children alone.
Whether a slot is optional, or one around it, is asked within its scope.
-/

namespace Gleaner.Template

/-- `u` is the top of `t` or a child below it, at any depth but not inside of a listing. `inOptional` says
whether its slot or one around it is optional. -/
inductive Holds (t : Template) : Template → Bool → Prop
  | top : Holds t t t.slot.optional
  | child {u v : Template} {inOptional : Bool} (hu : Holds t u inOptional) (hv : v ∈ u.children) :
      Holds t v (inOptional || v.slot.optional)

/-- `u` is `t` or the template of a listing in it, at any depth. -/
inductive Scope (t : Template) : Template → Prop
  | whole : Scope t t
  | listing {u v w : Template} {inOptional : Bool} {name : Text} (hu : Scope t u)
      (hv : u.Holds v inOptional) (hw : v.listing? = some (name, w)) : Scope t w

variable {t u v : Template} {parts : Parts} {inOptional : Bool} {name : Text}

theorem wellFormedIn_of_mem_children (hparts : parts.WellFormed inOptional)
    (hv : v ∈ parts.children) : v.WellFormedIn inOptional := by
  induction parts with
  | done => cases hv
  | child slot below after ihbelow ihafter =>
      obtain ⟨hslot, hbelow, hafter⟩ := hparts
      rcases List.mem_cons.mp hv with rfl | hv
      · exact ⟨hslot, hbelow⟩
      · exact ihafter hafter hv
  | listing name slot below => cases hv

theorem wellFormed_of_listing? (hparts : parts.WellFormed inOptional)
    (hlisting : parts.listing? = some (name, u)) : isName name = true ∧ u.WellFormed := by
  induction parts with
  | done => cases hlisting
  | child slot below after ihbelow ihafter => exact ihafter hparts.2.2 hlisting
  | listing other slot below =>
      obtain ⟨hname, hoptional, hdirect, hslot, hbelow⟩ := hparts
      obtain ⟨rfl, rfl⟩ := Prod.mk.inj (Option.some.inj hlisting)
      exact ⟨hname, hoptional, hdirect, hslot, hbelow⟩

/-- A well-formed template is well-formed wherever one looks within its scope. -/
theorem WellFormed.of_holds (ht : t.WellFormed) (hu : t.Holds u inOptional) :
    u.slot.WellFormed inOptional ∧ u.below.WellFormed inOptional := by
  induction hu with
  | top =>
      rw [ht.notOptional]
      exact ⟨ht.slot, ht.below⟩
  | child _ hv ih =>
      have hchild := wellFormedIn_of_mem_children ih.2 hv
      exact ⟨hchild.slot, hchild.below⟩

theorem WellFormed.of_scope (ht : t.WellFormed) (hu : t.Scope u) : u.WellFormed := by
  induction hu with
  | whole => exact ht
  | listing _ hv hw ih => exact (wellFormed_of_listing? (ih.of_holds hv).2 hw).2

/-- In every scope of a compiled template the top is neither optional nor direct. Every slot has a selector
that can be read, binds no attribute twice, binds proper names as text or numbers, and has trimmed
literals that are not empty; its text is bound to nullable names if the slot or one around it is optional.
A listing, which is a name and a template together, has a proper name. -/
theorem scopes_of_compile {source : Text} (hcompile : compile source = .ok t) :
    ∀ scope, t.Scope scope → scope.slot.optional = false ∧ scope.slot.direct = false ∧
      ∀ u inOptional, scope.Holds u inOptional →
        (∃ selector, Selector.read u.slot.selector = .ok selector) ∧
        (u.slot.attributes.map (·.1)).Nodup ∧
        (∀ b ∈ u.slot.bindings, isName b.name = true ∧ (b.kind = .string ∨ b.kind = .number)) ∧
        (∀ literal, .literal literal ∈ u.slot.text → literal ≠ [] ∧ Text.trim literal = literal) ∧
        (inOptional = true → ∀ b ∈ u.slot.textBindings, b.nullable = true) ∧
        ∀ name items, u.listing? = some (name, items) → isName name = true := by
  intro scope hscope
  have hwellFormed := (wellFormed_of_compile hcompile).of_scope hscope
  refine ⟨hwellFormed.notOptional, hwellFormed.notDirect, ?_⟩
  intro u inOptional hu
  obtain ⟨hslot, hbelow⟩ := hwellFormed.of_holds hu
  have htext : ∀ b ∈ u.slot.textBindings, b.WellFormed ∧ (inOptional = true → b.nullable = true) := by
    intro b hb
    obtain ⟨segment, hsegment, hfield⟩ := List.mem_filterMap.mp hb
    cases segment with
    | literal literal => cases hfield
    | field binding =>
        obtain rfl := Option.some.inj hfield
        exact hslot.text _ hsegment
  refine ⟨hslot.selector, hslot.nodup, ?_, fun literal => hslot.text _,
    fun hin b hb => (htext b hb).2 hin, fun name items hlisting => ?_⟩
  · intro b hb
    rcases List.mem_append.mp hb with hb | hb
    · exact ⟨(htext b hb).1.name, (htext b hb).1.kind⟩
    · obtain ⟨pair, hpair, rfl⟩ := List.mem_map.mp hb
      exact ⟨(hslot.attributes pair hpair).name, (hslot.attributes pair hpair).kind⟩
  · exact (wellFormed_of_listing? hbelow hlisting).1

/-- Inside of a listing, a paragraph in an optional item: its slot is not optional itself, and its text is
bound to a nullable name. -/
theorem scopes_of_compile_paragraph :
    let source := "<ul id=x>{{rows: <tr title={t}><?td><p>No {n?:number}</p></td></tr>}}</ul>".toList
    let paragraph : Template := ⟨⟨"p".toList, false, false, [],
      [.literal "No".toList, .field ⟨"n".toList, .number, true⟩]⟩, .done⟩
    let cell : Template := ⟨⟨"td".toList, true, false, [], []⟩, .build none [paragraph]⟩
    let row : Template :=
      ⟨⟨"tr".toList, false, false, [("title".toList, ⟨"t".toList, .string, false⟩)], []⟩,
        .build none [cell]⟩
    ∃ t, compile source = .ok t ∧ t.Scope row ∧ row.Holds paragraph true ∧
      row.slot.optional = false ∧ ∀ b ∈ paragraph.slot.textBindings, b.nullable = true := by
  intro source paragraph cell row
  let t : Template :=
    ⟨⟨"ul[id=\"x\"]".toList, false, false, [], []⟩, .build (some ("rows".toList, row)) []⟩
  have hcompile : compile source = .ok t := by decide +kernel
  have hrow : t.Scope row := .listing .whole .top rfl
  have hcell : row.Holds cell true := Holds.top.child (List.mem_singleton_self cell)
  have hparagraph : row.Holds paragraph true := hcell.child (List.mem_singleton_self paragraph)
  obtain ⟨hoptional, -, hslots⟩ := scopes_of_compile hcompile row hrow
  obtain ⟨-, -, -, -, hnullable, -⟩ := hslots paragraph true hparagraph
  exact ⟨t, hcompile, hrow, hparagraph, hoptional, hnullable rfl⟩

end Gleaner.Template
