import Gleaner.Extract.Extraction
import Gleaner.Proofs.Compiled
import Gleaner.Proofs.Shape

/-! # The values of records

A compiled template says of each of its names what a record may hold under it: text or numbers as
declared, lists for listings, and nothing at all only where the template allows it. For text that is
where the name is nullable. An attribute may also be missing together with an optional slot around it.
Where every name stands once in its scope, every record keeps to this.
-/

namespace Gleaner

/-- Every name has a value in the record, and name and value together have the property. -/
def Record.Covers (r : Record) (names : List Text) (P : Text × Value → Prop) : Prop :=
  ∀ name ∈ names, ∃ value, r.lookup name = some value ∧ P (name, value)

/-- The record keeps to what the slot declares, where `missing` says whether the slot or one around it is
optional. -/
structure Slot.Types (slot : Slot) (missing : Bool) (r : Record) : Prop where
  text : ∀ b ∈ slot.textBindings, ∃ value, r.lookup b.name = some value ∧ b.Admits value ∧
    (value = .null → b.nullable = true)
  attributes : ∀ pair ∈ slot.attributes, ∃ value, r.lookup pair.2.name = some value ∧
    pair.2.Admits value ∧ (value = .null → pair.2.nullable = true ∨ missing = true)

/-- The record keeps to what the parts declare. A listing has a list of records, and each of these keeps to
what is declared inside the listing. -/
def Parts.Types : Parts → Bool → Record → Prop
  | .done, _, _ => True
  | .child slot below after, missing, r =>
    slot.Types (missing || slot.optional) r ∧ below.Types (missing || slot.optional) r ∧
      after.Types missing r
  | .listing name slot below, _, r =>
    ∃ items, r.lookup name = some (.records items) ∧
      ∀ item ∈ items, slot.Types false item ∧ below.Types false item

/-- The record keeps to what the template declares. The top of a match is never missing. -/
def Template.Types (t : Template) (r : Record) : Prop :=
  t.slot.Types false r ∧ t.below.Types false r

/-- Inside every listing no name stands twice. -/
def Parts.Distinct : Parts → Prop
  | .done => True
  | .child _ below after => below.Distinct ∧ after.Distinct
  | .listing _ slot below => (Template.declared ⟨slot, below⟩).Nodup ∧ below.Distinct

/-- No name stands twice in the template; each of its listings has names of its own. -/
structure Template.Distinct (t : Template) : Prop where
  nodup : t.declared.Nodup
  listings : t.below.Distinct

namespace Record.Covers

variable {r : Record} {names more : List Text} {P Q : Text × Value → Prop}

/-- What holds of the second names only does not matter for the first ones. -/
theorem left (hcovers : r.Covers (names ++ more) fun field => P field ∨ Q field)
    (hnodup : (names ++ more).Nodup) (hmore : ∀ field, Q field → field.1 ∈ more) :
    r.Covers names P := by
  intro name hname
  obtain ⟨value, hvalue, hp | hq⟩ := hcovers name (List.mem_append_left _ hname)
  · exact ⟨value, hvalue, hp⟩
  · exact absurd (hmore _ hq) ((List.nodup_append'.mp hnodup).2.2 hname)

theorem right (hcovers : r.Covers (names ++ more) fun field => P field ∨ Q field)
    (hnodup : (names ++ more).Nodup) (hnames : ∀ field, P field → field.1 ∈ names) :
    r.Covers more Q := by
  intro name hname
  obtain ⟨value, hvalue, hp | hq⟩ := hcovers name (List.mem_append_right _ hname)
  · exact absurd hname ((List.nodup_append'.mp hnodup).2.2 (hnames _ hp))
  · exact ⟨value, hvalue, hq⟩

end Record.Covers

variable {slot : Slot} {parts : Parts} {missing : Bool} {field : Text × Value} {r : Record}

theorem Slot.Gives.mem_declared (hgives : slot.Gives missing field) : field.1 ∈ slot.declared := by
  obtain ⟨b, hb, hname, -, -⟩ := hgives
  rw [hname]
  exact List.mem_map_of_mem hb

theorem Parts.Gives.mem_declared (hgives : parts.Gives missing field) :
    field.1 ∈ parts.declared := by
  induction parts generalizing missing with
  | done => exact hgives.elim
  | child slot below after ihbelow ihafter =>
      rw [declared, List.mem_append, List.mem_append]
      exact hgives.imp (·.mem_declared) (·.imp ihbelow ihafter)
  | listing name slot below => exact List.mem_singleton.mpr hgives.1

/-- A match sets every name of its template. -/
theorem Template.Fills.covers {t : Template} (hfills : t.Fills r) :
    r.Covers t.declared fun field => t.slot.Gives false field ∨ t.below.Gives false field := by
  intro name hname
  rw [← Template.mem_fieldNames, ← hfills.names] at hname
  obtain ⟨⟨_, value⟩, hfield, rfl⟩ := List.mem_map.mp hname
  have hnodup : r.names.Nodup := hfills.names ▸ t.nodup_fieldNames
  exact ⟨value, lookup_of_mem hnodup hfield, hfills.fields _ hfield⟩

theorem Slot.types_of_covers (hslot : slot.WellFormed missing) (hnodup : slot.declared.Nodup)
    (hcovers : r.Covers slot.declared (slot.Gives missing)) : slot.Types missing r := by
  -- no other binding has the name, so what gave the value is the binding itself
  have hbinding : ∀ b ∈ slot.bindings, ∃ value, r.lookup b.name = some value ∧
      b.Gives missing (b.name, value) := by
    intro b hb
    obtain ⟨value, hvalue, other, hother, hgives⟩ := hcovers b.name (List.mem_map_of_mem hb)
    obtain rfl := List.inj_on_of_nodup_map hnodup hb hother hgives.name
    exact ⟨value, hvalue, hgives⟩
  constructor
  · intro b hb
    obtain ⟨value, hvalue, hgives⟩ := hbinding b (List.mem_append_left _ hb)
    refine ⟨value, hvalue, hgives.admits, ?_⟩
    intro hnull
    obtain ⟨segment, hsegment, hfield⟩ := List.mem_filterMap.mp hb
    cases segment with
    | literal t => cases hfield
    | field binding =>
        obtain rfl := Option.some.inj hfield
        exact (hgives.nullable hnull).elim id (hslot.text _ hsegment).2
  · intro pair hpair
    obtain ⟨value, hvalue, hgives⟩ :=
      hbinding pair.2 (List.mem_append_right _ (List.mem_map_of_mem hpair))
    exact ⟨value, hvalue, hgives.admits, hgives.nullable⟩

/-- A match keeps to what its template declares if it keeps to what is declared below the top. -/
theorem Template.Fills.types_of_below {t : Template} (hfills : t.Fills r)
    (hslot : t.slot.WellFormed false) (hnodup : t.declared.Nodup)
    (hbelow : r.Covers t.below.declared (t.below.Gives false) → t.below.Types false r) :
    t.Types r := by
  have hcovers := hfills.covers
  constructor
  · apply Slot.types_of_covers hslot (hnodup.sublist (List.sublist_append_left _ _))
    exact hcovers.left hnodup fun _ => Parts.Gives.mem_declared
  · apply hbelow
    exact hcovers.right hnodup fun _ => Slot.Gives.mem_declared

theorem Parts.types_of_covers (hparts : parts.WellFormed missing) (hnodup : parts.declared.Nodup)
    (hdistinct : parts.Distinct) (hcovers : r.Covers parts.declared (parts.Gives missing)) :
    parts.Types missing r := by
  induction parts generalizing missing r with
  | done => trivial
  | child slot below after ihbelow ihafter =>
      obtain ⟨hslot, hbelow, hafter⟩ := hparts
      obtain ⟨hdistinctBelow, hdistinctAfter⟩ := hdistinct
      have hinner := hnodup.sublist (List.sublist_append_right _ _)
      have hrest := hcovers.right hnodup fun _ => Slot.Gives.mem_declared
      refine ⟨Slot.types_of_covers hslot (hnodup.sublist (List.sublist_append_left _ _)) ?_,
        ihbelow hbelow (hinner.sublist (List.sublist_append_left _ _)) hdistinctBelow ?_,
        ihafter hafter (hinner.sublist (List.sublist_append_right _ _)) hdistinctAfter ?_⟩
      · apply hcovers.left hnodup
        intro field hgives
        exact List.mem_append.mpr (hgives.imp (·.mem_declared) (·.mem_declared))
      · exact hrest.left hinner fun _ => Parts.Gives.mem_declared
      · exact hrest.right hinner fun _ => Parts.Gives.mem_declared
  | listing name slot below ih =>
      obtain ⟨-, -, -, hslot, hbelow⟩ := hparts
      obtain ⟨hitemNodup, hdistinctBelow⟩ := hdistinct
      obtain ⟨value, hvalue, -, items, rfl, hitems⟩ := hcovers name (List.mem_singleton_self name)
      refine ⟨items, hvalue, ?_⟩
      intro item hitem
      obtain ⟨hnames, hfields⟩ := hitems item hitem
      have hfills : Template.Fills ⟨slot, below⟩ item := ⟨hnames, hfields⟩
      apply hfills.types_of_below hslot hitemNodup
      exact ih hbelow (hitemNodup.sublist (List.sublist_append_right _ _)) hdistinctBelow

theorem Template.Fills.types {t : Template} (hfills : t.Fills r) (ht : t.WellFormed)
    (hdistinct : t.Distinct) : t.Types r := by
  have hnodup := hdistinct.nodup
  apply hfills.types_of_below ht.slot hnodup
  exact Parts.types_of_covers ht.below (hnodup.sublist (List.sublist_append_right _ _))
    hdistinct.listings

namespace Extraction

/-- An extraction of all records is one search from its root. -/
theorem result_all_eq_ok {t : Template} {doc : Document} {rootSelector : Option Text}
    {limit : Option Int} {records : List Record} :
    (all t doc rootSelector limit).result = .ok records ↔
      ∃ root found, rootOf doc rootSelector = .ok root ∧
        ((Search.matchMany ⟨doc, limit⟩ t root true false).runFrom .empty).1 = .ok found ∧
        records = found.map (·.record) := by
  unfold all run
  cases rootOf doc rootSelector with
  | error error => simp [Except.map]
  | ok root =>
      obtain ⟨result, state, hsearch⟩ : ∃ result state,
          (Search.matchMany ⟨doc, limit⟩ t root true false).runFrom .empty = (result, state) :=
        ⟨_, _, rfl⟩
      cases result with
      | error error => simp [hsearch, Except.map]
      | ok found => simp [hsearch, Except.map, eq_comm]

/-- The values of all records of an extraction are as the written template declares. -/
theorem all_types {source : Text} {t : Template} (hcompile : Template.compile source = .ok t)
    (hdistinct : t.Distinct) (doc : Document) (rootSelector : Option Text) (limit : Option Int)
    {records : List Record} (hall : (all t doc rootSelector limit).result = .ok records) :
    ∀ r ∈ records, t.Types r := by
  obtain ⟨root, found, -, hsearch, rfl⟩ := result_all_eq_ok.mp hall
  intro r hr
  obtain ⟨c, hc, rfl⟩ := List.mem_map.mp hr
  have hfills := (Search.yields_matchMany t root true false).result _ _ hsearch c hc
  exact hfills.types (Template.wellFormed_of_compile hcompile) hdistinct

/-- A paragraph with text and without a title, a number in an optional child that is missing, and a list
without items. -/
theorem all_types_paragraph :
    let source := "<p title={t?}>{x}<?b>{y?:number}</b>{{xs: <li>{z}</li>}}</p>".toList
    let doc := Markup.parse [] "<p>a</p>".toList
    ∃ t records, Template.compile source = .ok t ∧ t.Distinct ∧
      (all t doc none none).result = .ok records ∧ records.length = 1 ∧ ∀ r ∈ records, t.Types r := by
  intro source doc
  let t : Template := ⟨⟨"p".toList, false, false, [("title".toList, ⟨"t".toList, .string, true⟩)],
      [.field ⟨"x".toList, .string, false⟩]⟩,
    .child ⟨"b".toList, true, false, [], [.field ⟨"y".toList, .number, true⟩]⟩ .done
      (.listing "xs".toList ⟨"li".toList, false, false, [], [.field ⟨"z".toList, .string, false⟩]⟩
        .done)⟩
  have hcompile : Template.compile source = .ok t := by decide +kernel
  have hdistinct : t.Distinct := ⟨by decide, trivial, by decide, trivial⟩
  have hplain : (Plain.matchMany doc t ∅ doc.root true false).outcome.map (·.length) = .ok 1 := by
    decide +kernel
  have hroot : doc.root ∈ doc.root.subtrees := Tree.mem_subtrees.mpr (.inl rfl)
  have hsearch := Search.runFrom_matchMany (Document.numbered_parse [] _) hroot
    (SearchState.sound_empty doc) t true false
  change _ = (Plain.matchMany doc t ∅ doc.root true false).outcome at hsearch
  cases hfound : (Plain.matchMany doc t ∅ doc.root true false).outcome with
  | error error => simp [hfound, Except.map] at hplain
  | ok found =>
      rw [hfound] at hsearch hplain
      have hall : (all t doc none none).result = .ok (found.map (·.record)) :=
        result_all_eq_ok.mpr ⟨doc.root, found, rfl, hsearch, rfl⟩
      refine ⟨t, _, hcompile, hdistinct, hall, ?_, all_types hcompile hdistinct doc none none hall⟩
      rw [List.length_map]
      exact Except.ok.inj hplain

end Extraction
end Gleaner
