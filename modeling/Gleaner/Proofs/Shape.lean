import Gleaner.Proofs.Bindings
import Gleaner.Proofs.Journal

/-! # The shape of records

Whichever optional parts are matched, absent or failed, a record has the names of its template in order,
and the records in its lists have those of the listing they come from. The search keeps this step by
step: parts of a template add their own names to whatever record they are given, and every field they set
is one that a part may set.
-/

namespace Gleaner

namespace SearchM

variable {α β : Type} {step : SearchM α} {P P' : α → Prop} {Q : β → Prop}

/-- Whatever the step returns has the property, from whatever state it begins. -/
structure Yields (step : SearchM α) (P : α → Prop) : Prop where
  result : ∀ state a, (step.runFrom state).1 = .ok a → P a

namespace Yields

theorem pure {a : α} (ha : P a) : Yields (pure a) P := by
  constructor
  intro state b hrun
  obtain rfl := Except.ok.inj hrun
  exact ha

theorem pure_none {R : β → Prop} :
    Yields (Pure.pure (none : Option β)) fun outcome => ∀ b ∈ outcome, R b :=
  pure fun b hb => absurd hb (Option.not_mem_none b)

theorem fail (error : SearchError) : Yields (throw error) P :=
  ⟨nofun⟩

theorem anything (step : SearchM α) : step.Yields fun _ => True :=
  ⟨fun _ _ _ => trivial⟩

theorem imp (hstep : step.Yields P) (himp : ∀ a, P a → P' a) : step.Yields P' :=
  ⟨fun state a hrun => himp a (hstep.result state a hrun)⟩

theorem bind {next : α → SearchM β} (hstep : step.Yields P)
    (hnext : ∀ a, P a → (next a).Yields Q) : (step >>= next).Yields Q := by
  constructor
  intro state b hrun
  obtain ⟨result, middle, hfirst⟩ : ∃ result middle, step.runFrom state = (result, middle) :=
    ⟨_, _, rfl⟩
  cases result with
  | error error =>
      rw [runFrom_bind_error next hfirst] at hrun
      cases hrun
  | ok a =>
      rw [runFrom_bind_ok next hfirst] at hrun
      exact (hnext a (hstep.result state a (by rw [hfirst]))).result middle b hrun

/-- Nothing need be known of the first step if the rest has the property after all its results. -/
theorem after {next : α → SearchM β} (hnext : ∀ a, (next a).Yields Q) :
    (step >>= next).Yields Q :=
  (anything step).bind fun a _ => hnext a

end Yields

end SearchM

/-- The slot may set the field, as part of something that may be missing if `missing`. -/
def Slot.Gives (slot : Slot) (missing : Bool) (field : Text × Value) : Prop :=
  ∃ b ∈ slot.bindings, b.Gives missing field

/-- The parts may set the field, as parts of something that may be missing if `missing`. A listing gives
records with its own names, whose fields its slot and what stands below it may set. -/
def Parts.Gives : Parts → Bool → Text × Value → Prop
  | .done, _, _ => False
  | .child slot below after, missing, field =>
    slot.Gives (missing || slot.optional) field ∨ below.Gives (missing || slot.optional) field ∨
      after.Gives missing field
  | .listing name slot below, _, field =>
    field.1 = name ∧ ∃ items, field.2 = .records items ∧ ∀ item ∈ items,
      Record.names item = Template.fieldNames ⟨slot, below⟩ ∧
        ∀ inner ∈ item, slot.Gives false inner ∨ below.Gives false inner

/-- The parts complete a record to another one. -/
structure Parts.Fills (parts : Parts) (r s : Record) : Prop where
  names : s.names = parts.declared.foldl Record.addName r.names
  fields : ∀ field ∈ s, field ∈ r ∨ parts.Gives false field

/-- The record is one that a match of the template may come to. -/
structure Template.Fills (t : Template) (r : Record) : Prop where
  names : r.names = t.fieldNames
  fields : ∀ field ∈ r, t.slot.Gives false field ∨ t.below.Gives false field

/-- Records in a list under the name have the shape of a listing with that name. -/
def Parts.Lists : Parts → Text → List Record → Prop
  | .done, _, _ => False
  | .child _ below after, name, items => below.Lists name items ∨ after.Lists name items
  | .listing own slot below, name, items =>
    name = own ∧ ∀ item ∈ items, item.names = Template.fieldNames ⟨slot, below⟩ ∧
      item.names.Nodup ∧
        ∀ inner innerItems, (inner, Value.records innerItems) ∈ item → below.Lists inner innerItems

/-- The record has exactly the names of the template, each once and in order, and so have the records in
its lists with respect to their listings. -/
structure Template.Shapes (t : Template) (r : Record) : Prop where
  names : r.names = t.fieldNames
  nodup : r.names.Nodup
  lists : ∀ name items, (name, Value.records items) ∈ r → t.below.Lists name items

variable {slot : Slot} {parts below : Parts} {missing other : Bool} {field : Text × Value}

theorem Slot.Gives.mono (hgives : slot.Gives missing field)
    (hmissing : missing = true → other = true) : slot.Gives other field := by
  obtain ⟨b, hb, hname, hadmits, hnullable⟩ := hgives
  exact ⟨b, hb, hname, hadmits, fun hnull => (hnullable hnull).imp_right hmissing⟩

theorem Parts.Gives.mono (hgives : parts.Gives missing field)
    (hmissing : missing = true → other = true) : parts.Gives other field := by
  induction parts generalizing missing other with
  | done => exact hgives
  | child slot below after ihbelow ihafter =>
      have hinner : (missing || slot.optional) = true → (other || slot.optional) = true := by
        simp only [Bool.or_eq_true]
        exact Or.imp_left hmissing
      rcases hgives with hslot | hbelow | hafter
      · exact .inl (hslot.mono hinner)
      · exact .inr (.inl (ihbelow hbelow hinner))
      · exact .inr (.inr (ihafter hafter hmissing))
  | listing name slot below => exact hgives

/-- Without a match, a slot sets what may be without value because the slot is missing. -/
theorem Slot.mem_addEmpty {r : Record} (hfield : field ∈ slot.addEmpty r) :
    field ∈ r ∨ slot.Gives true field := by
  have hall : ∀ (bindings : List Binding) (r : Record),
      field ∈ bindings.foldl (fun r binding => r.setDefault binding.name .null) r →
        field ∈ r ∨ ∃ b ∈ bindings, b.Gives true field := by
    intro bindings
    induction bindings with
    | nil => exact fun r hfield => .inl hfield
    | cons b more ih =>
        intro r hfield
        rcases ih _ hfield with hset | ⟨other, hother, hgives⟩
        · rcases Record.mem_of_mem_setDefault hset with rfl | hr
          · exact .inr ⟨b, List.mem_cons_self, rfl, trivial, fun _ => .inr rfl⟩
          · exact .inl hr
        · exact .inr ⟨other, List.mem_cons_of_mem _ hother, hgives⟩
  exact hall slot.bindings r hfield

theorem Parts.mem_addEmpty {r : Record} (hfield : field ∈ parts.addEmpty r) :
    field ∈ r ∨ parts.Gives true field := by
  induction parts generalizing r with
  | done => exact .inl hfield
  | child slot below after ihbelow ihafter =>
      rcases ihafter hfield with hinner | hafter
      · rcases ihbelow hinner with hslot | hbelow
        · exact (Slot.mem_addEmpty hslot).imp_right .inl
        · exact .inr (.inr (.inl hbelow))
      · exact .inr (.inr (.inr hafter))
  | listing name slot below =>
      rcases Record.mem_of_mem_setDefault hfield with rfl | hr
      · exact .inr ⟨rfl, [], rfl, nofun⟩
      · exact .inl hr

namespace Parts.Fills

/-- A record with the names of a child, put into another one together with the parts after the child. -/
theorem child {after : Parts} {r inner s : Record}
    (hnames : inner.names = Template.fieldNames ⟨slot, below⟩)
    (hfields : ∀ field ∈ inner, slot.Gives slot.optional field ∨ below.Gives slot.optional field)
    (hafter : after.Fills (r.update inner) s) : (Parts.child slot below after).Fills r s := by
  obtain ⟨hafterNames, hafterFields⟩ := hafter
  constructor
  · rw [hafterNames, Record.names_update, hnames, Template.fieldNames_eq,
      Record.foldl_addName_foldl, Template.declared, List.foldl_append, List.foldl_nil, declared,
      List.foldl_append, List.foldl_append]
  · intro field hfield
    rcases hafterFields field hfield with hset | hgives
    · rcases Record.mem_of_mem_update hset with hinner | hr
      · exact .inr ((hfields field hinner).imp_right .inl)
      · exact .inl hr
    · exact .inr (.inr (.inr hgives))

end Parts.Fills

/-- No binding sets a list. -/
theorem Slot.not_gives_records {name : Text} {items : List Record} :
    ¬ slot.Gives missing (name, .records items) := by
  rintro ⟨b, -, -, hadmits, -⟩
  exact hadmits

theorem Parts.Gives.lists {name : Text} {items : List Record}
    (hgives : parts.Gives missing (name, .records items)) : parts.Lists name items := by
  induction parts generalizing missing name items with
  | done => exact hgives
  | child slot below after ihbelow ihafter =>
      rcases hgives with hslot | hbelow | hafter
      · exact absurd hslot Slot.not_gives_records
      · exact .inl (ihbelow hbelow)
      · exact .inr (ihafter hafter)
  | listing own slot below ihbelow =>
      obtain ⟨hname, items, hvalue, hitems⟩ := hgives
      obtain rfl := Value.records.inj hvalue
      refine ⟨hname, ?_⟩
      intro item hitem
      obtain ⟨hnames, hfields⟩ := hitems item hitem
      refine ⟨hnames, hnames ▸ Template.nodup_fieldNames _, ?_⟩
      intro inner innerItems hinner
      rcases hfields _ hinner with hslot | hbelow
      · exact absurd hslot Slot.not_gives_records
      · exact ihbelow hbelow

theorem Template.Fills.shapes {t : Template} {r : Record} (hfills : t.Fills r) : t.Shapes r := by
  refine ⟨hfills.names, hfills.names ▸ t.nodup_fieldNames, ?_⟩
  intro name items hitems
  rcases hfills.fields _ hitems with hslot | hbelow
  · exact absurd hslot Slot.not_gives_records
  · exact hbelow.lists

namespace Search

open SearchM

variable {scope : SearchScope} {attempt : Node → SearchM (Option (Record × Nat))}
  {P : Record → Prop}

theorem yields_tryEach (hattempt : ∀ n, (attempt n).Yields fun outcome =>
      ∀ result ∈ outcome, P result.1) (found : List Node) :
    (tryEach attempt found).Yields fun cs => ∀ c ∈ cs, P c.record := by
  induction found with
  | nil => exact .pure nofun
  | cons n more ih =>
      rw [tryEach]
      apply Yields.after
      intro state
      split
      next => exact ih
      next =>
        apply Yields.after
        intro state
        apply (hattempt n).bind
        intro outcome hresult
        apply Yields.after
        intro claimed
        apply ih.bind
        intro candidates hcandidates
        cases outcome with
        | none => exact .pure hcandidates
        | some result =>
            apply Yields.pure
            intro c hc
            rcases List.mem_cons.mp hc with rfl | hc
            · exact hresult result rfl
            · exact hcandidates c hc

theorem yields_candidates (hattempt : ∀ n, (attempt n).Yields fun outcome =>
      ∀ result ∈ outcome, P result.1) (slot : Slot) (under : Node) (self direct : Bool) :
    (candidates scope slot attempt under self direct).Yields fun cs => ∀ c ∈ cs, P c.record := by
  unfold candidates
  split
  next => exact .fail _
  next found _ =>
    apply (yields_tryEach hattempt found).bind
    intro matched hmatched
    apply Yields.after
    intro _
    apply Yields.pure
    intro c hc
    exact hmatched c (List.mem_of_mem_filter hc)

theorem yields_settle (slot : Slot) (n : Node) (b : Bound Record) :
    (settle slot n b).Yields fun outcome => ∀ r ∈ outcome, b = .value r := by
  cases b with
  | value r =>
      apply Yields.pure
      intro s hs
      obtain rfl := Option.some.inj hs
      rfl
  | misfit reason => exact .after fun _ => .pure_none
  | unknownKind name => exact .fail _

/-- Whatever text is taken for that of the node, the slot binds its own names. -/
theorem yields_bindSlot (slot : Slot) (n : Node) :
    (bindSlot slot n).Yields fun outcome => ∀ r ∈ outcome,
      r.names = slot.declared.foldl Record.addName [] ∧ ∀ field ∈ r, slot.Gives false field := by
  have hsettle : ∀ s bound, (if slot.text.isEmpty then .value [] else bindText slot.text s) = bound →
      ∀ {next : Option Record → SearchM (Option Record)}, next none = Pure.pure none →
      (∀ own, next (some own) = settle slot n (bindAttributes n.element own slot.attributes)) →
      (settle slot n bound >>= next).Yields fun outcome => ∀ r ∈ outcome,
        r.names = slot.declared.foldl Record.addName [] ∧ ∀ field ∈ r, slot.Gives false field := by
    rintro s _ rfl next hnone hsome
    apply (yields_settle slot n _).bind
    intro outcome hown
    cases outcome with
    | none =>
        rw [hnone]
        exact .pure_none
    | some own =>
        rw [hsome]
        apply (yields_settle slot n _).imp
        intro outcome hbind r hr
        exact bindSlot_value (hown own rfl) (hbind r hr)
  unfold bindSlot
  simp only [pure_bind]
  split
  next hempty =>
    apply hsettle [] _ (if_pos hempty)
    · rfl
    · exact fun own => rfl
  next hempty =>
    apply Yields.after
    intro s
    apply hsettle s _ (if_neg hempty)
    · rfl
    · exact fun own => rfl

theorem yields_matchSlot {inside : Record × Nat → SearchM (Option (Record × Nat))}
    (hinside : ∀ own depth, (inside (own, depth)).Yields fun outcome =>
      ∀ result ∈ outcome, below.Fills own result.1) (slot : Slot) (n : Node) :
    (matchSlot scope slot inside n).Yields fun outcome =>
      ∀ result ∈ outcome, Template.Fills ⟨slot, below⟩ result.1 := by
  unfold matchSlot
  apply Yields.after
  intro _
  apply (yields_bindSlot slot n).bind
  intro outcome hown
  cases outcome with
  | none => exact .pure_none
  | some own =>
      obtain ⟨hownNames, hownFields⟩ := hown own rfl
      apply (hinside own n.depth).bind
      intro outcome hfills
      cases outcome with
      | none => exact .pure_none
      | some result =>
          obtain ⟨hnames, hfields⟩ := hfills result rfl
          apply Yields.after
          intro _
          apply Yields.pure
          intro _ hresult
          obtain rfl := Option.some.inj hresult
          constructor
          · rw [hnames, hownNames, Template.fieldNames_eq, Template.declared, List.foldl_append]
          · intro field hfield
            exact (hfields field hfield).imp_left (hownFields field)

/-- Parts of a template complete the record they are given, whatever is found for them. -/
theorem yields_matchParts (parts : Parts) (n : Node) (r : Record) (depthSum : Nat) :
    (matchParts scope parts n (r, depthSum)).Yields fun outcome =>
      ∀ result ∈ outcome, parts.Fills r result.1 := by
  induction parts generalizing n r depthSum with
  | done =>
      apply Yields.pure
      intro _ hresult
      obtain rfl := Option.some.inj hresult
      exact ⟨rfl, fun field => .inl⟩
  | child slot below after ihbelow ihafter =>
      rw [matchParts]
      apply (yields_candidates (fun m => yields_matchSlot (ihbelow m) slot m) slot n false
        slot.direct).bind
      intro found hfound
      cases hbest : deepest? found with
      | none =>
          dsimp only
          split
          next hoptional =>
            apply (ihafter n _ _).imp
            intro outcome hafter result hresult
            apply Parts.Fills.child rfl ?_ (hafter result hresult)
            intro field hfield
            rw [hoptional]
            rcases Parts.mem_addEmpty hfield with hslot | hbelow
            · rcases Slot.mem_addEmpty hslot with hnone | hslot
              · simp at hnone
              · exact .inl hslot
            · exact .inr hbelow
          next => exact .pure_none
      | some best =>
          obtain ⟨hnames, hfields⟩ := hfound best (mem_of_deepest? hbest)
          apply Yields.after
          intro _
          apply (ihafter n _ _).imp
          intro outcome hafter result hresult
          apply Parts.Fills.child hnames ?_ (hafter result hresult)
          intro field hfield
          have hmissing : ∀ {missing}, false = true → missing = true :=
            fun hfalse => absurd hfalse Bool.false_ne_true
          exact (hfields field hfield).imp (·.mono hmissing) (·.mono hmissing)
  | listing name slot below ihbelow =>
      rw [matchParts]
      apply (yields_candidates (fun m => yields_matchSlot (ihbelow m) slot m) slot n false
        false).bind
      intro found hfound
      apply Yields.after
      intro _
      apply Yields.pure
      intro _ hresult
      obtain rfl := Option.some.inj hresult
      constructor
      · exact Record.names_set r name _
      · intro field hfield
        rcases Record.mem_of_mem_set hfield with rfl | hr
        · refine .inr ⟨rfl, _, rfl, ?_⟩
          intro item hitem
          obtain ⟨c, hc, rfl⟩ := List.mem_map.mp hitem
          exact ⟨(hfound c hc).names, (hfound c hc).fields⟩
        · exact .inl hr

theorem yields_matchOne (t : Template) (n : Node) :
    (matchOne scope t n).Yields fun outcome => ∀ result ∈ outcome, t.Fills result.1 :=
  yields_matchSlot (fun own depth => yields_matchParts t.below n own depth) t.slot n

theorem yields_matchMany (t : Template) (under : Node) (self direct : Bool) :
    (matchMany scope t under self direct).Yields fun found => ∀ c ∈ found, t.Fills c.record :=
  yields_candidates (yields_matchOne t) t.slot under self direct

/-- Every record of a search has the shape of the template, in any document, from any state and with any
limit, and so has the record of every single match. -/
theorem matchMany_and_matchOne_shape (scope : SearchScope) (state : SearchState) (t : Template)
    (under n : Node) (self direct : Bool) :
    (∀ found, ((matchMany scope t under self direct).runFrom state).1 = .ok found →
      ∀ c ∈ found, t.Shapes c.record) ∧
    ∀ r depthSum, ((matchOne scope t n).runFrom state).1 = .ok (some (r, depthSum)) →
      t.Shapes r := by
  constructor
  · intro found hrun c hc
    exact ((yields_matchMany t under self direct).result state found hrun c hc).shapes
  · intro r depthSum hrun
    exact ((yields_matchOne t n).result state _ hrun (r, depthSum) rfl).shapes

/-- The middle one of three items was claimed before. A bold word is bound under the name that the list around
it has too, an optional child is missing, and the other two items are listed. -/
theorem matchMany_and_matchOne_shape_list :
    let doc := Markup.parse [] "<ul><li>a<b>c</b></li><li>d</li><li>e</li></ul>".toList
    let x : Segment := .field ⟨"x".toList, .string, true⟩
    let t : Template := ⟨⟨"ul".toList, false, false, [], [x]⟩,
      .child ⟨"b".toList, false, false, [], [x]⟩ .done
        (.child ⟨"i".toList, true, false, [], [.field ⟨"y".toList, .string, true⟩]⟩ .done
          (.listing "xs".toList ⟨"li".toList, false, false, [], [x]⟩ .done))⟩
    let search := matchMany ⟨doc, none⟩ t doc.root true false
    let state := { (search.runFrom .empty).2 with claims := ClaimSet.empty.replay [3] }
    ∃ found r depthSum, (search.runFrom state).1 = .ok found ∧
      found.map (fun c => (c.record.names, c.claimed)) =
        [(["x".toList, "y".toList, "xs".toList], [2, 1, 4, 0])] ∧
      (∀ c ∈ found, t.Shapes c.record) ∧
      ((matchOne ⟨doc, none⟩ t doc.root).runFrom state).1 = .ok (some (r, depthSum)) ∧
      t.Shapes r := by
  intro doc x t search state
  have hdoc : doc.Numbered := Document.numbered_parse [] _
  have hroot : doc.root ∈ doc.root.subtrees := Tree.mem_subtrees.mpr (.inl rfl)
  have hstate : Reached ⟨doc, none⟩ state :=
    .claimed (.matchMany .start t hroot true false) (.replay .empty [3])
  have hsound : state.Sound doc := hstate.sound hdoc
  have hjournal : state.claims.journal = [3] := ClaimSet.journal_replay_empty (List.nodup_singleton 3)
  obtain ⟨⟨r, depthSum⟩, hone⟩ :
      ∃ result, ((matchOne ⟨doc, none⟩ t doc.root).runFrom state).1 = .ok (some result) := by
    apply exists_fit_of_listed hdoc hroot hsound
    rw [hjournal]
    decide +kernel
  obtain ⟨found, hmany, hseen⟩ : ∃ found, (search.runFrom state).1 = .ok found ∧
      found.map (fun c => (c.record.names, c.claimed)) =
        [(["x".toList, "y".toList, "xs".toList], [2, 1, 4, 0])] := by
    apply exists_found_of_listed hdoc hroot hsound
    rw [hjournal]
    decide +kernel
  obtain ⟨hshapeMany, hshapeOne⟩ :=
    matchMany_and_matchOne_shape ⟨doc, none⟩ state t doc.root doc.root true false
  exact ⟨found, r, depthSum, hmany, hseen, hshapeMany found hmany, hone, hshapeOne r depthSum hone⟩

end Search
end Gleaner
