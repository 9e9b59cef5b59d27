import Gleaner.Proofs.Arena
import Gleaner.Proofs.Chains
import Gleaner.Proofs.Compiled
import Gleaner.Proofs.Limits

/-! # Extractions with compiled templates

Compiling leaves nothing in a template that a search could fail on, so an extraction with a compiled template
has an answer for every document. What can stand in its way is not in the template: a root selector that
finds nothing, and a limit on the attempts.
-/

namespace Gleaner

theorem Slot.WellFormed.usable {slot : Slot} {inOptional : Bool} (hslot : slot.WellFormed inOptional) :
    slot.Usable := by
  refine ⟨hslot.selector, ?_⟩
  intro b hb
  rcases List.mem_append.mp hb with hb | hb
  · obtain ⟨segment, hsegment, hfield⟩ := List.mem_filterMap.mp hb
    cases segment with
    | literal t => cases hfield
    | field binding =>
        obtain rfl := Option.some.inj hfield
        exact (hslot.text _ hsegment).1.kind
  · obtain ⟨pair, hpair, rfl⟩ := List.mem_map.mp hb
    exact (hslot.attributes pair hpair).kind

theorem Parts.WellFormed.usable {parts : Parts} {inOptional : Bool}
    (hparts : parts.WellFormed inOptional) : parts.Usable := by
  induction parts generalizing inOptional with
  | done => trivial
  | child slot below after ihbelow ihafter =>
      obtain ⟨hslot, hbelow, hafter⟩ := hparts
      exact ⟨hslot.usable, ihbelow hbelow, ihafter hafter⟩
  | listing name slot below ihbelow =>
      obtain ⟨-, -, -, hslot, hbelow⟩ := hparts
      exact ⟨hslot.usable, ihbelow hbelow⟩

/-- Everything that a search may stumble over is excluded by compiling. -/
theorem Template.usable_of_compile {source : Text} {t : Template}
    (hcompile : Template.compile source = .ok t) : t.Usable :=
  have ht := Template.wellFormed_of_compile hcompile
  ⟨ht.slot.usable, ht.below.usable⟩

/-- No number that a node of the arena names is without a node. -/
theorem Document.WellOrdered.exists_node {doc : Document} (hdoc : doc.WellOrdered) {i j : Nat} {n : Node}
    (hn : doc.node? i = some n) (hj : j ∈ n.top.parent.toList ++ n.childNumbers) :
    ∃ m, doc.node? j = some m := by
  rcases List.mem_append.mp hj with hparent | hchild
  · obtain ⟨-, outer, houter, -⟩ := hdoc.parent i n j hn (Option.mem_toList.mp hparent)
    exact ⟨outer, houter⟩
  · obtain ⟨m, hm, -⟩ := hdoc.child i n hn j hchild
    exact ⟨m, hm⟩

namespace Extraction

variable {t : Template} {doc : Document} {rootSelector : Option Text}

/-- Under a root that is found, all records are given. -/
theorem exists_all_of_rootOf (hdoc : doc.Numbered) (ht : t.Usable) {root : Node}
    (hroot : rootOf doc rootSelector = .ok root) :
    ∃ records, (all t doc rootSelector none).result = .ok records := by
  have houtcome : ∃ found, (Plain.matchMany doc t ∅ root true false).outcome = .ok found :=
    Plain.exists_outcome_matchMany ht ∅ root true false
  obtain ⟨found, hfound⟩ := houtcome
  rw [result_all, result_run_of_rootOf hroot, Search.runFrom_matchMany hdoc
    (mem_subtrees_of_rootOf hdoc hroot) (SearchState.sound_empty doc)]
  change ∃ records, (((Plain.matchMany doc t ∅ root true false).outcome.mapError _).map _) = _
  rw [hfound]
  exact ⟨_, rfl⟩

/-- A root selector that can be read finds its root or nothing; an empty one finds the whole document. -/
theorem rootOf_some (doc : Document) {written : Text}
    (hread : written = [] ∨ ∃ selector, Selector.read written = .ok selector) :
    (∃ root, rootOf doc (some written) = .ok root) ∨
      rootOf doc (some written) = .error (.notFound written) := by
  by_cases hempty : written = []
  · subst hempty
    exact .inl ⟨_, rfl⟩
  · obtain ⟨selector, hread⟩ := hread.resolve_left hempty
    obtain ⟨c, more, rfl⟩ := List.exists_cons_of_ne_nil hempty
    change (∃ root, doc.selectOrFail doc.root (c :: more) true = .ok root) ∨
      doc.selectOrFail doc.root (c :: more) true = _
    obtain ⟨found, hfound⟩ := doc.exists_selectAll ⟨selector, hread⟩ doc.root true none
    unfold Document.selectOrFail Document.select
    rw [hfound]
    cases found with
    | nil => exact .inr rfl
    | cons n found => exact .inl ⟨n, rfl⟩

/-- The first record goes with all records: it is one of them if there are any, and else none is. -/
theorem result_first_of_all (t : Template) (doc : Document) (rootSelector : Option Text)
    (limit : Option Int) :
    match (all t doc rootSelector limit).result with
    | .error error => (first t doc rootSelector limit).result = .error error
    | .ok [] => (first t doc rootSelector limit).result = .error (.noMatch rootSelector doc.error)
    | .ok records => ∃ r ∈ records, (first t doc rootSelector limit).result = .ok r := by
  rw [result_all, result_first]
  cases (run t doc rootSelector limit).result with
  | error error => rfl
  | ok found =>
      cases found with
      | nil => rfl
      | cons c found =>
          have hbest : deepest? (c :: found) ≠ none :=
            mt Plain.deepest?_eq_none.mp (List.cons_ne_nil c found)
          obtain ⟨best, hbest⟩ := Option.ne_none_iff_exists'.mp hbest
          refine ⟨best.record, List.mem_map_of_mem (mem_of_deepest? hbest), ?_⟩
          simp only [Except.bind, hbest]

/-- An extraction with a compiled template from whatever text gives its records; with a root selector that
can be read it may also miss its root, and with a limit run out of attempts, but nothing else can happen.
The first record is one of all records, and is missing exactly if there are none. No number in the nodes
of the document leads nowhere. -/
theorem result_of_compile {source : Text} (hcompile : Template.compile source = .ok t)
    (skip : List Text) (s : Text) :
    let doc := Markup.parse skip s
    let all := fun rootSelector limit => (all t doc rootSelector limit).result
    let first := fun rootSelector limit => (first t doc rootSelector limit).result
    (∃ records, all none none = .ok records) ∧
    (∀ written, (written = [] ∨ ∃ selector, Selector.read written = .ok selector) →
      (∃ records, all (some written) none = .ok records) ∨
        all (some written) none = .error (.root (.notFound written))) ∧
    (∀ rootSelector limit, all rootSelector (some limit) = all rootSelector none ∨
      all rootSelector (some limit) = .error (.search (.budget limit))) ∧
    (∀ rootSelector limit,
      match all rootSelector limit with
      | .error error => first rootSelector limit = .error error
      | .ok [] => first rootSelector limit = .error (.noMatch rootSelector doc.error)
      | .ok records => ∃ r ∈ records, first rootSelector limit = .ok r) ∧
    ∀ n ∈ doc.root.subtrees, ∀ i ∈ n.top.parent.toList ++ n.childNumbers,
      ∃ m, doc.node? i = some m := by
  intro doc all first
  have hdoc : doc.Numbered := Document.numbered_parse skip s
  have ht := Template.usable_of_compile hcompile
  refine ⟨exists_all_of_rootOf hdoc ht rfl, ?_, ?_, result_first_of_all t doc, ?_⟩
  · intro written hread
    rcases rootOf_some doc hread with ⟨root, hroot⟩ | hmissing
    · exact .inl (exists_all_of_rootOf hdoc ht hroot)
    · refine .inr ?_
      change ((run t doc (some written) none).result.map _) = _
      rw [run, hmissing]
      rfl
  · intro rootSelector limit
    have hlimited : (run t doc rootSelector (some limit)).result = _ := result_run_limited hdoc limit
    change (Extraction.all t doc rootSelector (some limit)).result =
      (Extraction.all t doc rootSelector none).result ∨
        (Extraction.all t doc rootSelector (some limit)).result = _
    rw [result_all, result_all, hlimited]
    split
    next => exact .inl rfl
    next => exact .inr rfl
  · intro n hn i hi
    exact hdoc.wellOrdered.exists_node (hdoc.node?_index hn) hi

/-- A text that ends within a comment has no record, and that there is no first one is all that happens. -/
theorem result_of_compile_comment :
    let source := "<p>{x}<?b>{y?:number}</b>{{zs: <li>{z}</li>}}</p>".toList
    let doc := Markup.parse [] "<p>a</p><!--".toList
    ∃ t records, Template.compile source = .ok t ∧ (all t doc none none).result = .ok records ∧
      (match records with
        | [] => (first t doc none none).result = .error (.noMatch none doc.error)
        | records => ∃ r ∈ records, (first t doc none none).result = .ok r) ∧
      doc.error = some (.fault .comment 8) := by
  intro source doc
  let t : Template := ⟨⟨"p".toList, false, false, [], [.field ⟨"x".toList, .string, false⟩]⟩,
    .child ⟨"b".toList, true, false, [], [.field ⟨"y".toList, .number, true⟩]⟩ .done
      (.listing "zs".toList ⟨"li".toList, false, false, [], [.field ⟨"z".toList, .string, false⟩]⟩
        .done)⟩
  have hcompile : Template.compile source = .ok t := by decide +kernel
  obtain ⟨⟨records, hall⟩, -, -, hfirst, -⟩ :=
    result_of_compile hcompile [] "<p>a</p><!--".toList
  replace hfirst := hfirst none none
  rw [hall] at hfirst
  exact ⟨t, records, hcompile, hall, by cases records <;> exact hfirst, by decide +kernel⟩

end Extraction
end Gleaner
