import Gleaner.Proofs.Placements

/-! # Matching text with segments

The pattern of a list of segments matches where the segments have a placement, and its captures are what
the bindings take in a preferred one. Only the ends of captures are chosen: white space in front of a
literal and the literal itself have one place, and what may stand behind a capture depends on its end
alone, not on where it begins.
-/

namespace Gleaner

namespace TextPattern

open Text

/-! ### Literals -/

variable {s t rest : Text} {ws : List Text} {more : List Piece} {captures : List Text}

/-- The pieces that stand for words with white space between them. -/
def wordPieces (ws : List Text) : List Piece := (ws.map Piece.word).intersperse (.blanks true)

theorem wordPieces_cons_cons (w v : Text) (ws : List Text) :
    wordPieces (w :: v :: ws) = .word w :: .blanks true :: wordPieces (v :: ws) := rfl

theorem matchHere_word_append (w rest : Text) :
    matchHere (.word w :: more) (w ++ rest) = matchHere more rest := by
  rw [matchHere, if_pos (List.isPrefixOf_iff_prefix.mpr (List.prefix_append w rest)), List.drop_left]

theorem matchHere_word_some {w : Text} (hmatch : matchHere (.word w :: more) s = some captures) :
    ∃ rest, w ++ rest = s ∧ matchHere more rest = some captures := by
  rw [matchHere] at hmatch
  split at hmatch
  next hfront =>
    obtain ⟨rest, rfl⟩ := List.isPrefixOf_iff_prefix.mp hfront
    rw [List.drop_left] at hmatch
    exact ⟨rest, rfl, hmatch⟩
  next => cases hmatch

/-- Where words match they are spelled out. -/
theorem spells_of_matchHere (hmatch : matchHere (wordPieces ws ++ more) s = some captures) :
    ∃ t rest, t ++ rest = s ∧ Spells ws t ∧ matchHere more rest = some captures := by
  induction ws generalizing s with
  | nil => exact ⟨[], s, rfl, .none, hmatch⟩
  | cons w ws ih =>
      cases ws with
      | nil =>
          obtain ⟨rest, hsplit, hrest⟩ := matchHere_word_some hmatch
          exact ⟨w, rest, hsplit, .last w, hrest⟩
      | cons v ws =>
          rw [wordPieces_cons_cons, List.cons_append, List.cons_append] at hmatch
          obtain ⟨behind, rfl, hbehind⟩ := matchHere_word_some hmatch
          rw [matchHere] at hbehind
          obtain ⟨⟨gap, _⟩, hgap, rfl⟩ := Option.map_eq_some_iff.mp hbehind
          obtain ⟨_, hrun, hmore, -⟩ := longestRun_some hgap
          obtain ⟨t, rest, rfl, hspells, hrest⟩ := ih hmore
          refine ⟨w ++ gap ++ t, rest, ?_, .more (hrun.nonempty rfl) hrun.passes hspells, hrest⟩
          rw [← hrun.split, List.append_assoc, List.append_assoc]

/-- Words that are spelled out match in this one way. -/
theorem matchHere_of_spells (hws : ∀ w ∈ ws, IsWord w) (ht : Spells ws t) (rest : Text) :
    matchHere (wordPieces ws ++ more) (t ++ rest) = matchHere more rest := by
  induction ht with
  | none => rfl
  | last w => exact matchHere_word_append w rest
  | @more w v gap behind ws hgap hblank hbehind ih =>
      rw [List.forall_mem_cons] at hws
      have hv := (List.forall_mem_cons.mp hws.2).1
      have hrun : Run true isBlank (gap ++ (behind ++ rest)) gap (behind ++ rest) :=
        ⟨rfl, hblank, fun _ => hgap⟩
      rw [wordPieces_cons_cons, List.cons_append, List.cons_append, List.append_assoc,
        List.append_assoc, matchHere_word_append, matchHere, ← ih hws.2]
      cases hlongest : longestRun true isBlank (matchHere (wordPieces (v :: ws) ++ more))
          (gap ++ (behind ++ rest)) with
      | none => exact (longestRun_none hlongest hrun).symm
      | some result =>
          -- the run that is taken leaves a text that begins with a word, as `gap` does
          obtain ⟨rest', hrun', hmatch, -⟩ := longestRun_some hlongest
          obtain ⟨_, _, rfl, hspells, -⟩ := spells_of_matchHere hmatch
          obtain ⟨-, hrest⟩ := Blank.append_inj hrun'.passes hblank (hspells.trimLeft_append hv _)
            (hbehind.trimLeft_append hv _) hrun'.split
          rw [← hrest]
          exact hmatch.symm

/-- A literal matches at a place if it fits there and the rest matches behind it. -/
theorem matchHere_literal_some {p : Nat} (hp : p ≤ s.length)
    (hmatch : matchHere (literalPieces t ++ more) (s.drop p) = some captures) :
    ∃ span : Span, span.start = p ∧ span.Fits s (.literal t) ∧
      matchHere more (s.drop span.stop) = some captures := by
  change matchHere (wordPieces (words t) ++ more) (s.drop p) = some captures at hmatch
  obtain ⟨_, _, hsplit, hspells, hrest⟩ := spells_of_matchHere hmatch
  obtain ⟨stop, hle, hstop, rfl, rfl⟩ := exists_between_of_append hsplit hp
  exact ⟨⟨p, stop⟩, rfl, ⟨hle, hstop, hspells⟩, hrest⟩

theorem matchHere_literal {span : Span} (hfits : span.Fits s (.literal t)) :
    matchHere (literalPieces t ++ more) (s.drop span.start) = matchHere more (s.drop span.stop) := by
  rw [← between_append_drop hfits.start_le]
  exact matchHere_of_spells (fun w => isWord_of_mem_words) hfits.covers _

/-! ### Segments -/

/-- The pieces for the segments that stand behind another one. -/
def tailPieces (afterField : Bool) : List Segment → List Piece
  | [] => if afterField then [.blanks false, .textEnd] else []
  | segment :: segments =>
    .blanks false :: (segmentPieces segment ++ tailPieces (isField segment) segments)

theorem ofSegments_cons (segment : Segment) (segments : List Segment) :
    ofSegments (segment :: segments) =
      ⟨isField segment, (if isField segment then [.blanks false] else []) ++
        (segmentPieces segment ++ tailPieces (isField segment) segments)⟩ := by
  have hpieces : ∀ segment, [Piece.blanks false].intercalate ((segment :: segments).map segmentPieces) ++
      (if (segment :: segments).getLast?.any isField then [.blanks false, .textEnd] else []) =
        segmentPieces segment ++ tailPieces (isField segment) segments := by
    induction segments with
    | nil =>
        intro segment
        rw [List.map_singleton, List.intercalate_singleton]
        rfl
    | cons next segments ih =>
        intro segment
        rw [List.map_cons, List.map_cons, List.intercalate_cons_cons, ← List.map_cons,
          List.getLast?_cons_cons, List.append_assoc, List.append_assoc, ih next, tailPieces]
        rfl
  rw [ofSegments, TextPattern.mk.injEq, List.append_assoc, hpieces]
  exact ⟨rfl, rfl⟩

/-- What it takes to decide at a place how the segments follow. -/
def Decides (s : Text) (afterField : Bool) (p : Nat) (segments : List Segment) :
    Option (List Text) → Prop
  | none => ∀ spans, ¬ Follows s afterField p segments spans
  | some captures => ∃ spans, Follows s afterField p segments spans ∧
      captures = (fieldTexts s segments spans).map (·.2) ∧
      ∀ others, Follows s afterField p segments others →
        fieldStops segments others ≤ fieldStops segments spans

variable {segment : Segment} {segments : List Segment} {binding : Binding} {p : Nat} {afterField : Bool}
  {result : Option (List Text)}

theorem Decides.not_follows (hdecides : Decides s afterField p segments result) (hnone : result = none)
    (spans : List Span) : ¬ Follows s afterField p segments spans := by
  subst hnone
  exact hdecides spans

theorem Decides.exists_follows (hdecides : Decides s afterField p segments result)
    (hsome : result = some captures) :
    ∃ spans, Follows s afterField p segments spans ∧
      captures = (fieldTexts s segments spans).map (·.2) ∧
      ∀ others, Follows s afterField p segments others →
        fieldStops segments others ≤ fieldStops segments spans := by
  subst hsome
  exact hdecides

theorem decides_nil :
    Decides s afterField p [] (matchHere (tailPieces afterField []) (s.drop p)) := by
  cases afterField with
  | false =>
      refine ⟨[], .done fun htrue => absurd htrue Bool.false_ne_true, rfl, ?_⟩
      intro others hothers
      cases hothers
      exact le_rfl
  | true =>
      rw [tailPieces, if_pos rfl, matchHere]
      cases hlongest : longestRun false isBlank (matchHere [.textEnd]) (s.drop p) with
      | none =>
          intro spans hfollows
          cases hfollows with
          | done hback =>
              have hrun : Run false isBlank (s.drop p) (s.drop p) [] :=
                .optional (List.append_nil _) (hback rfl)
              exact absurd (longestRun_none hlongest hrun) (by simp [matchHere])
      | some result =>
          obtain ⟨run, captures⟩ := result
          obtain ⟨rest, hrun, hmatch, -⟩ := longestRun_some hlongest
          rw [matchHere] at hmatch
          split at hmatch
          next hempty =>
            obtain rfl := List.isEmpty_iff.mp hempty
            obtain rfl := Option.some.inj hmatch
            have hwhole : run = s.drop p := (List.append_nil run).symm.trans hrun.split
            refine ⟨[], .done fun _ => hwhole ▸ hrun.passes, rfl, ?_⟩
            intro others hothers
            cases hothers
            exact le_rfl
          next => cases hmatch

/-- Behind a place there is one place at most for a literal, so the rest decides. -/
theorem decides_literal (ht : ¬ Blank t) (hp : p ≤ s.length)
    (htail : ∀ q ≤ s.length, Decides s (isField (.literal t)) q segments
      (matchHere (tailPieces (isField (.literal t)) segments) (s.drop q))) :
    Decides s afterField p (.literal t :: segments)
      (matchHere (tailPieces afterField (.literal t :: segments)) (s.drop p)) := by
  rw [tailPieces, matchHere]
  cases hlongest : longestRun false isBlank
      (matchHere (segmentPieces (.literal t) ++ tailPieces (isField (.literal t)) segments)) (s.drop p) with
  | none =>
      intro spans hfollows
      cases hfollows with
      | @next _ _ _ span _ spans hle hblank hfits hmore =>
          have hrest := longestRun_none hlongest (.optional (between_append_drop hle) hblank)
          rw [segmentPieces, matchHere_literal hfits] at hrest
          exact (htail _ hfits.stop_le).not_follows hrest spans hmore
  | some result =>
      obtain ⟨gap, captures⟩ := result
      obtain ⟨_, hrun, hmatch, -⟩ := longestRun_some hlongest
      obtain ⟨start, hle, hstart, rfl, rfl⟩ := exists_between_of_append hrun.split hp
      obtain ⟨span, rfl, hfits, hrest⟩ := matchHere_literal_some hstart hmatch
      obtain ⟨spans, hspans, hcaptures, hgreatest⟩ := (htail _ hfits.stop_le).exists_follows hrest
      refine ⟨span :: spans, .next hle hrun.passes hfits hspans, hcaptures, ?_⟩
      intro others hothers
      cases hothers with
      | next hle' hblank' hfits' hmore' =>
          obtain rfl := span_eq_of_literal ht hle hrun.passes hfits hle' hblank' hfits'
          exact hgreatest _ hmore'

/-- The rest depends on where the capture ends and on nothing else, so the longest capture is the best. -/
theorem decides_field (hp : p ≤ s.length)
    (htail : ∀ q ≤ s.length, Decides s (isField (.field binding)) q segments
      (matchHere (tailPieces (isField (.field binding)) segments) (s.drop q))) :
    Decides s afterField p (.field binding :: segments)
      (matchHere (tailPieces afterField (.field binding :: segments)) (s.drop p)) := by
  -- what the binding covers is a run from where it begins
  have hrun_of_fits : ∀ {span : Span}, span.Fits s (.field binding) →
      Run (!binding.nullable) (fun _ => true) (s.drop span.start) (span.text s) (s.drop span.stop) := by
    intro span hfits
    refine ⟨between_append_drop hfits.start_le, fun _ _ => rfl, ?_⟩
    intro hrequired
    exact hfits.covers.resolve_left (by simpa using hrequired)
  rw [tailPieces, matchHere]
  cases hgap : longestRun false isBlank
      (matchHere (segmentPieces (.field binding) ++ tailPieces (isField (.field binding)) segments))
      (s.drop p) with
  | none =>
      intro spans hfollows
      cases hfollows with
      | @next _ _ _ span _ spans hle hblank hfits hmore =>
          have hcapture := longestRun_none hgap (.optional (between_append_drop hle) hblank)
          rw [segmentPieces, List.singleton_append, matchHere, Option.map_eq_none_iff] at hcapture
          have hrest := longestRun_none hcapture (hrun_of_fits hfits)
          exact (htail _ hfits.stop_le).not_follows hrest spans hmore
  | some result =>
      obtain ⟨gap, captures⟩ := result
      obtain ⟨_, hblanks, hmatch, -⟩ := longestRun_some hgap
      obtain ⟨start, hle, hstart, rfl, rfl⟩ := exists_between_of_append hblanks.split hp
      rw [segmentPieces, List.singleton_append, matchHere] at hmatch
      obtain ⟨⟨capture, inner⟩, hcapture, rfl⟩ := Option.map_eq_some_iff.mp hmatch
      obtain ⟨_, hrun, hinner, hlongest⟩ := longestRun_some hcapture
      obtain ⟨stop, hspan, hstop, rfl, rfl⟩ := exists_between_of_append hrun.split hstart
      obtain ⟨spans, hspans, hcaptures, hgreatest⟩ := (htail stop hstop).exists_follows hinner
      have hfits : (Span.mk start stop).Fits s (.field binding) := by
        refine ⟨hspan, hstop, ?_⟩
        cases hnullable : binding.nullable with
        | true => exact .inl hnullable
        | false => exact .inr (hrun.nonempty (by simp [hnullable]))
      refine ⟨⟨start, stop⟩ :: spans, .next hle hblanks.passes hfits hspans,
        congrArg (between s start stop :: ·) hcaptures, ?_⟩
      intro others hothers
      cases hothers with
      | @next _ _ _ other _ others hle' hblank' hfits' hmore' =>
          rcases lt_trichotomy other.stop stop with hlt | rfl | hgt
          · exact le_of_lt (List.Lex.rel hlt)
          · exact List.cons_le_cons _ (hgreatest others hmore')
          · -- the capture would have reached as far as `other` does
            have hstart := hspan.trans hgt.le
            have hlength : (between s start stop).length < (between s start other.stop).length := by
              rw [length_between hstop, length_between hfits'.stop_le]
              omega
            have hrest := hlongest _ _ ⟨between_append_drop hstart, fun _ _ => rfl,
              fun _ => List.ne_nil_of_length_pos (Nat.zero_lt_of_lt hlength)⟩ hlength
            exact absurd hmore' ((htail _ hfits'.stop_le).not_follows hrest others)

/-- Matching decides how segments follow behind a place, and finds the greatest ends of their bindings. -/
theorem decides_matchHere (hliterals : ∀ t, Segment.literal t ∈ segments → ¬ Blank t)
    (hp : p ≤ s.length) :
    Decides s afterField p segments (matchHere (tailPieces afterField segments) (s.drop p)) := by
  induction segments generalizing afterField p with
  | nil => exact decides_nil
  | cons segment segments ih =>
      have htail : ∀ q ≤ s.length, Decides s (isField segment) q segments
          (matchHere (tailPieces (isField segment) segments) (s.drop q)) :=
        fun q hq => ih (fun t ht => hliterals t (List.mem_cons_of_mem _ ht)) hq
      cases segment with
      | literal t => exact decides_literal (hliterals t List.mem_cons_self) hp htail
      | field binding => exact decides_field hp htail

/-! ### Search -/

variable {pieces : List Piece}

theorem searchFrom_none (hnone : searchFrom pieces s = none) (p : Nat) :
    matchHere pieces (s.drop p) = none := by
  induction s generalizing p with
  | nil => rwa [List.drop_nil]
  | cons c s ih =>
      rw [searchFrom, Option.or_eq_none_iff] at hnone
      cases p with
      | zero => exact hnone.1
      | succ p => exact ih hnone.2 p

/-- The first place at which the pieces match decides. -/
theorem searchFrom_some (hsome : searchFrom pieces s = some captures) :
    ∃ p ≤ s.length, matchHere pieces (s.drop p) = some captures ∧
      ∀ q < p, matchHere pieces (s.drop q) = none := by
  induction s with
  | nil => exact ⟨0, le_rfl, hsome, nofun⟩
  | cons c s ih =>
      rw [searchFrom, Option.or_eq_some_iff] at hsome
      rcases hsome with hhere | ⟨hnone, hlater⟩
      · exact ⟨0, Nat.zero_le _, hhere, nofun⟩
      · obtain ⟨p, hp, hmatch, hfirst⟩ := ih hlater
        refine ⟨p + 1, Nat.succ_le_succ hp, hmatch, ?_⟩
        intro q hq
        cases q with
        | zero => exact hnone
        | succ q => exact hfirst q (Nat.lt_of_succ_lt_succ hq)

/-- What it takes to find a placement of the segments. -/
def Finds (s : Text) (segments : List Segment) : Option (List Text) → Prop
  | none => ∀ spans, ¬ Placement s segments spans
  | some captures => ∃ spans, Preferred s segments spans ∧
      captures = (fieldTexts s segments spans).map (·.2)

theorem finds_search_field (hliterals : ∀ t, Segment.literal t ∈ segments → ¬ Blank t) :
    Finds s (.field binding :: segments) ((ofSegments (.field binding :: segments)).search s) := by
  have hdecides : Decides s true 0 (.field binding :: segments)
      ((ofSegments (.field binding :: segments)).search s) := by
    rw [ofSegments_cons]
    refine decides_matchHere ?_ (Nat.zero_le _)
    intro t ht
    exact hliterals t ((List.mem_cons.mp ht).resolve_left nofun)
  cases hsearch : (ofSegments (.field binding :: segments)).search s with
  | none =>
      intro spans hplacement
      exact hdecides.not_follows hsearch spans (placement_field_iff.mp hplacement)
  | some captures =>
      obtain ⟨spans, hspans, hcaptures, hgreatest⟩ := hdecides.exists_follows hsearch
      refine ⟨spans, ⟨⟨placement_field_iff.mpr hspans, nofun⟩, ?_⟩, hcaptures⟩
      exact fun others hothers => hgreatest others (placement_field_iff.mp hothers.toPlacement)

/-- Where a placement begins the pieces match. -/
theorem matchHere_ne_none_of_placement {span : Span} {spans : List Span}
    (hliterals : ∀ t, Segment.literal t ∈ segments → ¬ Blank t)
    (hplacement : Placement s (.literal t :: segments) (span :: spans)) :
    matchHere (segmentPieces (.literal t) ++ tailPieces (isField (.literal t)) segments)
      (s.drop span.start) ≠ none := by
  intro hnone
  obtain ⟨-, hfits, hmore⟩ := placement_cons_iff.mp hplacement
  rw [segmentPieces, matchHere_literal hfits] at hnone
  exact (decides_matchHere hliterals hfits.stop_le).not_follows hnone spans hmore

theorem finds_search_literal (ht : ¬ Blank t)
    (hliterals : ∀ t, Segment.literal t ∈ segments → ¬ Blank t) :
    Finds s (.literal t :: segments) ((ofSegments (.literal t :: segments)).search s) := by
  rw [ofSegments_cons]
  change Finds _ _ (searchFrom (segmentPieces (.literal t) ++ tailPieces (isField (.literal t)) segments) s)
  cases hsearch : searchFrom
      (segmentPieces (.literal t) ++ tailPieces (isField (.literal t)) segments) s with
  | none =>
      intro spans hplacement
      cases spans with
      | nil => cases hplacement.fits
      | cons span spans =>
          exact matchHere_ne_none_of_placement hliterals hplacement (searchFrom_none hsearch _)
  | some captures =>
      obtain ⟨p, hp, hmatch, hfirst⟩ := searchFrom_some hsearch
      obtain ⟨span, rfl, hfits, hrest⟩ := matchHere_literal_some hp hmatch
      obtain ⟨spans, hspans, hcaptures, hgreatest⟩ :=
        (decides_matchHere hliterals hfits.stop_le).exists_follows hrest
      have hplacement : Placement s (.literal t :: segments) (span :: spans) :=
        placement_cons_iff.mpr ⟨nofun, hfits, hspans⟩
      refine ⟨span :: spans, ⟨⟨hplacement, ?_⟩, ?_⟩, hcaptures⟩
      · rintro _ - others hothers _ ⟨⟩ other hother
        obtain ⟨others, rfl⟩ := List.head?_eq_some_iff.mp hother
        by_contra hlt
        exact matchHere_ne_none_of_placement hliterals hothers (hfirst _ (not_le.mp hlt))
      · intro others hothers
        cases others with
        | nil => cases hothers.fits
        | cons other others =>
            obtain ⟨-, hfits', hmore'⟩ := placement_cons_iff.mp hothers.toPlacement
            -- both begin at the same place, and there the literal has one span
            have hle : other.start ≤ span.start :=
              hothers.first t rfl _ hplacement other rfl span rfl
            have hstart : other.start = span.start := by
              refine le_antisymm hle (not_lt.mp fun hlt => ?_)
              exact matchHere_ne_none_of_placement hliterals hothers.toPlacement (hfirst _ hlt)
            obtain rfl := span_eq_of_start ht hfits hfits' hstart.symm
            exact hgreatest others hmore'

end TextPattern

open Text

/-- The binding takes the value from the text. -/
def Coerces (pair : Binding × Text) (value : Value) : Prop :=
  pair.1.coerce (some pair.2) = .value value

/-- The first of the texts that its binding takes no value from does not fit, for the given reason. -/
def FirstMisfit (pairs : List (Binding × Text)) (reason : Misfit) : Prop :=
  ∃ before pair after, pairs = before ++ pair :: after ∧
    (∀ earlier ∈ before, ∃ value, Coerces earlier value) ∧ pair.1.coerce (some pair.2) = .misfit reason

variable {s : Text} {segments : List Segment} {spans : List Span} {r : Record} {reason : Misfit}
  {pairs : List (Binding × Text)}

theorem Binding.coerce_ne_pattern (b : Binding) (raw : Option Text) (written : Text) :
    b.coerce raw ≠ .misfit (.pattern written) := by
  unfold coerce
  dsimp only
  split
  · split <;> nofun
  · split
    · nofun
    · split <;> nofun
    · nofun

theorem Binding.kind_of_coerce {b : Binding} {raw : Option Text} {name : Text}
    (hcoerce : b.coerce raw = .unknownKind name) : b.kind = .other name := by
  unfold coerce at hcoerce
  dsimp only at hcoerce
  split at hcoerce
  next => split at hcoerce <;> cases hcoerce
  next =>
    split at hcoerce
    next => cases hcoerce
    next => split at hcoerce <;> cases hcoerce
    next other hkind =>
      obtain rfl := Bound.unknownKind.inj hcoerce
      exact hkind

/-- White space at the ends of the texts makes no difference. -/
theorem bindCaptures_congr {others : List (Binding × Text)}
    (hpairs : List.Forall₂ (fun one other => one.1 = other.1 ∧ trim one.2 = trim other.2) pairs others)
    (r : Record) : bindCaptures r pairs = bindCaptures r others := by
  induction hpairs generalizing r with
  | nil => rfl
  | @cons one other _ _ hpair _ ih =>
      have hcoerce : one.1.coerce (some one.2) = other.1.coerce (some other.2) := by
        simp only [Binding.coerce, Option.getD_some, hpair.1, hpair.2]
      rw [bindCaptures, bindCaptures, hcoerce, hpair.1]
      simp only [ih]

theorem bindCaptures_eq_value {r' : Record} :
    bindCaptures r pairs = .value r' ↔ ∃ values, List.Forall₂ Coerces pairs values ∧
      r' = r.update ((pairs.map (·.1.name)).zip values) := by
  induction pairs generalizing r with
  | nil =>
      constructor
      · rintro ⟨⟩
        exact ⟨[], .nil, rfl⟩
      · rintro ⟨_, ⟨⟩, rfl⟩
        rfl
  | cons pair pairs ih =>
      rw [bindCaptures, Bound.bind_eq_value]
      constructor
      · rintro ⟨value, hvalue, hmore⟩
        obtain ⟨values, hvalues, rfl⟩ := ih.mp hmore
        exact ⟨value :: values, .cons hvalue hvalues, rfl⟩
      · rintro ⟨_, hvalues, rfl⟩
        cases hvalues with
        | cons hvalue hvalues => exact ⟨_, hvalue, ih.mpr ⟨_, hvalues, rfl⟩⟩

theorem bindCaptures_eq_misfit : bindCaptures r pairs = .misfit reason ↔ FirstMisfit pairs reason := by
  induction pairs generalizing r with
  | nil =>
      constructor
      · intro hvalue
        cases hvalue
      · rintro ⟨before, _, _, hsplit, -⟩
        exact absurd hsplit.symm (List.append_ne_nil_of_right_ne_nil before (List.cons_ne_nil _ _))
  | cons pair pairs ih =>
      constructor
      · intro hmisfit
        rw [bindCaptures] at hmisfit
        cases hcoerce : pair.1.coerce (some pair.2) with
        | value value =>
            rw [hcoerce] at hmisfit
            obtain ⟨before, failing, after, rfl, hbefore, hfailing⟩ := ih.mp hmisfit
            exact ⟨pair :: before, failing, after, rfl,
              List.forall_mem_cons.mpr ⟨⟨value, hcoerce⟩, hbefore⟩, hfailing⟩
        | misfit why =>
            rw [hcoerce] at hmisfit
            obtain rfl := Bound.misfit.inj hmisfit
            exact ⟨[], pair, pairs, rfl, List.forall_mem_nil _, hcoerce⟩
        | unknownKind name =>
            rw [hcoerce] at hmisfit
            cases hmisfit
      · rintro ⟨before, failing, after, hsplit, hbefore, hfailing⟩
        cases before with
        | nil =>
            obtain ⟨rfl, rfl⟩ := List.cons.inj hsplit
            rw [bindCaptures, hfailing]
            rfl
        | cons earlier before =>
            obtain ⟨rfl, rfl⟩ := List.cons.inj hsplit
            obtain ⟨⟨value, hvalue⟩, hbefore⟩ := List.forall_mem_cons.mp hbefore
            rw [bindCaptures, hvalue]
            exact ih.mpr ⟨before, failing, after, rfl, hbefore, hfailing⟩

/-- If all kinds are known, binding comes to a misfit exactly if a binding takes no value from its text. -/
theorem exists_misfit_iff (hkinds : ∀ pair ∈ pairs, ∀ name, pair.1.kind ≠ .other name) :
    (∃ reason, bindCaptures r pairs = .misfit reason) ↔ ∃ pair ∈ pairs, ∀ value, ¬ Coerces pair value := by
  induction pairs generalizing r with
  | nil => simp [bindCaptures]
  | cons pair pairs ih =>
      obtain ⟨hkind, hkinds⟩ := List.forall_mem_cons.mp hkinds
      rw [bindCaptures, List.exists_mem_cons_iff]
      unfold Coerces
      cases hcoerce : pair.1.coerce (some pair.2) with
      | value value =>
          have hhere : ¬ ∀ v, ¬ Bound.value value = .value v := fun hnot => hnot value rfl
          rw [or_iff_right hhere]
          exact ih hkinds
      | misfit reason => exact iff_of_true ⟨reason, rfl⟩ (.inl (by simp))
      | unknownKind name => exact absurd (Binding.kind_of_coerce hcoerce) (hkind name)

/-- Either there is a preferred placement and the text is bound by it, or there is none at all. -/
theorem bindText_cases (hmixed : ∀ binding, segments ≠ [.field binding])
    (hliterals : ∀ t, Segment.literal t ∈ segments → ¬ Blank t) :
    (∃ spans, Preferred s segments spans ∧
        bindText segments s = bindCaptures [] (fieldTexts s segments spans)) ∨
      (∀ spans, ¬ Placement s segments spans) ∧
        bindText segments s = .misfit (.pattern (TextPattern.ofSegments segments).written) := by
  cases segments with
  | nil =>
      refine .inl ⟨[], ⟨⟨placement_nil_iff.mpr rfl, nofun⟩, ?_⟩, rfl⟩
      intro others _
      exact le_rfl
  | cons segment segments =>
      have hfinds : TextPattern.Finds s (segment :: segments)
          ((TextPattern.ofSegments (segment :: segments)).search s) := by
        have hmore : ∀ t, Segment.literal t ∈ segments → ¬ Blank t :=
          fun t ht => hliterals t (List.mem_cons_of_mem _ ht)
        cases segment with
        | literal t => exact TextPattern.finds_search_literal (hliterals t List.mem_cons_self) hmore
        | field binding => exact TextPattern.finds_search_field hmore
      unfold bindText
      split
      next hnil => cases hnil
      next binding hlone => exact absurd hlone (hmixed binding)
      next =>
        dsimp only
        cases hsearch : (TextPattern.ofSegments (segment :: segments)).search s with
        | none =>
            rw [hsearch] at hfinds
            exact .inr ⟨hfinds, rfl⟩
        | some captures =>
            rw [hsearch] at hfinds
            obtain ⟨spans, hspans, rfl⟩ := hfinds
            refine .inl ⟨spans, hspans, ?_⟩
            dsimp only
            rw [← map_fst_fieldTexts hspans.fits, ← List.unzip_fst, ← List.unzip_snd, List.zip_unzip]

/-- Text is bound as its segments say. It does not match exactly if they have no placement. Otherwise every
preferred placement tells what is bound: the values that the bindings take from their spans, set in the
order of the segments, or the first failure among them. -/
theorem bindText_of_placement (hmixed : ∀ binding, segments ≠ [.field binding])
    (hliterals : ∀ t, Segment.literal t ∈ segments → ¬ Blank t) :
    (bindText segments s = .misfit (.pattern (TextPattern.ofSegments segments).written) ↔
      ¬ ∃ spans, Placement s segments spans) ∧
    ((∃ spans, Placement s segments spans) → ∃ spans, Preferred s segments spans) ∧
    ∀ spans, Preferred s segments spans →
      (∀ r, bindText segments s = .value r ↔
        ∃ values, List.Forall₂ Coerces (fieldTexts s segments spans) values ∧
          r = Record.update [] (((fieldTexts s segments spans).map (·.1.name)).zip values)) ∧
      (∀ reason, bindText segments s = .misfit reason ↔
        FirstMisfit (fieldTexts s segments spans) reason) ∧
      ((∀ pair ∈ fieldTexts s segments spans, ∀ name, pair.1.kind ≠ .other name) →
        ((∃ reason, bindText segments s = .misfit reason) ↔
          ∃ pair ∈ fieldTexts s segments spans, ∀ value, ¬ Coerces pair value)) := by
  rcases bindText_cases (s := s) hmixed hliterals with ⟨spans, hspans, hbind⟩ | ⟨hnone, hbind⟩
  · refine ⟨⟨?_, ?_⟩, fun _ => ⟨spans, hspans⟩, ?_⟩
    · intro hpattern
      obtain ⟨_, pair, _, _, _, hmisfit⟩ := bindCaptures_eq_misfit.mp (hbind.symm.trans hpattern)
      exact absurd hmisfit (pair.1.coerce_ne_pattern _ _)
    · exact fun hnone => absurd ⟨spans, hspans.toPlacement⟩ hnone
    · intro others hothers
      rw [hbind, bindCaptures_congr (hspans.forall₂_fieldTexts hliterals hothers)]
      exact ⟨fun _ => bindCaptures_eq_value, fun _ => bindCaptures_eq_misfit, exists_misfit_iff⟩
  · have hnowhere : ¬ ∃ spans, Placement s segments spans := not_exists.mpr hnone
    exact ⟨iff_of_true hbind hnowhere, fun hsome => absurd hsome hnowhere,
      fun spans hspans => absurd hspans.toPlacement (hnone spans)⟩

/-- A price with a dollar sign behind it: whatever placement is preferred, the price is bound without the
blank in front of the sign. -/
theorem bindText_of_placement_price :
    let segments := [.field ⟨"price".toList, .string, false⟩, .literal ['$']]
    let s := "9 10 $ ".toList
    (∃ spans, Preferred s segments spans) ∧ ∀ spans, Preferred s segments spans →
      ∃ values, List.Forall₂ Coerces (fieldTexts s segments spans) values ∧
        [("price".toList, .text "9 10".toList)] =
          Record.update [] (((fieldTexts s segments spans).map (·.1.name)).zip values) := by
  intro segments s
  have hliterals : ∀ t, Segment.literal t ∈ segments → ¬ Blank t := by
    intro t ht
    simp only [segments, List.mem_cons, List.not_mem_nil, or_false, reduceCtorEq, false_or,
      Segment.literal.injEq] at ht
    subst ht
    simp [Blank, isBlank]
  have hmixed : ∀ binding, segments ≠ [.field binding] := by simp [segments]
  obtain ⟨hnowhere, hpreferred, hbound⟩ := bindText_of_placement (s := s) hmixed hliterals
  have hbind : bindText segments s = .value [("price".toList, .text "9 10".toList)] := by rfl
  refine ⟨hpreferred ?_, fun spans hspans => ((hbound spans hspans).1 _).mp hbind⟩
  by_contra hnone
  cases hbind.symm.trans (hnowhere.mpr hnone)

end Gleaner
