import Gleaner.Proofs.Bindings
import Mathlib

/-! # Placements of text segments

What the segments of a text say, apart from any way of looking for them. Each segment takes a span of the
text, in order; a literal takes its words, a binding whatever stands there, and outside the spans of
neighbours there is only white space. A placement whose bindings reach as far as they can, earlier ones
first, is preferred; any two of them give the bindings the same text up to white space at its ends.
-/

namespace Gleaner

namespace Text

/-- Only white space, or nothing at all. -/
def Blank (s : Text) : Prop := ∀ c ∈ s, isBlank c = true

/-- What stands between two places of a text. -/
def between (s : Text) (start stop : Nat) : Text := (s.take stop).drop start

/-- The text consists of the words in order, with white space between neighbours. -/
inductive Spells : List Text → Text → Prop
  | none : Spells [] []
  | last (w : Text) : Spells [w] w
  | more {w v gap rest : Text} {ws : List Text} (hgap : gap ≠ []) (hblank : Blank gap)
      (hrest : Spells (v :: ws) rest) : Spells (w :: v :: ws) (w ++ gap ++ rest)

variable {s t gap rest : Text} {p q : Nat}

theorem between_append_drop (hpq : p ≤ q) : between s p q ++ s.drop q = s.drop p := by
  have hdrop : (s.take q).drop p ++ (s.drop q).drop (p - (s.take q).length) = s.drop p := by
    rw [← List.drop_append, List.take_append_drop]
  by_cases hq : q ≤ s.length
  · rwa [List.length_take_of_le hq, Nat.sub_eq_zero_of_le hpq, List.drop_zero] at hdrop
  · rw [List.drop_of_length_le (by omega : s.length ≤ q), List.drop_nil] at hdrop
    rwa [List.drop_of_length_le (by omega : s.length ≤ q)]

theorem between_self (s : Text) (p : Nat) : between s p p = [] :=
  List.drop_of_length_le (List.length_take_le p s)

theorem length_between (hq : q ≤ s.length) : (between s p q).length = q - p := by
  rw [between, List.length_drop, List.length_take_of_le hq]

theorem between_append_between {r : Nat} (hpq : p ≤ q) (hqr : q ≤ r) :
    between s p q ++ between s q r = between s p r := by
  have hwhole := between_append_drop (s := s.take r) hpq
  rwa [between, List.take_take, min_eq_left hqr] at hwhole

/-- Whatever stands in front of a rest of the text stands between two places. -/
theorem exists_between_of_append (hrest : t ++ rest = s.drop p) (hp : p ≤ s.length) :
    ∃ q, p ≤ q ∧ q ≤ s.length ∧ between s p q = t ∧ s.drop q = rest := by
  have hlength := congrArg List.length hrest
  rw [List.length_append, List.length_drop] at hlength
  have hdrop : s.drop (p + t.length) = rest := by
    rw [← List.drop_drop, ← hrest, List.drop_left]
  have hsplit := between_append_drop (s := s) (Nat.le_add_right p t.length)
  rw [hdrop, ← hrest] at hsplit
  exact ⟨p + t.length, by omega, by omega, List.append_cancel_right hsplit, hdrop⟩

theorem Blank.trimLeft_append (hgap : Blank gap) (rest : Text) :
    trimLeft (gap ++ rest) = trimLeft rest :=
  List.dropWhile_append_of_pos hgap

/-- White space at both ends does not count for what is left when a text is trimmed. -/
theorem Blank.trim_append {front back : Text} (hfront : Blank front) (s : Text) (hback : Blank back) :
    trim (front ++ s ++ back) = trim s := by
  have hright : ∀ t, trimRight (t ++ back) = trimRight t := by
    intro t
    have hblank : Blank back.reverse := fun c hc => hback c (List.mem_reverse.mp hc)
    unfold trimRight
    rw [List.reverse_append]
    exact congrArg List.reverse (hblank.trimLeft_append t.reverse)
  rw [List.append_assoc, trim, trim, hfront.trimLeft_append, trimLeft, trimLeft, List.dropWhile_append]
  split
  next hempty =>
    rw [List.isEmpty_iff.mp hempty, List.dropWhile_eq_nil_iff.mpr hback]
  next => exact hright _

/-- White space in front of a text that does not begin with any is all there is. -/
theorem Blank.append_inj {gap' rest' : Text} (hgap : Blank gap) (hgap' : Blank gap')
    (hrest : trimLeft rest = rest) (hrest' : trimLeft rest' = rest')
    (heq : gap ++ rest = gap' ++ rest') : gap = gap' ∧ rest = rest' := by
  have hsame : rest = rest' := by
    rw [← hrest, ← hgap.trimLeft_append rest, heq, hgap'.trimLeft_append, hrest']
  exact ⟨List.append_cancel_right (hsame ▸ heq), hsame⟩

/-- A word has characters and none of them is white space. -/
def IsWord (w : Text) : Prop := w ≠ [] ∧ ∀ c ∈ w, isBlank c = false

theorem forall_mem_splitOnP (s : Text) : ∀ w ∈ s.splitOnP isBlank, ∀ c ∈ w, isBlank c = false := by
  induction s with
  | nil => simp
  | cons c s ih =>
      rw [List.splitOnP_cons_eq_if_modifyHead]
      split
      next => simpa using ih
      next hc =>
        cases hsplit : s.splitOnP isBlank with
        | nil => simp
        | cons w more =>
            rw [hsplit, List.forall_mem_cons] at ih
            rw [List.modifyHead_cons, List.forall_mem_cons, List.forall_mem_cons]
            exact ⟨⟨by simpa using hc, ih.1⟩, ih.2⟩

theorem isWord_of_mem_words {w : Text} (hw : w ∈ words s) : IsWord w := by
  obtain ⟨hmem, hnonempty⟩ := List.mem_filter.mp hw
  exact ⟨by simpa using hnonempty, forall_mem_splitOnP s w hmem⟩

theorem words_ne_nil (hs : ¬ Blank s) : words s ≠ [] := by
  -- the first character that is not blank is in one of the pieces
  have hpieces : ∀ s : Text, ¬ Blank s → ∃ w ∈ s.splitOnP isBlank, w ≠ [] := by
    intro s hs
    induction s with
    | nil => exact absurd (List.forall_mem_nil _) hs
    | cons c s ih =>
        rw [List.splitOnP_cons_eq_if_modifyHead]
        split
        next hc =>
          obtain ⟨w, hw, hne⟩ := ih fun hblank => hs (List.forall_mem_cons.mpr ⟨hc, hblank⟩)
          exact ⟨w, List.mem_cons_of_mem _ hw, hne⟩
        next =>
          obtain ⟨w, more, hsplit⟩ := List.exists_cons_of_ne_nil (List.splitOnP_ne_nil isBlank s)
          rw [hsplit]
          exact ⟨c :: w, List.mem_cons_self, List.cons_ne_nil _ _⟩
  obtain ⟨w, hw, hne⟩ := hpieces s hs
  exact List.ne_nil_of_mem (List.mem_filter.mpr ⟨hw, by simpa using hne⟩)

theorem IsWord.trimLeft_append {w : Text} (hw : IsWord w) (rest : Text) :
    trimLeft (w ++ rest) = w ++ rest := by
  obtain ⟨c, w, rfl⟩ := List.exists_cons_of_ne_nil hw.1
  exact trimLeft_cons_of_not (hw.2 c List.mem_cons_self)

/-- Words that are spelled out begin with the first of them. -/
theorem Spells.trimLeft_append {w : Text} {ws : List Text} (ht : Spells (w :: ws) t) (hw : IsWord w)
    (rest : Text) : trimLeft (t ++ rest) = t ++ rest := by
  cases ht with
  | last => exact hw.trimLeft_append rest
  | more => simpa only [List.append_assoc] using hw.trimLeft_append _

/-- At one place words are spelled out in one way at most. -/
theorem Spells.append_inj {ws : List Text} {t' rest' : Text} (ht : Spells ws t) (ht' : Spells ws t')
    (hws : ∀ w ∈ ws, IsWord w) (heq : t ++ rest = t' ++ rest') : t = t' := by
  induction ht generalizing t' with
  | none =>
      cases ht'
      rfl
  | last w =>
      cases ht'
      rfl
  | more hgap hblank hrest ih =>
      cases ht' with
      | more _ hblank' hrest' =>
          rw [List.forall_mem_cons] at hws
          have hv := (List.forall_mem_cons.mp hws.2).1
          simp only [List.append_assoc, List.append_cancel_left_eq] at heq
          obtain ⟨rfl, hsame⟩ := hblank.append_inj hblank' (hrest.trimLeft_append hv _)
            (hrest'.trimLeft_append hv _) heq
          rw [ih hrest' hws.2 hsame]

end Text

open Text

/-- A stretch of a text, from one place up to another. -/
structure Span where
  start : Nat
  stop : Nat
deriving DecidableEq

def Span.text (span : Span) (s : Text) : Text := between s span.start span.stop

/-- A literal covers its words verbatim with white space between them; a binding covers any text, but not
the empty one unless it is nullable. -/
def Segment.Covers : Segment → Text → Prop
  | literal t, covered => Spells (words t) covered
  | field binding, covered => binding.nullable = true ∨ covered ≠ []

/-- The span lies in the text and the segment covers what is there. -/
structure Span.Fits (span : Span) (s : Text) (segment : Segment) : Prop where
  start_le : span.start ≤ span.stop
  stop_le : span.stop ≤ s.length
  covers : segment.Covers (span.text s)

/-- A span ends before another one begins, and there is only white space between them. -/
structure Span.Before (s : Text) (span next : Span) : Prop where
  le : span.stop ≤ next.start
  blank : Blank (between s span.stop next.start)

/-- One span for each segment, in order and without overlap. -/
structure Placement (s : Text) (segments : List Segment) (spans : List Span) : Prop where
  fits : List.Forall₂ (fun segment span => span.Fits s segment) segments spans
  gaps : spans.IsChain (Span.Before s)
  /-- In front of a binding at the beginning there is only white space. -/
  front : ∀ binding, segments.head? = some (.field binding) →
    ∀ span ∈ spans.head?, Blank (s.take span.start)
  /-- Behind a binding at the end there is only white space. -/
  back : ∀ binding, segments.getLast? = some (.field binding) →
    ∀ span ∈ spans.getLast?, Blank (s.drop span.stop)

/-- A placement that begins as far to the left as any, if it begins with a literal. -/
structure Leftmost (s : Text) (segments : List Segment) (spans : List Span) : Prop
    extends Placement s segments spans where
  first : ∀ t, segments.head? = some (.literal t) → ∀ others, Placement s segments others →
    ∀ span ∈ spans.head?, ∀ other ∈ others.head?, span.start ≤ other.start

/-- The bindings among the segments, with the spans that they take. -/
def fieldSpans : List Segment → List Span → List (Binding × Span)
  | .field binding :: segments, span :: spans => (binding, span) :: fieldSpans segments spans
  | .literal _ :: segments, _ :: spans => fieldSpans segments spans
  | _, _ => []

/-- The places where the spans of bindings end. -/
def fieldStops (segments : List Segment) (spans : List Span) : List Nat :=
  (fieldSpans segments spans).map (·.2.stop)

/-- The bindings among the segments, with the text that they take. -/
def fieldTexts (s : Text) (segments : List Segment) (spans : List Span) : List (Binding × Text) :=
  (fieldSpans segments spans).map fun pair => (pair.1, pair.2.text s)

/-- Of the leftmost placements one in which the bindings end as late as they can, in lexicographic
order. -/
structure Preferred (s : Text) (segments : List Segment) (spans : List Span) : Prop
    extends Leftmost s segments spans where
  greatest : ∀ others, Leftmost s segments others →
    fieldStops segments others ≤ fieldStops segments spans

/-- The spans place the segments behind a place of the text, to which a binding reaches if
`afterField`. -/
inductive Follows (s : Text) : Bool → Nat → List Segment → List Span → Prop
  | done {afterField : Bool} {p : Nat} (hback : afterField = true → Blank (s.drop p)) :
      Follows s afterField p [] []
  | next {afterField : Bool} {p : Nat} {segment : Segment} {span : Span}
      {segments : List Segment} {spans : List Span}
      (hle : p ≤ span.start) (hblank : Blank (between s p span.start)) (hfits : span.Fits s segment)
      (hmore : Follows s (TextPattern.isField segment) span.stop segments spans) :
      Follows s afterField p (segment :: segments) (span :: spans)

variable {s : Text} {segment : Segment} {segments : List Segment} {span : Span} {spans : List Span}

theorem follows_iff {afterField : Bool} {before : Span} :
    Follows s afterField before.stop segments spans ↔
      List.Forall₂ (fun segment span => span.Fits s segment) segments spans ∧
        (before :: spans).IsChain (Span.Before s) ∧
          ((segments.getLast?.elim afterField TextPattern.isField) = true →
            Blank (s.drop (spans.getLast?.getD before).stop)) := by
  induction segments generalizing afterField before spans with
  | nil =>
      constructor
      · intro hfollows
        cases hfollows with
        | done hback => exact ⟨.nil, .singleton _, hback⟩
      · rintro ⟨hfits, -, hback⟩
        cases hfits
        exact .done hback
  | cons segment segments ih =>
      cases spans with
      | nil =>
          constructor
          · intro hfollows
            cases hfollows
          · rintro ⟨hfits, -⟩
            cases hfits
      | cons span spans =>
          have hlast : ((segment :: segments).getLast?.elim afterField TextPattern.isField) =
              segments.getLast?.elim (TextPattern.isField segment) TextPattern.isField := by
            rw [List.getLast?_cons]
            cases segments.getLast? <;> rfl
          rw [List.forall₂_cons, List.isChain_cons_cons, hlast, List.getLast?_cons, Option.getD_some]
          constructor
          · intro hfollows
            cases hfollows with
            | next hle hblank hfit hmore =>
                obtain ⟨hfits, hchain, hback⟩ := ih.mp hmore
                exact ⟨⟨hfit, hfits⟩, ⟨⟨hle, hblank⟩, hchain⟩, hback⟩
          · rintro ⟨⟨hfit, hfits⟩, ⟨hbefore, hchain⟩, hback⟩
            exact .next hbefore.le hbefore.blank hfit (ih.mpr ⟨hfits, hchain, hback⟩)

theorem isField_iff : TextPattern.isField segment = true ↔ ∃ binding, segment = .field binding := by
  cases segment <;> simp [TextPattern.isField, Segment.binding?]

/-- A placement is the span of the first segment, followed by the others. -/
theorem placement_cons_iff :
    Placement s (segment :: segments) (span :: spans) ↔
      (TextPattern.isField segment = true → Blank (s.take span.start)) ∧ span.Fits s segment ∧
        Follows s (TextPattern.isField segment) span.stop segments spans := by
  have hlast : ((∃ binding, (segment :: segments).getLast? = some (.field binding)) ↔
      (segments.getLast?.elim (TextPattern.isField segment) TextPattern.isField) = true) := by
    rw [List.getLast?_cons]
    cases segments.getLast? <;> simp [isField_iff]
  rw [follows_iff, ← hlast]
  constructor
  · intro hplacement
    obtain ⟨hfit, hfits⟩ := List.forall₂_cons.mp hplacement.fits
    refine ⟨?_, hfit, hfits, hplacement.gaps, ?_⟩
    · intro hfield
      obtain ⟨binding, rfl⟩ := isField_iff.mp hfield
      exact hplacement.front binding rfl span rfl
    · rintro ⟨binding, hbinding⟩
      exact hplacement.back binding hbinding _ List.getLast?_cons
  · rintro ⟨hfront, hfit, hfits, hgaps, hback⟩
    refine ⟨.cons hfit hfits, hgaps, ?_, ?_⟩
    · rintro binding hbinding _ ⟨⟩
      exact hfront (isField_iff.mpr ⟨binding, Option.some.inj hbinding⟩)
    · intro binding hbinding last hlast
      obtain rfl := Option.some.inj (List.getLast?_cons.symm.trans hlast)
      exact hback ⟨binding, hbinding⟩

theorem placement_nil_iff : Placement s [] spans ↔ spans = [] := by
  constructor
  · intro hplacement
    exact List.forall₂_nil_left_iff.mp hplacement.fits
  · rintro rfl
    exact ⟨.nil, .nil, nofun, nofun⟩

/-- A placement that begins with a binding begins with the text. -/
theorem placement_field_iff {binding : Binding} :
    Placement s (.field binding :: segments) spans ↔
      Follows s true 0 (.field binding :: segments) spans := by
  cases spans with
  | nil =>
      constructor
      · intro hplacement
        cases hplacement.fits
      · intro hfollows
        cases hfollows
  | cons span spans =>
      rw [placement_cons_iff]
      constructor
      · rintro ⟨hfront, hfits, hmore⟩
        exact .next (Nat.zero_le _) (hfront rfl) hfits hmore
      · intro hfollows
        cases hfollows with
        | next _ hblank hfits hmore => exact ⟨fun _ => hblank, hfits, hmore⟩

theorem map_fst_fieldTexts
    (hfits : List.Forall₂ (fun segment span => span.Fits s segment) segments spans) :
    (fieldTexts s segments spans).map (·.1) = segments.filterMap Segment.binding? := by
  rw [fieldTexts, List.map_map]
  induction hfits with
  | nil => rfl
  | @cons segment _ _ _ _ _ ih =>
      cases segment with
      | literal t => exact ih
      | field binding => exact congrArg (binding :: ·) ih

/-- Behind white space there is one place at most for a literal. -/
theorem span_eq_of_literal {t : Text} {other : Span} {p : Nat} (ht : ¬ Blank t)
    (hle : p ≤ span.start) (hblank : Blank (between s p span.start)) (hfits : span.Fits s (.literal t))
    (hle' : p ≤ other.start) (hblank' : Blank (between s p other.start))
    (hfits' : other.Fits s (.literal t)) : span = other := by
  have hwords : ∀ w ∈ words t, IsWord w := fun w => isWord_of_mem_words
  obtain ⟨w, ws, hw⟩ := List.exists_cons_of_ne_nil (words_ne_nil ht)
  have htrim : ∀ {span : Span}, span.Fits s (.literal t) →
      trimLeft (s.drop span.start) = s.drop span.start := by
    intro span hfits
    have hspells : Spells (w :: ws) (span.text s) := hw ▸ hfits.covers
    rw [← between_append_drop hfits.start_le]
    exact hspells.trimLeft_append (hwords w (hw ▸ List.mem_cons_self)) _
  obtain ⟨hgap, hrest⟩ := hblank.append_inj hblank' (htrim hfits) (htrim hfits')
    ((between_append_drop hle).trans (between_append_drop hle').symm)
  have hstart : span.start = other.start := by
    have hlength := congrArg List.length hgap
    rw [length_between (hfits.start_le.trans hfits.stop_le),
      length_between (hfits'.start_le.trans hfits'.stop_le)] at hlength
    omega
  have htext : span.text s = other.text s := by
    rw [← between_append_drop hfits.start_le, ← between_append_drop hfits'.start_le] at hrest
    exact hfits.covers.append_inj hfits'.covers hwords hrest
  have hstop : span.stop = other.stop := by
    have hlength := congrArg List.length htext
    rw [Span.text, Span.text, length_between hfits.stop_le, length_between hfits'.stop_le] at hlength
    have hle := hfits.start_le
    have hle' := hfits'.start_le
    omega
  rcases span with ⟨start, stop⟩
  rcases other with ⟨start', stop'⟩
  obtain rfl : start = start' := hstart
  obtain rfl : stop = stop' := hstop
  rfl

theorem trim_text {p : Nat} (hle : p ≤ span.start) (hblank : Blank (between s p span.start))
    (hspan : span.start ≤ span.stop) : trim (span.text s) = trim (between s p span.stop) := by
  rw [← between_append_between hle hspan, trim, trim, hblank.trimLeft_append]
  rfl

/-- Where bindings end alike behind a place they take the same text, up to white space at its ends. -/
theorem forall₂_fieldTexts_of_stops {afterField : Bool} {p : Nat} {others : List Span}
    (hliterals : ∀ t, Segment.literal t ∈ segments → ¬ Blank t)
    (hspans : Follows s afterField p segments spans) (hothers : Follows s afterField p segments others)
    (hstops : fieldStops segments spans = fieldStops segments others) :
    List.Forall₂ (fun one other => one.1 = other.1 ∧ trim one.2 = trim other.2)
      (fieldTexts s segments spans) (fieldTexts s segments others) := by
  induction hspans generalizing others with
  | done =>
      cases hothers
      exact .nil
  | @next afterField p segment span segments spans hle hblank hfits hmore ih =>
      cases hothers with
      | @next _ _ _ other _ others hle' hblank' hfits' hmore' =>
          have hliterals' : ∀ t, Segment.literal t ∈ segments → ¬ Blank t :=
            fun t ht => hliterals t (List.mem_cons_of_mem _ ht)
          cases segment with
          | literal t =>
              have ht := hliterals t List.mem_cons_self
              obtain rfl := span_eq_of_literal ht hle hblank hfits hle' hblank' hfits'
              exact ih hliterals' hmore' hstops
          | field binding =>
              obtain ⟨hstop, hmoreStops⟩ := List.cons.inj hstops
              dsimp only at hstop
              rw [← hstop] at hmore'
              have htrim : trim (span.text s) = trim (other.text s) := by
                rw [trim_text hle hblank hfits.start_le, trim_text hle' hblank' hfits'.start_le, hstop]
              exact .cons ⟨rfl, htrim⟩ (ih hliterals' hmore' hmoreStops)

/-- At the place where it begins a literal has one span at most. -/
theorem span_eq_of_start {t : Text} {other : Span} (ht : ¬ Blank t) (hfits : span.Fits s (.literal t))
    (hfits' : other.Fits s (.literal t)) (hstart : span.start = other.start) : span = other := by
  have hblank : Blank (between s span.start span.start) := by simp [between_self, Blank]
  exact span_eq_of_literal ht le_rfl hblank hfits hstart.le (hstart ▸ hblank) hfits'

/-- Preferred placements give the bindings the same text, up to white space at its ends. -/
theorem Preferred.forall₂_fieldTexts {others : List Span}
    (hliterals : ∀ t, Segment.literal t ∈ segments → ¬ Blank t) (hspans : Preferred s segments spans)
    (hothers : Preferred s segments others) :
    List.Forall₂ (fun one other => one.1 = other.1 ∧ trim one.2 = trim other.2)
      (fieldTexts s segments spans) (fieldTexts s segments others) := by
  have hstops : fieldStops segments spans = fieldStops segments others :=
    le_antisymm (hothers.greatest _ hspans.toLeftmost) (hspans.greatest _ hothers.toLeftmost)
  cases segments with
  | nil => exact .nil
  | cons segment segments =>
      cases segment with
      | field binding =>
          exact forall₂_fieldTexts_of_stops hliterals (placement_field_iff.mp hspans.toPlacement)
            (placement_field_iff.mp hothers.toPlacement) hstops
      | literal t =>
          cases hspans.fits with
          | @cons _ span _ spans hfits _ =>
              cases hothers.fits with
              | @cons _ other _ others hfits' _ =>
                  have hstart : span.start = other.start :=
                    le_antisymm (hspans.first t rfl _ hothers.toPlacement span rfl other rfl)
                      (hothers.first t rfl _ hspans.toPlacement other rfl span rfl)
                  have hmore := (placement_cons_iff.mp hspans.toPlacement).2.2
                  have hmore' := (placement_cons_iff.mp hothers.toPlacement).2.2
                  have hliterals' : ∀ t, Segment.literal t ∈ segments → ¬ Blank t :=
                    fun t ht => hliterals t (List.mem_cons_of_mem _ ht)
                  obtain rfl := span_eq_of_start (hliterals t List.mem_cons_self) hfits hfits' hstart
                  have htexts := forall₂_fieldTexts_of_stops hliterals' hmore hmore' hstops
                  exact htexts

end Gleaner
