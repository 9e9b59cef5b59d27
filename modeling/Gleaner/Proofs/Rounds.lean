import Gleaner.Proofs.Origins
import Mathlib.Logic.Relation

/-! # Reading in rounds

Markup is read by three loops: one looks for the next beginning of markup, one reads the attributes of a tag
piece by piece, and one looks for the next mention of the tag of a skipped element. Here every round of each
of them is a step on the text that is still to be read. Each leaves less of it, so the rounds come to an end,
and what they end with is what the readers give.
-/

namespace Gleaner.Markup

open Text

/-- Whose start tag is being read. -/
inductive Owner where
  /-- An element that is kept. -/
  | kept (tag : Text)
  /-- An element that is skipped with everything in it. -/
  | skipped (tag : Text)
  /-- An element of the same name within a skipped one, which begins at `outer` and holds `depth` open
  elements of the name. -/
  | nested (tag outer : Text) (depth : Nat)
deriving DecidableEq

/-- The loop whose next round is due. -/
inductive Loop where
  /-- Looks for the next beginning of markup; `run` is the text that was passed since the last one. -/
  | markup (run : Text)
  /-- Reads on in the tag that begins at `start`; `pairs` are the attributes that were read. -/
  | attributes (start : Text) (owner : Owner) (pairs : List (Text × Text))
  /-- Looks for the next mention of the tag of the skipped element that begins at `start`. -/
  | skipping (tag start : Text) (depth : Nat)
deriving DecidableEq

/-- How far the reading of a text has come. -/
structure Progress where
  tokens : List Token
  loop : Loop
  /-- The text still to be read. -/
  rest : Text
deriving DecidableEq

/-- What a round comes to. -/
inductive Round where
  | goOn (p : Progress)
  | finish (scan : Scan)
deriving DecidableEq

/-- What follows the closing bracket of the tag that begins at `start`. -/
def Owner.close (tokens : List Token) (start : Text) (body : TagBody) : Owner → Round
  | .kept tag =>
    if body.selfClosed ∨ tag ∈ voidTags then
      .goOn ⟨tokens ++ [.leaf tag body.pairs []], .markup [], body.rest⟩
    else if tag ∈ rawTextTags then
      match takeRawText? tag body.rest with
      | none => .finish ⟨tokens, some ⟨.rawText tag, start⟩⟩
      | some (content, rest) => .goOn ⟨tokens ++ [.leaf tag body.pairs content], .markup [], rest⟩
    else .goOn ⟨tokens ++ [.enter tag body.pairs], .markup [], body.rest⟩
  | .skipped tag =>
    if body.selfClosed ∨ tag ∈ voidTags then .goOn ⟨tokens, .markup [], body.rest⟩
    else .goOn ⟨tokens, .skipping tag start 0, body.rest⟩
  | .nested tag outer depth =>
    .goOn ⟨tokens, .skipping tag outer (if body.selfClosed then depth else depth + 1), body.rest⟩

namespace Loop

/-- Goes to the next bracket. One that begins no markup is text; a start tag is left to the loop that reads
attributes. -/
def markupRound (skip : List Text) (tokens : List Token) (run s : Text) : Round :=
  let run := run ++ s.takeWhile (· != '<')
  match s.dropWhile (· != '<') with
  | [] => .finish ⟨tokens ++ [.text run], none⟩
  | c :: behind =>
    if beginsMarkup (c :: behind) then
      let tokens := tokens ++ [.text run]
      if behind.head?.any isTagStart then
        let tag := lower (behind.takeWhile isTagChar)
        .goOn ⟨tokens, .attributes (c :: behind) (if tag ∈ skip then .skipped tag else .kept tag) [],
          behind.dropWhile isTagChar⟩
      else
        match readMarkup skip (c :: behind) behind with
        | .error fault => .finish ⟨tokens, some fault⟩
        | .ok (token, rest) => .goOn ⟨tokens ++ token.toList, .markup [], rest⟩
    else .goOn ⟨tokens, .markup (run ++ [c]), behind⟩

/-- Reads one piece of a tag. -/
def attributesRound (tokens : List Token) (start : Text) (owner : Owner) (pairs : List (Text × Text))
    (s : Text) : Round :=
  match readPiece start s with
  | .error fault => .finish ⟨tokens, some fault⟩
  | .ok (.finish selfClosed, rest) => owner.close tokens start ⟨pairs, selfClosed, rest⟩
  | .ok (.stray, rest) => .goOn ⟨tokens, .attributes start owner pairs, rest⟩
  | .ok (.pair name value, rest) => .goOn ⟨tokens, .attributes start owner (pairs ++ [(name, value)]), rest⟩

/-- Goes to the next mention of the tag of a skipped element. -/
def skippingRound (tokens : List Token) (tag start : Text) (depth : Nat) (s : Text) : Round :=
  match findMention? tag s with
  | none => .finish ⟨tokens, some ⟨.skipped tag, start⟩⟩
  | some found =>
    if found.closing then
      match cut ['>'] found.rest with
      | none => .finish ⟨tokens, some ⟨.closingTag tag, found.start⟩⟩
      | some (_, rest) =>
        if depth = 0 then .goOn ⟨tokens, .markup [], rest⟩
        else .goOn ⟨tokens, .skipping tag start (depth - 1), rest⟩
    else .goOn ⟨tokens, .attributes found.start (.nested tag start depth) [], found.rest⟩

end Loop

namespace Progress

/-- The beginning of a reading. -/
def begin (s : Text) : Progress := ⟨[], .markup [], s⟩

/-- The round that is due. -/
def round (skip : List Text) (p : Progress) : Round :=
  match p.loop with
  | .markup run => Loop.markupRound skip p.tokens run p.rest
  | .attributes start owner pairs => Loop.attributesRound p.tokens start owner pairs p.rest
  | .skipping tag start depth => Loop.skippingRound p.tokens tag start depth p.rest

/-- What the reading ends with, if at most so many rounds of the loops taken together are enough. -/
def run (skip : List Text) : (rounds : Nat) → Progress → Option Scan
  | 0, _ => none
  | rounds + 1, p =>
    match p.round skip with
    | .goOn q => run skip rounds q
    | .finish scan => some scan

/-- A round leads from one to the other. -/
def Next (skip : List Text) (p q : Progress) : Prop := p.round skip = .goOn q

end Progress

variable {skip : List Text} {s start tag rest behind : Text} {tokens : List Token} {owner : Owner}
  {body : TagBody} {p q : Progress} {c : Char}

/-! ### Every round leaves less text -/

theorem length_of_close (hclose : owner.close tokens start body = .goOn q) :
    q.rest.length ≤ body.rest.length := by
  unfold Owner.close at hclose
  split at hclose
  next tag =>
    split at hclose
    next =>
      cases hclose
      exact Nat.le_refl _
    next =>
      split at hclose
      next =>
        split at hclose
        next => cases hclose
        next hraw =>
          cases hclose
          exact Nat.le_of_lt (length_of_takeRawText? hraw)
      next =>
        cases hclose
        exact Nat.le_refl _
  next tag =>
    split at hclose
    all_goals
      cases hclose
      exact Nat.le_refl _
  next tag outer depth =>
    cases hclose
    exact Nat.le_refl _

theorem length_of_markupRound {run : Text} (hround : Loop.markupRound skip tokens run s = .goOn q) :
    q.rest.length < s.length := by
  unfold Loop.markupRound at hround
  dsimp only at hround
  split at hround
  next => cases hround
  next c behind hs =>
    have hlength := length_dropWhile_le (· != '<') s
    rw [hs, List.length_cons] at hlength
    split at hround
    next =>
      split at hround
      next =>
        cases hround
        exact Nat.lt_of_le_of_lt (length_dropWhile_le _ _) hlength
      next =>
        split at hround
        next => cases hround
        next hmarkup =>
          cases hround
          exact Nat.lt_of_le_of_lt (length_of_readMarkup hmarkup) hlength
    next =>
      cases hround
      exact hlength

theorem length_of_attributesRound {pairs : List (Text × Text)}
    (hround : Loop.attributesRound tokens start owner pairs s = .goOn q) : q.rest.length < s.length := by
  unfold Loop.attributesRound at hround
  split at hround
  next => cases hround
  next hpiece => exact Nat.lt_of_le_of_lt (length_of_close hround) (length_of_readPiece hpiece)
  next hpiece =>
    cases hround
    exact length_of_readPiece hpiece
  next hpiece =>
    cases hround
    exact length_of_readPiece hpiece

theorem length_of_skippingRound {depth : Nat}
    (hround : Loop.skippingRound tokens tag start depth s = .goOn q) : q.rest.length < s.length := by
  unfold Loop.skippingRound at hround
  split at hround
  next => cases hround
  next found hfound =>
    have hlength := length_of_findMention? hfound
    split at hround
    next =>
      split at hround
      next => cases hround
      next hcut =>
        have hbehind := length_of_cut hcut
        split at hround
        all_goals
          cases hround
          dsimp only
          omega
    next =>
      cases hround
      exact hlength

namespace Progress

theorem Next.length_lt (hnext : Next skip p q) : q.rest.length < p.rest.length := by
  unfold Next round at hnext
  split at hnext
  next => exact length_of_markupRound hnext
  next => exact length_of_attributesRound hnext
  next => exact length_of_skippingRound hnext

/-- From one round to any later one the text still to be read gets shorter. -/
theorem length_lt_of_transGen (hlater : Relation.TransGen (Next skip) p q) :
    q.rest.length < p.rest.length := by
  induction hlater with
  | single hnext => exact hnext.length_lt
  | tail _ hnext ih => exact Nat.lt_trans hnext.length_lt ih

/-- What the reading ends with. -/
def outcome (skip : List Text) (p : Progress) : Scan :=
  match _hround : p.round skip with
  | .goOn q => q.outcome skip
  | .finish scan => scan
termination_by p.rest.length
decreasing_by exact Next.length_lt _hround

end Progress

/-- What the reading ends with after a round. -/
def Round.outcome (skip : List Text) : Round → Scan
  | .goOn p => p.outcome skip
  | .finish scan => scan

theorem Progress.outcome_eq (p : Progress) : p.outcome skip = (p.round skip).outcome skip := by
  rw [outcome]
  split
  next hround => rw [hround]; rfl
  next hround => rw [hround]; rfl

/-- More rounds than there are characters to read are enough. -/
theorem Progress.run_of_length_lt {rounds : Nat} (hlength : p.rest.length < rounds) :
    p.run skip rounds = some (p.outcome skip) := by
  induction rounds generalizing p with
  | zero => exact absurd hlength (Nat.not_lt_zero _)
  | succ rounds ih =>
      rw [run, outcome_eq]
      cases hround : p.round skip with
      | goOn q =>
          have hnext := Next.length_lt hround
          exact ih (by omega)
      | finish scan => rfl

/-! ### The rounds do what the readers do -/

/-- The rounds that read attributes read the inside of a tag. -/
theorem outcome_attributes (tokens : List Token) (start s : Text) (owner : Owner)
    (pairs : List (Text × Text)) :
    Progress.outcome skip ⟨tokens, .attributes start owner pairs, s⟩ =
      match readBody start s with
      | .error fault => ⟨tokens, some fault⟩
      | .ok body =>
        (owner.close tokens start { body with pairs := pairs ++ body.pairs }).outcome skip := by
  fun_induction readBody start s generalizing pairs with
  | case1 s fault hpiece =>
      rw [Progress.outcome_eq]
      simp only [Progress.round, Loop.attributesRound, hpiece, Round.outcome]
  | case2 s selfClosed rest hpiece =>
      rw [Progress.outcome_eq]
      simp only [Progress.round, Loop.attributesRound, hpiece, List.append_nil]
  | case3 s rest hpiece ih =>
      rw [Progress.outcome_eq]
      simp only [Progress.round, Loop.attributesRound, hpiece, Round.outcome, ih]
  | case4 s name value rest hpiece ih =>
      rw [Progress.outcome_eq]
      simp only [Progress.round, Loop.attributesRound, hpiece, Round.outcome, ih]
      cases readBody start rest with
      | error fault => rfl
      | ok body => simp [Except.map]

/-- The rounds that look for mentions pass over the content of a skipped element. -/
theorem outcome_skipping (tokens : List Token) (tag start s : Text) (depth : Nat) :
    Progress.outcome skip ⟨tokens, .skipping tag start depth, s⟩ =
      match skipContent tag start depth s with
      | .error fault => ⟨tokens, some fault⟩
      | .ok rest => Progress.outcome skip ⟨tokens, .markup [], rest⟩ := by
  fun_induction skipContent tag start depth s with
  | case1 depth s hnone =>
      rw [Progress.outcome_eq]
      simp only [Progress.round, Loop.skippingRound, hnone, Round.outcome]
  | case2 depth s found hfound hclosing hcut =>
      rw [Progress.outcome_eq]
      simp only [Progress.round, Loop.skippingRound, hfound, hclosing, hcut, Round.outcome, if_true]
  | case3 s found hfound hclosing before rest hcut =>
      rw [Progress.outcome_eq]
      simp only [Progress.round, Loop.skippingRound, hfound, hclosing, hcut, Round.outcome, if_true]
  | case4 depth s found hfound hclosing before rest hcut hdepth ih =>
      rw [Progress.outcome_eq]
      simp only [Progress.round, Loop.skippingRound, hfound, hclosing, hcut, hdepth, Round.outcome, if_true,
        if_false, ih]
  | case5 depth s found hfound hopening fault hbody =>
      rw [Progress.outcome_eq]
      simp only [Progress.round, Loop.skippingRound, hfound, hopening, Round.outcome, outcome_attributes,
        hbody, if_false, Bool.false_eq_true]
  | case6 depth s found hfound hopening body hbody ih =>
      -- the nested tag hands back the place and the depth that it was given
      rw [Progress.outcome_eq]
      rw [dite_eq_ite] at ih
      simp only [Progress.round, Loop.skippingRound, hfound, hopening, Round.outcome, outcome_attributes,
        hbody, Owner.close, ih, if_false, Bool.false_eq_true]

/-- The rounds in a start tag, and those in a skipped element that it begins, read an element. -/
theorem outcome_element (tokens : List Token) (start tag s : Text) :
    Progress.outcome skip
        ⟨tokens, .attributes start (if tag ∈ skip then .skipped tag else .kept tag) [], s⟩ =
      match readElement skip start tag s with
      | .error fault => ⟨tokens, some fault⟩
      | .ok (token, rest) => Progress.outcome skip ⟨tokens ++ token.toList, .markup [], rest⟩ := by
  rw [outcome_attributes, readElement]
  cases readBody start s with
  | error fault => rfl
  | ok body =>
      by_cases htag : tag ∈ skip
      · by_cases hempty : body.selfClosed = true ∨ tag ∈ voidTags
        · simp [htag, hempty, Owner.close, Round.outcome]
        · simp only [htag, hempty, Owner.close, Round.outcome, outcome_skipping, if_true, if_false]
          cases skipContent tag start 0 body.rest with
          | error fault => rfl
          | ok rest => simp [Except.map]
      · by_cases hempty : body.selfClosed = true ∨ tag ∈ voidTags
        · simp [htag, hempty, Owner.close, Round.outcome]
        · by_cases hraw : tag ∈ rawTextTags
          · simp only [htag, hempty, hraw, Owner.close, if_true, if_false]
            cases takeRawText? tag body.rest with
            | none => rfl
            | some found => rfl
          · simp [htag, hempty, hraw, Owner.close, Round.outcome]

theorem readMarkup_of_start (hstart : behind.head?.any isTagStart = true) :
    readMarkup skip start behind =
      readElement skip start (lower (behind.takeWhile isTagChar)) (behind.dropWhile isTagChar) := by
  cases behind with
  | nil => cases hstart
  | cons c behind =>
      have hletter : isTagStart c = true := by simpa using hstart
      have hc : c ≠ '!' ∧ c ≠ '?' ∧ c ≠ '/' := by
        refine ⟨?_, ?_, ?_⟩
        all_goals
          rintro rfl
          exact absurd hletter (by decide)
      unfold readMarkup
      split
      all_goals simp_all

/-- A character that begins no markup is text. -/
theorem outcome_markup_cons {run : Text} (hplain : beginsMarkup (c :: s) = false) :
    Progress.outcome skip ⟨tokens, .markup run, c :: s⟩ =
      Progress.outcome skip ⟨tokens, .markup (run ++ [c]), s⟩ := by
  rw [Progress.outcome_eq]
  by_cases hc : c = '<'
  · subst hc
    simp [Progress.round, Loop.markupRound, hplain, Round.outcome]
  · rw [Progress.outcome_eq ⟨tokens, .markup (run ++ [c]), s⟩]
    simp [Progress.round, Loop.markupRound, hc]

theorem outcome_takeText (tokens : List Token) (run s : Text) :
    Progress.outcome skip ⟨tokens, .markup run, s⟩ =
      Progress.outcome skip ⟨tokens, .markup (run ++ (takeText s).1), (takeText s).2⟩ := by
  induction s generalizing run with
  | nil => simp [takeText]
  | cons c s ih =>
      rw [takeText]
      split
      next => simp
      next hplain =>
        rw [outcome_markup_cons (Bool.eq_false_iff.mpr hplain), ih]
        simp

/-- A beginning of markup is read, and the reading goes on behind it. -/
theorem outcome_markup (tokens : List Token) (run : Text) (hbegins : beginsMarkup (c :: behind) = true) :
    Progress.outcome skip ⟨tokens, .markup run, c :: behind⟩ =
      match readMarkup skip (c :: behind) behind with
      | .error fault => ⟨tokens ++ [.text run], some fault⟩
      | .ok (token, rest) =>
        Progress.outcome skip ⟨tokens ++ .text run :: token.toList, .markup [], rest⟩ := by
  have hc : c = '<' := by
    unfold beginsMarkup at hbegins
    split at hbegins
    all_goals simp_all
  subst hc
  rw [Progress.outcome_eq]
  -- a start tag takes rounds of its own, and all other markup is read in this one
  by_cases hstart : behind.head?.any isTagStart = true
  · simp [Progress.round, Loop.markupRound, hbegins, hstart, Round.outcome, outcome_element,
      readMarkup_of_start hstart]
  · simp only [Progress.round, Loop.markupRound]
    cases hmarkup : readMarkup skip ('<' :: behind) behind with
    | error fault => simp [hbegins, hstart, hmarkup, Round.outcome]
    | ok result => simp [hbegins, hstart, hmarkup, Round.outcome]

/-- The rounds from the beginning read all tokens. -/
theorem outcome_scan (tokens : List Token) (s : Text) :
    Progress.outcome skip ⟨tokens, .markup [], s⟩ =
      ⟨tokens ++ (scan skip s).tokens, (scan skip s).fault⟩ := by
  fun_induction scan skip s generalizing tokens with
  | case1 s run hrest =>
      rw [outcome_takeText, hrest, Progress.outcome_eq]
      simp [Progress.round, Loop.markupRound, Round.outcome, run]
  | case2 s run c behind hrest fault hmarkup =>
      have hbegins := (beginsMarkup_takeText s).resolve_left (by simp [hrest])
      rw [hrest] at hbegins
      rw [outcome_takeText, hrest, outcome_markup _ _ hbegins, hmarkup]
      rfl
  | case3 s run c behind hrest token rest hmarkup more ih =>
      have hbegins := (beginsMarkup_takeText s).resolve_left (by simp [hrest])
      rw [hrest] at hbegins
      rw [outcome_takeText, hrest, outcome_markup _ _ hbegins, hmarkup]
      simp [ih, run, more]

end Gleaner.Markup
