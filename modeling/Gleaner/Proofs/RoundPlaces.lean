import Gleaner.Proofs.Rereading
import Gleaner.Proofs.Rounds

/-! # Where rounds begin and faults lie

What a reader leaves is an end of the text that it was given. So at every round the text still to be read is
an end of the whole, and what began and is not ended begins with a bracket there. That is where a fault
points, unless it points at the quote of a value. Every element that was begun has had a bracket of its own.
-/

namespace Gleaner

open Text

theorem Text.suffix_of_cut {mark s before behind : Text} (hcut : cut mark s = some (before, behind)) :
    behind <:+ s := by
  rw [eq_of_cut hcut]
  exact List.suffix_append _ _

theorem Text.suffix_trimLeft (s : Text) : trimLeft s <:+ s := List.dropWhile_suffix _

theorem Text.suffix_of_dropIgnoringCase? {word s rest : Text}
    (hrest : dropIgnoringCase? word s = some rest) : rest <:+ s := by
  obtain ⟨name, rfl, -⟩ := Markup.dropIgnoringCase?_eq_some.mp hrest
  exact List.suffix_append _ _

namespace Markup

variable {skip : List Text} {whole s start tag rest content behind : Text} {tokens tokens' : List Token}
  {token : Option Token} {owner : Owner} {body : TagBody} {loop loop' : Loop} {p q : Progress} {c : Char}
  {cause : Cause} {fault : Fault} {found : Mention}

/-! ## What readers leave, and where they fail -/

/-- The fault lies in the text, and points at a quote if it is a value that is not ended, or else at an
opening bracket. -/
structure Fault.LiesIn (whole : Text) (fault : Fault) : Prop where
  suffix : fault.rest <:+ whole
  mark : if fault.cause = .attributeValue then
      fault.rest.head? = some '"' ∨ fault.rest.head? = some '\''
    else fault.rest.head? = some '<'

theorem Fault.LiesIn.trans (hfault : fault.LiesIn s) (hs : s <:+ whole) : fault.LiesIn whole :=
  ⟨hfault.suffix.trans hs, hfault.mark⟩

/-- An end of the text that begins with an opening bracket. -/
structure BracketAt (whole start : Text) : Prop where
  suffix : start <:+ whole
  head : start.head? = some '<'

theorem BracketAt.trans (hstart : BracketAt s start) (hs : s <:+ whole) : BracketAt whole start :=
  ⟨hstart.suffix.trans hs, hstart.head⟩

theorem BracketAt.liesIn (hstart : BracketAt whole start) (hcause : cause ≠ .attributeValue) :
    Fault.LiesIn whole ⟨cause, start⟩ :=
  ⟨hstart.suffix, by rw [if_neg hcause]; exact hstart.head⟩

theorem suffix_takeBareValue (s : Text) : (takeBareValue s).2 <:+ s := by
  have hsplit : s.takeWhile isBareChar ++ s.dropWhile isBareChar = s := List.takeWhile_append_dropWhile
  simp only [takeBareValue]
  split
  next hslash =>
    have hvalue := List.dropLast_append_getLast? '/' hslash.1
    refine ⟨(s.takeWhile isBareChar).dropLast, ?_⟩
    rw [List.append_cons, hvalue, hsplit]
  next => exact List.dropWhile_suffix _

theorem suffix_of_readValue {value : Text} (hvalue : readValue s = .ok (value, rest)) : rest <:+ s := by
  unfold readValue at hvalue
  split at hvalue
  next s =>
    split at hvalue
    next hcut =>
      cases hvalue
      exact (suffix_of_cut hcut).trans (List.suffix_cons _ s)
    next => cases hvalue
  next s =>
    split at hvalue
    next hcut =>
      cases hvalue
      exact (suffix_of_cut hcut).trans (List.suffix_cons _ s)
    next => cases hvalue
  next =>
    have hrest := suffix_takeBareValue s
    rwa [Except.ok.inj hvalue] at hrest

theorem liesIn_of_readValue (hvalue : readValue s = .error fault) : fault.LiesIn s := by
  unfold readValue at hvalue
  split at hvalue
  next s =>
    split at hvalue
    next => cases hvalue
    next =>
      cases hvalue
      exact ⟨List.suffix_refl _, .inl rfl⟩
  next s =>
    split at hvalue
    next => cases hvalue
    next =>
      cases hvalue
      exact ⟨List.suffix_refl _, .inr rfl⟩
  next => cases hvalue

/-- Where the value of an attribute begins, whose name begins with `c`. -/
theorem suffix_of_assignment {more : Text} (hmore : trimLeft s = c :: more)
    (hbehind : trimLeft ((c :: more).dropWhile isAttributeChar) = '=' :: behind) :
    trimLeft behind <:+ s :=
  calc trimLeft behind
    _ <:+ behind := suffix_trimLeft behind
    _ <:+ '=' :: behind := List.suffix_cons _ _
    _ <:+ (c :: more).dropWhile isAttributeChar := hbehind ▸ suffix_trimLeft _
    _ <:+ c :: more := List.dropWhile_suffix _
    _ <:+ s := hmore ▸ suffix_trimLeft s

theorem suffix_of_readPiece {piece : TagPiece} (hpiece : readPiece start s = .ok (piece, rest)) :
    rest <:+ s := by
  unfold readPiece at hpiece
  split at hpiece
  next => cases hpiece
  next hs =>
    cases hpiece
    exact (List.suffix_cons _ _).trans (hs ▸ suffix_trimLeft s)
  next hs =>
    cases hpiece
    exact ((List.suffix_cons _ _).trans (List.suffix_cons _ _)).trans (hs ▸ suffix_trimLeft s)
  next c more _ _ hs =>
    have hmore : c :: more <:+ s := hs ▸ suffix_trimLeft s
    dsimp only at hpiece
    split at hpiece
    next =>
      cases hpiece
      exact (List.suffix_cons _ _).trans hmore
    next =>
      split at hpiece
      next behind hbehind =>
        cases hread : readValue (trimLeft behind) with
        | error fault => simp [hread, Except.map] at hpiece
        | ok read =>
            rw [hread] at hpiece
            cases hpiece
            exact (suffix_of_readValue hread).trans (suffix_of_assignment hs hbehind)
      next =>
        cases hpiece
        exact ((suffix_trimLeft _).trans (List.dropWhile_suffix _)).trans hmore

theorem liesIn_of_readPiece (hstart : BracketAt whole start) (hs : s <:+ whole)
    (hpiece : readPiece start s = .error fault) : fault.LiesIn whole := by
  unfold readPiece at hpiece
  split at hpiece
  next =>
    cases hpiece
    exact hstart.liesIn nofun
  next => cases hpiece
  next => cases hpiece
  next c more _ _ hmore =>
    dsimp only at hpiece
    split at hpiece
    next => cases hpiece
    next =>
      split at hpiece
      next behind hbehind =>
        cases hread : readValue (trimLeft behind) with
        | error fault =>
            rw [hread] at hpiece
            cases hpiece
            exact (liesIn_of_readValue hread).trans ((suffix_of_assignment hmore hbehind).trans hs)
        | ok read => simp [hread, Except.map] at hpiece
      next => cases hpiece

theorem suffix_of_takeRawText? (hraw : takeRawText? tag s = some (content, rest)) : rest <:+ s := by
  induction s generalizing content with
  | nil => cases hraw
  | cons c s ih =>
      rw [takeRawText?] at hraw
      split at hraw
      next hclose =>
        cases hraw
        obtain ⟨t, -, hs⟩ := closeRawText?_eq_some.mp hclose
        exact ⟨t, hs.symm⟩
      next =>
        obtain ⟨⟨more, left⟩, hmore, hpair⟩ := Option.map_eq_some_iff.mp hraw
        cases hpair
        exact (ih hmore).trans (List.suffix_cons c s)

theorem places_of_mention? (hfound : mention? tag s = some found) :
    BracketAt s found.start ∧ found.rest <:+ s := by
  unfold mention? at hfound
  split at hfound
  next s =>
    obtain ⟨rest, hrest, rfl⟩ := Option.map_eq_some_iff.mp hfound
    have hname := suffix_of_dropIgnoringCase? (Option.filter_eq_some_iff.mp hrest).1
    exact ⟨⟨List.suffix_refl _, rfl⟩, (hname.trans (List.suffix_cons _ s)).trans (List.suffix_cons _ _)⟩
  next s _ =>
    obtain ⟨rest, hrest, rfl⟩ := Option.map_eq_some_iff.mp hfound
    have hname := suffix_of_dropIgnoringCase? (Option.filter_eq_some_iff.mp hrest).1
    exact ⟨⟨List.suffix_refl _, rfl⟩, hname.trans (List.suffix_cons _ s)⟩
  next => cases hfound

theorem places_of_findMention? (hfound : findMention? tag s = some found) :
    BracketAt s found.start ∧ found.rest <:+ s := by
  induction s with
  | nil => cases hfound
  | cons c s ih =>
      rw [findMention?, Option.or_eq_some_iff] at hfound
      rcases hfound with hhere | ⟨-, hlater⟩
      · exact places_of_mention? hhere
      · obtain ⟨hstart, hrest⟩ := ih hlater
        exact ⟨hstart.trans (List.suffix_cons c s), hrest.trans (List.suffix_cons c s)⟩

/-! ## The invariant of the rounds -/

/-- The number of elements that the tokens begin. -/
def elementCount (tokens : List Token) : Nat := (tokens.filterMap Token.element?).length

@[simp] theorem elementCount_append (tokens tokens' : List Token) :
    elementCount (tokens ++ tokens') = elementCount tokens + elementCount tokens' := by
  simp [elementCount, List.filterMap_append]

@[simp] theorem elementCount_text (run : Text) : elementCount [.text run] = 0 := rfl

@[simp] theorem elementCount_enter (tag : Text) (pairs : List (Text × Text)) :
    elementCount [.enter tag pairs] = 1 := rfl

@[simp] theorem elementCount_leaf (tag : Text) (pairs : List (Text × Text)) (content : Text) :
    elementCount [.leaf tag pairs content] = 1 := rfl

/-- The places where that begins which surrounds the tag. -/
def Owner.starts : Owner → List Text
  | .kept _ => []
  | .skipped _ => []
  | .nested _ outer _ => [outer]

/-- The number of elements that the tag begins. -/
@[simp] def Owner.elementCount : Owner → Nat
  | .kept _ => 1
  | .skipped _ => 0
  | .nested _ _ _ => 0

/-- The places where that begins which is not ended. -/
def Loop.starts : Loop → List Text
  | .markup _ => []
  | .attributes start owner _ => start :: owner.starts
  | .skipping _ start _ => [start]

/-- The number of elements that have begun and are not among the tokens yet. -/
@[simp] def Loop.elementCount : Loop → Nat
  | .markup _ => 0
  | .attributes _ owner _ => owner.elementCount
  | .skipping _ _ _ => 0

/-- What holds when a round is due: it reads an end of the whole text, all that is not ended begins with a
bracket, and for each element that has begun a bracket was read. -/
structure Progress.Sound (whole : Text) (p : Progress) : Prop where
  suffix : p.rest <:+ whole
  starts : ∀ start ∈ p.loop.starts, BracketAt whole start
  brackets : elementCount p.tokens + p.loop.elementCount + p.rest.count '<' ≤ whole.count '<'

/-- What holds at the end: a fault lies in the text, and it has a bracket for each element. -/
structure Scan.Sound (whole : Text) (scan : Scan) : Prop where
  fault : ∀ fault ∈ scan.fault, fault.LiesIn whole
  brackets : elementCount scan.tokens ≤ whole.count '<'

/-- What holds after a round. -/
def Round.Sound (whole : Text) : Round → Prop
  | .goOn p => p.Sound whole
  | .finish scan => scan.Sound whole

namespace Progress

theorem sound_begin (s : Text) : (begin s).Sound s :=
  ⟨List.suffix_refl s, nofun, by simp [begin, elementCount, Loop.elementCount]⟩

/-- The reading goes on with less of the text, with nothing new that is not ended. -/
theorem Sound.goOn (hp : Sound whole ⟨tokens, loop, s⟩) (hrest : rest <:+ s)
    (hstarts : loop'.starts ⊆ loop.starts)
    (hcount : elementCount tokens' + loop'.elementCount ≤ elementCount tokens + loop.elementCount) :
    Sound whole ⟨tokens', loop', rest⟩ := by
  refine ⟨hrest.trans hp.suffix, fun start hstart => hp.starts start (hstarts hstart), ?_⟩
  have hbrackets := hp.brackets
  have hrun := hrest.sublist.count_le '<'
  dsimp only at hbrackets ⊢
  omega

theorem Sound.finish {fault : Option Fault} (hp : Sound whole ⟨tokens, loop, s⟩)
    (hfault : ∀ f ∈ fault, f.LiesIn whole) : Scan.Sound whole ⟨tokens, fault⟩ := by
  refine ⟨hfault, ?_⟩
  have hbrackets := hp.brackets
  dsimp only at hbrackets ⊢
  omega

/-- The reading stops at a fault. -/
theorem Sound.stop (hp : Sound whole ⟨tokens, loop, s⟩) (hfault : fault.LiesIn whole) :
    Scan.Sound whole ⟨tokens, some fault⟩ :=
  hp.finish fun _ hsome => Option.some.inj hsome ▸ hfault

/-- The reading stops since something is not ended. -/
theorem Sound.unended (hp : Sound whole ⟨tokens, loop, s⟩) (hstart : start ∈ loop.starts)
    (hcause : cause ≠ .attributeValue) : Scan.Sound whole ⟨tokens, some ⟨cause, start⟩⟩ :=
  hp.stop ((hp.starts start hstart).liesIn hcause)

end Progress

/-! ### Every round keeps it -/

theorem sound_close
    (hp : Progress.Sound whole ⟨tokens, .attributes start owner body.pairs, body.rest⟩) :
    (owner.close tokens start body).Sound whole := by
  unfold Owner.close
  split
  next tag =>
    split
    next => exact hp.goOn (List.suffix_refl _) (List.nil_subset _) (by simp)
    next =>
      split
      next =>
        split
        next => exact hp.unended List.mem_cons_self (by simp)
        next hraw =>
          exact hp.goOn (suffix_of_takeRawText? hraw) (List.nil_subset _) (by simp)
      next => exact hp.goOn (List.suffix_refl _) (List.nil_subset _) (by simp)
  next tag =>
    split
    next => exact hp.goOn (List.suffix_refl _) (List.nil_subset _) (Nat.le_refl _)
    next => exact hp.goOn (List.suffix_refl _) (List.Subset.refl _) (Nat.le_refl _)
  next tag outer depth => exact hp.goOn (List.suffix_refl _) (List.subset_cons_self _ _) (Nat.le_refl _)

theorem sound_attributesRound {pairs : List (Text × Text)}
    (hp : Progress.Sound whole ⟨tokens, .attributes start owner pairs, s⟩) :
    (Loop.attributesRound tokens start owner pairs s).Sound whole := by
  unfold Loop.attributesRound
  split
  next hpiece =>
    exact hp.stop (liesIn_of_readPiece (hp.starts start List.mem_cons_self) hp.suffix hpiece)
  next hpiece => exact sound_close (hp.goOn (suffix_of_readPiece hpiece) (List.Subset.refl _) (Nat.le_refl _))
  next hpiece => exact hp.goOn (suffix_of_readPiece hpiece) (List.Subset.refl _) (Nat.le_refl _)
  next hpiece => exact hp.goOn (suffix_of_readPiece hpiece) (List.Subset.refl _) (Nat.le_refl _)

theorem sound_skippingRound {depth : Nat} (hp : Progress.Sound whole ⟨tokens, .skipping tag start depth, s⟩) :
    (Loop.skippingRound tokens tag start depth s).Sound whole := by
  unfold Loop.skippingRound
  split
  next => exact hp.unended List.mem_cons_self nofun
  next found hfound =>
    obtain ⟨hmention, hrest⟩ := places_of_findMention? hfound
    have hbracket := hmention.trans hp.suffix
    split
    next =>
      split
      next => exact hp.stop (hbracket.liesIn nofun)
      next hcut =>
        have hbehind := (suffix_of_cut hcut).trans hrest
        split
        next => exact hp.goOn hbehind (List.nil_subset _) (Nat.le_refl _)
        next => exact hp.goOn hbehind (List.Subset.refl _) (Nat.le_refl _)
    next =>
      have hnext : Progress.Sound whole ⟨tokens, .skipping tag start depth, found.rest⟩ :=
        hp.goOn hrest (List.Subset.refl _) (Nat.le_refl _)
      exact ⟨hnext.suffix, List.forall_mem_cons.mpr ⟨hbracket, hp.starts⟩, hnext.brackets⟩

/-- What begins markup and is no declaration, comment or closing tag is a start tag. -/
theorem isTagStart_of_beginsMarkup (hbegins : beginsMarkup ('<' :: c :: s) = true)
    (hdeclaration : ¬ (c = '!' ∨ c = '?')) (hslash : c ≠ '/') : isTagStart c = true := by
  rw [not_or] at hdeclaration
  rwa [beginsMarkup_bracket hdeclaration.1 hdeclaration.2 hslash] at hbegins

theorem liesIn_of_readMarkup (hbracket : BracketAt whole start) (hbegins : beginsMarkup ('<' :: behind) = true)
    (hstart : ¬ behind.head?.any isTagStart = true) (hmarkup : readMarkup skip start behind = .error fault) :
    fault.LiesIn whole := by
  unfold readMarkup at hmarkup
  split at hmarkup
  next =>
    split at hmarkup
    next =>
      cases hmarkup
      exact hbracket.liesIn nofun
    next => cases hmarkup
  next =>
    dsimp only at hmarkup
    split at hmarkup
    next =>
      cases hmarkup
      exact hbracket.liesIn nofun
    next => cases hmarkup
  next c s _ hslash =>
    split at hmarkup
    next =>
      split at hmarkup
      next =>
        cases hmarkup
        exact hbracket.liesIn nofun
      next => cases hmarkup
    next hdeclaration => exact absurd (isTagStart_of_beginsMarkup hbegins hdeclaration hslash) hstart
  next => cases hmarkup

theorem dropWhile_bracket (hs : s.dropWhile (· != '<') = c :: behind) :
    c = '<' ∧ behind.count '<' + 1 ≤ s.count '<' := by
  obtain rfl : c = '<' := by simpa using forall_head?_dropWhile (· != '<') s c (hs ▸ rfl)
  have hrest : '<' :: behind <:+ s := hs ▸ List.dropWhile_suffix _
  have hcount := hrest.sublist.count_le '<'
  rw [List.count_cons_self] at hcount
  exact ⟨rfl, hcount⟩

/-- Markup that is no start tag begins no element. -/
theorem places_of_readMarkup (hbegins : beginsMarkup ('<' :: behind) = true)
    (hstart : ¬ behind.head?.any isTagStart = true)
    (hmarkup : readMarkup skip start behind = .ok (token, rest)) :
    rest <:+ behind ∧ elementCount token.toList = 0 := by
  unfold readMarkup at hmarkup
  split at hmarkup
  next s =>
    split at hmarkup
    next => cases hmarkup
    next hcut =>
      cases hmarkup
      exact ⟨(suffix_of_cut hcut).trans (List.suffix_append ['!', '-', '-'] s), rfl⟩
  next s =>
    dsimp only at hmarkup
    split at hmarkup
    next => cases hmarkup
    next hcut =>
      cases hmarkup
      exact ⟨((suffix_of_cut hcut).trans (List.dropWhile_suffix _)).trans (List.suffix_cons _ s), rfl⟩
  next c s _ hslash =>
    split at hmarkup
    next =>
      split at hmarkup
      next => cases hmarkup
      next hcut =>
        cases hmarkup
        exact ⟨(suffix_of_cut hcut).trans (List.suffix_cons c s), rfl⟩
    next hdeclaration => exact absurd (isTagStart_of_beginsMarkup hbegins hdeclaration hslash) hstart
  next =>
    cases hmarkup
    exact ⟨List.suffix_refl _, rfl⟩

/-- A start tag begins at a bracket of its own. -/
theorem sound_tag {run : Text} (hp : Progress.Sound whole ⟨tokens, .markup run, s⟩)
    (hstart : BracketAt whole start) (hrest : rest <:+ s) (hcount : rest.count '<' + 1 ≤ s.count '<') :
    Progress.Sound whole
      ⟨tokens, .attributes start (if tag ∈ skip then .skipped tag else .kept tag) [], rest⟩ := by
  have hbrackets := hp.brackets
  dsimp only [Loop.elementCount] at hbrackets
  split
  all_goals
    refine ⟨hrest.trans hp.suffix, List.forall_mem_singleton.mpr hstart, ?_⟩
    dsimp only [Loop.elementCount, Owner.elementCount]
    omega

theorem sound_markupRound {run : Text} (hp : Progress.Sound whole ⟨tokens, .markup run, s⟩) :
    (Loop.markupRound skip tokens run s).Sound whole := by
  have htext : ∀ run', Progress.Sound whole ⟨tokens ++ [.text run'], .markup run, s⟩ :=
    fun run' => hp.goOn (List.suffix_refl s) (List.nil_subset _) (by simp)
  unfold Loop.markupRound
  dsimp only
  split
  next => exact (htext _).finish nofun
  next c behind hs =>
    obtain ⟨rfl, hcount⟩ := dropWhile_bracket hs
    have hrest : '<' :: behind <:+ s := hs ▸ List.dropWhile_suffix _
    have hbehind : behind <:+ s := (List.suffix_cons _ _).trans hrest
    have hbracket : BracketAt whole ('<' :: behind) := ⟨hrest.trans hp.suffix, rfl⟩
    split
    next hbegins =>
      split
      next =>
        have hname : behind.dropWhile isTagChar <:+ behind := List.dropWhile_suffix _
        exact sound_tag (htext _) hbracket (hname.trans hbehind)
          (Nat.le_trans (Nat.succ_le_succ (hname.sublist.count_le '<')) hcount)
      next hstart =>
        split
        next hmarkup => exact (htext _).stop (liesIn_of_readMarkup hbracket hbegins hstart hmarkup)
        next hmarkup =>
          obtain ⟨hafter, hnone⟩ := places_of_readMarkup hbegins hstart hmarkup
          exact (htext _).goOn (hafter.trans hbehind) (List.nil_subset _)
            (by rw [elementCount_append, hnone]; rfl)
    next => exact hp.goOn hbehind (List.nil_subset _) (Nat.le_refl _)

theorem sound_round (skip : List Text) (hp : p.Sound whole) : (p.round skip).Sound whole := by
  obtain ⟨tokens, loop, s⟩ := p
  cases loop with
  | markup run => exact sound_markupRound hp
  | attributes start owner pairs => exact sound_attributesRound hp
  | skipping tag start depth => exact sound_skippingRound hp

/-! ### The whole reading keeps it -/

namespace Progress

theorem Next.sound (hnext : Next skip p q) (hp : p.Sound whole) : q.Sound whole := by
  have hround := sound_round skip hp
  rwa [hnext] at hround

theorem sound_of_reflTransGen (hlater : Relation.ReflTransGen (Next skip) p q) (hp : p.Sound whole) :
    q.Sound whole := by
  induction hlater with
  | refl => exact hp
  | tail _ hnext ih => exact hnext.sound ih

theorem sound_outcome (skip : List Text) (hp : p.Sound whole) : (p.outcome skip).Sound whole := by
  fun_induction outcome skip p with
  | case1 p q hround ih => exact ih (Next.sound hround hp)
  | case2 p scan hround =>
      have hscan := sound_round skip hp
      rwa [hround] at hscan

end Progress

theorem sound_scan (skip : List Text) (s : Text) : (Markup.scan skip s).Sound s := by
  have houtcome := Progress.sound_outcome skip (Progress.sound_begin s)
  rwa [Progress.begin, outcome_scan] at houtcome

end Markup
end Gleaner
