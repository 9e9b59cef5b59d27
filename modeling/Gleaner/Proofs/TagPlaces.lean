import Gleaner.Proofs.RoundPlaces
import Gleaner.Proofs.TagInsides

/-! # Start tags and the elements of a document

The rounds of reading take a start tag in several steps, with its name first and then piece by piece. At
each of them what was read and any inside that may follow make up a tag that stands in the text. So the tags
among the tokens stand there, and an element of a document comes from one of them, unless it was put around
several.
-/

namespace Gleaner

open Text

namespace Markup

/-- A start tag as it is read. -/
structure ReadTag where
  /-- The name in lower case. -/
  name : Text
  /-- The attributes in reading order, with repetitions. -/
  pairs : List (Text × Text)
deriving DecidableEq

/-- The element that the tag begins, still without text. -/
def ReadTag.element (tag : ReadTag) : Element := .ofAttributes tag.name tag.pairs

/-- The tag stands in the text: somewhere there is a bracket, all of the name and then the inside, up to the
closing bracket. -/
inductive ReadTag.StandsIn (whole : Text) : ReadTag → Prop
  | intro {name inside : Text} {body : TagBody} (hplace : '<' :: (name ++ inside) <:+ whole)
      (hfirst : name.head?.any isTagStart = true) (hname : ∀ c ∈ name, isTagChar c = true)
      (hend : ∀ c ∈ inside.head?, isTagChar c = false) (hinside : Inside inside body) :
      StandsIn whole ⟨lower name, body.pairs⟩

/-- A start tag in the text begins the element. -/
def Begins (whole : Text) (e : Element) : Prop := ∃ tag : ReadTag, tag.StandsIn whole ∧ e = tag.element

/-- The start tag that the token was made of. -/
def Token.readTag? : Token → Option ReadTag
  | .enter tag pairs => some ⟨tag, pairs⟩
  | .leaf tag pairs _ => some ⟨tag, pairs⟩
  | .text _ => none
  | .leave _ _ => none

/-- The start tags among the tokens. -/
def readTags (tokens : List Token) : List ReadTag := tokens.filterMap Token.readTag?

variable {skip : List Text} {whole s start tag rest behind : Text} {tokens : List Token} {owner : Owner}
  {body : TagBody} {loop : Loop} {p q : Progress} {pairs : List (Text × Text)}

@[simp] theorem readTags_append (tokens tokens' : List Token) :
    readTags (tokens ++ tokens') = readTags tokens ++ readTags tokens' :=
  List.filterMap_append

@[simp] theorem readTags_text (run : Text) : readTags [.text run] = [] := rfl

@[simp] theorem readTags_enter (tag : Text) (pairs : List (Text × Text)) :
    readTags [.enter tag pairs] = [⟨tag, pairs⟩] := rfl

@[simp] theorem readTags_leaf (tag : Text) (pairs : List (Text × Text)) (content : Text) :
    readTags [.leaf tag pairs content] = [⟨tag, pairs⟩] := rfl

/-- The elements that tokens begin are those of the start tags among them. -/
theorem filterMap_element? (tokens : List Token) :
    tokens.filterMap Token.element? = (readTags tokens).map ReadTag.element := by
  rw [readTags, List.map_filterMap]
  refine congrArg (List.filterMap · tokens) (funext fun token => ?_)
  cases token with
  | enter => rfl
  | leaf => rfl
  | text => rfl
  | leave => rfl

theorem readTags_of_elementCount (hcount : elementCount tokens = 0) : readTags tokens = [] := by
  rw [elementCount, filterMap_element?, List.length_map] at hcount
  exact List.length_eq_zero_iff.mp hcount

/-! ### The invariant of the rounds -/

/-- The tag that the loop is reading, if it is that of an element that is kept, will stand in the text with
the pairs read so far and those of the inside that is left. -/
def Loop.Foresees (whole rest : Text) : Loop → Prop
  | .attributes _ (.kept tag) pairs =>
    ∀ body, Inside rest body → ReadTag.StandsIn whole ⟨tag, pairs ++ body.pairs⟩
  | _ => True

/-- All start tags among the tokens stand in the text, and so will the one that is being read. -/
structure Progress.Traced (whole : Text) (p : Progress) : Prop where
  tags : ∀ tag ∈ readTags p.tokens, tag.StandsIn whole
  loop : p.loop.Foresees whole p.rest

/-- What holds after a round. -/
def Round.Traced (whole : Text) : Round → Prop
  | .goOn p => p.Traced whole
  | .finish scan => ∀ tag ∈ readTags scan.tokens, tag.StandsIn whole

namespace Progress

theorem traced_begin (s : Text) : (begin s).Traced s := ⟨nofun, trivial⟩

/-- A text among the tokens is no tag. -/
theorem Traced.text (hp : Traced whole ⟨tokens, loop, s⟩) (run : Text) :
    ∀ tag ∈ readTags (tokens ++ [.text run]), tag.StandsIn whole := by
  rw [readTags_append, readTags_text, List.append_nil]
  exact hp.tags

/-- The tag that has been read is put among the tokens. -/
theorem Traced.put {token : Token}
    (hp : Traced whole ⟨tokens, .attributes start (.kept tag) pairs, s⟩) (hs : Inside s body)
    (htoken : readTags [token] = [⟨tag, pairs ++ body.pairs⟩]) :
    ∀ t ∈ readTags (tokens ++ [token]), t.StandsIn whole := by
  rw [readTags_append, htoken, List.forall_mem_append]
  exact ⟨hp.tags, List.forall_mem_singleton.mpr (hp.loop body hs)⟩

end Progress

/-! ### Every round keeps it -/

theorem traced_close {selfClosed : Bool} (hp : Progress.Traced whole ⟨tokens, .attributes start owner pairs, s⟩)
    (hpiece : readPiece start s = .ok (.finish selfClosed, rest)) :
    (owner.close tokens start ⟨pairs, selfClosed, rest⟩).Traced whole := by
  have hs : Inside s ⟨[], selfClosed, rest⟩ := .finish (pieceAt_of_readPiece (fun _ => ⟨_, rfl⟩) hpiece)
  unfold Owner.close
  split
  next tag =>
    split
    next => exact ⟨hp.put hs (by simp), trivial⟩
    next =>
      split
      next =>
        split
        next => exact hp.tags
        next => exact ⟨hp.put hs (by simp), trivial⟩
      next => exact ⟨hp.put hs (by simp), trivial⟩
  next tag =>
    split
    all_goals exact ⟨hp.tags, trivial⟩
  next tag outer depth => exact ⟨hp.tags, trivial⟩

/-- A piece that ends nothing moves on to the next one. -/
theorem Loop.Foresees.next (hloop : Loop.Foresees whole s (.attributes start owner pairs))
    (more : List (Text × Text))
    (hinside : ∀ body, Inside rest body → Inside s { body with pairs := more ++ body.pairs }) :
    Loop.Foresees whole rest (.attributes start owner (pairs ++ more)) := by
  cases owner with
  | kept tag =>
      intro body hbody
      have htag := hloop _ (hinside body hbody)
      rwa [← List.append_assoc] at htag
  | skipped => trivial
  | nested => trivial

theorem traced_attributesRound (hp : Progress.Traced whole ⟨tokens, .attributes start owner pairs, s⟩) :
    (Loop.attributesRound tokens start owner pairs s).Traced whole := by
  unfold Loop.attributesRound
  split
  next => exact hp.tags
  next hpiece => exact traced_close hp hpiece
  next hpiece =>
    have hloop := hp.loop.next [] fun body hbody =>
      .stray (pieceAt_of_readPiece (fun hnil => absurd hnil hbody.ne_nil) hpiece) hbody
    rw [List.append_nil] at hloop
    exact ⟨hp.tags, hloop⟩
  next hpiece =>
    refine ⟨hp.tags, hp.loop.next _ fun body hbody => ?_⟩
    exact .pair (pieceAt_of_readPiece (fun hnil => absurd hnil hbody.ne_nil) hpiece) hbody

theorem traced_skippingRound {depth : Nat}
    (hp : Progress.Traced whole ⟨tokens, .skipping tag start depth, s⟩) :
    (Loop.skippingRound tokens tag start depth s).Traced whole := by
  unfold Loop.skippingRound
  split
  next => exact hp.tags
  next =>
    split
    next =>
      split
      next => exact hp.tags
      next =>
        split
        all_goals exact ⟨hp.tags, trivial⟩
    next => exact ⟨hp.tags, trivial⟩

/-- Behind its bracket a start tag has all of its name. -/
theorem foresees_tag (hplace : '<' :: behind <:+ whole) (hfirst : behind.head?.any isTagStart = true) :
    let tag := lower (behind.takeWhile isTagChar)
    Loop.Foresees whole (behind.dropWhile isTagChar)
      (.attributes start (if tag ∈ skip then .skipped tag else .kept tag) []) := by
  intro tag
  split
  next => trivial
  next =>
    intro body hbody
    obtain ⟨c, more, rfl⟩ : ∃ c more, behind = c :: more := by
      refine List.exists_cons_of_ne_nil ?_
      rintro rfl
      cases hfirst
    have hc : isTagStart c = true := by simpa using hfirst
    have hstart : isTagChar c = true := by simp [isTagChar, hc]
    refine .intro ?_ ?_ (fun d hd => List.mem_takeWhile_imp hd) (forall_head?_dropWhile _ _) hbody
    · rwa [List.takeWhile_append_dropWhile]
    · rw [List.takeWhile_cons_of_pos hstart]
      exact hfirst

theorem traced_markupRound {run : Text} (hsound : s <:+ whole)
    (hp : Progress.Traced whole ⟨tokens, .markup run, s⟩) :
    (Loop.markupRound skip tokens run s).Traced whole := by
  unfold Loop.markupRound
  dsimp only
  split
  next => exact hp.text _
  next c behind hs =>
    obtain ⟨rfl, -⟩ := dropWhile_bracket hs
    have hplace : '<' :: behind <:+ whole := (hs ▸ List.dropWhile_suffix _ : _ <:+ s).trans hsound
    split
    next hbegins =>
      split
      next hfirst => exact ⟨hp.text _, foresees_tag hplace hfirst⟩
      next hstart =>
        split
        next => exact hp.text _
        next hmarkup =>
          have hnone := readTags_of_elementCount (places_of_readMarkup hbegins hstart hmarkup).2
          refine ⟨?_, trivial⟩
          rw [readTags_append, hnone, List.append_nil]
          exact hp.text _
    next => exact ⟨hp.tags, trivial⟩

theorem traced_round (skip : List Text) (hsound : p.rest <:+ whole) (hp : p.Traced whole) :
    (p.round skip).Traced whole := by
  obtain ⟨tokens, loop, s⟩ := p
  cases loop with
  | markup run => exact traced_markupRound hsound hp
  | attributes start owner pairs => exact traced_attributesRound hp
  | skipping tag start depth => exact traced_skippingRound hp

/-! ### The whole reading keeps it -/

theorem Progress.traced_outcome (skip : List Text) (hsound : p.Sound whole) (hp : p.Traced whole) :
    ∀ tag ∈ readTags (p.outcome skip).tokens, tag.StandsIn whole := by
  fun_induction outcome skip p with
  | case1 p q hround ih =>
      have hq := traced_round skip hsound.suffix hp
      rw [hround] at hq
      exact ih (Next.sound hround hsound) hq
  | case2 p scan hround =>
      have hscan := traced_round skip hsound.suffix hp
      rwa [hround] at hscan

/-- Every start tag that was read stands in the text. -/
theorem standsIn_of_mem_readTags {tag : ReadTag} (htag : tag ∈ readTags (scan skip s).tokens) :
    tag.StandsIn s := by
  have houtcome := Progress.traced_outcome skip (Progress.sound_begin s) (Progress.traced_begin s)
  rw [Progress.begin, outcome_scan] at houtcome
  exact houtcome tag htag

/-! ### What is read comes among the tokens -/

/-- The reading comes to the inside of the tag, for an element that is kept, and it is read to its end. -/
def ReadTag.IsFinished (skip : List Text) (s : Text) (tag : ReadTag) : Prop :=
  ∃ tokens start rest body,
    Relation.ReflTransGen (Progress.Next skip) (.begin s) ⟨tokens, .attributes start (.kept tag.name) [], rest⟩ ∧
      readBody start rest = .ok body ∧ body.pairs = tag.pairs

/-- A reading ends with the same whichever of its rounds it is looked at from. -/
theorem Progress.outcome_of_reflTransGen (hlater : Relation.ReflTransGen (Next skip) p q) :
    p.outcome skip = q.outcome skip := by
  induction hlater with
  | refl => rfl
  | tail _ hnext ih =>
      rw [ih, outcome_eq, hnext]
      rfl

/-- From the end of the tag on the reading keeps the tag, unless it begins raw text that does not end. -/
theorem readTag_of_close (skip : List Text) (tokens : List Token) (start tag : Text) (body : TagBody) :
    let scan := ((Owner.kept tag).close tokens start body).outcome skip
    ⟨tag, body.pairs⟩ ∈ readTags scan.tokens ∨ scan.fault = some ⟨.rawText tag, start⟩ := by
  have hput : ∀ token rest, readTags [token] = [⟨tag, body.pairs⟩] →
      ⟨tag, body.pairs⟩ ∈ readTags (Progress.outcome skip ⟨tokens ++ [token], .markup [], rest⟩).tokens := by
    intro token rest htoken
    rw [outcome_scan, readTags_append, readTags_append, htoken]
    simp
  rw [Owner.close]
  split
  next => exact .inl (hput _ _ rfl)
  next =>
    split
    next =>
      split
      next => exact .inr rfl
      next => exact .inl (hput _ _ rfl)
    next => exact .inl (hput _ _ rfl)

/-- A tag that is read to its end is among the tokens, unless it begins raw text that does not end. -/
theorem ReadTag.IsFinished.mem_readTags {tag : ReadTag} (htag : tag.IsFinished skip s) :
    tag ∈ readTags (scan skip s).tokens ∨
      ∃ start, (scan skip s).fault = some ⟨.rawText tag.name, start⟩ := by
  obtain ⟨name, pairs⟩ := tag
  obtain ⟨tokens, start, rest, body, hlater, hbody, rfl⟩ := htag
  have hclose := readTag_of_close skip tokens start name body
  have houtcome := Progress.outcome_of_reflTransGen hlater
  rw [Progress.begin, outcome_scan, outcome_attributes, hbody] at houtcome
  dsimp only [List.nil_append] at houtcome
  rw [← houtcome] at hclose
  exact hclose.imp_right fun hfault => ⟨start, hfault⟩

end Markup

/-! ### The elements of a document -/

namespace Document

open Markup

variable {skip : List Text} {s : Text} {n : Node}

/-- The elements of a tree that was read are those that the start tags begin, in order, but for the one that
is put around several. -/
theorem bares_parse (htree : (parse skip s).isError = false) :
    let root := (parse skip s).root
    let begun := (readTags (scan (skip.map lower) s).tokens).map ReadTag.element
    root.subtrees.map (·.element.bare) = begun ∨
      root.element.tag = fragmentTag ∧ root.below.subtrees.map (·.element.bare) = begun := by
  have hparse := parse_eq_toDocument htree
  rw [hparse] at htree ⊢
  rw [← filterMap_element?, ← Builder.bares_finish]
  exact bares_toDocument htree

/-- Every element of a tree that was read is begun by a start tag in the text, but for the one that is put
around several. -/
theorem begins_of_mem (htree : (parse skip s).isError = false) (hn : n ∈ (parse skip s).root.subtrees)
    (hfragment : n.element.tag ≠ fragmentTag) : Begins s n.element.bare := by
  have hbegun : n.element.bare ∈ (readTags (scan (skip.map lower) s).tokens).map ReadTag.element := by
    rcases bares_parse htree with hall | ⟨htag, hbelow⟩
    · rw [← hall]
      exact List.mem_map_of_mem hn
    · have hother : n ≠ (parse skip s).root := by
        rintro rfl
        exact hfragment htag
      rw [← hbelow]
      exact List.mem_map_of_mem ((Tree.mem_subtrees.mp hn).resolve_left hother)
  obtain ⟨tag, htag, htagElement⟩ := List.mem_map.mp hbegun
  exact ⟨tag, standsIn_of_mem_readTags htag, htagElement.symm⟩

end Document
end Gleaner
