import Gleaner.Proofs.FaultPlaces
import Mathlib.Data.List.TakeWhile

/-! # Parts of written templates

A template that is a part of a longer text is compiled as if the part were the whole text, and what is
wrong with it is at the same place, moved by the offset of the part. The exceptions are parts that end
within a mark: the reader looks for the second half of a mark without regard to the end. The parts that
listings are compiled from are not concerned, since the braces that end them stand behind them already.
-/

namespace Gleaner.Template

open Text

/-- Whether the second character may complete what the first one ends: a mark of two characters, or an
attribute that goes on with its value. -/
def completes (c d : Char) : Bool :=
  (c == '<' && d == '/') || (c == '/' && d == '>') || (c == '{' && d == '{') ||
    (c == '=' && (d == '{' || d == '"')) || (isAttributeChar c && d == '=')

namespace Slice

/-- The slice with more text behind it. -/
def extend (s : Slice) (more : Text) : Slice := { s with beyond := s.beyond ++ more }

/-- More text behind the slice completes nothing in it: enough stands behind it already, or the cut does not
split anything. -/
def Sealed (s : Slice) (more : Text) : Prop :=
  2 ≤ s.beyond.length ∨
    s.beyond = [] ∧ ∀ c ∈ s.inside.getLast?, ∀ d ∈ more.head?, completes c d = false

variable {s left inner : Slice} {more before inside : Text} {c d : Char}

@[simp] theorem inside_extend : (s.extend more).inside = s.inside := rfl

@[simp] theorem beyond_extend : (s.extend more).beyond = s.beyond ++ more := rfl

@[simp] theorem cutShort_extend : (s.extend more).cutShort = s.cutShort := rfl

/-- A slice with more text behind it, put together anew. -/
theorem mk_append {beyond : Text} {cutShort : Bool} :
    (⟨inside, beyond ++ more, cutShort⟩ : Slice) = extend ⟨inside, beyond, cutShort⟩ more := rfl

@[simp] theorem rest_extend : (s.extend more).rest = s.rest ++ more := by simp [rest]

theorem Sealed.within (hsealed : s.Sealed more) (hleft : left.Within s) : left.Sealed more := by
  rcases hsealed with hlong | ⟨hbeyond, hcut⟩
  · exact .inl (hleft.beyond ▸ hlong)
  · refine .inr ⟨hleft.beyond.trans hbeyond, ?_⟩
    intro c hc
    -- what is left ends as the slice does, unless nothing is left
    obtain ⟨front, hfront⟩ := hleft.inside
    refine hcut c ?_
    rw [← hfront, List.getLast?_append, Option.mem_def.mp hc]
    rfl

/-- The character behind one that it could complete is the same with more text behind the slice. -/
theorem Sealed.head?_iff (before inside : Text)
    (hsealed : Slice.Sealed ⟨before ++ inside, s.beyond, s.cutShort⟩ more)
    (hlast : c ∈ before.getLast?) (hd : completes c d = true) :
    (inside ++ (s.beyond ++ more)).head? = some d ↔ (inside ++ s.beyond).head? = some d := by
  cases inside with
  | cons e inside => exact Iff.rfl
  | nil =>
      rcases hsealed with hlong | ⟨hbeyond, hcut⟩
      · obtain ⟨e, beyond, hcons⟩ :=
          List.exists_cons_of_length_pos (Nat.lt_of_lt_of_le Nat.zero_lt_two hlong)
        have hcons : s.beyond = e :: beyond := hcons
        rw [hcons]
        exact Iff.rfl
      · have hbeyond : s.beyond = [] := hbeyond
        rw [hbeyond, List.nil_append, List.nil_append, List.nil_append]
        refine ⟨fun hhead => ?_, nofun⟩
        have hcompletes := hcut c (by simpa using hlast) d hhead
        rw [hd] at hcompletes
        cases hcompletes

end Slice

/-- The fault at the same place of a text that goes on. -/
def Fault.extend (more : Text) : Fault → Fault
  | here cause rest => .here cause (rest ++ more)
  | overrun => .overrun
  | cutShort => .cutShort

variable {start more name selector : Text} {bound : List Text} {attributes : List (Text × Binding)}
  {s left : Slice} {piece : TagPiece} {d : Draft} {r : Run}

/-! ### Reading with more text behind the end -/

theorem takeBareValue_extend (hsealed : s.Sealed more) :
    takeBareValue (s.extend more) = ((takeBareValue s).1, (takeBareValue s).2.extend more) := by
  have hslash : ((s.inside.takeWhile isBareChar).getLast? = some '/' ∧
        (s.inside.dropWhile isBareChar ++ (s.beyond ++ more)).head? = some '>') ↔
      ((s.inside.takeWhile isBareChar).getLast? = some '/' ∧
        (s.inside.dropWhile isBareChar ++ s.beyond).head? = some '>') := by
    refine and_congr_right fun hlast => ?_
    refine Slice.Sealed.head?_iff (s.inside.takeWhile isBareChar) _ ?_ hlast rfl
    rw [List.takeWhile_append_dropWhile]
    exact hsealed
  unfold takeBareValue
  simp only [Slice.inside_extend, Slice.beyond_extend, hslash]
  split
  next => rfl
  next => rfl

theorem readValue_extend (hsealed : Slice.Sealed { s with inside := '=' :: s.inside } more) :
    readValue bound name (s.extend more) =
      ((readValue bound name s).mapError (Fault.extend more)).map
        fun (piece, left) => (piece, left.extend more) := by
  have hpeek : ∀ d, completes '=' d = true → s.inside = [] →
      ((s.extend more).peek = some d ↔ s.peek = some d) := by
    intro d hd hs
    have hiff := hsealed.head?_iff ['='] s.inside rfl hd
    simpa [Slice.peek, Slice.rest] using hiff
  obtain ⟨inside, beyond, cutShort⟩ := s
  unfold readValue
  simp only [Slice.inside_extend, Slice.rest_extend]
  split
  next inside =>
    cases hcut : cut ['}'] inside with
    | none => rfl
    | some pair =>
        obtain ⟨body, rest⟩ := pair
        dsimp only
        cases hbinding : readBinding body with
        | error cause => rfl
        | ok b =>
            dsimp only
            split
            next => rfl
            next => rfl
  next inside =>
    cases hcut : cut ['"'] inside with
    | none => rfl
    | some pair => rfl
  next =>
    simp only [hpeek '{' rfl rfl, hpeek '"' rfl rfl]
    split
    next => rfl
    next =>
      split
      next => rfl
      next => rfl
  next =>
    have hvalue : Slice.Sealed ⟨inside, beyond, cutShort⟩ more :=
      hsealed.within ⟨List.suffix_cons '=' inside, rfl, rfl⟩
    rw [takeBareValue_extend hvalue]
    rfl

theorem readBeyond_append {behind : Text} (hbehind : behind ≠ []) :
    readBeyond (behind ++ more) = ((readBeyond behind).mapError (Fault.extend more)).map
      fun (piece, left) => (piece, left.extend more) := by
  obtain ⟨c, rest, rfl⟩ := List.exists_cons_of_ne_nil hbehind
  unfold readBeyond
  rw [List.cons_append]
  split
  next heq =>
    cases heq
    rfl
  next heq =>
    cases heq
    rfl
  next hbrace hquote =>
    split
    next heq =>
      cases heq
      exact absurd rfl (hbrace _)
    next heq =>
      cases heq
      exact absurd rfl (hquote _)
    next => rfl

/-- An attribute that ends the slice goes on behind the end only if it does so without more text. -/
theorem goesOn_iff {t : Text} (hsealed : Slice.Sealed ⟨t, s.beyond, s.cutShort⟩ more)
    (hname : t.takeWhile isAttributeChar ≠ []) :
    (t.dropWhile isAttributeChar = [] ∧ (s.beyond ++ more).head? = some '=') ↔
      (t.dropWhile isAttributeChar = [] ∧ s.beyond.head? = some '=') := by
  refine and_congr_right fun hend => ?_
  obtain ⟨e, hlast⟩ := Option.ne_none_iff_exists'.mp (mt List.getLast?_eq_none_iff.mp hname)
  have he : isAttributeChar e = true := List.mem_takeWhile_imp (List.mem_of_getLast? hlast)
  -- the name's last character is the last one inside
  have hwhole : t.takeWhile isAttributeChar ++ [] = t := by
    rw [← hend]
    exact List.takeWhile_append_dropWhile
  rw [← hwhole] at hsealed
  exact hsealed.head?_iff _ [] hlast (by simp [completes, he])

theorem Slice.Sealed.ne_nil_of_beyond {c : Char} {behind : Text} (hsealed : s.Sealed more)
    (hbeyond : s.beyond = c :: behind) : behind ≠ [] := by
  rintro rfl
  rcases hsealed with hlong | ⟨hnil, -⟩
  · simp [hbeyond] at hlong
  · simp [hbeyond] at hnil

theorem readPiece_extend (hsealed : s.Sealed more) :
    readPiece (start ++ more) bound (s.extend more) =
      ((readPiece start bound s).mapError (Fault.extend more)).map
        fun (piece, left) => (piece, left.extend more) := by
  have hspace : trimLeft s.inside <:+ s.inside := List.dropWhile_suffix isBlank
  unfold readPiece
  rw [Slice.inside_extend]
  split
  next =>
    rw [Slice.cutShort_extend]
    split
    next => rfl
    next => rfl
  next => rfl
  next c inside _ hs =>
    rw [hs] at hspace
    have hsealed : Slice.Sealed ⟨c :: inside, s.beyond, s.cutShort⟩ more :=
      hsealed.within ⟨hspace, rfl, rfl⟩
    have hslash : (c = '/' ∧ Slice.peek { s.extend more with inside := inside } = some '>') ↔
        (c = '/' ∧ Slice.peek { s with inside := inside } = some '>') := by
      refine and_congr_right fun hc => ?_
      exact hsealed.head?_iff [c] inside rfl (hc ▸ rfl)
    simp only [hslash]
    split
    next => rfl
    next =>
      split
      next => simp [Except.mapError, Except.map, Fault.extend]
      next hname =>
        split
        next more' hmore =>
          refine readValue_extend (s := ⟨more', s.beyond, s.cutShort⟩) (hsealed.within ⟨?_, rfl, rfl⟩)
          exact hmore ▸ List.dropWhile_suffix _
        next =>
          simp only [Slice.beyond_extend, goesOn_iff hsealed hname]
          split
          next hbeyond =>
            obtain ⟨behind, hcons⟩ := List.head?_eq_some_iff.mp hbeyond.2
            rw [hcons]
            exact readBeyond_append (hsealed.ne_nil_of_beyond hcons)
          next => rfl

theorem readBody_extend (hsealed : s.Sealed more) :
    readBody (start ++ more) selector attributes (s.extend more) =
      ((readBody start selector attributes s).mapError (Fault.extend more)).map
        fun body => { body with rest := body.rest.extend more } := by
  fun_induction readBody start selector attributes s with
  | case1 selector attributes s fault hpiece =>
      rw [readBody_eq, readPiece_extend hsealed, hpiece]
      rfl
  | case2 selector attributes s selfClosed rest hpiece =>
      rw [readBody_eq, readPiece_extend hsealed, hpiece]
      rfl
  | case3 selector attributes s written rest hpiece ih =>
      rw [readBody_eq, readPiece_extend hsealed, hpiece, ← ih (hsealed.within (within_of_readPiece hpiece))]
      rfl
  | case4 selector attributes s name binding rest hpiece ih =>
      rw [readBody_eq, readPiece_extend hsealed, hpiece, ← ih (hsealed.within (within_of_readPiece hpiece))]
      rfl

theorem readTag_extend (start : Text) (hsealed : s.Sealed more) :
    readTag (start ++ more) (s.extend more) =
      ((readTag start s).mapError (Fault.extend more)).map
        fun tag => { tag with rest := tag.rest.extend more } := by
  unfold readTag
  dsimp only [Slice.inside_extend, Slice.beyond_extend, Slice.cutShort_extend]
  generalize s.inside.takeWhile _ = flags
  generalize hinside : s.inside.dropWhile _ = inside
  generalize inside.takeWhile isSelectorChar = selector
  have hsuffix : inside.dropWhile isSelectorChar <:+ s.inside :=
    (List.dropWhile_suffix _).trans (hinside ▸ List.dropWhile_suffix _)
  have hbody : readBody (start ++ more) selector []
      ⟨inside.dropWhile isSelectorChar, s.beyond ++ more, s.cutShort⟩ = _ :=
    readBody_extend (s := ⟨inside.dropWhile isSelectorChar, s.beyond, s.cutShort⟩)
      (hsealed.within ⟨hsuffix, rfl, rfl⟩)
  rw [hbody]
  by_cases hcut : inside = [] ∧ s.cutShort
  · simp only [hcut, and_self, if_true]
    rfl
  · simp only [hcut, if_false]
    split
    next => simp [Except.mapError, Except.map, Fault.extend]
    next =>
      cases readBody start selector [] ⟨inside.dropWhile isSelectorChar, s.beyond, s.cutShort⟩ with
      | error fault => rfl
      | ok body =>
          dsimp only [Except.mapError, Except.map]
          cases Selector.read body.selector with
          | error error => rfl
          | ok parsed => rfl

theorem readField_extend (s : Slice) (more : Text) :
    readField (s.extend more) = ((readField s).mapError (Fault.extend more)).map
      fun (b, left) => (b, left.extend more) := by
  unfold readField
  simp only [Slice.inside_extend, Slice.rest_extend]
  cases hcut : cut ['}'] s.inside.tail with
  | none => rfl
  | some pair =>
      obtain ⟨body, rest⟩ := pair
      dsimp only
      cases hbinding : readBinding body with
      | error cause => rfl
      | ok b => rfl

theorem readListing_extend (s : Slice) (more : Text) :
    readListing (s.extend more) = ((readListing s).mapError (Fault.extend more)).map
      fun written => { written with
        items := written.items.extend more
        rest := written.rest.extend more } := by
  unfold readListing
  simp only [Slice.inside_extend, Slice.rest_extend, Slice.cutShort_extend]
  cases hclose : closeBraces? 2 (s.inside.drop 2) with
  | none =>
      dsimp only
      split
      next => rfl
      next => rfl
  | some pair =>
      obtain ⟨inner, rest⟩ := pair
      dsimp only
      cases hcut : cut [':'] inner.dropLast with
      | none => rfl
      | some pair =>
          obtain ⟨name, items⟩ := pair
          dsimp only
          split
          next => simp [Except.mapError, Except.map, Slice.extend]
          next =>
            -- the fault is behind two braces, which are there since the listing has an end
            have hlength := length_of_closeBraces? hclose
            rw [List.length_drop] at hlength
            have hlong : 2 ≤ s.rest.length := by
              rw [Slice.rest, List.length_append]
              omega
            rw [List.drop_append_of_le_length hlong]
            rfl

/-! ### Moves with more text behind the end -/

namespace Move

/-- The move with more text behind all that is left. -/
def extend (more : Text) : Move → Move
  | fail fault => fail (fault.extend more)
  | finish t => finish t
  | next d r left => next d r (left.extend more)
  | list d r written =>
    list d r { written with items := written.items.extend more, rest := written.rest.extend more }

theorem closing_extend (d : Draft) (r : Run) (behind : Slice) :
    closing d r (behind.extend more) = (closing d r behind).extend more := by
  unfold closing
  rw [Slice.inside_extend, Slice.rest_extend]
  cases cut ['>'] behind.inside with
  | none => rfl
  | some pair => rfl

theorem opening_extend (d : Draft) (r : Run) {behind : Slice} (hsealed : behind.Sealed more) :
    opening d r (behind.extend more) = (opening d r behind).extend more := by
  unfold opening
  rw [Slice.rest_extend, ← List.cons_append, readTag_extend _ hsealed]
  cases readTag ('<' :: behind.rest) behind with
  | error fault => rfl
  | ok tag =>
      dsimp only [Except.mapError, Except.map]
      cases (r.settle d).refusal? tag.slot with
      | some cause => rfl
      | none => rfl

theorem listing_extend (d : Draft) (r : Run) (here : Slice) :
    listing d r (here.extend more) = (listing d r here).extend more := by
  unfold listing
  rw [Slice.rest_extend, readListing_extend]
  split
  next => rfl
  next =>
    cases readListing here with
    | error fault => rfl
    | ok written => rfl

theorem field_extend (d : Draft) (r : Run) (here : Slice) :
    field d r (here.extend more) = (field d r here).extend more := by
  unfold field
  rw [Slice.rest_extend, readField_extend]
  cases readField here with
  | error fault => rfl
  | ok pair =>
      dsimp only [Except.mapError, Except.map]
      split
      next => rfl
      next => rfl

end Move

theorem eq_of_dropWhile_endsLiteral {t inside : Text} {c : Char}
    (hdrop : t.dropWhile (!endsLiteral ·) = c :: inside) : c = '<' ∨ c = '{' := by
  have hhead := List.head?_dropWhile_not (!endsLiteral ·) t
  rw [hdrop] at hhead
  simpa [endsLiteral, or_iff_not_imp_left] using hhead

/-- What comes next is the same with more text behind the end, and is done in the same way. -/
theorem move_extend (start : Text) (d : Draft) (r : Run) (hsealed : s.Sealed more) :
    move (start ++ more) d r (s.extend more) = (move start d r s).extend more := by
  unfold move
  dsimp only [Slice.inside_extend, Slice.beyond_extend, Slice.cutShort_extend]
  cases hdrop : s.inside.dropWhile (!endsLiteral ·) with
  | nil =>
      dsimp only
      cases ((r.addLiteral _).settle d).finish with
      | none => rfl
      | some t => rfl
  | cons c inside =>
      have hmark : Slice.Sealed ⟨c :: inside, s.beyond, s.cutShort⟩ more :=
        hsealed.within (.of_dropWhile hdrop)
      have hbehind : Slice.Sealed ⟨inside, s.beyond, s.cutShort⟩ more :=
        hmark.within ⟨List.suffix_cons c inside, rfl, rfl⟩
      have hpeek : ∀ e, completes c e = true →
          ((Slice.extend ⟨inside, s.beyond, s.cutShort⟩ more).peek = some e ↔
            Slice.peek ⟨inside, s.beyond, s.cutShort⟩ = some e) :=
        fun e he => hmark.head?_iff [c] inside rfl he
      rcases eq_of_dropWhile_endsLiteral hdrop with rfl | rfl
      · simp only [Slice.mk_append, hpeek '/' rfl]
        split
        next => exact Move.closing_extend d _ _
        next => exact Move.opening_extend d _ hbehind
      · simp only [Char.reduceEq, imp_self, Slice.mk_append, hpeek '{' rfl]
        split
        next =>
          rw [Slice.rest_extend]
          rfl
        next =>
          split
          next => exact Move.listing_extend d _ _
          next => exact Move.field_extend d _ _

/-- Compiling a part of a longer text is compiling the part by itself. -/
theorem compileFrom_extend (hsealed : s.Sealed more) :
    compileFrom (start ++ more) d r (s.extend more) =
      (compileFrom start d r s).mapError (Fault.extend more) := by
  induction start, d, r, s using compileFrom_induction with
  | @fail start d r s fault hmove =>
      rw [compileFrom_move, compileFrom_move start, move_extend start d r hsealed, hmove]
      rfl
  | @finish start d r s t hmove =>
      rw [compileFrom_move, compileFrom_move start, move_extend start d r hsealed, hmove]
      rfl
  | @next start d r s d' r' left hmove ih =>
      have hleft := within_move start d r s
      rw [hmove] at hleft
      rw [compileFrom_move, compileFrom_move start d r s, move_extend start d r hsealed, hmove]
      exact ih (hsealed.within hleft)
  | @list start d r s d' r' written hmove ihitems ih =>
      have hleft := within_move start d r s
      rw [hmove] at hleft
      have hitems := ihitems (.inl hleft.2)
      rw [compileFrom_move, compileFrom_move start d r s, move_extend start d r hsealed, hmove]
      dsimp only [Move.extend]
      rw [Slice.rest_extend, hitems]
      cases compileFrom written.items.rest .empty .empty written.items with
      | error fault => rfl
      | ok t => exact ih t (hsealed.within hleft.1)

theorem compileSlice_extend (hsealed : s.Sealed more) :
    compileSlice (s.extend more) = (compileSlice s).mapError (Fault.extend more) := by
  rw [compileSlice, Slice.rest_extend]
  exact compileFrom_extend hsealed

/-- A template written in a part of a text is compiled as if the part were the whole text, unless the end of
the part splits what belongs together. Either both give the same template; or something is wrong in both,
at places that differ by the offset of the part; or an attribute in a listing goes on behind the listing's
end in both. -/
theorem compileRange_eq_compile {source : Text} {start stop : Nat} (hstart : start ≤ stop)
    (hstop : stop ≤ source.length)
    (hcut : ∀ c ∈ ((source.drop start).take (stop - start)).getLast?, ∀ d ∈ (source.drop stop).head?,
      completes c d = false) :
    let part := (source.drop start).take (stop - start)
    (∃ t, compile part = .ok t ∧ compileRange source start stop = .ok t) ∨
    (∃ cause, ∃ position : Nat, position ≤ part.length ∧
      compile part = .error (.ofPosition part cause position) ∧
      compileRange source start stop = .error (.ofPosition source cause (start + position))) ∨
    compile part = .error .overrun ∧ compileRange source start stop = .error .overrun := by
  intro part
  have hlength : source.length = start + part.length + (source.drop stop).length := by
    simp only [part, List.length_take, List.length_drop]
    omega
  have hslice : Slice.ofRange source start stop = (Slice.whole part).extend (source.drop stop) := by
    simp [Slice.ofRange, Slice.extend, Slice.whole, part, Nat.max_eq_right hstart, hstop]
  have hsealed : (Slice.whole part).Sealed (source.drop stop) := .inr ⟨rfl, hcut⟩
  unfold compileRange compile
  dsimp only
  rw [placeOf_ofNat, placeOf_ofNat, if_neg (by omega), if_neg (by omega), hslice,
    compileSlice_extend hsealed]
  cases hresult : compileSlice (.whole part) with
  | ok t => exact .inl ⟨t, rfl, rfl⟩
  | error fault =>
      have hstands := fault_of_compileSlice hresult
      rw [Slice.rest_whole] at hstands
      cases fault with
      | cutShort => cases hstands
      | overrun => exact .inr (.inr ⟨rfl, rfl⟩)
      | here cause rest =>
          have hrest : rest.length ≤ part.length := hstands.length_le
          refine .inr (.inl ⟨cause, part.length - rest.length, Nat.sub_le _ _, ?_, ?_⟩)
          · simp [Except.mapError, Fault.error, Int.ofNat_sub hrest]
          · simp only [Except.mapError, Fault.extend, Fault.error]
            split
            next hroot =>
              -- nothing is read where the part has no root
              rw [Slice.rest_extend, Slice.rest_whole] at hroot
              obtain ⟨rfl, hwhole⟩ := Fault.here.inj hroot
              rw [List.append_cancel_right hwhole, Nat.sub_self, Int.natCast_zero, Int.add_zero]
            next =>
              rw [List.length_append, hlength]
              congr 2
              omega

/-- A binding without a name in a listing, at the same place of a text that goes on. -/
theorem compileRange_eq_compile_listing :
    let source := "see <ul>{{rows: <li id={}>}}</ul>.".toList
    let part := "<ul>{{rows: <li id={}>}}</ul>".toList
    compile part = .error (.ofPosition part (.badName []) 19) ∧
      compileRange source 4 33 = .error (.ofPosition source (.badName []) 23) := by
  intro source part
  have hpart : compile part = .error (.ofPosition part (.badName []) 19) := by decide +kernel
  refine ⟨hpart, ?_⟩
  have hcut : ∀ c ∈ ((source.drop 4).take (33 - 4)).getLast?, ∀ d ∈ (source.drop 33).head?,
      completes c d = false := by
    have hlast : ((source.drop 4).take (33 - 4)).getLast? = some '>' := by decide
    have hhead : (source.drop 33).head? = some '.' := by decide
    rw [hlast, hhead]
    intro c hc d hd
    cases hc
    cases hd
    rfl
  rcases @compileRange_eq_compile source 4 33 (by decide) (by decide) hcut with
    ⟨t, ht, -⟩ | ⟨cause, position, -, hlocated, hrange⟩ | ⟨hoverrun, -⟩
  · cases hpart.symm.trans ht
  · obtain ⟨hcause, hposition, -⟩ :=
      TemplateError.located.inj (Except.error.inj (hpart.symm.trans hlocated))
    rw [← hcause, ← hposition] at hrange
    exact hrange
  · cases hpart.symm.trans hoverrun

/-- The bracket behind the end of a part closes a tag that the part leaves open. The part by itself is not a
template. -/
theorem compileRange_half_bracket :
    let source := "<p/>".toList
    let part := (source.drop 0).take (3 - 0)
    compile part = .error (.ofPosition part (.strayInTag '/') 2) ∧
      compileRange source 0 3 = .ok ⟨⟨"p".toList, false, false, [], []⟩, .done⟩ := by
  decide +kernel

end Gleaner.Template
