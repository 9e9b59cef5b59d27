import Gleaner.Proofs.ListingEnds
import Gleaner.Proofs.Moves
import Mathlib.Data.List.Basic

/-! # Places of faults

Whatever is read of a template, what is left is a part of what there was, and what is wrong stands somewhere
in it or at its end. The exception is an attribute whose value would begin behind the end. A listing is
compiled from a part of the text around it.
-/

namespace Gleaner.Template

open Text

/-- What is left of a slice. -/
structure Slice.Within (left s : Slice) : Prop where
  inside : left.inside <:+ s.inside
  beyond : left.beyond = s.beyond
  cutShort : left.cutShort = s.cutShort

/-- What begins in a slice or at its end. -/
structure Slice.Place (w : Slice) (rest : Text) : Prop where
  suffix : rest <:+ w.rest
  beyond : w.beyond <:+ rest

/-- The fault is met while the slice is read: in it or at its end, or where an attribute goes on behind the end.
Only what was meant to go on can be cut short. -/
def Fault.ArisesIn (w : Slice) : Fault → Prop
  | .here _ rest => w.Place rest ∨ w.beyond = '=' :: rest ∧ rest.head? ≠ some '}'
  | .overrun => w.beyond.head? = some '='
  | .cutShort => w.cutShort = true

/-- The listing is a part of the slice, and a character and a closing brace stand behind its items. -/
structure WrittenListing.In (written : WrittenListing) (w : Slice) : Prop where
  colon : ':' :: written.items.rest <:+ w.rest
  beyond : w.beyond <:+ written.items.beyond
  mark : ∃ e rest, written.items.beyond = e :: '}' :: rest
  cutShort : written.items.cutShort = false

namespace Slice

variable {s left inner w : Slice}

theorem Within.refl (s : Slice) : s.Within s := ⟨List.suffix_rfl, rfl, rfl⟩

theorem Within.trans (hinner : inner.Within left) (hleft : left.Within s) : inner.Within s :=
  ⟨hinner.inside.trans hleft.inside, hinner.beyond.trans hleft.beyond,
    hinner.cutShort.trans hleft.cutShort⟩

theorem Within.suffix {inside : Text} (hleft : left.Within s) (hinside : inside <:+ left.inside) :
    Slice.Within ⟨inside, left.beyond, left.cutShort⟩ s :=
  ⟨hinside.trans hleft.inside, hleft.beyond, hleft.cutShort⟩

@[simp] theorem rest_whole (t : Text) : (whole t).rest = t := List.append_nil t

/-- What begins at a mark. -/
theorem Within.of_dropWhile {c : Char} {inside : Text} {test : Char → Bool}
    (hdrop : s.inside.dropWhile test = c :: inside) :
    Slice.Within ⟨c :: inside, s.beyond, s.cutShort⟩ s :=
  ⟨hdrop ▸ List.dropWhile_suffix _, rfl, rfl⟩

theorem Within.rest (hleft : left.Within s) : left.rest <:+ s.rest := by
  obtain ⟨front, hfront⟩ := hleft.inside
  exact ⟨front, by simp [Slice.rest, ← hfront, hleft.beyond]⟩

theorem Within.place (hs : s.Within w) : w.Place s.rest :=
  ⟨hs.rest, hs.beyond ▸ List.suffix_append _ _⟩

end Slice

variable {start name selector : Text} {bound : List Text} {attributes : List (Text × Binding)}
  {s left w : Slice} {piece : TagPiece} {d : Draft} {r : Run} {fault : Fault}

/-! ### Readers leave a part of what they find -/

theorem within_takeBareValue (s : Slice) : (takeBareValue s).2.Within s := by
  unfold takeBareValue
  extract_lets value rest
  have hvalue : value ++ rest = s.inside := List.takeWhile_append_dropWhile
  split
  next hslash =>
    refine ⟨?_, rfl, rfl⟩
    have hlast := List.dropLast_append_getLast? '/' hslash.1
    exact ⟨value.dropLast, by rw [← hvalue, ← hlast]; simp⟩
  next => exact ⟨⟨value, hvalue⟩, rfl, rfl⟩

/-- What is left behind a mark of what follows a character. -/
theorem within_of_cut {c : Char} {mark inside before behind : Text} (hs : s.inside = c :: inside)
    (hcut : cut mark inside = some (before, behind)) : Slice.Within { s with inside := behind } s :=
  ⟨⟨c :: (before ++ mark), by rw [hs, eq_of_cut hcut]; rfl⟩, rfl, rfl⟩

theorem within_of_readValue (hread : readValue bound name s = .ok (piece, left)) : left.Within s := by
  unfold readValue at hread
  split at hread
  next hs =>
    split at hread
    next => cases hread
    next hcut =>
      split at hread
      next => cases hread
      next =>
        split at hread
        next => cases hread
        next =>
          cases hread
          exact within_of_cut hs hcut
  next hs =>
    split at hread
    next => cases hread
    next hcut =>
      cases hread
      exact within_of_cut hs hcut
  next =>
    split at hread
    next => cases hread
    next =>
      split at hread
      next => cases hread
      next =>
        cases hread
        exact .refl s
  next =>
    cases hread
    exact within_takeBareValue s

theorem within_of_readPiece (hread : readPiece start bound s = .ok (piece, left)) : left.Within s := by
  have hspace : trimLeft s.inside <:+ s.inside := List.dropWhile_suffix isBlank
  unfold readPiece at hread
  split at hread
  next => cases hread
  next inside hs =>
    cases hread
    exact ⟨(List.suffix_cons _ inside).trans (hs ▸ hspace), rfl, rfl⟩
  next c inside _ hs =>
    have hinside : inside <:+ s.inside := (List.suffix_cons c inside).trans (hs ▸ hspace)
    split at hread
    next =>
      cases hread
      exact ⟨(List.tail_suffix inside).trans hinside, rfl, rfl⟩
    next =>
      have hname : (c :: inside).dropWhile isAttributeChar <:+ s.inside :=
        (List.dropWhile_suffix _).trans (hs ▸ hspace)
      dsimp only at hread
      split at hread
      next => cases hread
      next =>
        split at hread
        next more hmore =>
          have hvalue : more <:+ s.inside := (List.suffix_cons '=' more).trans (hmore ▸ hname)
          exact (within_of_readValue hread).trans ⟨hvalue, rfl, rfl⟩
        next =>
          split at hread
          next =>
            unfold readBeyond at hread
            split at hread <;> cases hread
          next =>
            cases hread
            exact ⟨hname, rfl, rfl⟩

theorem within_of_readBody {body : TagBody}
    (hread : readBody start selector attributes s = .ok body) : body.rest.Within s := by
  fun_induction readBody start selector attributes s with
  | case1 => cases hread
  | case2 selector attributes s selfClosed rest hpiece =>
      obtain rfl := Except.ok.inj hread
      exact within_of_readPiece hpiece
  | case3 selector attributes s written rest hpiece ih =>
      exact (ih hread).trans (within_of_readPiece hpiece)
  | case4 selector attributes s name binding rest hpiece ih =>
      exact (ih hread).trans (within_of_readPiece hpiece)

theorem within_of_readTag {tag : Tag} (hread : readTag start s = .ok tag) : tag.rest.Within s := by
  unfold readTag at hread
  extract_lets flags inside selector at hread
  have hinside : inside.dropWhile isSelectorChar <:+ s.inside :=
    (List.dropWhile_suffix _).trans (List.dropWhile_suffix _)
  split at hread
  next => cases hread
  next =>
    split at hread
    next => cases hread
    next =>
      split at hread
      next => cases hread
      next hbody =>
        split at hread
        next => cases hread
        next =>
          obtain rfl := Except.ok.inj hread
          exact (within_of_readBody hbody).trans ⟨hinside, rfl, rfl⟩

theorem within_of_readField {b : Binding} (hread : readField s = .ok (b, left)) : left.Within s := by
  unfold readField at hread
  split at hread
  next => cases hread
  next hcut =>
    split at hread
    next => cases hread
    next =>
      cases hread
      exact ⟨(List.IsSuffix.trans ⟨_, (eq_of_cut hcut).symm⟩ (List.tail_suffix s.inside)), rfl, rfl⟩

theorem within_of_readListing {written : WrittenListing} (hread : readListing s = .ok written) :
    written.rest.Within s := by
  obtain ⟨c, name, -, -, -, hwritten⟩ := of_readListing hread
  rw [hwritten]
  exact ⟨List.drop_suffix _ _, rfl, rfl⟩

/-- What stands behind the items of a listing: the mark that ends it, and the rest of the slice. -/
theorem beyond_of_readListing {written : WrittenListing} (hread : readListing s = .ok written) :
    ∃ e rest, written.items.beyond = e :: '}' :: (rest ++ s.beyond) := by
  obtain ⟨c, name, hend, -, -, hwritten⟩ := of_readListing hread
  obtain ⟨e, rest, hdrop⟩ := drop_of_listingEnd? hend
  refine ⟨e, rest, ?_⟩
  rw [hwritten, Slice.rest]
  dsimp only
  rw [List.drop_append_of_le_length (le_length_of_listingEnd? hend), hdrop, List.cons_append,
    List.cons_append]

/-- The last brace of a listing and the character before it stand behind its items. -/
theorem two_le_beyond_of_readListing {written : WrittenListing} (hread : readListing s = .ok written) :
    2 ≤ written.items.beyond.length := by
  obtain ⟨e, rest, hbeyond⟩ := beyond_of_readListing hread
  rw [hbeyond]
  exact Nat.le_add_left _ _

/-- The items of a listing follow a colon in the text of the listing. -/
theorem in_of_readListing {written : WrittenListing} (hread : readListing s = .ok written)
    (hs : s.Within w) : written.In w := by
  obtain ⟨c, name, hend, -, hitems, hwritten⟩ := of_readListing hread
  obtain ⟨e, rest, hbeyond⟩ := beyond_of_readListing hread
  have hdrop : written.items.beyond = s.rest.drop c := by rw [hwritten]
  refine ⟨.trans ⟨(s.inside.take c).take 2 ++ name, ?_⟩ hs.rest, ?_, ⟨e, _, hbeyond⟩, ?_⟩
  · calc (s.inside.take c).take 2 ++ name ++ ':' :: (written.items.inside ++ written.items.beyond)
        = (s.inside.take c).take 2 ++ (name ++ ':' :: written.items.inside) ++ s.rest.drop c := by
          simp [hdrop]
      _ = s.inside.take c ++ s.rest.drop c := by rw [← hitems, List.take_append_drop]
      _ = s.rest := by
          have htake : s.rest.take c = s.inside.take c :=
            List.take_append_of_le_length (le_length_of_listingEnd? hend)
          rw [← htake, List.take_append_drop]
  · rw [hbeyond, hs.beyond]
    exact (List.suffix_append _ _).trans ((List.suffix_cons _ _).trans (List.suffix_cons _ _))
  · rw [hwritten]

/-! ### Faults -/

theorem fault_of_readValue (hread : readValue bound name s = .error fault)
    (hs : s.Within w) : fault.ArisesIn w := by
  unfold readValue at hread
  split at hread
  next =>
    split at hread
    next =>
      cases hread
      exact .inl hs.place
    next =>
      split at hread
      next =>
        cases hread
        exact .inl hs.place
      next =>
        split at hread
        next =>
          cases hread
          exact .inl hs.place
        next => cases hread
  next =>
    split at hread
    next =>
      cases hread
      exact .inl hs.place
    next => cases hread
  next =>
    split at hread
    next =>
      cases hread
      exact .inl hs.place
    next =>
      split at hread
      next =>
        cases hread
        exact .inl hs.place
      next => cases hread
  next => cases hread

theorem fault_of_readBeyond {behind : Text} (hread : readBeyond behind = .error fault)
    (hbehind : w.beyond = '=' :: behind) : fault.ArisesIn w := by
  unfold readBeyond at hread
  split at hread
  next =>
    cases hread
    exact .inr ⟨hbehind, by simp⟩
  next =>
    cases hread
    exact .inr ⟨hbehind, by simp⟩
  next =>
    cases hread
    rw [Fault.ArisesIn, hbehind]
    rfl

theorem fault_of_readPiece (hread : readPiece start bound s = .error fault)
    (hstart : w.Place start) (hs : s.Within w) : fault.ArisesIn w := by
  have hspace : Slice.Within ⟨trimLeft s.inside, s.beyond, s.cutShort⟩ s :=
    ⟨List.dropWhile_suffix isBlank, rfl, rfl⟩
  unfold readPiece at hread
  split at hread
  next =>
    obtain rfl := Except.error.inj hread
    split
    next hcut => exact hs.cutShort.symm.trans hcut
    next => exact .inl hstart
  next => cases hread
  next c inside _ heq =>
    rw [heq] at hspace
    split at hread
    next => cases hread
    next =>
      dsimp only at hread
      split at hread
      next =>
        cases hread
        exact .inl (hspace.trans hs).place
      next =>
        have hname : Slice.Within ⟨(c :: inside).dropWhile isAttributeChar, s.beyond, s.cutShort⟩ s :=
          hspace.suffix (List.dropWhile_suffix _)
        split at hread
        next more hmore =>
          rw [hmore] at hname
          have hvalue : Slice.Within ⟨more, s.beyond, s.cutShort⟩ s :=
            hname.suffix (List.suffix_cons '=' more)
          exact fault_of_readValue hread (hvalue.trans hs)
        next =>
          split at hread
          next hbeyond =>
            -- the value would begin behind the end, at the second character there
            have hbehind : w.beyond = '=' :: s.beyond.tail := by
              rw [← hs.beyond]
              exact List.eq_cons_of_mem_head? hbeyond.2
            exact fault_of_readBeyond hread hbehind
          next => cases hread

theorem fault_of_readBody (hread : readBody start selector attributes s = .error fault)
    (hstart : w.Place start) (hs : s.Within w) : fault.ArisesIn w := by
  fun_induction readBody start selector attributes s with
  | case1 selector attributes s fault' hpiece =>
      obtain rfl := Except.error.inj hread
      exact fault_of_readPiece hpiece hstart hs
  | case2 => cases hread
  | case3 selector attributes s written rest hpiece ih =>
      have hrest := within_of_readPiece hpiece
      exact ih hread (hrest.trans hs)
  | case4 selector attributes s name binding rest hpiece ih =>
      have hrest := within_of_readPiece hpiece
      exact ih hread (hrest.trans hs)

theorem fault_of_readTag (hread : readTag start s = .error fault) (hstart : w.Place start)
    (hs : s.Within w) : fault.ArisesIn w := by
  unfold readTag at hread
  extract_lets flags inside selector at hread
  have hinside : Slice.Within ⟨inside, s.beyond, s.cutShort⟩ s :=
    ⟨List.dropWhile_suffix _, rfl, rfl⟩
  split at hread
  next hcut =>
    cases hread
    exact hs.cutShort.symm.trans hcut.2
  next =>
    split at hread
    next =>
      cases hread
      exact .inl (hinside.trans hs).place
    next =>
      split at hread
      next hbody =>
        obtain rfl := Except.error.inj hread
        have hbehind : Slice.Within ⟨inside.dropWhile isSelectorChar, s.beyond, s.cutShort⟩ s :=
          hinside.suffix (List.dropWhile_suffix _)
        exact fault_of_readBody hbody hstart (hbehind.trans hs)
      next =>
        split at hread
        next =>
          cases hread
          exact .inl hstart
        next => cases hread

theorem fault_of_readField (hread : readField s = .error fault) (hs : s.Within w) :
    fault.ArisesIn w := by
  unfold readField at hread
  split at hread
  next =>
    cases hread
    exact .inl hs.place
  next =>
    split at hread
    next =>
      cases hread
      exact .inl hs.place
    next => cases hread

theorem fault_of_readListing (hread : readListing s = .error fault) (hs : s.Within w) :
    fault.ArisesIn w := by
  unfold readListing at hread
  split at hread
  next =>
    obtain rfl := Except.error.inj hread
    split
    next hcut => exact hs.cutShort.symm.trans hcut
    next => exact .inl hs.place
  next inner rest hclose =>
    split at hread
    next =>
      cases hread
      exact .inl hs.place
    next =>
      split at hread
      next => cases hread
      next =>
        cases hread
        -- two braces are there, since the listing has an end
        have hlong : 2 ≤ s.inside.length := by
          have hlength := length_of_closeBraces? hclose
          rw [List.length_drop] at hlength
          omega
        rw [Slice.rest, List.drop_append_of_le_length hlong]
        exact .inl (hs.suffix (List.drop_suffix 2 s.inside)).place

/-! ### Moves -/

namespace Move

/-- What is left of a slice to be compiled is a part of the slice, and two characters of the slice follow the
items of a listing. -/
def Within (s : Slice) : Move → Prop
  | next _ _ left => left.Within s
  | list _ _ written => written.rest.Within s ∧ 2 ≤ written.items.beyond.length
  | _ => True

/-- What goes wrong with a move arises in a slice, and a listing is a part of the slice. -/
def ArisesIn (w : Slice) : Move → Prop
  | fail fault => fault.ArisesIn w
  | list _ _ written => written.In w
  | _ => True

theorem Within.trans {m : Move} (hm : m.Within left) (hleft : left.Within s) : m.Within s := by
  cases m with
  | fail fault => trivial
  | finish t => trivial
  | next d r inner => exact Slice.Within.trans hm hleft
  | list d r written => exact ⟨hm.1.trans hleft, hm.2⟩

theorem within_closing (d : Draft) (r : Run) (behind : Slice) : (closing d r behind).Within behind := by
  unfold closing
  split
  next => trivial
  next before rest hcut => exact ⟨⟨before ++ ['>'], (eq_of_cut hcut).symm⟩, rfl, rfl⟩

theorem within_opening (d : Draft) (r : Run) (behind : Slice) : (opening d r behind).Within behind := by
  unfold opening
  split
  next => trivial
  next htag =>
    split
    next => trivial
    next => exact within_of_readTag htag

theorem within_listing (d : Draft) (r : Run) (here : Slice) : (listing d r here).Within here := by
  unfold listing
  split
  next => trivial
  next =>
    split
    next => trivial
    next hlisting => exact ⟨within_of_readListing hlisting, two_le_beyond_of_readListing hlisting⟩

theorem within_field (d : Draft) (r : Run) (here : Slice) : (field d r here).Within here := by
  unfold field
  split
  next => trivial
  next hfield =>
    split
    next => trivial
    next => exact within_of_readField hfield

theorem arisesIn_closing {inside : Text}
    (hmark : Slice.Within ⟨'<' :: inside, s.beyond, s.cutShort⟩ w) :
    (closing d r ⟨inside, s.beyond, s.cutShort⟩).ArisesIn w := by
  unfold closing
  split
  next => exact .inl hmark.place
  next => trivial

theorem arisesIn_opening {inside : Text}
    (hmark : Slice.Within ⟨'<' :: inside, s.beyond, s.cutShort⟩ w) :
    (opening d r ⟨inside, s.beyond, s.cutShort⟩).ArisesIn w := by
  have hbehind := hmark.suffix (List.suffix_cons '<' inside)
  unfold opening
  split
  next htag => exact fault_of_readTag htag hmark.place hbehind
  next =>
    split
    next => exact .inl hmark.place
    next => trivial

theorem arisesIn_listing (hs : s.Within w) : (listing d r s).ArisesIn w := by
  unfold listing
  split
  next => exact .inl hs.place
  next =>
    split
    next hlisting => exact fault_of_readListing hlisting hs
    next hlisting => exact in_of_readListing hlisting hs

theorem arisesIn_field (hs : s.Within w) : (field d r s).ArisesIn w := by
  unfold field
  split
  next hfield => exact fault_of_readField hfield hs
  next =>
    split
    next => exact .inl hs.place
    next => trivial

end Move

theorem within_move (start : Text) (d : Draft) (r : Run) (s : Slice) : (move start d r s).Within s := by
  unfold move
  dsimp only
  split
  next =>
    split
    next => trivial
    next => trivial
  next inside hdrop =>
    have hbehind := (Slice.Within.of_dropWhile hdrop).suffix (List.suffix_cons '<' inside)
    split
    next => exact (Move.within_closing d _ _).trans hbehind
    next => exact (Move.within_opening d _ _).trans hbehind
  next c inside _ hdrop =>
    have hhere := Slice.Within.of_dropWhile hdrop
    split
    next => trivial
    next =>
      split
      next => exact (Move.within_listing d _ _).trans hhere
      next => exact (Move.within_field d _ _).trans hhere

theorem arisesIn_move (d : Draft) (r : Run) (hstart : w.Place start) (hs : s.Within w) :
    (move start d r s).ArisesIn w := by
  unfold move
  dsimp only
  split
  next =>
    split
    next => exact .inl hstart
    next => trivial
  next inside hdrop =>
    have hmark := (Slice.Within.of_dropWhile hdrop).trans hs
    split
    next => exact Move.arisesIn_closing hmark
    next => exact Move.arisesIn_opening hmark
  next c inside _ hdrop =>
    have hhere := (Slice.Within.of_dropWhile hdrop).trans hs
    split
    next => exact .inl hhere.place
    next =>
      split
      next => exact Move.arisesIn_listing hhere
      next => exact Move.arisesIn_field hhere

end Gleaner.Template
