import Gleaner.Proofs.Characters
import Gleaner.Template.Compile

/-! # Steps of the compiler

What one step of the compiler does with each of the things that a written template may go on with, whatever
follows. A run of these steps is a compilation.
-/

namespace Gleaner.Template

open Text

variable {start beyond rest t name inside : Text} {cutShort : Bool} {d : Draft} {r : Run} {c : Char}
  {b : Binding}

/-- In a tag, what follows a name is a value or the name is a condition. -/
theorem readPiece_name (start : Text) (bound : List Text) {gap : Text} {q : Char}
    (hgap : ∀ c ∈ gap, isBlank c = true) (hne : name ≠ [])
    (hname : ∀ c ∈ name, isAttributeChar c = true) (hq : isAttributeChar q = false) (more : Text) :
    readPiece start bound ⟨gap ++ (name ++ q :: more), beyond, cutShort⟩ =
      if q = '=' then readValue bound (lower name) ⟨more, beyond, cutShort⟩
      else .ok (.condition ('[' :: lower name ++ [']']), ⟨q :: more, beyond, cutShort⟩) := by
  obtain ⟨htake, hdrop⟩ := takeWhile_run hname hq more
  obtain ⟨c, front, rfl⟩ := List.exists_cons_of_ne_nil hne
  have hc := hname c List.mem_cons_self
  have hblank : isBlank c = false := by
    simp only [isAttributeChar, Bool.and_eq_true, Bool.not_eq_true'] at hc
    exact hc.1.1.1.1.1.1.1
  have htrim : trimLeft (gap ++ (c :: front ++ q :: more)) = c :: (front ++ q :: more) := by
    rw [trimLeft_append hgap]
    exact trimLeft_cons_of_not hblank
  rw [List.cons_append] at htake hdrop
  unfold readPiece
  dsimp only
  rw [htrim]
  split
  next heq => cases heq
  next heq =>
    obtain rfl := (List.cons.inj heq).1
    cases hc
  next d s _ heq =>
    obtain ⟨rfl, rfl⟩ := List.cons.inj heq
    have hslash : c ≠ '/' := by
      rintro rfl
      cases hc
    rw [if_neg fun hfinish => hslash hfinish.1, htake, hdrop, if_neg (List.cons_ne_nil _ _)]
    split
    next heq =>
      obtain ⟨rfl, rfl⟩ := List.cons.inj heq
      rfl
    next hother =>
      have hother : q ≠ '=' := by
        rintro rfl
        exact hother more rfl
      rw [if_neg hother, if_neg fun hend => List.cons_ne_nil _ _ hend.1]

theorem addLiteral_nil (r : Run) : r.addLiteral [] = r := rfl

theorem takeWhile_endsLiteral (ht : ∀ c ∈ t, endsLiteral c = false) (hc : endsLiteral c = true)
    (rest : Text) : (t ++ c :: rest).takeWhile (!endsLiteral ·) = t ∧
      (t ++ c :: rest).dropWhile (!endsLiteral ·) = c :: rest :=
  takeWhile_run (fun c hc => by simp [ht c hc]) (by simp [hc]) rest

theorem takeWhile_mark (hc : endsLiteral c = true) (rest : Text) :
    (c :: rest).takeWhile (!endsLiteral ·) = [] ∧
      (c :: rest).dropWhile (!endsLiteral ·) = c :: rest :=
  takeWhile_endsLiteral (t := []) nofun hc rest

/-- Text up to a tag or a brace goes to the run. -/
theorem compileFrom_literal (ht : ∀ c ∈ t, endsLiteral c = false) (hc : endsLiteral c = true) :
    compileFrom start d r ⟨t ++ c :: rest, beyond, cutShort⟩ =
      compileFrom start d (r.addLiteral t) ⟨c :: rest, beyond, cutShort⟩ := by
  obtain ⟨htake, hdrop⟩ := takeWhile_endsLiteral ht hc rest
  obtain ⟨htake', hdrop'⟩ := takeWhile_mark hc rest
  rw [compileFrom_eq, compileFrom_eq]
  simp only [htake, hdrop, htake', hdrop', addLiteral_nil]

theorem compileFrom_end {t : Template} (hfinish : (r.settle d).finish = some t) :
    compileFrom start d r ⟨[], beyond, cutShort⟩ = .ok t := by
  rw [compileFrom_eq]
  simp only [List.takeWhile_nil, List.dropWhile_nil, addLiteral_nil, hfinish]

theorem compileFrom_close (hname : '>' ∉ name) :
    compileFrom start d r ⟨'<' :: '/' :: (name ++ '>' :: rest), beyond, cutShort⟩ =
      compileFrom start (r.settle d).close .empty ⟨rest, beyond, cutShort⟩ := by
  have hcut : cut ['>'] ('/' :: (name ++ '>' :: rest)) = some ('/' :: name, rest) :=
    cut_of_notMem (s := '/' :: name) (by simpa using hname) rest
  obtain ⟨htake, hdrop⟩ := takeWhile_mark (c := '<') rfl ('/' :: (name ++ '>' :: rest))
  rw [compileFrom_eq]
  simp only [htake, hdrop, addLiteral_nil, Slice.peek, Slice.rest, List.cons_append, List.head?_cons,
    if_true, hcut]

theorem compileFrom_tag {tag : Tag} (hpeek : Slice.peek ⟨inside, beyond, cutShort⟩ ≠ some '/')
    (htag : ∀ start, readTag start ⟨inside, beyond, cutShort⟩ = .ok tag)
    (hrefusal : (r.settle d).refusal? tag.slot = none) :
    compileFrom start d r ⟨'<' :: inside, beyond, cutShort⟩ =
      let entered := (r.settle d).enter tag.slot
      compileFrom start (if tag.selfClosed then entered.close else entered) .empty tag.rest := by
  obtain ⟨htake, hdrop⟩ := takeWhile_mark (c := '<') rfl inside
  rw [compileFrom_eq]
  simp only [htake, hdrop, addLiteral_nil, if_neg hpeek, htag, hrefusal]

theorem compileFrom_field {left : Slice} (hopened : d.opened ≠ [])
    (hpeek : Slice.peek ⟨inside, beyond, cutShort⟩ ≠ some '{')
    (hfield : readField ⟨'{' :: inside, beyond, cutShort⟩ = .ok (b, left))
    (hnullable : d.inOptional = true → b.nullable = true) :
    compileFrom start d r ⟨'{' :: inside, beyond, cutShort⟩ =
      compileFrom start d (r.addField b) left := by
  obtain ⟨htake, hdrop⟩ := takeWhile_mark (c := '{') rfl inside
  have hrefused : (d.inOptional && !b.nullable) = false := by
    cases hin : d.inOptional with
    | true => simp [hnullable hin]
    | false => rfl
  rw [compileFrom_eq]
  simp only [htake, hdrop, addLiteral_nil, Char.reduceEq, imp_self, List.isEmpty_iff, hopened, if_false,
    if_neg hpeek, hfield, hrefused, Bool.false_eq_true]

theorem compileFrom_listing {written : WrittenListing} {t : Template} (hopened : d.opened ≠ [])
    (hpeek : Slice.peek ⟨inside, beyond, cutShort⟩ = some '{') (hfirst : d.hasListing = false)
    (hlisting : readListing ⟨'{' :: inside, beyond, cutShort⟩ = .ok written)
    (hitems : compileFrom written.items.rest .empty .empty written.items = .ok t) :
    compileFrom start d r ⟨'{' :: inside, beyond, cutShort⟩ =
      compileFrom start (d.setListing written.name t) { r with listed := true } written.rest := by
  obtain ⟨htake, hdrop⟩ := takeWhile_mark (c := '{') rfl inside
  rw [compileFrom_eq]
  simp only [htake, hdrop, addLiteral_nil, Char.reduceEq, imp_self, List.isEmpty_iff, hopened, if_false,
    if_pos hpeek, hfirst, hlisting, hitems, Bool.false_eq_true]

end Gleaner.Template
