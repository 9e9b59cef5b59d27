import Gleaner.Template.Compile
import Mathlib.Data.List.TakeWhile
import Mathlib.Tactic.Tauto

/-! # Ends of listings

A listing ends where its braces are closed, which is found by counting single braces. The last two characters
of a listing are taken for the mark that ends it, but only the last one is known to be a brace. The one
before it is a brace just if the items have as many closing as opening braces.
-/

namespace Gleaner

open Text

/-- What is no white space stays when white space at the ends goes. -/
theorem Text.mem_trim {t : Text} {c : Char} (hc : isBlank c = false) (hmem : c ∈ t) : c ∈ trim t := by
  have hdrop : ∀ {t : Text}, c ∈ t → c ∈ t.dropWhile isBlank := by
    intro t ht
    rw [← List.takeWhile_append_dropWhile (p := isBlank) (l := t), List.mem_append] at ht
    refine ht.resolve_left fun hblank => ?_
    rw [List.mem_takeWhile_imp hblank] at hc
    cases hc
  rw [trim, trimRight, List.mem_reverse]
  exact hdrop (List.mem_reverse.mpr (hdrop hmem))

namespace Template

/-- The first `n` characters of a text close `depth` braces besides those that they open, and no fewer do. -/
structure Closes (depth : Nat) (t : Text) (n : Nat) : Prop where
  le : n ≤ t.length
  count : depth + (t.take n).count '{' = (t.take n).count '}'
  earlier : ∀ m < n, (t.take m).count '}' < depth + (t.take m).count '{'

/-- The first `n` characters of a text have as many opening as closing braces, and whatever they begin with
has more opening ones. -/
structure Encloses (t : Text) (n : Nat) : Prop where
  le : n ≤ t.length
  count : (t.take n).count '{' = (t.take n).count '}'
  earlier : ∀ m < n, 0 < m → (t.take m).count '}' < (t.take m).count '{'

/-- How many braces are open behind a character. -/
def openBehind (depth : Nat) (c : Char) : Nat :=
  if c = '{' then depth + 1 else if c = '}' then depth - 1 else depth

/-- The place of the mark that ends the listing whose opening braces begin the text. -/
def listingEnd? (t : Text) : Option Nat :=
  (closeBraces? 2 (t.drop 2)).map fun (inner, _) => inner.length + 1

variable {depth c n : Nat} {t inner rest : Text} {s : Slice} {written : WrittenListing}

/-! ### Counting braces -/

theorem closes_zero : Closes 0 t n ↔ n = 0 := by
  constructor
  · intro hcloses
    rcases Nat.eq_zero_or_pos n with hzero | hpos
    · exact hzero
    · exact absurd (hcloses.earlier 0 hpos) (by simp)
  · rintro rfl
    exact ⟨Nat.zero_le _, rfl, nofun⟩

theorem not_closes_zero (hdepth : 0 < depth) : ¬ Closes depth t 0 := by
  intro hcloses
  have hcount := hcloses.count
  rw [List.take_zero, List.count_nil, List.count_nil] at hcount
  omega

theorem closes_cons (hdepth : 0 < depth) (e : Char) :
    Closes depth (e :: t) (n + 1) ↔ Closes (openBehind depth e) t n := by
  have hlevel : ∀ m,
      (depth + ((e :: t).take (m + 1)).count '{' = ((e :: t).take (m + 1)).count '}' ↔
        openBehind depth e + (t.take m).count '{' = (t.take m).count '}') ∧
      (((e :: t).take (m + 1)).count '}' < depth + ((e :: t).take (m + 1)).count '{' ↔
        (t.take m).count '}' < openBehind depth e + (t.take m).count '{') := by
    intro m
    simp only [List.take_succ_cons, List.count_cons, beq_iff_eq, openBehind]
    split
    next hopen =>
      rw [if_neg (by rw [hopen]; decide)]
      omega
    next =>
      split
      next => omega
      next => omega
  constructor
  · rintro ⟨hle, hcount, hearlier⟩
    exact ⟨Nat.le_of_succ_le_succ hle, (hlevel n).1.mp hcount,
      fun m hm => (hlevel m).2.mp (hearlier (m + 1) (Nat.succ_lt_succ hm))⟩
  · rintro ⟨hle, hcount, hearlier⟩
    refine ⟨Nat.succ_le_succ hle, (hlevel n).1.mpr hcount, ?_⟩
    intro m hm
    cases m with
    | zero => simpa using hdepth
    | succ m => exact (hlevel m).2.mpr (hearlier m (Nat.lt_of_succ_lt_succ hm))

/-- Unless the character closes the last open brace, some are open behind it. -/
theorem openBehind_pos (hdepth : 0 < depth) {e : Char} (hend : ¬ (e = '}' ∧ depth = 1)) :
    0 < openBehind depth e := by
  unfold openBehind
  split
  next => omega
  next =>
    split
    next hclose =>
      have hmany : depth ≠ 1 := fun hone => hend ⟨hclose, hone⟩
      omega
    next => exact hdepth

/-- The reader of braces stops behind the first of them that leaves none open. -/
theorem closeBraces?_eq_some_iff (hdepth : 0 < depth) :
    (closeBraces? depth t).map (fun (inner, _) => inner.length + 1) = some n ↔ Closes depth t n := by
  induction t generalizing depth n with
  | nil =>
      refine iff_of_false nofun fun hcloses => ?_
      obtain rfl : n = 0 := Nat.le_zero.mp hcloses.le
      exact not_closes_zero hdepth hcloses
  | cons e t ih =>
      cases n with
      | zero => exact iff_of_false (by simp) (not_closes_zero hdepth)
      | succ n =>
          rw [closes_cons hdepth, closeBraces?]
          split
          next hend =>
            obtain ⟨rfl, rfl⟩ := hend
            simp [openBehind, closes_zero, eq_comm]
          next hend =>
            rw [← ih (openBehind_pos hdepth hend), Option.map_map]
            simp [Option.map_eq_some_iff, openBehind]

theorem encloses_cons : Encloses ('{' :: t) (n + 1) ↔ Closes 1 t n := by
  have hlevel : ∀ m, (('{' :: t).take (m + 1)).count '{' = 1 + (t.take m).count '{' ∧
      (('{' :: t).take (m + 1)).count '}' = (t.take m).count '}' := by
    intro m
    simp [Nat.add_comm]
  constructor
  · rintro ⟨hle, hcount, hearlier⟩
    rw [(hlevel n).1, (hlevel n).2] at hcount
    refine ⟨Nat.le_of_succ_le_succ hle, hcount, fun m hm => ?_⟩
    have hinner := hearlier (m + 1) (Nat.succ_lt_succ hm) (Nat.succ_pos m)
    rwa [(hlevel m).1, (hlevel m).2] at hinner
  · rintro ⟨hle, hcount, hearlier⟩
    refine ⟨Nat.succ_le_succ hle, by rw [(hlevel n).1, (hlevel n).2, hcount], ?_⟩
    intro m hm hpos
    obtain ⟨m, rfl⟩ := Nat.exists_eq_succ_of_ne_zero hpos.ne'
    rw [(hlevel m).1, (hlevel m).2]
    exact hearlier m (Nat.lt_of_succ_lt_succ hm)

/-- Two opening braces, of which the second one may stand behind the end. -/
theorem listingEnd?_eq_some_iff (hinside : s.inside ≠ []) (hbraces : ['{', '{'] <+: s.rest) :
    listingEnd? s.inside = some c ↔ Encloses s.inside (c + 2) := by
  obtain ⟨inside, beyond, cutShort⟩ := s
  dsimp only [Slice.rest] at hinside hbraces ⊢
  match inside, hinside with
  | [e], _ =>
      refine iff_of_false nofun fun hencloses => ?_
      have hle := hencloses.le
      rw [List.length_singleton] at hle
      omega
  | e :: e' :: t, _ =>
      obtain ⟨rfl, rfl, -⟩ : '{' = e ∧ '{' = e' ∧ True := by
        simpa [List.cons_prefix_cons] using hbraces
      rw [encloses_cons, closes_cons Nat.one_pos]
      exact closeBraces?_eq_some_iff Nat.two_pos

/-- The last two characters of what is enclosed: a closing brace and, before it, another one or something that
is no brace. -/
theorem Encloses.last (hencloses : Encloses t (c + 2)) (hc : 0 < c) :
    ∃ e rest, t.drop c = e :: '}' :: rest ∧
      (t.take c).count '{' = (t.take c).count '}' + if e = '}' then 2 else 1 := by
  have hle : 2 ≤ (t.drop c).length := by
    have hle := hencloses.le
    rw [List.length_drop]
    omega
  obtain ⟨e, e', rest, hdrop⟩ : ∃ e e' rest, t.drop c = e :: e' :: rest := by
    match t.drop c, hle with
    | e :: e' :: rest, _ => exact ⟨e, e', rest, rfl⟩
  have htake : ∀ n, t.take (c + n) = t.take c ++ (e :: e' :: rest).take n := by
    intro n
    rw [List.take_add, hdrop]
  have hcount := hencloses.count
  have hearlier := hencloses.earlier c (by omega) hc
  have hearlier' := hencloses.earlier (c + 1) (by omega) (by omega)
  rw [htake] at hcount hearlier'
  simp only [List.take_succ_cons, List.take_zero, List.count_append, List.count_cons, List.count_nil,
    beq_iff_eq] at hcount hearlier'
  have hclose : e' = '}' := by
    by_contra hne
    rw [if_neg hne] at hcount
    omega
  subst hclose
  rw [if_neg (by decide : ¬ '}' = '{'), if_pos rfl] at hcount
  have hopen : e ≠ '{' := by
    rintro rfl
    rw [if_pos rfl, if_neg (by decide : ¬ '{' = '}')] at hcount
    omega
  rw [if_neg hopen] at hcount
  refine ⟨e, rest, hdrop, ?_⟩
  split
  next he =>
    rw [if_pos he] at hcount
    omega
  next he =>
    rw [if_neg he] at hcount
    omega

/-! ### The end of a listing -/

/-- Closing braces loses nothing but the brace. -/
theorem eq_of_closeBraces? {depth : Nat} {t inner rest : Text}
    (hclose : closeBraces? depth t = some (inner, rest)) : t = inner ++ '}' :: rest := by
  induction t generalizing depth inner with
  | nil => cases hclose
  | cons c t ih =>
      rw [closeBraces?] at hclose
      split at hclose
      next hend =>
        cases hclose
        rw [hend.1, List.nil_append]
      next =>
        obtain ⟨⟨more, left⟩, hmore, hpair⟩ := Option.map_eq_some_iff.mp hclose
        cases hpair
        rw [List.cons_append, ← ih hmore]

/-- Where a listing ends there are a character and a closing brace. -/
theorem drop_of_listingEnd? (hend : listingEnd? t = some c) : ∃ e rest, t.drop c = e :: '}' :: rest := by
  obtain ⟨⟨inner, rest⟩, hclose, rfl⟩ := Option.map_eq_some_iff.mp hend
  have hbrace : t.drop (inner.length + 1 + 1) = '}' :: rest := by
    rw [Nat.add_comm _ 1, Nat.add_comm _ 1, ← Nat.add_assoc, ← List.drop_drop, eq_of_closeBraces? hclose,
      List.drop_left]
  have hlong : inner.length + 1 < t.length := by
    have hlength := congrArg List.length hbrace
    simp only [List.length_drop, List.length_cons] at hlength
    omega
  exact ⟨t[inner.length + 1], rest, by rw [List.drop_eq_getElem_cons hlong, hbrace]⟩

theorem le_length_of_listingEnd? (hend : listingEnd? t = some c) : c ≤ t.length := by
  obtain ⟨e, rest, hdrop⟩ := drop_of_listingEnd? hend
  by_contra hgt
  rw [List.drop_eq_nil_of_le (Nat.le_of_not_le hgt)] at hdrop
  cases hdrop

/-- What is read of a listing, by the place of the mark that ends it. -/
theorem readListing_eq (s : Slice) :
    readListing s =
      match listingEnd? s.inside with
      | none => .error (if s.cutShort then .cutShort else .here .openListing s.rest)
      | some c =>
        match cut [':'] ((s.inside.take c).drop 2) with
        | none => .error (.here .listingWithoutColon s.rest)
        | some (name, items) =>
          if isName (trim name) then
            .ok ⟨trim name, ⟨items, s.rest.drop c, false⟩, { s with inside := s.inside.drop (c + 2) }⟩
          else .error (.here (.badName (trim name)) (s.rest.drop 2)) := by
  unfold readListing listingEnd?
  cases hclose : closeBraces? 2 (s.inside.drop 2) with
  | none => rfl
  | some pair =>
      obtain ⟨inner, rest⟩ := pair
      have hdrop : s.inside.drop 2 = inner ++ '}' :: rest := eq_of_closeBraces? hclose
      have hrest : s.rest.drop 2 = inner ++ '}' :: (rest ++ s.beyond) := by
        have hlong : 2 ≤ s.inside.length := by
          have hlength := congrArg List.length hdrop
          simp only [List.length_drop, List.length_append, List.length_cons] at hlength
          omega
        rw [Slice.rest, List.drop_append_of_le_length hlong, hdrop, List.append_assoc, List.cons_append]
      have htake : (s.inside.take (inner.length + 1)).drop 2 = inner.dropLast := by
        rw [List.drop_take, hdrop, List.dropLast_eq_take, List.take_append_of_le_length (by omega)]
        rfl
      have hbehind : s.inside.drop (inner.length + 1 + 2) = rest := by
        rw [Nat.add_comm, ← List.drop_drop, hdrop]
        simp
      simp only [Option.map_some, htake, hbehind]
      cases hcut : cut [':'] inner.dropLast with
      | none => rfl
      | some pair =>
          obtain ⟨name, items⟩ := pair
          have hbeyond : inner.drop (inner.length - 1) ++ '}' :: rest ++ s.beyond =
              s.rest.drop (inner.length + 1) := by
            have hcolon := length_of_cut hcut
            rw [List.length_dropLast, List.length_singleton] at hcolon
            have hlength : inner.length + 1 = 2 + (inner.length - 1) := by omega
            rw [hlength, ← List.drop_drop, hrest, List.drop_append_of_le_length (Nat.sub_le _ _),
              List.append_assoc, List.cons_append]
          simp only [hbeyond]

theorem forall_isNameChar_of_isName {name : Text} (hname : isName name = true) :
    name ≠ [] ∧ ∀ c ∈ name, isNameChar c = true := by
  cases name with
  | nil => cases hname
  | cons c more =>
      simp only [isName, Bool.and_eq_true, List.all_eq_true] at hname
      refine ⟨List.cons_ne_nil _ _, List.forall_mem_cons.mpr ⟨?_, hname.2⟩⟩
      have hstart := hname.1
      simp only [isNameStart, isNameChar, Char.isAlphanum, Bool.or_eq_true] at hstart ⊢
      tauto

/-- No brace is part of a name. -/
theorem notMem_of_isName_trim {name : Text} {e : Char} (hname : isName (trim name) = true)
    (he : e = '{' ∨ e = '}') : e ∉ name := by
  have hchars := (forall_isNameChar_of_isName hname).2
  intro hmem
  rcases he with rfl | rfl
  · exact absurd (hchars _ (mem_trim rfl hmem)) (by decide)
  · exact absurd (hchars _ (mem_trim rfl hmem)) (by decide)

/-- A listing that is read, by its parts. -/
theorem of_readListing (hread : readListing s = .ok written) :
    ∃ c name, listingEnd? s.inside = some c ∧ isName (trim name) = true ∧
      (s.inside.take c).drop 2 = name ++ ':' :: written.items.inside ∧
      written = ⟨trim name, ⟨written.items.inside, s.rest.drop c, false⟩,
        { s with inside := s.inside.drop (c + 2) }⟩ := by
  rw [readListing_eq] at hread
  split at hread
  next => cases hread
  next c hend =>
    split at hread
    next => cases hread
    next name items hcut =>
      split at hread
      next hname =>
        obtain rfl := Except.ok.inj hread
        refine ⟨c, name, hend, hname, ?_, rfl⟩
        rw [eq_of_cut hcut, List.append_assoc, List.singleton_append]
      next => cases hread

/-- Only a listing without an end is open. -/
theorem readListing_eq_openListing_iff (hs : s.cutShort = false) :
    readListing s = .error (.here .openListing s.rest) ↔ listingEnd? s.inside = none := by
  rw [readListing_eq]
  cases listingEnd? s.inside with
  | none => simp [hs]
  | some c =>
      refine iff_of_false ?_ nofun
      dsimp only
      split
      next => simp
      next =>
        split
        next => simp
        next => simp

/-- The braces in front of the mark that ends a listing are the two that begin it and those of its items. -/
theorem count_of_readListing (hbraces : ['{', '{'] <+: s.rest) (hread : readListing s = .ok written) :
    ∃ c, listingEnd? s.inside = some c ∧ written.items.beyond = s.rest.drop c ∧
      (s.inside.take c).count '{' = written.items.inside.count '{' + 2 ∧
      (s.inside.take c).count '}' = written.items.inside.count '}' := by
  obtain ⟨c, name, hend, hname, hitems, hwritten⟩ := of_readListing hread
  refine ⟨c, hend, by rw [hwritten], ?_⟩
  have hlong : 2 ≤ (s.inside.take c).length := by
    have hlength := congrArg List.length hitems
    simp only [List.length_drop, List.length_append, List.length_cons] at hlength
    omega
  have hfront : (s.inside.take c).take 2 = ['{', '{'] := by
    have htake : s.inside.take c <+: s.rest := (List.take_prefix c _).trans (List.prefix_append _ _)
    exact (List.prefix_iff_eq_take.mp (List.prefix_of_prefix_length_le hbraces htake hlong)).symm
  have hsplit := List.take_append_drop 2 (s.inside.take c)
  rw [hfront, hitems] at hsplit
  have hopening : name.count '{' = 0 := List.count_eq_zero.mpr (notMem_of_isName_trim hname (.inl rfl))
  have hclosing : name.count '}' = 0 := List.count_eq_zero.mpr (notMem_of_isName_trim hname (.inr rfl))
  rw [← hsplit]
  simp [hopening, hclosing]

/-- A listing ends with the first brace behind which as many braces are closed as opened, and it is open if
there is none. The last two characters are taken for the mark that ends it. Where they are such a mark,
the items before it have as many closing as opening braces; where the first of the two is something
else, they have one closing brace too many. -/
theorem listing_ends (hinside : s.inside ≠ []) (hbraces : ['{', '{'] <+: s.rest) :
    (∀ c, listingEnd? s.inside = some c ↔ Encloses s.inside (c + 2)) ∧
    (s.cutShort = false →
      (readListing s = .error (.here .openListing s.rest) ↔ ∀ c, ¬ Encloses s.inside (c + 2))) ∧
    ∀ c, listingEnd? s.inside = some c → ∃ e rest, s.inside.drop c = e :: '}' :: rest ∧
      ∀ written, readListing s = .ok written →
        written.items.beyond = e :: '}' :: (rest ++ s.beyond) ∧
        written.items.inside.count '}' = written.items.inside.count '{' + if e = '}' then 0 else 1 := by
  have hiff := fun c => listingEnd?_eq_some_iff (c := c) hinside hbraces
  refine ⟨hiff, ?_, ?_⟩
  · intro hs
    rw [readListing_eq_openListing_iff hs, Option.eq_none_iff_forall_ne_some]
    exact forall_congr' fun c => not_congr (hiff c)
  · intro c hend
    have hencloses := (hiff c).mp hend
    have hpos : 0 < c := by
      obtain ⟨pair, -, rfl⟩ := Option.map_eq_some_iff.mp hend
      exact Nat.succ_pos _
    obtain ⟨e, rest, hdrop, hcount⟩ := hencloses.last hpos
    refine ⟨e, rest, hdrop, fun written hread => ?_⟩
    obtain ⟨c', hend', hbeyond, hopening, hclosing⟩ := count_of_readListing hbraces hread
    obtain rfl : c = c' := Option.some.inj (hend.symm.trans hend')
    constructor
    · have hle : c ≤ s.inside.length := Nat.le_of_add_right_le hencloses.le
      rw [hbeyond, Slice.rest, List.drop_append_of_le_length hle, hdrop, List.cons_append,
        List.cons_append]
    · rw [hopening, hclosing] at hcount
      split at hcount
      next he =>
        rw [if_pos he]
        omega
      next he =>
        rw [if_neg he]
        omega

/-- A listing with a binding among its items, which ends with a mark. -/
theorem listing_ends_mark :
    let s := Slice.whole "{{rows: <li>{a}</li>}}</ul>".toList
    Encloses s.inside 22 ∧
      ∃ written, readListing s = .ok written ∧ written.items.beyond = "\x7d\x7d</ul>".toList ∧
        written.items.inside.count '}' = written.items.inside.count '{' := by
  intro s
  have hend : listingEnd? s.inside = some 20 := by decide +kernel
  obtain ⟨hencloses, -, hmark⟩ := listing_ends (s := s) (by decide) (by decide)
  obtain ⟨written, hread⟩ : ∃ written, readListing s = .ok written := ⟨_, rfl⟩
  obtain ⟨e, rest, hdrop, hitems⟩ := hmark 20 hend
  obtain ⟨rfl, hrest⟩ : '}' = e ∧ "</ul>".toList = rest := by simpa [s, Slice.whole] using hdrop
  obtain ⟨hbeyond, hcount⟩ := hitems written hread
  refine ⟨(hencloses 20).mp hend, written, hread, ?_, hcount⟩
  rw [hbeyond, ← hrest]
  rfl

/-- A space between the last two braces. It is taken for the first half of the mark, and the brace before it for
a part of the items. -/
theorem listing_ends_behind_space :
    let source := "<ul>{{a:<li/>} }</ul>".toList
    let s : Slice := ⟨source.drop 4, [], false⟩
    listingEnd? s.inside = some 10 ∧ (s.inside.drop 10).take 2 = [' ', '}'] ∧
      (∃ written, readListing s = .ok written ∧ written.items.inside = "<li/>\x7d".toList) ∧
      compile source = .ok ⟨⟨"ul".toList, false, false, [], []⟩,
        .listing "a".toList ⟨"li".toList, false, false, [], []⟩ .done⟩ := by
  refine ⟨by decide +kernel, by decide, ⟨_, rfl, by decide +kernel⟩, by decide +kernel⟩

end Template

end Gleaner
