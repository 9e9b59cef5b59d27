import Gleaner.Proofs.Faults

/-! # Places of errors

An error tells the place of a fault by its offset, its line and its column. The place is in the text of the
template, and for a fault among the items of listings it is among those items. The one thing without a
place is an attribute that goes on behind the end of a listing, where the listing does not end with two
braces.
-/

namespace Gleaner

open Text

theorem Text.placeOf_ofNat (length n : Nat) : placeOf length n = n := by
  rw [placeOf, if_pos (Int.natCast_nonneg n), Int.toNat_natCast]

namespace TemplateError

/-- Where a place is for a reader: behind so many lines that are complete, and so many characters behind the
beginning of its own line. Both are counted from one. -/
structure PlacedAt (source : Text) (position line column : Nat) : Prop where
  le : position ≤ source.length
  line : (source.take position).count '\n' + 1 = line
  column : ∃ earlier current, source.take position = earlier ++ current ∧
    (∀ c ∈ earlier.getLast?, c = '\n') ∧ '\n' ∉ current ∧ current.length + 1 = column

variable {source : Text} {position position' line column : Nat}

/-- A line that begins later has more line feeds in front of it. -/
theorem length_le_of_count {earlier current earlier' current' : Text}
    (hfront : earlier ++ current <+: source) (hfront' : earlier' ++ current' <+: source)
    (hcurrent : '\n' ∉ current) (hlast : ∀ c ∈ earlier'.getLast?, c = '\n')
    (hcount : (earlier ++ current).count '\n' = (earlier' ++ current').count '\n') :
    earlier'.length ≤ earlier.length := by
  by_contra hlt
  rw [Nat.not_le] at hlt
  obtain ⟨between, rfl⟩ : earlier <+: earlier' :=
    List.prefix_of_prefix_length_le ((List.prefix_append _ _).trans hfront)
      ((List.prefix_append _ _).trans hfront') hlt.le
  have hne : between ≠ [] := by
    rintro rfl
    simp at hlt
  have hfeed : '\n' ∈ between := by
    have hend := List.getLast?_eq_some_getLast hne
    have hhere := hlast (between.getLast hne) (by simp [List.getLast?_append, hend])
    exact hhere ▸ List.getLast_mem hne
  have hpos : 0 < between.count '\n' := List.count_pos_iff.mpr hfeed
  have hzero : current.count '\n' = 0 := List.count_eq_zero.mpr hcurrent
  simp only [List.count_append] at hcount
  omega

/-- Line and column determine the place. -/
theorem PlacedAt.unique (hplaced : PlacedAt source position line column)
    (hplaced' : PlacedAt source position' line column) : position = position' := by
  obtain ⟨hle, hline, earlier, current, hsplit, hlast, hcurrent, hcolumn⟩ := hplaced
  obtain ⟨hle', hline', earlier', current', hsplit', hlast', hcurrent', hcolumn'⟩ := hplaced'
  have hfront : earlier ++ current <+: source := hsplit ▸ List.take_prefix _ _
  have hfront' : earlier' ++ current' <+: source := hsplit' ▸ List.take_prefix _ _
  have hcount : (earlier ++ current).count '\n' = (earlier' ++ current').count '\n' := by
    rw [← hsplit, ← hsplit']
    omega
  have hbegin : earlier.length = earlier'.length :=
    Nat.le_antisymm (length_le_of_count hfront' hfront hcurrent' hlast hcount.symm)
      (length_le_of_count hfront hfront' hcurrent hlast' hcount)
  have hlength := congrArg List.length hsplit
  have hlength' := congrArg List.length hsplit'
  simp only [List.length_take, List.length_append] at hlength hlength'
  omega

/-- An error at a place of a text tells its line and its column. -/
theorem ofPosition_placedAt (cause : Template.Cause) (hle : position ≤ source.length) :
    ∃ line column : Nat, ofPosition source cause position = .located cause position line column ∧
      PlacedAt source position line column := by
  have hsplit := List.takeWhile_append_dropWhile (p := (· != '\n')) (l := (source.take position).reverse)
  unfold ofPosition
  rw [placeOf_ofNat]
  dsimp only
  generalize hcurrent : (source.take position).reverse.takeWhile (· != '\n') = current at hsplit
  generalize hearlier : (source.take position).reverse.dropWhile (· != '\n') = earlier at hsplit ⊢
  refine ⟨_, current.length + 1, ?_, hle, rfl, earlier.reverse, current.reverse, ?_, ?_, ?_, ?_⟩
  · have hlength := congrArg List.length hsplit
    simp only [List.length_append, List.length_reverse, List.length_take] at hlength
    congr 1
    omega
  · rw [← List.reverse_append, hsplit, List.reverse_reverse]
  · intro c hc
    have hhead := List.head?_dropWhile_not (· != '\n') (source.take position).reverse
    rw [List.getLast?_reverse] at hc
    rw [hearlier, hc] at hhead
    simpa using hhead
  · rw [List.mem_reverse, ← hcurrent]
    intro hmem
    simpa using List.mem_takeWhile_imp hmem
  · rw [List.length_reverse]

end TemplateError

namespace Template

/-! ### Faults in listings -/

/-- How a compilation comes to a fault: move by move, past the listings that are templates, and into those of
`around`, the outermost first, that are not. -/
inductive Fails : Text → Draft → Run → Slice → List WrittenListing → Fault → Prop
  | here {start d r s fault} (hmove : move start d r s = .fail fault) : Fails start d r s [] fault
  | next {start d r s d' r' left around fault} (hmove : move start d r s = .next d' r' left)
      (hleft : Fails start d' r' left around fault) : Fails start d r s around fault
  | inside {start d r s d' r' written around fault} (hmove : move start d r s = .list d' r' written)
      (hitems : Fails written.items.rest .empty .empty written.items around fault) :
      Fails start d r s (written :: around) fault
  | behind {start d r s d' r' written t around fault} (hmove : move start d r s = .list d' r' written)
      (ht : compileFrom written.items.rest .empty .empty written.items = .ok t)
      (hleft : Fails start (d'.setListing written.name t) { r' with listed := true } written.rest around
        fault) : Fails start d r s around fault

/-- The slice that is read where the listings of `around` are entered from `w`. -/
def innermost : Slice → List WrittenListing → Slice
  | w, [] => w
  | _, written :: around => innermost written.items around

/-- Each listing is a part of the items of the one around it, and the outermost of the slice. -/
def Nested : Slice → List WrittenListing → Prop
  | _, [] => True
  | w, written :: around => written.In w ∧ Nested written.items around

/-- The place is among the items of the listing: behind the colon in front of them, and not behind their end. -/
def WrittenListing.Spans (source : Text) (position : Nat) (written : WrittenListing) : Prop :=
  ∃ front, source = front ++ ':' :: written.items.rest ∧
    front.length < position ∧ position ≤ front.length + 1 + written.items.inside.length

/-- The compilation of a whole template comes to a fault within some listings. -/
def FailsIn (source : Text) (around : List WrittenListing) (fault : Fault) : Prop :=
  Fails source .empty .empty (.whole source) around fault

/-- The fault stands in a text. Only what was meant to go on can be cut short. -/
def Fault.StandsIn (whole : Text) (cutShort : Bool) : Fault → Prop
  | .here _ rest => rest <:+ whole
  | .overrun => True
  | .cutShort => cutShort = true

variable {start rest : Text} {d : Draft} {r : Run} {s w : Slice} {around : List WrittenListing}
  {written : WrittenListing} {fault : Fault}

/-- A compilation that fails comes to a fault somewhere. -/
theorem exists_fails (hcompile : compileFrom start d r s = .error fault) :
    ∃ around, Fails start d r s around fault := by
  induction start, d, r, s using compileFrom_induction with
  | fail hmove =>
      rw [compileFrom_move, hmove] at hcompile
      obtain rfl := Except.error.inj hcompile
      exact ⟨[], .here hmove⟩
  | finish hmove =>
      rw [compileFrom_move, hmove] at hcompile
      cases hcompile
  | next hmove ih =>
      rw [compileFrom_move, hmove] at hcompile
      obtain ⟨around, hleft⟩ := ih hcompile
      exact ⟨around, .next hmove hleft⟩
  | @list start d r s d' r' written hmove ihitems ih =>
      rw [compileFrom_move, hmove] at hcompile
      dsimp only at hcompile
      split at hcompile
      next fault' hfault =>
        obtain rfl := Except.error.inj hcompile
        obtain ⟨around, hitems⟩ := ihitems hfault
        exact ⟨written :: around, .inside hmove hitems⟩
      next t ht =>
        obtain ⟨around, hleft⟩ := ih t hcompile
        exact ⟨around, .behind hmove ht hleft⟩

theorem Fails.compileFrom_eq (hfails : Fails start d r s around fault) :
    compileFrom start d r s = .error fault := by
  induction hfails with
  | here hmove => rw [compileFrom_move, hmove]
  | next hmove _ ih =>
      rw [compileFrom_move, hmove]
      exact ih
  | inside hmove _ ih =>
      rw [compileFrom_move, hmove]
      dsimp only
      rw [ih]
  | behind hmove ht _ ih =>
      rw [compileFrom_move, hmove]
      dsimp only
      rw [ht]
      exact ih

/-- The listings around a fault are nested, and the fault arises in the innermost of them. -/
theorem Fails.nested (hfails : Fails start d r s around fault) (hstart : w.Place start)
    (hs : s.Within w) : Nested w around ∧ fault.ArisesIn (innermost w around) := by
  induction hfails generalizing w with
  | @here start d r s fault hmove =>
      have harises := arisesIn_move d r hstart hs
      rw [hmove] at harises
      exact ⟨trivial, harises⟩
  | @next start d r s d' r' left around fault hmove _ ih =>
      have hleft := within_move start d r s
      rw [hmove] at hleft
      exact ih hstart (Slice.Within.trans hleft hs)
  | @inside start d r s d' r' written around fault hmove _ ih =>
      have hlisting := arisesIn_move d r hstart hs
      rw [hmove] at hlisting
      obtain ⟨hnested, harises⟩ := ih (Slice.Within.refl _).place (.refl _)
      exact ⟨⟨hlisting, hnested⟩, harises⟩
  | @behind start d r s d' r' written t around fault hmove _ _ ih =>
      have hleft := within_move start d r s
      rw [hmove] at hleft
      exact ih hstart (hleft.1.trans hs)

/-! ### Nested listings -/

theorem WrittenListing.In.suffix (hlisting : written.In w) : written.items.rest <:+ w.rest :=
  (List.suffix_cons ':' _).trans hlisting.colon

/-- A place among the items of a listing is a place in the slice of the listing. -/
theorem WrittenListing.In.place (hlisting : written.In w) (hplace : written.items.Place rest) :
    w.Place rest :=
  ⟨hplace.suffix.trans hlisting.suffix, hlisting.beyond.trans hplace.beyond⟩

theorem Nested.place (hnested : Nested w around) (hplace : (innermost w around).Place rest) :
    w.Place rest ∧ ∀ written ∈ around, written.items.Place rest := by
  induction around generalizing w with
  | nil => exact ⟨hplace, nofun⟩
  | cons written around ih =>
      obtain ⟨hlisting, hmore⟩ := hnested
      obtain ⟨hitems, hall⟩ := ih hmore hplace
      exact ⟨hlisting.place hitems, List.forall_mem_cons.mpr ⟨hitems, hall⟩⟩

theorem Nested.colon (hnested : Nested w around) :
    ∀ written ∈ around, ':' :: written.items.rest <:+ w.rest := by
  induction around generalizing w with
  | nil => nofun
  | cons written around ih =>
      obtain ⟨hlisting, hmore⟩ := hnested
      refine List.forall_mem_cons.mpr ⟨hlisting.colon, fun inner hinner => ?_⟩
      exact (ih hmore inner hinner).trans hlisting.suffix

theorem Nested.rest_innermost (hnested : Nested w around) : (innermost w around).rest <:+ w.rest := by
  induction around generalizing w with
  | nil => exact List.suffix_rfl
  | cons written around ih => exact (ih hnested.2).trans hnested.1.suffix

/-- What is read within a listing is not cut short. -/
theorem Nested.cutShort (hnested : Nested w around) (hcut : (innermost w around).cutShort = true) :
    w.cutShort = true := by
  induction around generalizing w with
  | nil => exact hcut
  | cons written around ih =>
      have hitems := ih hnested.2 hcut
      rw [hnested.1.cutShort] at hitems
      cases hitems

theorem Nested.mark (hnested : Nested w around) :
    ∀ written ∈ around, ∃ e behind, written.items.beyond = e :: '}' :: behind := by
  induction around generalizing w with
  | nil => nofun
  | cons written around ih => exact List.forall_mem_cons.mpr ⟨hnested.1.mark, ih hnested.2⟩

theorem innermost_concat (w : Slice) (outer : List WrittenListing) (written : WrittenListing) :
    innermost w (outer ++ [written]) = written.items := by
  induction outer generalizing w with
  | nil => rfl
  | cons first outer ih => exact ih first.items

/-- An attribute that goes on behind the end of what is read does so behind a listing that ends with an equals
sign and a brace. -/
theorem Nested.goesOn {behind : Text} (hnested : Nested w around) (hw : w.beyond = [])
    (hbeyond : (innermost w around).beyond = '=' :: behind) :
    ∃ written ∈ around.getLast?, ∃ more, behind = '}' :: more ∧
      written.items.beyond = '=' :: '}' :: more := by
  rcases List.eq_nil_or_concat around with rfl | ⟨outer, written, rfl⟩
  · cases hw.symm.trans hbeyond
  · rw [List.concat_eq_append, innermost_concat] at hbeyond
    obtain ⟨e, more, hmark⟩ := hnested.mark written (by simp)
    obtain ⟨rfl, rfl⟩ := List.cons.inj (hmark.symm.trans hbeyond)
    exact ⟨written, by simp, more, rfl, hmark⟩

/-! ### Whole templates -/

/-- What is wrong with a template stands in the text of the template, also if it is wrong in a listing. -/
theorem fault_of_compileSlice (hcompile : compileSlice s = .error fault) :
    fault.StandsIn s.rest s.cutShort := by
  obtain ⟨around, hfails⟩ := exists_fails hcompile
  obtain ⟨hnested, harises⟩ := hfails.nested (Slice.Within.refl s).place (.refl s)
  cases fault with
  | cutShort => exact hnested.cutShort harises
  | overrun => trivial
  | here cause rest =>
      rcases harises with hplace | ⟨hbeyond, -⟩
      · exact (hnested.place hplace).1.suffix
      · have hrest : rest <:+ (innermost s around).beyond := hbeyond ▸ List.suffix_cons '=' rest
        exact (hrest.trans (List.suffix_append _ _)).trans hnested.rest_innermost

variable {source : Text} {cause : Cause}

theorem FailsIn.nested (hfails : FailsIn source around fault) :
    Nested (.whole source) around ∧ fault.ArisesIn (innermost (.whole source) around) := by
  refine Fails.nested hfails ?_ (.refl _)
  have hplace := (Slice.Within.refl (.whole source)).place
  rwa [Slice.rest_whole] at hplace

/-- The fault is at a place of the template, and of the items of all listings around it. -/
theorem FailsIn.spans (hfails : FailsIn source around (.here cause rest)) :
    rest <:+ source ∧ ∀ written ∈ around, written.Spans source (source.length - rest.length) := by
  obtain ⟨hnested, harises⟩ := hfails.nested
  have hplace : (innermost (.whole source) around).Place rest := by
    rcases harises with hplace | ⟨hbeyond, hhead⟩
    · exact hplace
    · -- no value begins with the brace that ends a listing
      obtain ⟨written, -, more, rfl, -⟩ := hnested.goesOn rfl hbeyond
      exact absurd rfl hhead
  obtain ⟨hwhole, hall⟩ := hnested.place hplace
  refine ⟨by simpa using hwhole.suffix, fun written hwritten => ?_⟩
  obtain ⟨front, hfront⟩ := hnested.colon written hwritten
  rw [Slice.rest_whole] at hfront
  have hlength := congrArg List.length hfront
  have hsuffix := (hall written hwritten).suffix.length_le
  have hbeyond := (hall written hwritten).beyond.length_le
  rw [List.length_append, List.length_cons] at hlength
  rw [Slice.rest, List.length_append] at hsuffix hlength
  exact ⟨front, hfront.symm, by omega, by omega⟩

/-- An attribute goes on behind the end only where the innermost listing ends with an equals sign and a
brace. -/
theorem FailsIn.goesOn (hfails : FailsIn source around .overrun) :
    ∃ written ∈ around.getLast?, ['=', '}'] <+: written.items.beyond := by
  obtain ⟨hnested, harises⟩ := hfails.nested
  obtain ⟨behind, hbeyond⟩ := List.head?_eq_some_iff.mp harises
  obtain ⟨written, hwritten, more, -, hmark⟩ := hnested.goesOn rfl hbeyond
  exact ⟨written, hwritten, more, hmark.symm⟩

/-- A template is compiled, or something is wrong with it at a place of its text. The line and the column of the
error determine the place; it is among the items of each listing that the fault is in, however deep. Only
where a listing ends with an equals sign and a brace, in place of two braces, may an attribute go on
behind the end of the listing, and then the error has no place. -/
theorem compile_fault_places (source : Text) :
    (∃ t, compile source = .ok t) ∨
    (∃ cause, ∃ position line column : Nat,
      compile source = .error (.located cause position line column) ∧
      TemplateError.PlacedAt source position line column ∧
      (∀ other, TemplateError.PlacedAt source other line column → other = position) ∧
      (∃ around, FailsIn source around (.here cause (source.drop position))) ∧
      ∀ around fault, FailsIn source around fault →
        fault = .here cause (source.drop position) ∧
          ∀ written ∈ around, written.Spans source position) ∨
    (compile source = .error .overrun ∧ (∃ around, FailsIn source around .overrun) ∧
      ∀ around fault, FailsIn source around fault →
        fault = .overrun ∧ ∃ written ∈ around.getLast?, ['=', '}'] <+: written.items.beyond) := by
  unfold compile
  cases hresult : compileSlice (.whole source) with
  | ok t => exact .inl ⟨t, rfl⟩
  | error fault =>
      have hcompile : compileFrom source .empty .empty (.whole source) = .error fault := by
        rwa [compileSlice, Slice.rest_whole] at hresult
      obtain ⟨around, hfails⟩ := exists_fails hcompile
      have hsame : ∀ around' fault', FailsIn source around' fault' → fault' = fault := by
        intro around' fault' hfails'
        exact Except.error.inj ((Fails.compileFrom_eq hfails').symm.trans hcompile)
      have hstands := fault_of_compileSlice hresult
      cases fault with
      | cutShort => cases hstands
      | overrun =>
          refine .inr (.inr ⟨rfl, ⟨around, hfails⟩, fun around' fault' hfails' => ?_⟩)
          obtain rfl := hsame around' fault' hfails'
          exact ⟨rfl, hfails'.goesOn⟩
      | here cause rest =>
          have hrest : rest <:+ source := (FailsIn.spans hfails).1
          have hdrop : source.drop (source.length - rest.length) = rest :=
            (List.suffix_iff_eq_drop.mp hrest).symm
          obtain ⟨line, column, hlocated, hplaced⟩ :=
            TemplateError.ofPosition_placedAt cause (Nat.sub_le source.length rest.length)
          refine .inr (.inl ⟨cause, source.length - rest.length, line, column, ?_, hplaced,
            fun other hother => hother.unique hplaced, ?_, fun around' fault' hfails' => ?_⟩)
          · rw [← hlocated]
            simp [Except.mapError, Fault.error, Int.ofNat_sub hrest.length_le]
          · rw [hdrop]
            exact ⟨around, hfails⟩
          · obtain rfl := hsame around' fault' hfails'
            rw [hdrop]
            exact ⟨rfl, hfails'.spans.2⟩

/-- A listing that ends with an equals sign and a brace. The attribute in front of them goes on behind the
end of the listing. -/
theorem compile_goes_on : compile "<ul>\x7b\x7ba: <li x=\"\x7d\"b=\x7d</ul>".toList = .error .overrun := by
  decide +kernel

end Template

end Gleaner
