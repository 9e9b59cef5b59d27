import Gleaner.Proofs.MarkupAttributes

/-! # The inside of a tag

What stands between the name of a start tag and its closing bracket is a row of attributes, with marks in
between that belong to none of them. Every inside that is read to its end is such a row, and it is read as
the pairs of its attributes in order, so there is only one way to see a row in it.
-/

namespace Gleaner.Markup

open Text

variable {start s t rest value : Text} {piece : TagPiece} {body : TagBody}

/-- A piece of a tag stands at the beginning of the text, with or without white space in front. -/
inductive PieceAt : Text → TagPiece → Text → Prop
  | finish {gap : Text} (hgap : ∀ c ∈ gap, isBlank c = true) (rest : Text) :
      PieceAt (gap ++ '>' :: rest) (.finish false) rest
  | finishClosed {gap : Text} (hgap : ∀ c ∈ gap, isBlank c = true) (rest : Text) :
      PieceAt (gap ++ '/' :: '>' :: rest) (.finish true) rest
  | stray {gap rest : Text} {c : Char} (hgap : ∀ d ∈ gap, isBlank d = true)
      (hc : c ∈ ['"', '\'', '/', '=']) (hslash : c = '/' → rest.head? ≠ some '>') :
      PieceAt (gap ++ c :: rest) .stray rest
  /-- A name goes on up to a character of another kind, and is alone if no equals sign comes next. -/
  | bare {gap name behind : Text} (hgap : ∀ c ∈ gap, isBlank c = true)
      (hname : name ≠ [] ∧ ∀ c ∈ name, isAttributeChar c = true)
      (hend : ∀ c ∈ behind.head?, isAttributeChar c = false) (hequals : (trimLeft behind).head? ≠ some '=') :
      PieceAt (gap ++ (name ++ behind)) (.pair (lower name) (lower name)) (trimLeft behind)
  | value {a : Attribute} {rest value : Text} (ha : a.Legible) (hvalue : a.value.text? = some value)
      (hends : a.value.EndsBefore rest) : PieceAt (a.write ++ rest) (.pair (lower a.name) value) rest

/-- The inside of a tag stands at the beginning of the text: pieces up to the closing bracket. -/
inductive Inside : Text → TagBody → Prop
  | finish {s rest : Text} {selfClosed : Bool} (hpiece : PieceAt s (.finish selfClosed) rest) :
      Inside s ⟨[], selfClosed, rest⟩
  | stray {s rest : Text} {body : TagBody} (hpiece : PieceAt s .stray rest) (hrest : Inside rest body) :
      Inside s body
  | pair {s rest name value : Text} {body : TagBody} (hpiece : PieceAt s (.pair name value) rest)
      (hrest : Inside rest body) : Inside s { body with pairs := (name, value) :: body.pairs }

theorem PieceAt.ne_nil (hpiece : PieceAt s piece rest) : s ≠ [] := by
  cases hpiece with
  | finish => simp
  | finishClosed => simp
  | stray => simp
  | bare _ hname => simp [hname.1]
  | value ha => simp [Attribute.write, ha.name.1]

theorem Inside.ne_nil (hs : Inside s body) : s ≠ [] := by
  cases hs with
  | finish hpiece => exact hpiece.ne_nil
  | stray hpiece => exact hpiece.ne_nil
  | pair hpiece => exact hpiece.ne_nil

/-! ### What is read stands there -/

theorem endsBefore_of_takeBareValue (hblank : ∀ c ∈ s.head?, isBlank c = false) (hrest : rest ≠ [])
    (htake : takeBareValue s = (value, rest)) :
    (∀ c ∈ value, isBareChar c = true) ∧ LiteralValue.EndsBefore rest (.plain value) ∧ value ++ rest = s := by
  have hsplit : s.takeWhile isBareChar ++ s.dropWhile isBareChar = s := List.takeWhile_append_dropWhile
  have hchars : ∀ c ∈ s.takeWhile isBareChar, isBareChar c = true := fun c hc => List.mem_takeWhile_imp hc
  unfold takeBareValue at htake
  dsimp only at htake
  split at htake
  next hslash =>
    obtain ⟨rfl, rfl⟩ := Prod.mk.inj htake
    obtain ⟨hlast, hbracket⟩ := hslash
    obtain ⟨more, hmore⟩ := List.head?_eq_some_iff.mp hbracket
    refine ⟨fun c hc => hchars c (List.mem_of_mem_dropLast hc), .inr (.inr ?_), ?_⟩
    · rw [hmore]
      exact ⟨more, rfl⟩
    · rw [List.append_cons, List.dropLast_append_getLast? '/' hlast, hsplit]
  next hslash =>
    obtain ⟨rfl, rfl⟩ := Prod.mk.inj htake
    refine ⟨hchars, ?_, hsplit⟩
    obtain ⟨c, more, hmore⟩ := List.exists_cons_of_ne_nil hrest
    have hend : isBareChar c = false := forall_head?_dropWhile isBareChar s c (hmore ▸ rfl)
    rw [hmore] at hslash ⊢
    by_cases hbracket : c = '>'
    · subst hbracket
      exact .inr (.inl ⟨rfl, fun hlast => hslash ⟨hlast, rfl⟩⟩)
    · have hc : isBlank c = true := by simpa [isBareChar, hbracket] using hend
      refine .inl ⟨hc, fun hnone => ?_⟩
      -- without a value the text would begin with white space
      rw [hnone, List.nil_append, hmore] at hsplit
      exact absurd hc (by simp [hblank c (hsplit ▸ rfl)])

theorem notMem_of_cut {q : Char} (hcut : cut [q] s = some (value, rest)) : q ∉ value := by
  fun_induction cut [q] s generalizing value rest with
  | case1 => simp_all
  | case2 => simp at hcut
  | case3 c s hfront =>
      obtain rfl := (Prod.mk.inj (Option.some.inj hcut)).1
      exact List.not_mem_nil
  | case4 c s hfront ih =>
      obtain ⟨⟨before, behind⟩, hrest, hpair⟩ := Option.map_eq_some_iff.mp hcut
      cases hpair
      rw [List.mem_cons, not_or]
      exact ⟨by simpa using hfront, ih hrest⟩

theorem exists_quoted {mark : Char} (hmark : mark ∈ ['"', '\'']) (hcut : cut [mark] s = some (value, rest)) :
    ∃ v : LiteralValue, v.text? = some value ∧ v.Readable ∧ v.EndsBefore rest ∧
      v.write ++ rest = '=' :: mark :: s := by
  refine ⟨.quoted mark value, rfl, ⟨hmark, notMem_of_cut hcut⟩, trivial, ?_⟩
  rw [eq_of_cut hcut]
  simp [LiteralValue.write]

/-- A value that is read stands there, with or without quotes around it. -/
theorem exists_value (hblank : ∀ c ∈ t.head?, isBlank c = false) (hrest : rest ≠ [])
    (hvalue : readValue t = .ok (value, rest)) :
    ∃ v : LiteralValue, v.text? = some value ∧ v.Readable ∧ v.EndsBefore rest ∧
      v.write ++ rest = '=' :: t := by
  unfold readValue at hvalue
  split at hvalue
  next s =>
    split at hvalue
    next hcut =>
      cases hvalue
      exact exists_quoted (by decide) hcut
    next => cases hvalue
  next s =>
    split at hvalue
    next hcut =>
      cases hvalue
      exact exists_quoted (by decide) hcut
    next => cases hvalue
  next hdouble hsingle =>
    obtain ⟨hchars, hends, hsplit⟩ := endsBefore_of_takeBareValue hblank hrest (Except.ok.inj hvalue)
    refine ⟨.plain value, rfl, ⟨hchars, ?_⟩, hends, congrArg ('=' :: ·) hsplit⟩
    rintro c hc hmark
    obtain ⟨more, rfl⟩ := List.head?_eq_some_iff.mp hc
    simp only [List.mem_cons, List.not_mem_nil, or_false] at hmark
    rcases hmark with rfl | rfl
    · exact hdouble _ hsplit.symm
    · exact hsingle _ hsplit.symm

/-- With white space around its equals sign a value stands where it stands without. -/
theorem writeSpaced_append {v : LiteralValue} {before after : Text} (hv : v.text? = some value)
    (hwrite : v.write ++ rest = '=' :: t) :
    v.writeSpaced before after ++ rest = before ++ '=' :: (after ++ t) := by
  cases v with
  | bare => cases hv
  | plain value =>
      obtain rfl : value ++ rest = t := (List.cons.inj hwrite).2
      simp [LiteralValue.writeSpaced]
  | quoted mark value =>
      obtain rfl := (List.cons.inj hwrite).2
      simp [LiteralValue.writeSpaced]

/-- White space and the rest of a text. -/
theorem exists_gap (s : Text) :
    ∃ gap, (∀ c ∈ gap, isBlank c = true) ∧ s = gap ++ trimLeft s ∧
      ∀ c ∈ (trimLeft s).head?, isBlank c = false := by
  refine ⟨s.takeWhile isBlank, fun c hc => List.mem_takeWhile_imp hc, ?_, forall_head?_dropWhile isBlank s⟩
  exact List.takeWhile_append_dropWhile.symm

/-- The name of an attribute stands in front of what is left behind it. -/
theorem exists_name {c : Char} {more : Text} (hname : (c :: more).takeWhile isAttributeChar ≠ []) :
    ∃ name behind, (name ≠ [] ∧ ∀ d ∈ name, isAttributeChar d = true) ∧ c :: more = name ++ behind ∧
      (∀ d ∈ behind.head?, isAttributeChar d = false) ∧
      name = (c :: more).takeWhile isAttributeChar ∧ behind = (c :: more).dropWhile isAttributeChar := by
  refine ⟨_, _, ⟨hname, fun d hd => List.mem_takeWhile_imp hd⟩, ?_, forall_head?_dropWhile _ _, rfl, rfl⟩
  exact List.takeWhile_append_dropWhile.symm

/-- A piece that is read stands there. Behind a value without quotes there has to be something. -/
theorem pieceAt_of_readPiece (hrest : rest = [] → ∃ selfClosed, piece = .finish selfClosed)
    (hpiece : readPiece start s = .ok (piece, rest)) : PieceAt s piece rest := by
  obtain ⟨gap, hgap, hs, hfirst⟩ := exists_gap s
  unfold readPiece at hpiece
  split at hpiece
  next => cases hpiece
  next hmore =>
    cases hpiece
    rw [hs, hmore]
    exact .finish hgap rest
  next hmore =>
    cases hpiece
    rw [hs, hmore]
    exact .finishClosed hgap rest
  next c more hbracket hslash hmore =>
    rw [hs, hmore]
    have hblank : isBlank c = false := by
      rw [hmore] at hfirst
      exact hfirst c rfl
    dsimp only at hpiece
    split at hpiece
    next hnone =>
      cases hpiece
      have hc : isAttributeChar c = false := by simpa using hnone
      refine .stray hgap ?_ ?_
      · have hother : c ≠ '>' := hbracket
        simpa [isAttributeChar, hblank, hother, or_iff_not_imp_left] using hc
      · rintro heq hhead
        obtain ⟨after, hafter⟩ := List.head?_eq_some_iff.mp hhead
        exact hslash after heq hafter
    next hne =>
      obtain ⟨name, behind, hname, hsplit, hend, htake, hdrop⟩ := exists_name hne
      rw [← htake, ← hdrop] at hpiece
      rw [hsplit]
      split at hpiece
      next after hequals =>
        obtain ⟨before, hbefore, hbehind, -⟩ := exists_gap behind
        obtain ⟨space, hspace, hafter, hvalueFirst⟩ := exists_gap after
        cases hread : readValue (trimLeft after) with
        | error fault => simp [hread, Except.map] at hpiece
        | ok read =>
            simp only [hread, Except.map, Except.ok.injEq, Prod.mk.injEq] at hpiece
            obtain ⟨rfl, rfl⟩ := hpiece
            have hne : read.2 ≠ [] := fun hnil => by
              obtain ⟨selfClosed, hfinish⟩ := hrest hnil
              cases hfinish
            obtain ⟨v, hv, hreadable, hends, hwrite⟩ := exists_value hvalueFirst hne hread
            have hshape : behind = v.writeSpaced before space ++ read.2 := by
              rw [writeSpaced_append hv hwrite, ← hafter, ← hequals]
              exact hbehind
            have hall : gap ++ (name ++ behind) = Attribute.write ⟨gap, name, before, space, v⟩ ++ read.2 := by
              rw [hshape]
              simp [Attribute.write]
            rw [hall]
            exact .value ⟨hgap, hname, hbefore, hspace, hreadable⟩ hv hends
      next hequals =>
        cases hpiece
        refine .bare hgap hname hend fun hhead => ?_
        obtain ⟨after, hafter⟩ := List.head?_eq_some_iff.mp hhead
        exact hequals after hafter

theorem inside_of_readBody (hbody : readBody start s = .ok body) : Inside s body := by
  fun_induction readBody start s generalizing body with
  | case1 => cases hbody
  | case2 s selfClosed rest hpiece =>
      cases hbody
      exact .finish (pieceAt_of_readPiece (fun _ => ⟨selfClosed, rfl⟩) hpiece)
  | case3 s rest hpiece ih =>
      have hrest := ih hbody
      exact .stray (pieceAt_of_readPiece (fun hnil => absurd hnil hrest.ne_nil) hpiece) hrest
  | case4 s name value rest hpiece ih =>
      cases hmore : readBody start rest with
      | error fault => simp [hmore, Except.map] at hbody
      | ok more =>
          rw [hmore] at hbody
          cases hbody
          have hrest := ih hmore
          exact .pair (pieceAt_of_readPiece (fun hnil => absurd hnil hrest.ne_nil) hpiece) hrest

/-! ### What stands there is read -/

theorem readBody_of_stray (hpiece : readPiece start s = .ok (.stray, rest)) :
    readBody start s = readBody start rest := by
  rw [readBody]
  split
  all_goals simp_all

theorem PieceAt.readPiece_eq (hpiece : PieceAt s piece rest) (start : Text) :
    readPiece start s = .ok (piece, rest) := by
  cases hpiece with
  | finish hgap rest =>
      rw [readPiece, trimLeft_append hgap, trimLeft_cons_of_not rfl]
      rfl
  | finishClosed hgap rest =>
      rw [readPiece, trimLeft_append hgap, trimLeft_cons_of_not rfl]
      rfl
  | @stray gap rest c hgap hc hslash =>
      simp only [List.mem_cons, List.not_mem_nil, or_false] at hc
      have hmark : isBlank c = false ∧ isAttributeChar c = false ∧ c ≠ '>' := by
        rcases hc with rfl | rfl | rfl | rfl
        all_goals exact ⟨rfl, rfl, by decide⟩
      rw [readPiece, trimLeft_append hgap, trimLeft_cons_of_not hmark.1]
      split
      next heq => cases heq
      next heq => exact absurd (List.cons.inj heq).1 hmark.2.2
      next heq =>
        obtain ⟨rfl, rfl⟩ := List.cons.inj heq
        exact absurd rfl (hslash rfl)
      next d more _ _ heq =>
        obtain ⟨rfl, rfl⟩ := List.cons.inj heq
        exact if_pos (List.takeWhile_cons_of_neg (by simp [hmark.2.1]))
  | bare hgap hname hend hequals =>
      rw [Attribute.readPiece_name start hgap hname.1 hname.2 hend]
      split
      next behind heq => exact absurd (congrArg List.head? heq) hequals
      next => rfl
  | value ha hvalue hends => exact Attribute.readPiece_value start ha hends hvalue

theorem Inside.readBody_eq (hs : Inside s body) (start : Text) : readBody start s = .ok body := by
  induction hs with
  | finish hpiece => exact readBody_of_finish (hpiece.readPiece_eq start)
  | stray hpiece _ ih => rw [readBody_of_stray (hpiece.readPiece_eq start), ih]
  | pair hpiece _ ih =>
      rw [readBody_of_pair (hpiece.readPiece_eq start), ih]
      rfl

/-- A tag is read to its end exactly if its inside stands there. -/
theorem readBody_eq_ok_iff : readBody start s = .ok body ↔ Inside s body :=
  ⟨inside_of_readBody, fun hs => hs.readBody_eq start⟩

end Gleaner.Markup
