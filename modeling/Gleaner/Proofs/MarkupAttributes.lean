import Gleaner.Markup.Tag
import Gleaner.Proofs.Characters

/-! # Attributes of markup

An attribute gives its value by its name alone, without quotes or between quotes of one kind, and white space
around the equals sign does not count. Whichever way the attributes of a tag are written, markup reads each
of them as a name and a value.
-/

namespace Gleaner

open Text

/-- How an attribute gives its value. -/
inductive LiteralValue where
  /-- By its name alone. -/
  | bare
  | plain (value : Text)
  | quoted (mark : Char) (value : Text)
deriving DecidableEq

namespace LiteralValue

def text? : LiteralValue → Option Text
  | bare => none
  | plain value => some value
  | quoted _ value => some value

def write : LiteralValue → Text
  | bare => []
  | plain value => '=' :: value
  | quoted mark value => '=' :: mark :: (value ++ [mark])

/-- The value behind white space, and with white space behind its equals sign. -/
def writeSpaced (before after : Text) : LiteralValue → Text
  | bare => []
  | plain value => before ++ '=' :: (after ++ value)
  | quoted mark value => before ++ '=' :: (after ++ mark :: (value ++ [mark]))

/-- Without quotes a value has no white space and no bracket, and does not begin like a value of another
kind. -/
def Legible : LiteralValue → Prop
  | bare => True
  | plain value =>
    (∀ c ∈ value, Markup.isBareChar c = true) ∧ ∀ c ∈ value.head?, c ∉ ['"', '\'', '{']
  | quoted mark value => mark ∈ ['"', '\''] ∧ mark ∉ value

/-- In markup a brace is a character like others. -/
def Readable : LiteralValue → Prop
  | bare => True
  | plain value =>
    (∀ c ∈ value, Markup.isBareChar c = true) ∧ ∀ c ∈ value.head?, c ∉ ['"', '\'']
  | quoted mark value => mark ∈ ['"', '\''] ∧ mark ∉ value

/-- The attribute ends where `rest` begins. A slash before the closing bracket is not part of a value, and
an empty value without quotes stands at the end of the tag only. -/
def EndsBefore (rest : Text) : LiteralValue → Prop
  | bare => rest.head?.any (fun c => isBlank c || c == '>' || c == '/') = true
  | plain value =>
    (rest.head?.any isBlank = true ∧ value ≠ []) ∨
      (rest.head? = some '>' ∧ value.getLast? ≠ some '/') ∨ ['/', '>'] <+: rest
  | quoted _ _ => True

instance (value : LiteralValue) : Decidable value.Legible :=
  match value with
  | bare => inferInstanceAs (Decidable True)
  | plain value =>
    -- only the characters of the value are looked at
    have := List.decidableBAll (fun c => Markup.isBareChar c = true) value
    have := Option.decidableForallMem (p := fun c => c ∉ ['"', '\'', '{']) value.head?
    inferInstanceAs (Decidable (_ ∧ _))
  | quoted _ _ => inferInstanceAs (Decidable (_ ∧ _))

instance (value : LiteralValue) : Decidable value.Readable :=
  match value with
  | bare => inferInstanceAs (Decidable True)
  | plain value =>
    have := List.decidableBAll (fun c => Markup.isBareChar c = true) value
    have := Option.decidableForallMem (p := fun c => c ∉ ['"', '\'']) value.head?
    inferInstanceAs (Decidable (_ ∧ _))
  | quoted _ _ => inferInstanceAs (Decidable (_ ∧ _))

instance (rest : Text) (value : LiteralValue) : Decidable (value.EndsBefore rest) :=
  match value with
  | bare => inferInstanceAs (Decidable (_ = true))
  | plain _ => inferInstanceAs (Decidable (_ ∨ _ ∨ _))
  | quoted _ _ => inferInstanceAs (Decidable True)

theorem EndsBefore.append {value : LiteralValue} {rest : Text} (hends : value.EndsBefore rest)
    (behind : Text) : value.EndsBefore (rest ++ behind) := by
  cases rest with
  | cons c rest =>
      cases value with
      | bare => exact hends
      | plain value =>
          exact hends.imp_right fun hends =>
            hends.imp_right fun hfinish => hfinish.trans (List.prefix_append _ behind)
      | quoted mark value => trivial
  | nil =>
      cases value with
      | bare => cases hends
      | plain value =>
          rcases hends with ⟨hblank, -⟩ | ⟨hbracket, -⟩ | hfinish
          · cases hblank
          · cases hbracket
          · exact absurd (List.prefix_nil.mp hfinish) (List.cons_ne_nil _ _)
      | quoted mark value => trivial

theorem Legible.readable {value : LiteralValue} (hvalue : value.Legible) : value.Readable := by
  cases value with
  | bare => trivial
  | plain value =>
      refine ⟨hvalue.1, ?_⟩
      intro c hc hmark
      have hmarks : ['"', '\''] ⊆ ['"', '\'', '{'] := by decide
      exact hvalue.2 c hc (hmarks hmark)
  | quoted mark value => exact hvalue

theorem writeSpaced_nil (value : LiteralValue) : value.writeSpaced [] [] = value.write := by
  cases value with
  | bare => rfl
  | plain value => rfl
  | quoted mark value => rfl

/-! ### Reading a value -/

section Reading

variable {value rest before after : Text}

theorem takeBareValue_plain (hvalue : ∀ c ∈ value, Markup.isBareChar c = true)
    (hends : EndsBefore rest (.plain value)) :
    Markup.takeBareValue (value ++ rest) = (value, rest) := by
  rcases hends with ⟨hblank, -⟩ | ⟨hbracket, hslash⟩ | ⟨more, hfinish⟩
  · obtain ⟨q, more, rfl⟩ : ∃ q more, rest = q :: more := by
      apply List.exists_cons_of_ne_nil
      rintro rfl
      cases hblank
    have hq : isBlank q = true := hblank
    obtain ⟨htake, hdrop⟩ := takeWhile_run (q := q) hvalue (by simp [Markup.isBareChar, hq]) more
    have hother : q ≠ '>' := by
      rintro rfl
      cases hq
    simp [Markup.takeBareValue, htake, hdrop, hother]
  · obtain ⟨more, rfl⟩ := List.head?_eq_some_iff.mp hbracket
    obtain ⟨htake, hdrop⟩ := takeWhile_run (q := '>') hvalue (by decide) more
    simp [Markup.takeBareValue, htake, hdrop, hslash]
  · -- the slash is taken with the value first
    have hchars : ∀ c ∈ value ++ ['/'], Markup.isBareChar c = true := by
      intro c hc
      rcases List.mem_append.mp hc with hc | hc
      · exact hvalue c hc
      · obtain rfl := List.mem_singleton.mp hc
        rfl
    obtain ⟨htake, hdrop⟩ := takeWhile_run (q := '>') hchars (by decide) more
    have hshape : value ++ rest = value ++ ['/'] ++ '>' :: more := by
      rw [← hfinish]
      simp
    rw [hshape, ← hfinish, Markup.takeBareValue, htake, hdrop]
    simp

/-- What stands behind the equals sign of a value without quotes is no white space, and no mark that the value
does not begin with either. -/
theorem cons_of_plain {marks : List Char} (hmarks : '>' ∉ marks ∧ '/' ∉ marks)
    (hchars : ∀ c ∈ value, Markup.isBareChar c = true) (hfirst : ∀ c ∈ value.head?, c ∉ marks)
    (hends : EndsBefore rest (.plain value)) :
    ∃ c more, value ++ rest = c :: more ∧ isBlank c = false ∧ c ∉ marks := by
  cases value with
  | cons c more =>
      have hc := hchars c List.mem_cons_self
      simp only [Markup.isBareChar, Bool.and_eq_true, Bool.not_eq_true'] at hc
      exact ⟨c, more ++ rest, rfl, hc.1, hfirst c rfl⟩
  | nil =>
      rcases hends with ⟨-, hne⟩ | ⟨hbracket, -⟩ | ⟨more, rfl⟩
      · exact absurd rfl hne
      · obtain ⟨more, rfl⟩ := List.head?_eq_some_iff.mp hbracket
        exact ⟨'>', more, rfl, rfl, hmarks.1⟩
      · exact ⟨'/', '>' :: more, rfl, rfl, hmarks.2⟩

/-- A value is read as it is written, and ends where it should. -/
theorem readValue_writeSpaced {value : LiteralValue} (hvalue : value.Readable)
    (hends : value.EndsBefore rest) (hafter : ∀ c ∈ after, isBlank c = true) {t : Text}
    (ht : value.text? = some t) :
    ∃ behind, value.writeSpaced before after ++ rest = before ++ '=' :: behind ∧
      Markup.readValue (trimLeft behind) = .ok (t, rest) := by
  cases value with
  | bare => cases ht
  | plain value =>
      obtain rfl := Option.some.inj ht
      obtain ⟨c, more, hcons, hblank, hmark⟩ := cons_of_plain (by decide) hvalue.1 hvalue.2 hends
      refine ⟨after ++ (value ++ rest), by simp [writeSpaced], ?_⟩
      rw [trimLeft_append hafter, hcons, trimLeft_cons_of_not hblank]
      unfold Markup.readValue
      split
      next heq =>
        obtain rfl := (List.cons.inj heq).1
        exact absurd List.mem_cons_self hmark
      next heq =>
        obtain rfl := (List.cons.inj heq).1
        exact absurd (by decide) hmark
      next => rw [← hcons, takeBareValue_plain hvalue.1 hends]
  | quoted mark value =>
      obtain rfl := Option.some.inj ht
      obtain ⟨hmark, hvalue⟩ := hvalue
      refine ⟨after ++ mark :: (value ++ mark :: rest), by simp [writeSpaced], ?_⟩
      have hcut := cut_of_notMem hvalue rest
      simp only [List.mem_cons, List.not_mem_nil, or_false] at hmark
      rcases hmark with rfl | rfl
      all_goals rw [trimLeft_append hafter, trimLeft_cons_of_not rfl, Markup.readValue, hcut]

end Reading

end LiteralValue

namespace Markup

variable {c : Char} {s rest : Text}

theorem not_blank_of_isAttributeChar (hc : isAttributeChar c = true) : isBlank c = false := by
  simp only [isAttributeChar, Bool.and_eq_true, Bool.not_eq_true'] at hc
  exact hc.1.1.1.1.1

theorem readBody_of_finish {start : Text} {selfClosed : Bool}
    (hpiece : readPiece start s = .ok (.finish selfClosed, rest)) :
    readBody start s = .ok ⟨[], selfClosed, rest⟩ := by
  unfold readBody
  split
  all_goals simp_all

theorem readBody_of_pair {start name value : Text}
    (hpiece : readPiece start s = .ok (.pair name value, rest)) :
    readBody start s =
      (readBody start rest).map fun body => { body with pairs := (name, value) :: body.pairs } := by
  rw [readBody]
  split
  all_goals simp_all

/-- An attribute as it is written in markup. -/
structure Attribute where
  /-- The white space in front. -/
  gap : Text
  name : Text
  /-- The white space before the equals sign, if there is one. -/
  before : Text
  /-- The white space behind the equals sign. -/
  after : Text
  value : LiteralValue
deriving DecidableEq

namespace Attribute

/-- One space in front, and the value between double quotes. -/
def quoted (name value : Text) : Attribute := ⟨[' '], name, [], [], .quoted '"' value⟩

def write (a : Attribute) : Text := a.gap ++ (a.name ++ a.value.writeSpaced a.before a.after)

/-- The attribute as it is read: its own name is the value of one without a value. -/
def pair (a : Attribute) : Text × Text := (lower a.name, a.value.text?.getD (lower a.name))

structure Legible (a : Attribute) : Prop where
  gap : ∀ c ∈ a.gap, isBlank c = true
  name : a.name ≠ [] ∧ ∀ c ∈ a.name, isAttributeChar c = true
  before : ∀ c ∈ a.before, isBlank c = true
  after : ∀ c ∈ a.after, isBlank c = true
  value : a.value.Readable

instance (a : Attribute) : Decidable a.Legible :=
  decidable_of_iff (a.gap.all isBlank = true ∧ (a.name ≠ [] ∧ a.name.all isAttributeChar = true) ∧
      a.before.all isBlank = true ∧ a.after.all isBlank = true ∧ a.value.Readable) <| by
    simp only [List.all_eq_true]
    exact ⟨fun ⟨hgap, hname, hbefore, hafter, hvalue⟩ => ⟨hgap, hname, hbefore, hafter, hvalue⟩,
      fun ha => ⟨ha.gap, ha.name, ha.before, ha.after, ha.value⟩⟩

/-- Every attribute ends where the next one or the ending begins. -/
def Separate (ending : Text) : List Attribute → Prop
  | [] => True
  | a :: more => a.value.EndsBefore (more.flatMap write ++ ending) ∧ Separate ending more

instance decidableSeparate (ending : Text) :
    (attributes : List Attribute) → Decidable (Separate ending attributes)
  | [] => inferInstanceAs (Decidable True)
  | _ :: more =>
    have := decidableSeparate ending more
    inferInstanceAs (Decidable (_ ∧ _))

variable {a : Attribute} {attributes : List Attribute} {gap name rest ending : Text} {q : Char}

theorem legible_quoted {value : Text} (hname : name ≠ [] ∧ ∀ c ∈ name, isAttributeChar c = true)
    (hvalue : '"' ∉ value) : (quoted name value).Legible where
  gap := List.forall_mem_singleton.mpr rfl
  name := hname
  before := nofun
  after := nofun
  value := ⟨List.mem_cons_self, hvalue⟩

/-- Quotes end a value wherever it stands. -/
theorem separate_quoted (ending : Text) (pairs : List (Text × Text)) :
    Separate ending (pairs.map fun pair => quoted pair.1 pair.2) := by
  induction pairs with
  | nil => trivial
  | cons pair more ih => exact ⟨trivial, ih⟩

/-! ### Reading attributes -/

theorem readPiece_name (start : Text) (hgap : ∀ c ∈ gap, isBlank c = true) (hne : name ≠ [])
    (hname : ∀ c ∈ name, isAttributeChar c = true) (hend : ∀ c ∈ rest.head?, isAttributeChar c = false) :
    readPiece start (gap ++ (name ++ rest)) =
      match trimLeft rest with
      | '=' :: behind => (readValue (trimLeft behind)).map
          fun (value, rest) => (.pair (lower name) value, rest)
      | rest => .ok (.pair (lower name) (lower name), rest) := by
  obtain ⟨htake, hdrop⟩ := takeWhile_run_append hname hend
  obtain ⟨c, front, rfl⟩ := List.exists_cons_of_ne_nil hne
  have hc := hname c List.mem_cons_self
  have htrim : trimLeft (gap ++ (c :: front ++ rest)) = c :: (front ++ rest) := by
    rw [trimLeft_append hgap]
    exact trimLeft_cons_of_not (not_blank_of_isAttributeChar hc)
  rw [List.cons_append] at htake hdrop
  unfold readPiece
  rw [htrim]
  split
  next heq => cases heq
  next heq =>
    obtain rfl := (List.cons.inj heq).1
    cases hc
  next heq =>
    obtain rfl := (List.cons.inj heq).1
    cases hc
  next d s _ _ heq =>
    obtain ⟨rfl, rfl⟩ := List.cons.inj heq
    rw [htake, hdrop]
    exact if_neg (List.cons_ne_nil _ _)

theorem readBody_trimLeft (start s : Text) : readBody start (trimLeft s) = readBody start s := by
  have hpiece : readPiece start (trimLeft s) = readPiece start s := by
    have htrim : trimLeft (trimLeft s) = trimLeft s := List.dropWhile_idempotent _ _
    rw [readPiece, htrim, readPiece]
  rw [readBody, hpiece, readBody.eq_def start s]

/-- White space, the end of the tag and an equals sign end a name. -/
theorem not_isAttributeChar (hq : isBlank q = true ∨ q ∈ ['>', '/', '=']) :
    isAttributeChar q = false := by
  rcases hq with hblank | hmark
  · simp [isAttributeChar, hblank]
  · fin_cases hmark
    all_goals rfl

theorem readPiece_value (start : Text) (ha : a.Legible) (hends : a.value.EndsBefore rest) {t : Text}
    (ht : a.value.text? = some t) :
    readPiece start (a.write ++ rest) = .ok (.pair (lower a.name) t, rest) := by
  obtain ⟨behind, hbehind, hread⟩ := LiteralValue.readValue_writeSpaced ha.value hends ha.after ht
  have hend : ∀ c ∈ (a.before ++ '=' :: behind).head?, isAttributeChar c = false := by
    refine forall_head?_append (fun c hc => ?_) (by simp [isAttributeChar])
    exact not_isAttributeChar (.inl (ha.before c (List.mem_of_mem_head? hc)))
  have hshape : a.write ++ rest = a.gap ++ (a.name ++ (a.before ++ '=' :: behind)) := by
    rw [← hbehind]
    simp [write]
  have htrim : trimLeft (a.before ++ '=' :: behind) = '=' :: behind := by
    rw [trimLeft_append ha.before]
    exact trimLeft_cons_of_not rfl
  rw [hshape, readPiece_name start ha.gap ha.name.1 ha.name.2 hend, htrim]
  change (readValue (trimLeft behind)).map _ = _
  rw [hread]
  rfl

/-- An attribute is read as its pair. One without a value is only if no equals sign follows. -/
theorem readBody_write (start : Text) (ha : a.Legible) (hends : a.value.EndsBefore rest)
    (hequals : (trimLeft rest).head? ≠ some '=') :
    readBody start (a.write ++ rest) =
      (readBody start rest).map fun body => { body with pairs := a.pair :: body.pairs } := by
  cases htext : a.value.text? with
  | some t =>
      rw [readBody_of_pair (readPiece_value start ha hends htext), pair, htext]
      rfl
  | none =>
      obtain ⟨gap, name, before, after, value⟩ := a
      cases value with
      | plain value => cases htext
      | quoted mark value => cases htext
      | bare =>
          have hend : ∀ c ∈ rest.head?, isAttributeChar c = false := by
            intro c hc
            have hmark : rest.head?.any (fun c => isBlank c || c == '>' || c == '/') = true := hends
            rw [Option.mem_def.mp hc, Option.any_some] at hmark
            simp only [Bool.or_eq_true, beq_iff_eq] at hmark
            rcases hmark with (hblank | rfl) | rfl
            · exact not_isAttributeChar (.inl hblank)
            all_goals exact not_isAttributeChar (.inr (by decide))
          have hpiece : readPiece start (gap ++ (name ++ rest)) =
              .ok (.pair (lower name) (lower name), trimLeft rest) := by
            rw [readPiece_name start ha.gap ha.name.1 ha.name.2 hend]
            split
            next behind heq => exact absurd (congrArg List.head? heq) hequals
            next => rfl
          rw [write, LiteralValue.writeSpaced, List.append_nil, List.append_assoc,
            readBody_of_pair hpiece, readBody_trimLeft]
          rfl

/-- No equals sign follows the attributes and the white space before the next one. -/
theorem head?_trimLeft (hattributes : ∀ a ∈ attributes, a.Legible)
    (hending : (trimLeft ending).head? ≠ some '=') :
    (trimLeft (attributes.flatMap write ++ ending)).head? ≠ some '=' := by
  cases attributes with
  | nil => exact hending
  | cons a more =>
      have ha := hattributes a List.mem_cons_self
      obtain ⟨c, front, hname⟩ := List.exists_cons_of_ne_nil ha.name.1
      have hc := ha.name.2 c (hname ▸ List.mem_cons_self)
      rw [List.flatMap_cons, write, List.append_assoc, List.append_assoc, trimLeft_append ha.gap, hname]
      rw [List.append_assoc, List.cons_append, trimLeft_cons_of_not (not_blank_of_isAttributeChar hc)]
      intro heq
      obtain rfl := Option.some.inj heq
      cases hc

/-- Attributes are read as their pairs, up to the end of the tag. -/
theorem readBody_attributes {start behind : Text} {selfClosed : Bool}
    (hattributes : ∀ a ∈ attributes, a.Legible) (hseparate : Separate ending attributes)
    (hequals : (trimLeft (ending ++ behind)).head? ≠ some '=')
    (hfinish : readPiece start (ending ++ behind) = .ok (.finish selfClosed, behind)) :
    readBody start (attributes.flatMap write ++ (ending ++ behind)) =
      .ok ⟨attributes.map pair, selfClosed, behind⟩ := by
  induction attributes with
  | nil => exact readBody_of_finish hfinish
  | cons a more ih =>
      obtain ⟨ha, hmore⟩ := List.forall_mem_cons.mp hattributes
      obtain ⟨hends, hseparate⟩ := hseparate
      have hends := hends.append behind
      rw [List.append_assoc] at hends
      rw [List.flatMap_cons, List.append_assoc,
        readBody_write start ha hends (head?_trimLeft hmore hequals), ih hmore hseparate]
      rfl

theorem readBody_close (hattributes : ∀ a ∈ attributes, a.Legible) (hseparate : Separate ['>'] attributes)
    (start rest : Text) :
    readBody start (attributes.flatMap write ++ '>' :: rest) = .ok ⟨attributes.map pair, false, rest⟩ := by
  have hfinish : readPiece start (['>'] ++ rest) = .ok (.finish false, rest) := rfl
  exact readBody_attributes hattributes hseparate (by exact nofun) hfinish

end Attribute
end Markup
end Gleaner
