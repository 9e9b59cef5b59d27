import Gleaner.Markup.Token
import Mathlib

/-! # Characters of written markup

What the readers of markup make of characters of ASCII. On these lower-casing goes character by character,
so facts about them are checked one by one.
-/

namespace Gleaner

namespace Text

variable {s rest : Text} {c q : Char}

theorem forall_ascii {P : Char → Prop} (hall : ∀ n < 128, P (Char.ofNat n)) (hc : c.toNat < 128) :
    P c := by
  have hhere := hall c.toNat hc
  rwa [Char.ofNat_toNat] at hhere

theorem toNat_lt_of_isAlphanum (hc : c.isAlphanum = true) : c.toNat < 128 := by
  simp only [Char.isAlphanum, Char.isAlpha, Char.isUpper, Char.isLower, Char.isDigit,
    Bool.or_eq_true, Bool.and_eq_true, decide_eq_true_eq, ge_iff_le, UInt32.le_iff_toNat_le] at hc
  change ((65 ≤ c.toNat ∧ c.toNat ≤ 90) ∨ (97 ≤ c.toNat ∧ c.toNat ≤ 122)) ∨
    (48 ≤ c.toNat ∧ c.toNat ≤ 57) at hc
  omega

theorem lowerAfter_of_ascii (before : Text) (hs : ∀ c ∈ s, c.toNat < 128) :
    lowerAfter before s = s.map Char.toLower := by
  induction s generalizing before with
  | nil => rfl
  | cons c s ih =>
      rw [List.forall_mem_cons] at hs
      have hsigma : c ≠ 'Σ' := by
        rintro rfl
        exact absurd hs.1 (by decide)
      have hdotted : c ≠ 'İ' := by
        rintro rfl
        exact absurd hs.1 (by decide)
      rw [lowerAfter, if_neg hsigma, if_neg hdotted, ih _ hs.2, lowerChar, if_pos hs.1]
      rfl

theorem lower_of_ascii (hs : ∀ c ∈ s, c.toNat < 128) : lower s = s.map Char.toLower :=
  lowerAfter_of_ascii [] hs

theorem cut_of_notMem (hs : q ∉ s) (rest : Text) : cut [q] (s ++ q :: rest) = some (s, rest) := by
  induction s with
  | nil => simp [cut]
  | cons c s ih =>
      simp only [List.mem_cons, not_or] at hs
      rw [List.cons_append, cut, if_neg (by simpa using hs.1), ih hs.2]
      rfl

theorem trimLeft_cons_of_not (hc : isBlank c = false) : trimLeft (c :: s) = c :: s := by
  rw [trimLeft, List.dropWhile_cons_of_neg (by simp [hc])]

/-- White space at the beginning is left out, whatever follows. -/
theorem trimLeft_append {gap : Text} (hgap : ∀ c ∈ gap, isBlank c = true) (rest : Text) :
    trimLeft (gap ++ rest) = trimLeft rest := List.dropWhile_append_of_pos hgap

theorem takeWhile_run {test : Char → Bool} (hs : ∀ c ∈ s, test c = true) (hq : test q = false)
    (rest : Text) :
    (s ++ q :: rest).takeWhile test = s ∧ (s ++ q :: rest).dropWhile test = q :: rest := by
  rw [List.takeWhile_append_of_pos hs, List.dropWhile_append_of_pos hs,
    List.takeWhile_cons_of_neg (by simp [hq]), List.dropWhile_cons_of_neg (by simp [hq]),
    List.append_nil]
  exact ⟨rfl, rfl⟩

theorem takeWhile_run_append {test : Char → Bool} (hs : ∀ c ∈ s, test c = true)
    (hrest : ∀ q ∈ rest.head?, test q = false) :
    (s ++ rest).takeWhile test = s ∧ (s ++ rest).dropWhile test = rest := by
  cases rest with
  | nil => simpa using hs
  | cons q rest => exact takeWhile_run hs (hrest q rfl) rest

/-- A run ends where a character of another kind comes. -/
theorem forall_head?_dropWhile (test : Char → Bool) (s : Text) :
    ∀ c ∈ (s.dropWhile test).head?, test c = false := by
  intro c hc
  have hhead := List.head?_dropWhile_not test s
  rw [Option.mem_def.mp hc] at hhead
  simpa using hhead

/-- What the first characters of both parts have in common the first one of the whole has. -/
theorem forall_head?_append {P : Char → Prop} {s t : Text} (hs : ∀ c ∈ s.head?, P c)
    (ht : ∀ c ∈ t.head?, P c) : ∀ c ∈ (s ++ t).head?, P c := by
  cases s with
  | nil => exact ht
  | cons d s => exact hs

theorem forall_head?_flatMap {P : Char → Prop} {α : Type} {write : α → Text} {items : List α}
    (hitems : ∀ item ∈ items, ∀ c ∈ (write item).head?, P c) :
    ∀ c ∈ (items.flatMap write).head?, P c := by
  induction items with
  | nil => exact nofun
  | cons item more ih =>
      obtain ⟨hitem, hmore⟩ := List.forall_mem_cons.mp hitems
      rw [List.flatMap_cons]
      exact forall_head?_append hitem (ih hmore)

end Text

namespace Markup

/-- The characters of which the names of written tags are made. -/
def isNameChar (c : Char) : Bool := c.isAlphanum || c == '_' || c == ':' || c == '-'

variable {c : Char}

theorem toNat_lt_of_isNameChar (hc : isNameChar c = true) : c.toNat < 128 := by
  simp only [isNameChar, Bool.or_eq_true, beq_iff_eq] at hc
  rcases hc with ((halphanum | rfl) | rfl) | rfl
  · exact Text.toNat_lt_of_isAlphanum halphanum
  all_goals decide

/-- Among letters and digits of ASCII, tags begin with the letters. -/
theorem isTagStart_of_isAlphanum (hc : c.isAlphanum = true) :
    (c.isAlpha = true → isTagStart c = true) ∧ (c.isDigit = true → isTagStart c = false) :=
  Text.forall_ascii
    (P := fun c => (c.isAlpha = true → isTagStart c = true) ∧ (c.isDigit = true → isTagStart c = false))
    (by decide +kernel) (Text.toNat_lt_of_isAlphanum hc)

theorem isTagStart_of_isAlpha (hc : c.isAlpha = true) : isTagStart c = true :=
  (isTagStart_of_isAlphanum (by simp [Char.isAlphanum, hc])).1 hc

theorem isTagStart_of_isDigit (hc : c.isDigit = true) : isTagStart c = false :=
  (isTagStart_of_isAlphanum (by simp [Char.isAlphanum, hc])).2 hc

/-- What there is to say about a character of a name: it belongs to a tag, white space and the marks around
a name are something else, and its small letter stands for it where case is ignored. -/
structure NameFacts (c : Char) : Prop where
  isTagChar : isTagChar c = true
  notBlank : Text.isBlank c = false
  isNameChar_toLower : isNameChar c.toLower = true
  isAlpha_toLower : c.isAlpha = true → c.toLower.isAlpha = true
  toLower_toLower : c.toLower.toLower = c.toLower
  caseKey_toLower : Text.caseKey c.toLower = Text.caseKey c
  caseKey_eq : c.toLower = c → Text.caseKey c = c
  caseKey_ne : Text.caseKey c ≠ '<'

theorem nameFacts (hc : isNameChar c = true) : NameFacts c := by
  obtain ⟨htag, hblank, hname, halpha, hlower, hkey, hsame, hbracket⟩ :=
    Text.forall_ascii (P := fun c => isNameChar c = true →
      isTagChar c = true ∧ Text.isBlank c = false ∧ isNameChar c.toLower = true ∧
        (c.isAlpha = true → c.toLower.isAlpha = true) ∧ c.toLower.toLower = c.toLower ∧
        Text.caseKey c.toLower = Text.caseKey c ∧ (c.toLower = c → Text.caseKey c = c) ∧
        Text.caseKey c ≠ '<')
      (by decide +kernel) (toNat_lt_of_isNameChar hc) hc
  exact ⟨htag, hblank, hname, halpha, hlower, hkey, hsame, hbracket⟩

/-- White space ends the name of a tag. -/
theorem isTagChar_of_isBlank (hc : Text.isBlank c = true) : isTagChar c = false := by
  let blanks : List Nat := List.range' 0x09 5 ++ List.range' 0x1c 5 ++ List.range' 0x2000 11 ++
    [0x85, 0xa0, 0x1680, 0x2028, 0x2029, 0x202f, 0x205f, 0x3000]
  have hplace : c.toNat ∈ blanks := by
    simp only [Text.isBlank, Bool.or_eq_true, Bool.and_eq_true, decide_eq_true_eq, beq_iff_eq] at hc
    simp only [blanks, List.mem_append, List.mem_range'_1, List.mem_cons, List.not_mem_nil]
    omega
  have hall : ∀ n ∈ blanks, isTagChar (Char.ofNat n) = false := by decide
  have hhere := hall c.toNat hplace
  rwa [Char.ofNat_toNat] at hhere

end Markup

end Gleaner
