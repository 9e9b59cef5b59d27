import Gleaner.Extract.Coerce
import Gleaner.Proofs.Characters
import Gleaner.Proofs.Rounding

/-! # Written numerals

A numeral is written as an optional sign, digits before a point and behind it with at least one on one of
the sides, and an optional power of ten. Reading takes these parts apart again and finds nothing in any
other text; a binding turns a numeral into the number nearest to what its digits say by their places.
-/

namespace Gleaner

open Text

/-- A sign that may be left out. -/
inductive Sign where
  | unwritten
  | plus
  | minus
deriving DecidableEq

namespace Sign

def write : Sign → Text
  | unwritten => []
  | plus => ['+']
  | minus => ['-']

def negative (sign : Sign) : Bool := sign = minus

end Sign

/-- A written power of ten. -/
structure WrittenPower where
  letter : Char
  sign : Sign
  digits : Text

/-- The parts of a written numeral. Digits behind a point are there only together with the point. -/
structure WrittenNumeral where
  sign : Sign
  whole : Text
  fraction : Option Text
  power : Option WrittenPower

namespace Numeral

/-- The value of a digit of any script. -/
def digit (c : Char) : Nat := (digitValue? c).getD 0

/-- What a sequence of digits denotes, the last one counting least. -/
def placeValue (digits : Text) : Nat := Nat.ofDigits 10 (digits.map digit).reverse

end Numeral

namespace WrittenPower

def write (power : WrittenPower) : Text := power.letter :: (power.sign.write ++ power.digits)

structure Legible (power : WrittenPower) : Prop where
  letter : power.letter = 'e' ∨ power.letter = 'E'
  digits_ne : power.digits ≠ []
  digits : ∀ c ∈ power.digits, isDigit c = true

def value (power : WrittenPower) : Int :=
  if power.sign.negative then -Numeral.placeValue power.digits else Numeral.placeValue power.digits

end WrittenPower

namespace WrittenNumeral

/-- The digits behind the point. -/
def behind (p : WrittenNumeral) : Text := p.fraction.getD []

def write (p : WrittenNumeral) : Text :=
  p.sign.write ++ (p.whole ++ (p.fraction.elim [] ('.' :: ·) ++ p.power.elim [] WrittenPower.write))

structure Legible (p : WrittenNumeral) : Prop where
  whole : ∀ c ∈ p.whole, isDigit c = true
  behind : ∀ c ∈ p.behind, isDigit c = true
  some_digit : p.whole ≠ [] ∨ p.behind ≠ []
  power : ∀ power ∈ p.power, power.Legible

/-- The exponent of ten that is written. -/
def exponent (p : WrittenNumeral) : Int := p.power.elim 0 WrittenPower.value

/-- What the digits say by their places, times the power of ten. -/
def magnitude (p : WrittenNumeral) : ℚ :=
  (Numeral.placeValue p.whole + Numeral.placeValue p.behind / 10 ^ p.behind.length) * 10 ^ p.exponent

end WrittenNumeral

namespace Numeral

variable {s rest digits : Text} {p : WrittenNumeral} {power : WrittenPower}

/-! ### Values -/

theorem digitsValue_eq (digits : Text) : digitsValue digits = placeValue digits := by
  induction digits using List.reverseRecOn with
  | nil => rfl
  | append_singleton digits c ih =>
      unfold digitsValue placeValue at *
      rw [List.foldl_append, List.map_append, List.reverse_append, ih]
      simp [Nat.ofDigits_cons, digit]
      ring

theorem placeValue_append (front back : Text) :
    placeValue (front ++ back) = placeValue front * 10 ^ back.length + placeValue back := by
  simp [placeValue, Nat.ofDigits_append]
  ring

/-! ### Reading what is written -/

theorem takeSign_write (sign : Sign) (hrest : ∀ c ∈ rest.head?, c ≠ '-' ∧ c ≠ '+') :
    takeSign (sign.write ++ rest) = (sign.negative, rest) := by
  cases sign with
  | plus => rfl
  | minus => rfl
  | unwritten =>
      change takeSign rest = (false, rest)
      unfold takeSign
      split
      next => exact absurd rfl (hrest _ rfl).1
      next => exact absurd rfl (hrest _ rfl).2
      next => rfl

theorem not_sign_of_isDigit {c : Char} (hc : isDigit c = true) : c ≠ '-' ∧ c ≠ '+' := by
  constructor
  · rintro rfl
    exact absurd hc (by decide)
  · rintro rfl
    exact absurd hc (by decide)

theorem readExponent?_write (hpower : power.Legible) : readExponent? power.write = some power.value := by
  have hsign : takeSign (power.sign.write ++ power.digits) = (power.sign.negative, power.digits) :=
    takeSign_write _ fun c hc => not_sign_of_isDigit (hpower.digits c (List.mem_of_mem_head? hc))
  unfold WrittenPower.write readExponent?
  simp only [hsign]
  rw [if_pos ⟨hpower.letter, hpower.digits_ne, List.all_eq_true.mpr hpower.digits⟩, digitsValue_eq]
  rfl

/-- What a written power of ten begins with is no digit, no point and no sign. -/
theorem head?_power (hp : p.Legible) : ∀ c ∈ (p.power.elim [] WrittenPower.write).head?, c = 'e' ∨ c = 'E' := by
  intro c hc
  cases hpower : p.power with
  | none =>
      rw [hpower] at hc
      cases hc
  | some power =>
      rw [hpower] at hc
      obtain rfl := Option.some.inj hc
      exact (hp.power power hpower).letter

theorem takeFraction_write (hp : p.Legible) :
    takeFraction (p.fraction.elim [] ('.' :: ·) ++ p.power.elim [] WrittenPower.write) =
      (p.behind, p.power.elim [] WrittenPower.write) := by
  have hends := head?_power hp
  have hbehind := hp.behind
  unfold WrittenNumeral.behind at *
  generalize p.power.elim [] WrittenPower.write = rest at *
  cases hfraction : p.fraction with
  | none =>
      change takeFraction rest = ([], rest)
      unfold takeFraction
      split
      next => exact absurd (hends _ rfl) (by decide)
      next => rfl
  | some digits =>
      rw [hfraction, Option.getD_some] at hbehind
      have hrest : ∀ c ∈ rest.head?, isDigit c = false := by
        intro c hc
        rcases hends c hc with rfl | rfl
        all_goals decide
      obtain ⟨htake, hdrop⟩ := takeWhile_run_append hbehind hrest
      change ((digits ++ rest).takeWhile isDigit, (digits ++ rest).dropWhile isDigit) = (digits, rest)
      rw [htake, hdrop]

/-- Digits before the point end where a point or a power of ten begins. -/
theorem head?_fraction (hp : p.Legible) :
    ∀ c ∈ (p.fraction.elim [] ('.' :: ·) ++ p.power.elim [] WrittenPower.write).head?,
      isDigit c = false ∧ c ≠ '-' ∧ c ≠ '+' := by
  refine forall_head?_append (fun c hc => ?_) fun c hc => ?_
  · cases hfraction : p.fraction with
    | none =>
        rw [hfraction] at hc
        cases hc
    | some digits =>
        rw [hfraction] at hc
        obtain rfl := Option.some.inj hc
        decide
  · rcases head?_power hp c hc with rfl | rfl
    all_goals decide

/-- A written numeral is read as what its parts say. -/
theorem read?_write (hp : p.Legible) :
    read? p.write =
      some ⟨p.sign.negative, placeValue (p.whole ++ p.behind), p.exponent - p.behind.length⟩ := by
  have hsign := takeSign_write p.sign (forall_head?_append
    (fun c hc => not_sign_of_isDigit (hp.whole c (List.mem_of_mem_head? hc)))
    fun c hc => (head?_fraction hp c hc).2)
  obtain ⟨htake, hdrop⟩ := takeWhile_run_append hp.whole fun c hc => (head?_fraction hp c hc).1
  have hexponent : readExponent? (p.power.elim [] WrittenPower.write) = some p.exponent := by
    unfold WrittenNumeral.exponent
    cases hpower : p.power with
    | none => rfl
    | some power => exact readExponent?_write (hp.power power hpower)
  unfold read? WrittenNumeral.write
  simp only [hsign, htake, hdrop, takeFraction_write hp, hexponent, digitsValue_eq]
  rw [if_neg (not_and_or.mpr hp.some_digit)]
  rfl

/-! ### What is read is written -/

theorem exists_sign (s : Text) : ∃ sign : Sign, sign.write ++ (takeSign s).2 = s := by
  unfold takeSign
  split
  next => exact ⟨.minus, rfl⟩
  next => exact ⟨.plus, rfl⟩
  next => exact ⟨.unwritten, rfl⟩

theorem exists_fraction (s : Text) : ∃ fraction : Option Text,
    fraction.elim [] ('.' :: ·) ++ (takeFraction s).2 = s ∧ fraction.getD [] = (takeFraction s).1 := by
  unfold takeFraction
  split
  next s =>
    refine ⟨some (s.takeWhile isDigit), ?_, rfl⟩
    exact congrArg ('.' :: ·) (List.takeWhile_append_dropWhile)
  next => exact ⟨none, rfl, rfl⟩

theorem forall_takeFraction (s : Text) : ∀ c ∈ (takeFraction s).1, isDigit c = true := by
  unfold takeFraction
  split
  next => exact fun c hc => List.mem_takeWhile_imp hc
  next => exact nofun

theorem exists_power {exponent : Int} (hread : readExponent? s = some exponent) :
    ∃ power : Option WrittenPower, power.elim [] WrittenPower.write = s ∧ ∀ e ∈ power, e.Legible := by
  cases s with
  | nil => exact ⟨none, rfl, nofun⟩
  | cons c s =>
      unfold readExponent? at hread
      dsimp only at hread
      split at hread
      next hpower =>
        obtain ⟨hletter, hne, hdigits⟩ := hpower
        obtain ⟨sign, hsign⟩ := exists_sign s
        refine ⟨some ⟨c, sign, (takeSign s).2⟩, congrArg (c :: ·) hsign, ?_⟩
        intro e he
        obtain rfl := Option.some.inj he
        exact ⟨hletter, hne, List.all_eq_true.mp hdigits⟩
      next => cases hread

/-- A text that is read as a numeral is written as one. -/
theorem exists_write {d : Decimal} (hread : read? s = some d) :
    ∃ p : WrittenNumeral, p.Legible ∧ p.write = s := by
  unfold read? at hread
  dsimp only at hread
  split at hread
  next => cases hread
  next hdigits =>
    obtain ⟨exponent, hexponent, -⟩ := Option.map_eq_some_iff.mp hread
    obtain ⟨sign, hsign⟩ := exists_sign s
    obtain ⟨fraction, hfraction, hbehind⟩ := exists_fraction ((takeSign s).2.dropWhile isDigit)
    obtain ⟨power, hpower, hlegible⟩ := exists_power hexponent
    refine ⟨⟨sign, (takeSign s).2.takeWhile isDigit, fraction, power⟩, ⟨?_, ?_, ?_, hlegible⟩, ?_⟩
    · exact fun c hc => List.mem_takeWhile_imp hc
    · unfold WrittenNumeral.behind
      rw [hbehind]
      exact forall_takeFraction _
    · unfold WrittenNumeral.behind
      rw [hbehind]
      exact not_and_or.mp hdigits
    · unfold WrittenNumeral.write
      rw [hpower, hfraction, List.takeWhile_append_dropWhile, hsign]

/-! ### The number denoted -/

/-- The digits on both sides of the point count as one sequence, with as many powers of ten less as there are
digits behind it. -/
theorem magnitude_eq (p : WrittenNumeral) :
    p.magnitude = placeValue (p.whole ++ p.behind) * 10 ^ (p.exponent - p.behind.length : ℤ) := by
  rw [WrittenNumeral.magnitude, placeValue_append, zpow_sub₀ (by norm_num), zpow_natCast]
  push_cast
  field_simp

theorem toBinary64_read {d : Decimal} (hp : p.Legible) (hread : read? p.write = some d) (y : Binary64) :
    y = d.toBinary64 ↔ y.negative = p.sign.negative ∧ Binary64.Rounds p.magnitude y := by
  rw [read?_write hp] at hread
  obtain rfl := Option.some.inj hread
  have hrounds := Binary64.rounds_ofDecimal p.sign.negative (placeValue (p.whole ++ p.behind))
    (p.exponent - p.behind.length)
  rw [← magnitude_eq] at hrounds
  constructor
  · rintro rfl
    exact ⟨rfl, hrounds⟩
  · rintro ⟨hnegative, hy⟩
    have hpattern := hy.pattern_unique hrounds
    obtain ⟨negative, pattern⟩ := y
    obtain rfl : negative = p.sign.negative := hnegative
    obtain rfl : pattern = _ := hpattern
    rfl

end Numeral

namespace Binding

variable {name raw : Text} {nullable : Bool}

theorem coerce_of_numeral (hraw : trim raw ≠ []) {decimal : Decimal}
    (hread : Numeral.read? (trim raw) = some decimal) :
    (⟨name, .number, nullable⟩ : Binding).coerce (some raw) = .value (.number decimal.toBinary64) := by
  unfold coerce
  rw [Option.getD_some, if_neg (by simpa using hraw)]
  simp only [hread]

theorem coerce_of_no_numeral (hraw : trim raw ≠ []) (hread : Numeral.read? (trim raw) = none) :
    (⟨name, .number, nullable⟩ : Binding).coerce (some raw) = .misfit (.notNumber name (trim raw)) := by
  unfold coerce
  rw [Option.getD_some, if_neg (by simpa using hraw)]
  simp only [hread]

end Binding

/-- A binding of type number takes the number nearest to what a numeral denotes, with the sign that is
written, and nothing that is not a numeral. -/
theorem Binding.coerce_number (name : Text) (nullable : Bool) (raw : Text) (hraw : trim raw ≠ []) :
    let b : Binding := ⟨name, .number, nullable⟩
    (∀ p : WrittenNumeral, p.Legible → p.write = trim raw →
      ∃ x, b.coerce (some raw) = .value (.number x) ∧
        ∀ y, y = x ↔ y.negative = p.sign.negative ∧ Binary64.Rounds p.magnitude y) ∧
    ((∀ p : WrittenNumeral, p.Legible → p.write ≠ trim raw) →
      b.coerce (some raw) = .misfit (.notNumber name (trim raw))) := by
  intro b
  constructor
  · intro p hp hwrite
    have hread : Numeral.read? (trim raw) = _ := hwrite ▸ Numeral.read?_write hp
    exact ⟨_, coerce_of_numeral hraw hread, Numeral.toBinary64_read hp (Numeral.read?_write hp)⟩
  · intro hnone
    cases hread : Numeral.read? (trim raw) with
    | none => exact coerce_of_no_numeral hraw hread
    | some decimal =>
        obtain ⟨p, hp, hwrite⟩ := Numeral.exists_write hread
        exact absurd hwrite (hnone p hp)

/-- A tenth, written without a digit before the point, is no finite number of bits; the number bound is the one
nearest to it. -/
theorem Binding.coerce_number_tenth :
    trim " .1 ".toList ≠ [] ∧
      ∃ x, (⟨"x".toList, .number, false⟩ : Binding).coerce (some " .1 ".toList) = .value (.number x) ∧
        ∀ y, y = x ↔ y.negative = false ∧ Binary64.Rounds (1 / 10) y := by
  have hraw : trim " .1 ".toList ≠ [] := by decide
  let p : WrittenNumeral := ⟨.unwritten, [], some ['1'], none⟩
  have hbehind : ∀ c ∈ p.behind, isDigit c = true := List.forall_mem_singleton.mpr (by decide)
  have hp : p.Legible := ⟨nofun, hbehind, .inr (List.cons_ne_nil _ _), nofun⟩
  have hmagnitude : p.magnitude = 1 / 10 := by
    have hwhole : Numeral.placeValue [] = 0 := rfl
    have hfraction : Numeral.placeValue ['1'] = 1 := by decide
    change ((Numeral.placeValue [] : ℚ) + Numeral.placeValue ['1'] / 10 ^ 1) * 10 ^ (0 : ℤ) = 1 / 10
    rw [hwhole, hfraction]
    norm_num
  refine ⟨hraw, ?_⟩
  rw [← hmagnitude]
  exact (coerce_number "x".toList false " .1 ".toList hraw).1 p hp (by decide)

end Gleaner
