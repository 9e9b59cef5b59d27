import Gleaner.Number.Binary64
import Mathlib

/-! # Rounding to the nearest number

The magnitudes that the patterns denote grow from pattern to pattern, so a magnitude has a closest pattern
that is found between the middles to the neighbours on both sides. The quotient that is rounded has its
neighbours in one binade, where patterns and significands differ by a constant. Infinity counts as the
number that would follow the greatest finite one, and all that is closer to it than to any finite one
becomes infinite.
-/

namespace Gleaner.Binary64

/-- The magnitude of a finite number. That of infinity is what it would be if exponents went on. -/
def magnitude (x : Binary64) : ℚ := x.parts.1 * 2 ^ x.parts.2 / 2 ^ 1074

/-- The middle between the greatest finite number and the one that would follow it. -/
def overflow : ℚ := 2 ^ 1024 - 2 ^ 970

/-- The number is a magnitude rounded, its sign apart: the finite number nearest to it, the one with an even
significand if there are two, or infinity from the overflow on. -/
structure Rounds (v : ℚ) (x : Binary64) : Prop where
  infinite : overflow ≤ v → x.pattern = infinitePattern
  finite : v < overflow → x.isFinite = true
  nearest : v < overflow → ∀ y : Binary64, y.isFinite = true → |x.magnitude - v| ≤ |y.magnitude - v|
  even : v < overflow → ∀ y : Binary64, y.isFinite = true → y.magnitude ≠ x.magnitude →
    |x.magnitude - v| = |y.magnitude - v| → Even x.parts.1

variable {binade significand p q n d : Nat} {u v : ℚ} {x y : Binary64}

/-! ### The grid of magnitudes -/

/-- The magnitude of a pattern, counted in least positive numbers. -/
def units (pattern : Nat) : Nat := (parts ⟨false, pattern⟩).1 * 2 ^ (parts ⟨false, pattern⟩).2

theorem magnitude_eq (x : Binary64) : x.magnitude = units x.pattern / 2 ^ 1074 := by
  simp only [magnitude, units, parts]
  push_cast
  rfl

/-- A significand that may be written in a binade; the greatest one is also the least of the next binade. -/
structure Fits (binade significand : Nat) : Prop where
  le : significand ≤ 2 * leadingBit
  full : binade = 0 ∨ leadingBit ≤ significand

theorem leadingBit_pos : 0 < leadingBit := by decide

theorem units_of_fields {fraction : Nat} (exponent : Nat) (hfraction : fraction < leadingBit) :
    units (exponent * leadingBit + fraction) =
      if exponent = 0 then fraction else (leadingBit + fraction) * 2 ^ (exponent - 1) := by
  have hexponent : (exponent * leadingBit + fraction) / leadingBit = exponent := by
    rw [Nat.add_comm, Nat.add_mul_div_right _ _ leadingBit_pos, Nat.div_eq_of_lt hfraction, Nat.zero_add]
  have hmod : (exponent * leadingBit + fraction) % leadingBit = fraction := by
    rw [Nat.add_comm, Nat.add_mul_mod_self_right, Nat.mod_eq_of_lt hfraction]
  unfold units parts
  simp only [hexponent, hmod]
  split
  next => rw [pow_zero, Nat.mul_one]
  next => rfl

theorem units_of_fits (hfits : Fits binade significand) :
    units (binade * leadingBit + significand) = significand * 2 ^ binade := by
  rcases Nat.lt_or_ge significand leadingBit with hsmall | hfull
  · obtain rfl := hfits.full.resolve_right (Nat.not_le.mpr hsmall)
    rw [units_of_fields 0 hsmall, if_pos rfl, pow_zero, Nat.mul_one]
  obtain ⟨fraction, rfl⟩ := Nat.exists_eq_add_of_le hfull
  rcases Nat.lt_or_ge fraction leadingBit with hfraction | hnext
  · have hshape : binade * leadingBit + (leadingBit + fraction) = (binade + 1) * leadingBit + fraction := by
      ring
    rw [hshape, units_of_fields _ hfraction, if_neg (Nat.succ_ne_zero binade), Nat.add_sub_cancel]
  -- the significand is that of the next binade
  · obtain rfl : fraction = leadingBit := by
      have := hfits.le
      omega
    have hshape : binade * leadingBit + (leadingBit + leadingBit) = (binade + 2) * leadingBit + 0 := by ring
    rw [hshape, units_of_fields _ leadingBit_pos, if_neg (Nat.succ_ne_zero _)]
    have : binade + 2 - 1 = binade + 1 := rfl
    rw [this, pow_succ]
    ring

theorem exists_fits (p : Nat) :
    ∃ binade significand, p = binade * leadingBit + significand ∧ Fits binade significand ∧
      Fits binade (significand + 1) := by
  have hdivision := Nat.div_add_mod' p leadingBit
  have hfraction := Nat.mod_lt p leadingBit_pos
  cases hexponent : p / leadingBit with
  | zero =>
      rw [hexponent, Nat.zero_mul, Nat.zero_add] at hdivision
      exact ⟨0, p, by simp, ⟨by omega, .inl rfl⟩, ⟨by omega, .inl rfl⟩⟩
  | succ binade =>
      rw [hexponent] at hdivision
      refine ⟨binade, leadingBit + p % leadingBit, ?_, ⟨by omega, .inr (by omega)⟩,
        ⟨by omega, .inr (by omega)⟩⟩
      rw [← Nat.add_assoc, ← Nat.succ_mul]
      exact hdivision.symm

theorem strictMono_units : StrictMono units := by
  refine strictMono_nat_of_lt_succ fun p => ?_
  obtain ⟨binade, significand, rfl, hfits, hnext⟩ := exists_fits p
  rw [units_of_fits hfits, Nat.add_assoc, units_of_fits hnext]
  exact Nat.mul_lt_mul_of_pos_right (Nat.lt_succ_self _) (Nat.two_pow_pos _)

theorem even_significand (x : Binary64) : Even x.parts.1 ↔ Even x.pattern := by
  have hleading : Even leadingBit := by decide
  have hpattern : Even x.pattern ↔ Even (x.pattern % leadingBit) := by
    conv_lhs => rw [← Nat.div_add_mod' x.pattern leadingBit]
    simp [Nat.even_add, hleading]
  unfold parts
  dsimp only
  split
  next => exact hpattern.symm
  next => simp [hpattern, Nat.even_add, hleading]

/-! ### The closest pattern -/

/-- No pattern is closer to a number of units, and no other one as close unless this one is even. -/
structure Closest (u : ℚ) (p : Nat) : Prop where
  nearest : ∀ q, |(units p : ℚ) - u| ≤ |(units q : ℚ) - u|
  even : ∀ q, q ≠ p → |(units p : ℚ) - u| = |(units q : ℚ) - u| → Even p

theorem units_le (hle : p ≤ q) : (units p : ℚ) ≤ units q := by
  exact_mod_cast strictMono_units.monotone hle

theorem units_lt (hlt : p < q) : (units p : ℚ) < units q := by
  exact_mod_cast strictMono_units hlt

/-- What lies beyond the middle to a lower neighbour is further from all that is no higher than that one. -/
theorem closer_of_below {a b c : ℚ} (hab : a ≤ b) (hbc : b < c) (hmiddle : b + c ≤ 2 * u) :
    |c - u| ≤ |a - u| ∧ (|c - u| = |a - u| → b + c = 2 * u) := by
  have hside : |a - u| = u - a := by
    rw [abs_of_neg (by linarith)]
    ring
  rw [hside]
  refine ⟨abs_le.mpr ⟨by linarith, by linarith⟩, fun heq => ?_⟩
  rcases abs_cases (c - u) with ⟨habs, -⟩ | ⟨habs, -⟩
  all_goals linarith

theorem closer_of_above {a b c : ℚ} (hba : b ≤ a) (hcb : c < b) (hmiddle : 2 * u ≤ c + b) :
    |c - u| ≤ |a - u| ∧ (|c - u| = |a - u| → 2 * u = c + b) := by
  have hside : |a - u| = a - u := abs_of_pos (by linarith)
  rw [hside]
  refine ⟨abs_le.mpr ⟨by linarith, by linarith⟩, fun heq => ?_⟩
  rcases abs_cases (c - u) with ⟨habs, -⟩ | ⟨habs, -⟩
  all_goals linarith

/-- A pattern is closest to what lies between the middles to its neighbours, and to a middle if it is even. -/
theorem closest_of_middles
    (hbelow : ∀ q, q + 1 = p → (units q : ℚ) + units p ≤ 2 * u ∧ ((units q : ℚ) + units p = 2 * u → Even p))
    (habove : 2 * u ≤ (units p : ℚ) + units (p + 1) ∧ (2 * u = (units p : ℚ) + units (p + 1) → Even p)) :
    Closest u p := by
  have hother : ∀ q, q ≠ p → |(units p : ℚ) - u| ≤ |(units q : ℚ) - u| ∧
      (|(units p : ℚ) - u| = |(units q : ℚ) - u| → Even p) := by
    intro q hq
    rcases Nat.lt_or_gt_of_ne hq with hlt | hgt
    · obtain ⟨r, rfl⟩ : ∃ r, r + 1 = p := ⟨p - 1, by omega⟩
      obtain ⟨hmiddle, heven⟩ := hbelow r rfl
      have hcloser := closer_of_below (units_le (by omega : q ≤ r)) (units_lt r.lt_succ_self) hmiddle
      exact hcloser.imp_right fun htie heq => heven (htie heq)
    · obtain ⟨hmiddle, heven⟩ := habove
      have hcloser := closer_of_above (units_le (by omega : p + 1 ≤ q)) (units_lt p.lt_succ_self) hmiddle
      exact hcloser.imp_right fun htie heq => heven (htie heq)
  refine ⟨fun q => ?_, fun q hq => (hother q hq).2⟩
  rcases eq_or_ne q p with rfl | hq
  · exact le_refl _
  · exact (hother q hq).1

/-- Rounding down and rounding up, and how far the quotient is from the middle in each case. -/
theorem roundDiv_cases (n d : Nat) :
    (roundDiv n d = n / d ∧ 2 * (n % d) ≤ d ∧ (2 * (n % d) = d → Even (n / d))) ∨
      roundDiv n d = n / d + 1 ∧ d ≤ 2 * (n % d) ∧ (d = 2 * (n % d) → Even (n / d + 1)) := by
  unfold roundDiv
  dsimp only
  split
  next hbelow => exact .inl ⟨rfl, by omega, by omega⟩
  next hnotBelow =>
    split
    next habove => exact .inr ⟨rfl, by omega, by omega⟩
    next hnotAbove =>
      rcases Nat.mod_two_eq_zero_or_one (n / d) with heven | hodd
      · rw [heven]
        exact .inl ⟨rfl, by omega, fun _ => Nat.even_iff.mpr heven⟩
      · rw [hodd]
        exact .inr ⟨rfl, by omega, fun _ => Nat.even_iff.mpr (by omega)⟩

/-- Without the low bits that do not fit, the whole part of a quotient fits into its binade. -/
theorem fits_quotient (m : Nat) :
    Fits (m.log2 - 52) (m / 2 ^ (m.log2 - 52)) ∧ Fits (m.log2 - 52) (m / 2 ^ (m.log2 - 52) + 1) := by
  have hleading : leadingBit = 2 ^ 52 := rfl
  have hdouble : 2 * leadingBit = 2 ^ 53 := rfl
  have hlarge : m < 2 ^ (m.log2 + 1) := Nat.lt_log2_self
  rcases Nat.lt_or_ge m.log2 53 with hlog | hlog
  · have hbinade : m.log2 - 52 = 0 := by omega
    have hm : m < 2 * leadingBit := hdouble ▸ hlarge.trans_le (Nat.pow_le_pow_right (by decide) hlog)
    rw [hbinade, pow_zero, Nat.div_one]
    exact ⟨⟨hm.le, .inl rfl⟩, ⟨hm, .inl rfl⟩⟩
  · obtain ⟨binade, hbinade⟩ := Nat.exists_eq_add_of_le' (Nat.le_of_succ_le hlog)
    have hm : m ≠ 0 := by
      rintro rfl
      simp at hlog
    have hsmall : 2 ^ m.log2 ≤ m := Nat.log2_self_le hm
    rw [hbinade] at hsmall hlarge
    rw [hbinade, Nat.add_sub_cancel]
    have hfull : leadingBit ≤ m / 2 ^ binade := by
      rw [Nat.le_div_iff_mul_le (Nat.two_pow_pos _), hleading, ← pow_add, Nat.add_comm]
      exact hsmall
    have hroom : m / 2 ^ binade < 2 * leadingBit := by
      refine (Nat.div_lt_iff_lt_mul (Nat.two_pow_pos _)).mpr (hlarge.trans_eq ?_)
      calc
        2 ^ (binade + 52 + 1) = 2 ^ 53 * 2 ^ binade := by
          rw [← pow_add]
          congr 1
          omega
        _ = 2 * leadingBit * 2 ^ binade := congrArg (· * 2 ^ binade) hdouble.symm
    exact ⟨⟨hroom.le, .inr hfull⟩, ⟨hroom, .inr (Nat.le_succ_of_le hfull)⟩⟩

theorem even_pattern (binade significand : Nat) :
    Even (binade * leadingBit + significand) ↔ Even significand := by
  have hleading : Even leadingBit := by decide
  simp [Nat.even_add, hleading]

/-- A quotient lies in the step from one pattern to the next, as far up as its remainder says. -/
theorem quotient_in_step (hd : 0 < d) (hfits : Fits binade (n / (d * 2 ^ binade)))
    (hnext : Fits binade (n / (d * 2 ^ binade) + 1)) :
    let lower := binade * leadingBit + n / (d * 2 ^ binade)
    (units lower : ℚ) ≤ n / d ∧ (n : ℚ) / d < units (lower + 1) ∧
      2 * ((n : ℚ) / d) - (units lower + units (lower + 1)) =
        (2 * (n % (d * 2 ^ binade) : ℕ) - d * 2 ^ binade) / d := by
  have hlower := units_of_fits hfits
  have hupper := units_of_fits hnext
  have hdivision := Nat.div_add_mod' n (d * 2 ^ binade)
  have hremainder := Nat.mod_lt n (Nat.mul_pos hd (Nat.two_pow_pos binade))
  generalize n / (d * 2 ^ binade) = whole at *
  generalize n % (d * 2 ^ binade) = remainder at *
  have hpositive : (0 : ℚ) < d := by exact_mod_cast hd
  have hremainder : (remainder : ℚ) < d * 2 ^ binade := by exact_mod_cast hremainder
  have hquotient : (n : ℚ) / d = whole * 2 ^ binade + remainder / d := by
    rw [← hdivision]
    push_cast
    field_simp
  have hbottom : (units (binade * leadingBit + whole) : ℚ) = whole * 2 ^ binade := by
    rw [hlower]
    push_cast
    rfl
  have htop : (units (binade * leadingBit + whole + 1) : ℚ) = (whole + 1) * 2 ^ binade := by
    rw [Nat.add_assoc, hupper]
    push_cast
    rfl
  intro lower
  rw [hquotient, hbottom, htop]
  refine ⟨le_add_of_nonneg_right (by positivity), ?_, ?_⟩
  · rw [add_mul, one_mul, add_lt_add_iff_left, div_lt_iff₀ hpositive, mul_comm]
    exact hremainder
  · field_simp
    ring

/-- The rounded quotient, put into its binade, is the closest pattern. -/
theorem closest_quotient (hd : 0 < d) :
    Closest ((n : ℚ) / d) (((n / d).log2 - 52) * leadingBit + roundDiv n (d * 2 ^ ((n / d).log2 - 52))) := by
  obtain ⟨hfits, hnext⟩ := fits_quotient (n / d)
  rw [Nat.div_div_eq_div_mul] at hfits hnext
  generalize (n / d).log2 - 52 = binade at *
  obtain ⟨hfrom, hto, hmiddle⟩ := quotient_in_step hd hfits hnext
  have hrounded := roundDiv_cases n (d * 2 ^ binade)
  generalize n / (d * 2 ^ binade) = whole at *
  generalize n % (d * 2 ^ binade) = remainder at *
  have hpositive : (0 : ℚ) < d := by exact_mod_cast hd
  rcases hrounded with ⟨hdown, hhalf, htie⟩ | ⟨hup, hhalf, htie⟩
  · have hhalf' : (2 * remainder : ℚ) ≤ d * 2 ^ binade := by exact_mod_cast hhalf
    rw [hdown]
    refine closest_of_middles (fun q hq => ?_) ⟨?_, fun heq => ?_⟩
    · have hstep := units_lt (by omega : q < binade * leadingBit + whole)
      exact ⟨by linarith, fun heq => by linarith⟩
    · have hside : (2 * remainder - d * 2 ^ binade : ℚ) / d ≤ 0 :=
        div_nonpos_of_nonpos_of_nonneg (by linarith) hpositive.le
      linarith
    · rw [heq, sub_self, eq_comm, div_eq_zero_iff, or_iff_left hpositive.ne', sub_eq_zero] at hmiddle
      exact (even_pattern _ _).mpr (htie (by exact_mod_cast hmiddle))
  · have hhalf' : (d * 2 ^ binade : ℚ) ≤ 2 * remainder := by exact_mod_cast hhalf
    rw [hup, ← Nat.add_assoc]
    refine closest_of_middles (fun q hq => ?_) ?_
    · obtain rfl := Nat.succ.inj hq
      refine ⟨?_, fun heq => ?_⟩
      · have hside : 0 ≤ (2 * remainder - d * 2 ^ binade : ℚ) / d :=
          div_nonneg (by linarith) hpositive.le
        linarith
      · rw [← heq, sub_self, eq_comm, div_eq_zero_iff, or_iff_left hpositive.ne', sub_eq_zero] at hmiddle
        rw [Nat.add_assoc]
        exact (even_pattern _ _).mpr (htie (by exact_mod_cast hmiddle.symm))
    · have hstep := units_lt (binade * leadingBit + whole + 1).lt_succ_self
      exact ⟨by linarith, fun heq => by linarith⟩

/-! ### Infinity -/

theorem units_infinite : units infinitePattern = 2 ^ 2098 := by
  have hshape : infinitePattern = 2046 * leadingBit + leadingBit := rfl
  have hleading : leadingBit = 2 ^ 52 := rfl
  rw [hshape, units_of_fits ⟨by omega, .inr (Nat.le_refl _)⟩, hleading, ← pow_add]

theorem units_greatest : units (infinitePattern - 1) = 2 ^ 2098 - 2 ^ 2045 := by
  have hshape : infinitePattern - 1 = 2045 * leadingBit + (2 * leadingBit - 1) := rfl
  have hdouble : 2 * leadingBit = 2 ^ 53 := rfl
  rw [hshape, units_of_fits ⟨Nat.sub_le _ _, .inr (by decide)⟩, hdouble, Nat.sub_mul, ← pow_add, Nat.one_mul]

/-- The overflow is in the middle between the greatest finite number and infinity. -/
theorem overflow_middle :
    (units (infinitePattern - 1) : ℚ) + units infinitePattern = 2 * (overflow * 2 ^ 1074) := by
  have hle : 2 ^ 2045 ≤ 2 ^ 2098 := pow_le_pow_right₀ one_le_two (by omega)
  have hdouble : (2 : ℚ) ^ 2045 = 2 * 2 ^ 2044 := pow_succ' 2 2044
  rw [units_infinite, units_greatest, overflow, Nat.cast_sub hle, sub_mul, ← pow_add, ← pow_add,
    Nat.cast_pow, Nat.cast_pow, Nat.cast_ofNat, hdouble]
  generalize (2 : ℚ) ^ 2044 = half
  generalize (2 : ℚ) ^ 2098 = infinite
  ring

theorem abs_magnitude_sub (x : Binary64) (v : ℚ) :
    |x.magnitude - v| = |(units x.pattern : ℚ) - v * 2 ^ 1074| / 2 ^ 1074 := by
  have hpositive : (0 : ℚ) < 2 ^ 1074 := by positivity
  rw [← abs_of_pos hpositive, ← abs_div, abs_of_pos hpositive, magnitude_eq, sub_div,
    mul_div_cancel_right₀ _ hpositive.ne']

/-- From the middle on the closest pattern is not finite: the greatest finite one is odd. -/
theorem infinite_of_closest (hclosest : Closest u p)
    (hu : (units (infinitePattern - 1) : ℚ) + units infinitePattern ≤ 2 * u) : infinitePattern ≤ p := by
  have hstep : (units (infinitePattern - 1) : ℚ) < units infinitePattern := units_lt (by decide)
  refine Nat.not_lt.mp fun hfinite => ?_
  obtain ⟨hcloser, htie⟩ := closer_of_below (units_le (by omega : p ≤ infinitePattern - 1)) hstep hu
  have hnearest := le_antisymm (hclosest.nearest infinitePattern) hcloser
  have hgreatest : p = infinitePattern - 1 := by
    refine le_antisymm (by omega) (strictMono_units.le_iff_le.mp ?_)
    have hle := units_le (by omega : p ≤ infinitePattern - 1)
    have hcloser := hclosest.nearest (infinitePattern - 1)
    rw [abs_of_neg (by linarith), abs_of_neg (by linarith)] at hcloser
    exact_mod_cast (by linarith : (units (infinitePattern - 1) : ℚ) ≤ units p)
  have heven := hclosest.even infinitePattern (by omega) hnearest
  rw [hgreatest] at heven
  exact absurd heven (by decide)

theorem finite_of_closest (hclosest : Closest u p)
    (hu : 2 * u < (units (infinitePattern - 1) : ℚ) + units infinitePattern) : p < infinitePattern := by
  have hstep : (units (infinitePattern - 1) : ℚ) < units infinitePattern := units_lt (by decide)
  refine Nat.not_le.mp fun hinfinite => ?_
  obtain ⟨hcloser, htie⟩ := closer_of_above (units_le hinfinite) hstep hu.le
  exact hu.ne (htie (le_antisymm hcloser (hclosest.nearest _)))

/-- Cut off at infinity, the closest pattern is the magnitude rounded. -/
theorem rounds_of_closest (negative : Bool) (hclosest : Closest (v * 2 ^ 1074) p) :
    Rounds v ⟨negative, min infinitePattern p⟩ := by
  have hpositive : (0 : ℚ) < 2 ^ 1074 := by positivity
  have hfinite : v < overflow → p < infinitePattern := by
    refine fun hv => finite_of_closest hclosest ?_
    rw [overflow_middle]
    exact mul_lt_mul_of_pos_left (mul_lt_mul_of_pos_right hv hpositive) two_pos
  refine ⟨fun hv => ?_, fun hv => ?_, fun hv y hy => ?_, fun hv y hy hne heq => ?_⟩
  · refine min_eq_left (infinite_of_closest hclosest ?_)
    rw [overflow_middle]
    exact mul_le_mul_of_nonneg_left (mul_le_mul_of_nonneg_right hv hpositive.le) zero_le_two
  · simpa [isFinite] using hfinite hv
  · rw [min_eq_right (hfinite hv).le, abs_magnitude_sub, abs_magnitude_sub]
    exact div_le_div_of_nonneg_right (hclosest.nearest y.pattern) hpositive.le
  · rw [min_eq_right (hfinite hv).le] at hne heq ⊢
    rw [abs_magnitude_sub, abs_magnitude_sub, div_left_inj' hpositive.ne'] at heq
    refine (even_significand _).mpr (hclosest.even y.pattern ?_ heq)
    rintro rfl
    exact hne (by rw [magnitude_eq, magnitude_eq])

theorem rounds_nearestPattern (negative : Bool) (n : Nat) (hd : 0 < d) :
    Rounds (n / d) ⟨negative, nearestPattern n d⟩ := by
  have hclosest := closest_quotient (n := n * unitsPerOne) hd
  have hunits : (unitsPerOne : ℚ) = 2 ^ 1074 := by
    rw [unitsPerOne, Nat.pow_eq, Nat.cast_pow, Nat.cast_ofNat]
  rw [Nat.cast_mul, hunits, mul_div_right_comm] at hclosest
  exact rounds_of_closest _ hclosest

/-! ### One result -/

theorem magnitude_lt (hlt : x.pattern < y.pattern) : x.magnitude < y.magnitude := by
  rw [magnitude_eq, magnitude_eq]
  exact div_lt_div_of_pos_right (units_lt hlt) (by positivity)

/-- Of two nearest numbers both would be even, and between these there is one that is nearer. -/
theorem Rounds.pattern_le (hx : Rounds v x) (hy : Rounds v y) : y.pattern ≤ x.pattern := by
  refine Nat.not_lt.mp fun hlt => ?_
  rcases le_or_gt overflow v with hv | hv
  · rw [hx.infinite hv, hy.infinite hv] at hlt
    exact lt_irrefl _ hlt
  have hxy := magnitude_lt hlt
  have htie := le_antisymm (hx.nearest hv y (hy.finite hv)) (hy.nearest hv x (hx.finite hv))
  obtain ⟨i, hi⟩ := (even_significand x).mp (hx.even hv y (hy.finite hv) hxy.ne' htie)
  obtain ⟨j, hj⟩ := (even_significand y).mp (hy.even hv x (hx.finite hv) hxy.ne htie.symm)
  have hfinite : y.pattern < infinitePattern := by simpa [isFinite] using hy.finite hv
  let between : Binary64 := ⟨false, x.pattern + 1⟩
  have hxz : x.magnitude < between.magnitude := magnitude_lt (Nat.lt_succ_self _)
  have hzy : between.magnitude < y.magnitude := magnitude_lt (by simp only [between]; omega)
  have hnearest := hx.nearest hv between (by simp only [isFinite, between, decide_eq_true_eq]; omega)
  have hmiddle : x.magnitude + y.magnitude = 2 * v := by
    rcases abs_eq_abs.mp htie with heq | heq
    all_goals linarith
  rw [abs_of_neg (by linarith : x.magnitude - v < 0), neg_sub, ← not_lt] at hnearest
  exact hnearest (abs_lt.mpr ⟨by linarith, by linarith⟩)

theorem Rounds.pattern_unique (hx : Rounds v x) (hy : Rounds v y) : x.pattern = y.pattern :=
  le_antisymm (hy.pattern_le hx) (hx.pattern_le hy)

/-! ### Decimals -/

theorem rounds_zero (negative : Bool) (hsmall : v * 2 ^ 1075 ≤ 1) : Rounds v ⟨negative, 0⟩ := by
  have hzero : units 0 = 0 := by decide
  have hone : units 1 = 1 := by decide
  have hclosest : Closest (v * 2 ^ 1074) 0 := by
    refine closest_of_middles nofun ⟨?_, fun _ => Even.zero⟩
    rw [pow_succ, ← mul_assoc, mul_comm] at hsmall
    rwa [hzero, hone, Nat.cast_zero, Nat.cast_one, zero_add]
  exact rounds_of_closest _ hclosest

/-- What is at most half of the least positive number is rounded to zero. -/
theorem Rounds.isZero (hx : Rounds v x) (hsmall : v * 2 ^ 1075 ≤ 1) : x.isZero = true :=
  beq_iff_eq.mpr (hx.pattern_unique (rounds_zero x.negative hsmall))

theorem bounds_of_digits {coefficient : Nat} (hcoefficient : coefficient ≠ 0) :
    10 ^ ((Nat.toDigits 10 coefficient).length - 1) ≤ coefficient ∧
      coefficient < 10 ^ (Nat.toDigits 10 coefficient).length := by
  have hlength : 0 < (Nat.toDigits 10 coefficient).length := Nat.length_toDigits_pos
  refine ⟨?_, (Nat.length_toDigits_le_iff (by decide) hlength).mp (Nat.le_refl _)⟩
  rcases Nat.eq_zero_or_pos ((Nat.toDigits 10 coefficient).length - 1) with hone | hmore
  · rw [hone, pow_zero]
    exact Nat.one_le_iff_ne_zero.mpr hcoefficient
  · refine Nat.not_lt.mp fun hlt => ?_
    have := (Nat.length_toDigits_le_iff (by decide) hmore).mpr hlt
    omega

/-- With its first digit that far behind the point, a decimal is at most half of the least positive number. -/
theorem tiny_of_digits {coefficient : Nat} {exponent : Int} (hcoefficient : coefficient ≠ 0)
    (hdigits : (Nat.toDigits 10 coefficient).length + exponent ≤ -324) :
    (coefficient * 10 ^ exponent : ℚ) * 2 ^ 1075 ≤ 1 := by
  have hbelow : (coefficient : ℚ) < 10 ^ (Nat.toDigits 10 coefficient).length := by
    exact_mod_cast (bounds_of_digits hcoefficient).2
  calc
    (coefficient : ℚ) * 10 ^ exponent * 2 ^ 1075
        ≤ 10 ^ ((Nat.toDigits 10 coefficient).length + exponent : ℤ) * 2 ^ 1075 := by
      rw [zpow_add₀ (by norm_num), zpow_natCast]
      gcongr
    _ ≤ 10 ^ (-324 : ℤ) * 2 ^ 1075 := by
      gcongr
      norm_num
    _ ≤ 1 := by
      have hpowers : (2 : ℚ) ^ 1075 ≤ 10 ^ 324 := by exact_mod_cast (by decide +kernel : 2 ^ 1075 ≤ 10 ^ 324)
      rw [zpow_neg, inv_mul_le_one₀ (by positivity)]
      exact hpowers

theorem overflow_le_of_digits {coefficient : Nat} {exponent : Int} (hcoefficient : coefficient ≠ 0)
    (hdigits : 310 ≤ (Nat.toDigits 10 coefficient).length + exponent) :
    overflow ≤ coefficient * 10 ^ exponent := by
  have habove : (10 : ℚ) ^ ((Nat.toDigits 10 coefficient).length - 1) ≤ coefficient := by
    exact_mod_cast (bounds_of_digits hcoefficient).1
  have hpowers : (2 : ℚ) ^ 1024 ≤ 10 ^ 309 := by exact_mod_cast (by decide +kernel : 2 ^ 1024 ≤ 10 ^ 309)
  have hlength : 0 < (Nat.toDigits 10 coefficient).length := Nat.length_toDigits_pos
  calc
    overflow ≤ 2 ^ 1024 := sub_le_self _ (by positivity)
    _ ≤ 10 ^ (309 : ℤ) := hpowers
    _ ≤ 10 ^ (((Nat.toDigits 10 coefficient).length - 1 : ℕ) + exponent : ℤ) :=
      zpow_le_zpow_right₀ (by norm_num) (by omega)
    _ ≤ coefficient * 10 ^ exponent := by
      rw [zpow_add₀ (by norm_num), zpow_natCast]
      gcongr

/-- The number made of a decimal is its magnitude rounded, however long and however large or small it is. -/
theorem rounds_ofDecimal (negative : Bool) (coefficient : Nat) (exponent : Int) :
    Rounds (coefficient * 10 ^ exponent) (ofDecimal negative coefficient exponent) := by
  unfold ofDecimal
  dsimp only
  split
  next hzero =>
    refine rounds_zero _ ?_
    by_cases hcoefficient : coefficient = 0
    · simp [hcoefficient]
    · exact tiny_of_digits hcoefficient (hzero.resolve_left hcoefficient)
  next hsome =>
    have hcoefficient := (not_or.mp hsome).1
    split
    next hlarge =>
      have hoverflow := not_lt.mpr (overflow_le_of_digits hcoefficient hlarge)
      exact ⟨fun _ => rfl, fun hlt => absurd hlt hoverflow, fun hlt => absurd hlt hoverflow,
        fun hlt => absurd hlt hoverflow⟩
    next hmoderate =>
      split
      next hwhole =>
        obtain ⟨power, rfl⟩ := Int.eq_ofNat_of_zero_le hwhole
        have hrounds := rounds_nearestPattern negative (coefficient * 10 ^ power) one_pos
        rwa [Nat.cast_one, div_one, Nat.cast_mul, Nat.cast_pow, Nat.cast_ofNat, ← zpow_natCast] at hrounds
      next hfraction =>
        obtain ⟨power, rfl⟩ : ∃ power : Nat, exponent = -power := ⟨(-exponent).toNat, by omega⟩
        have hrounds := rounds_nearestPattern negative coefficient
          (Nat.pow_pos (n := power) (by decide : 0 < 10))
        rw [Nat.cast_pow, Nat.cast_ofNat, div_eq_mul_inv, ← zpow_natCast, ← zpow_neg] at hrounds
        rwa [neg_neg, Int.toNat_natCast]

end Gleaner.Binary64
