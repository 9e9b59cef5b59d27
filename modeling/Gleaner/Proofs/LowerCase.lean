import Gleaner.Proofs.Characters

/-! # Lower case

Lower-casing a text that is in lower case changes nothing, and it makes letters of letters only. Beyond ASCII
both are facts of the table of case runs: no run leads into one of the runs, and none leads to white space.
That is checked run by run, on the code points where the images of a run begin and end.
-/

namespace Gleaner.Text

namespace CaseRun

/-- Whether the run changes the code point. -/
def Covers (run : CaseRun) (n : Nat) : Prop :=
  run.first ≤ n ∧ n ≤ run.last ∧ (n - run.first) % run.step = 0

/-- The code point that the first one of the run becomes. -/
def least (run : CaseRun) : Nat := (run.first + run.shift).toNat

/-- The code point that the last one of the run becomes. -/
def greatest (run : CaseRun) : Nat := (run.last + run.shift).toNat

/-- The first run leads into no code point that the second one changes. -/
def apart (one other : CaseRun) : Bool :=
  one.greatest.blt other.first || other.last.blt one.least ||
    (other.step.beq 2 && (one.step.beq 2 || one.first.beq one.last) &&
      ((one.least + other.first) % 2).beq 1)

/-- The run leads to proper characters beyond ASCII that are not white space, or to the letter k, and to
neither of the two capitals with a form of their own. -/
def proper (run : CaseRun) : Bool :=
  (run.step.beq 1 || run.step.beq 2) && run.first.ble run.last &&
    ((run.least.beq 0x6b && run.greatest.beq 0x6b) ||
      (Nat.blt 0xa0 run.least && run.greatest.blt 0xd800 &&
        (run.greatest.blt 0x1680 || (Nat.blt 0x1680 run.least && run.greatest.blt 0x2000) ||
          (Nat.blt 0x205f run.least && run.greatest.blt 0x3000) || Nat.blt 0x3000 run.least)) ||
      (Nat.blt 0xdfff run.least && run.greatest.blt 0x110000)) &&
    (run.greatest.blt 0x130 || Nat.blt 0x130 run.least) &&
    (run.greatest.blt 0x3a3 || Nat.blt 0x3a3 run.least)

variable {run other : CaseRun} {n : Nat}

/-- The table run by run. -/
theorem table_checked (hrun : run ∈ caseRuns) :
    run.proper = true ∧ ∀ other ∈ caseRuns, run.apart other = true := by
  have hall : (caseRuns.all fun run => run.proper && caseRuns.all run.apart) = true := by decide +kernel
  have hrun := List.all_eq_true.mp hall run hrun
  rw [Bool.and_eq_true, List.all_eq_true] at hrun
  exact hrun

theorem bounds_of_covers (hcovers : run.Covers n) :
    run.least ≤ (n + run.shift).toNat ∧ (n + run.shift).toNat ≤ run.greatest := by
  obtain ⟨hfirst, hlast, -⟩ := hcovers
  unfold least greatest
  omega

/-- The character that a run leads to is k or lies beyond ASCII; it is not white space and neither of the
two capitals. -/
theorem image_of_covers (hrun : run ∈ caseRuns) (hcovers : run.Covers n) :
    (Char.ofNat (n + run.shift).toNat).toNat = (n + run.shift).toNat ∧
      ((n + run.shift).toNat = 0x6b ∨ 0xa0 < (n + run.shift).toNat) ∧
      (n + run.shift).toNat ≠ 0x130 ∧ (n + run.shift).toNat ≠ 0x3a3 ∧
      isBlank (Char.ofNat (n + run.shift).toNat) = false := by
  obtain ⟨hleast, hgreatest⟩ := bounds_of_covers hcovers
  have hproper := (table_checked hrun).1
  generalize (n + run.shift).toNat = m at hleast hgreatest
  simp only [proper, Bool.and_eq_true, Bool.or_eq_true, Nat.beq_eq, Nat.ble_eq, Nat.blt_eq] at hproper
  have hvalid : m.isValidChar := by
    unfold Nat.isValidChar
    omega
  have hnat : (Char.ofNat m).toNat = m := by simp [Char.ofNat, hvalid, Char.ofNatAux, Char.toNat]
  refine ⟨hnat, by omega, by omega, by omega, ?_⟩
  simp only [isBlank, hnat, Bool.or_eq_false_iff, Bool.and_eq_false_iff, decide_eq_false_iff_not,
    beq_eq_false_iff_ne]
  omega

theorem not_covers_image (hrun : run ∈ caseRuns) (hother : other ∈ caseRuns) (hcovers : run.Covers n) :
    ¬ other.Covers (n + run.shift).toNat := by
  have hbounds := bounds_of_covers hcovers
  have hproper := (table_checked hrun).1
  have hapart := (table_checked hrun).2 other hother
  simp only [proper, Bool.and_eq_true, Bool.or_eq_true, Nat.beq_eq, Nat.ble_eq, Nat.blt_eq] at hproper
  simp only [apart, Bool.and_eq_true, Bool.or_eq_true, Nat.beq_eq, Nat.blt_eq] at hapart
  rintro ⟨hfirst, hlast, hstep⟩
  obtain ⟨hfrom, hto, hrest⟩ := hcovers
  unfold least greatest at *
  rcases hapart with (hbelow | habove) | ⟨⟨hother, hone⟩, hodd⟩
  · omega
  · omega
  · rw [hother] at hstep
    rcases hone with hone | hone
    · rw [hone] at hrest
      omega
    · omega

end CaseRun

variable {c d : Char} {s : Text}

/-- Within ASCII a character is kept or becomes a small letter, and what it becomes is kept. -/
theorem lowerChar_ascii (hc : c.toNat < 0x80) :
    lowerChar (lowerChar c) = lowerChar c ∧
      (lowerChar c = c ∨ isBlank (lowerChar c) = false ∧ (lowerChar c).isLower = true) ∧
      lowerChar c ≠ 'Σ' ∧ lowerChar c ≠ 'İ' :=
  forall_ascii (P := fun c => lowerChar (lowerChar c) = lowerChar c ∧
    (lowerChar c = c ∨ isBlank (lowerChar c) = false ∧ (lowerChar c).isLower = true) ∧
    lowerChar c ≠ 'Σ' ∧ lowerChar c ≠ 'İ') (by decide +kernel) hc

/-- Beyond ASCII a character either is kept or becomes what the run that covers it leads to. -/
theorem lowerChar_cases (hc : 0x80 ≤ c.toNat) :
    (lowerChar c = c ∧ ∀ run ∈ caseRuns, ¬ run.Covers c.toNat) ∨
      ∃ run ∈ caseRuns, run.Covers c.toNat ∧ lowerChar c = Char.ofNat (c.toNat + run.shift).toNat := by
  unfold lowerChar
  rw [if_neg (Nat.not_lt.mpr hc)]
  dsimp only
  split
  next run hfind =>
    refine .inr ⟨run, List.mem_of_find?_eq_some hfind, ?_, rfl⟩
    have hcovers := List.find?_some hfind
    simpa [CaseRun.Covers, and_assoc] using hcovers
  next hfind =>
    refine .inl ⟨rfl, fun run hrun hcovers => ?_⟩
    have hnone := List.find?_eq_none.mp hfind run hrun
    exact hnone (by simpa [CaseRun.Covers, and_assoc] using hcovers)

theorem lowerChar_of_not_covers (hc : 0x80 ≤ c.toNat) (hnone : ∀ run ∈ caseRuns, ¬ run.Covers c.toNat) :
    lowerChar c = c := by
  rcases lowerChar_cases hc with ⟨hkept, -⟩ | ⟨run, hrun, hcovers, -⟩
  · exact hkept
  · exact absurd hcovers (hnone run hrun)

theorem lowerChar_lowerChar (c : Char) : lowerChar (lowerChar c) = lowerChar c := by
  by_cases hc : c.toNat < 0x80
  · exact (lowerChar_ascii hc).1
  · rcases lowerChar_cases (Nat.not_lt.mp hc) with ⟨hkept, -⟩ | ⟨run, hrun, hcovers, hlower⟩
    · rw [hkept, hkept]
    · obtain ⟨hnat, hplace, -, -, -⟩ := CaseRun.image_of_covers hrun hcovers
      rw [hlower]
      rcases hplace with hk | hbeyond
      · rw [hk]
        decide
      · refine lowerChar_of_not_covers (by omega) fun other hother => ?_
        rw [hnat]
        exact CaseRun.not_covers_image hrun hother hcovers

/-- Lower-casing changes a character to a small letter of ASCII or to a character beyond ASCII, which is not
white space. -/
theorem lowerChar_eq_or (c : Char) :
    lowerChar c = c ∨ isBlank (lowerChar c) = false ∧
      ((lowerChar c).isLower = true ∨ 0x80 ≤ (lowerChar c).toNat) := by
  by_cases hc : c.toNat < 0x80
  · exact (lowerChar_ascii hc).2.1.imp_right (And.imp_right .inl)
  · rcases lowerChar_cases (Nat.not_lt.mp hc) with ⟨hkept, -⟩ | ⟨run, hrun, hcovers, hlower⟩
    · exact .inl hkept
    · obtain ⟨hnat, hplace, -, -, hblank⟩ := CaseRun.image_of_covers hrun hcovers
      rw [hlower]
      refine .inr ⟨hblank, ?_⟩
      rcases hplace with hk | hbeyond
      · rw [hk]
        exact .inl (by decide)
      · exact .inr (by omega)

theorem lowerChar_ne_capital (hsigma : c ≠ 'Σ') (hdotted : c ≠ 'İ') :
    lowerChar c ≠ 'Σ' ∧ lowerChar c ≠ 'İ' := by
  by_cases hc : c.toNat < 0x80
  · exact (lowerChar_ascii hc).2.2
  · rcases lowerChar_cases (Nat.not_lt.mp hc) with ⟨hkept, -⟩ | ⟨run, hrun, hcovers, hlower⟩
    · rw [hkept]
      exact ⟨hsigma, hdotted⟩
    · obtain ⟨hnat, -, hneDotted, hneSigma, -⟩ := CaseRun.image_of_covers hrun hcovers
      rw [hlower]
      constructor
      · intro heq
        exact hneSigma (hnat.symm.trans (congrArg Char.toNat heq))
      · intro heq
        exact hneDotted (hnat.symm.trans (congrArg Char.toNat heq))

/-- What becomes of the two capitals. -/
def specialForms : List Char := ['ς', 'σ', 'i', '\u0307']

theorem specialForms_kept (hd : d ∈ specialForms) :
    (d ≠ 'Σ' ∧ d ≠ 'İ' ∧ lowerChar d = d) ∧ isBlank d = false ∧ (d.isLower = true ∨ 0x80 ≤ d.toNat) := by
  have hall : ∀ d ∈ specialForms, (d ≠ 'Σ' ∧ d ≠ 'İ' ∧ lowerChar d = d) ∧
      isBlank d = false ∧ (d.isLower = true ∨ 0x80 ≤ d.toNat) := by
    simp only [specialForms, List.forall_mem_cons, List.not_mem_nil, false_imp_iff, implies_true, and_true]
    decide +kernel
  exact hall d hd

/-- What a text becomes in lower case: the special forms of two letters, and characters in lower case. -/
theorem mem_lowerAfter {before : Text} (hd : d ∈ lowerAfter before s) :
    d ∈ specialForms ∨ ∃ c ∈ s, c ≠ 'Σ' ∧ c ≠ 'İ' ∧ d = lowerChar c := by
  induction s generalizing before with
  | nil => cases hd
  | cons c s ih =>
      rw [lowerAfter] at hd
      rcases List.mem_append.mp hd with hd | hd
      · split at hd
        next =>
          have hd := List.mem_singleton.mp hd
          split at hd
          next => simp [hd, specialForms]
          next => simp [hd, specialForms]
        next =>
          split at hd
          next =>
            left
            simp only [specialForms, List.mem_cons] at hd ⊢
            tauto
          next hsigma hdotted =>
            exact .inr ⟨c, List.mem_cons_self, hsigma, hdotted, List.mem_singleton.mp hd⟩
      · rcases ih hd with hspecial | ⟨c, hc, hlower⟩
        · exact .inl hspecial
        · exact .inr ⟨c, List.mem_cons_of_mem _ hc, hlower⟩

theorem lowerAfter_of_kept {before : Text} (hs : ∀ c ∈ s, c ≠ 'Σ' ∧ c ≠ 'İ' ∧ lowerChar c = c) :
    lowerAfter before s = s := by
  induction s generalizing before with
  | nil => rfl
  | cons c s ih =>
      obtain ⟨⟨hsigma, hdotted, hkept⟩, hs⟩ := List.forall_mem_cons.mp hs
      rw [lowerAfter, if_neg hsigma, if_neg hdotted, hkept, ih hs]
      rfl

theorem lower_lower (s : Text) : lower (lower s) = lower s := by
  apply lowerAfter_of_kept
  intro d hd
  rcases mem_lowerAfter hd with hspecial | ⟨c, -, hsigma, hdotted, rfl⟩
  · exact (specialForms_kept hspecial).1
  · obtain ⟨hneSigma, hneDotted⟩ := lowerChar_ne_capital hsigma hdotted
    exact ⟨hneSigma, hneDotted, lowerChar_lowerChar c⟩

theorem lower_ne_nil (hs : s ≠ []) : lower s ≠ [] := by
  obtain ⟨c, more, rfl⟩ := List.exists_cons_of_ne_nil hs
  rw [lower, lowerAfter]
  simp only [ne_eq, List.append_eq_nil_iff, not_and]
  intro hnil
  split at hnil
  next => cases hnil
  next => split at hnil <;> cases hnil

/-- A test that letters and what lies beyond ASCII pass, white space apart, is passed in lower case too. -/
theorem forall_mem_lower {test : Char → Bool}
    (hletter : ∀ c, isBlank c = false → c.isLower = true ∨ 0x80 ≤ c.toNat → test c = true)
    (hs : ∀ c ∈ s, test c = true) : ∀ c ∈ lower s, test c = true := by
  intro d hd
  rcases mem_lowerAfter hd with hspecial | ⟨c, hc, -, -, rfl⟩
  · obtain ⟨-, hblank, hplace⟩ := specialForms_kept hspecial
    exact hletter d hblank hplace
  · rcases lowerChar_eq_or c with hkept | ⟨hblank, hplace⟩
    · rw [hkept]
      exact hs c hc
    · exact hletter _ hblank hplace

end Gleaner.Text
