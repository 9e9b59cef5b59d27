import Gleaner.Extract.TextPattern

/-! # Longest runs

The longest run of characters that a pattern may take leaves a text that the rest of the pattern accepts,
while whatever a longer one leaves is not accepted. If there is none, nothing that any run leaves is.
-/

namespace Gleaner.TextPattern

/-- A front part of a text that passes a test, and what is left. -/
structure Run (required : Bool) (test : Char → Bool) (s run rest : Text) : Prop where
  split : run ++ rest = s
  passes : ∀ c ∈ run, test c = true
  nonempty : required = true → run ≠ []

variable {α : Type} {required : Bool} {test : Char → Bool} {next : Text → Option α}
  {s run rest : Text} {a : α}

/-- A run that may be empty. -/
theorem Run.optional (hsplit : run ++ rest = s) (hpasses : ∀ c ∈ run, test c = true) :
    Run false test s run rest :=
  ⟨hsplit, hpasses, nofun⟩

theorem Run.none (s : Text) : Run false test s [] s := .optional rfl (List.forall_mem_nil _)

theorem run_cons_iff {c d : Char} :
    Run required test (c :: s) (d :: run) rest ↔ d = c ∧ test c = true ∧ Run false test s run rest := by
  constructor
  · rintro ⟨hsplit, hpasses, -⟩
    obtain ⟨rfl, hbehind⟩ := List.cons.inj hsplit
    obtain ⟨hd, hbehindPasses⟩ := List.forall_mem_cons.mp hpasses
    exact ⟨rfl, hd, .optional hbehind hbehindPasses⟩
  · rintro ⟨rfl, hd, hrun⟩
    exact ⟨congrArg (d :: ·) hrun.split, List.forall_mem_cons.mpr ⟨hd, hrun.passes⟩,
      fun _ => List.cons_ne_nil _ _⟩

theorem longest_none (hnone : longest test next s = none) (hrun : Run false test s run rest) :
    next rest = none := by
  fun_induction longest test next s generalizing run with
  | case1 =>
      obtain ⟨rfl, rfl⟩ := List.append_eq_nil_iff.mp hrun.split
      exact Option.map_eq_none_iff.mp hnone
  | case2 => cases hnone
  | case3 c s hc hlonger ih =>
      cases run with
      | nil =>
          obtain rfl : rest = c :: s := hrun.split
          exact Option.map_eq_none_iff.mp hnone
      | cons d run => exact ih hlonger (run_cons_iff.mp hrun).2.2
  | case4 c s hc =>
      cases run with
      | nil =>
          obtain rfl : rest = c :: s := hrun.split
          exact Option.map_eq_none_iff.mp hnone
      | cons d run => exact absurd (run_cons_iff.mp hrun).2.1 hc

/-- What the longest run leaves is accepted, and nothing that a longer one leaves. -/
theorem longest_some (hsome : longest test next s = some (run, a)) :
    ∃ rest, Run false test s run rest ∧ next rest = some a ∧
      ∀ longer rest', Run false test s longer rest' → run.length < longer.length →
        next rest' = none := by
  fun_induction longest test next s generalizing run with
  | case1 =>
      obtain ⟨_, ha, hpair⟩ := Option.map_eq_some_iff.mp hsome
      obtain ⟨rfl, rfl⟩ := Prod.mk.inj hpair
      refine ⟨[], .none [], ha, ?_⟩
      intro longer rest' hlonger hlength
      obtain ⟨rfl, -⟩ := List.append_eq_nil_iff.mp hlonger.split
      exact absurd hlength (Nat.lt_irrefl _)
  | case2 c s hc inner _ hinner ih =>
      obtain ⟨rfl, rfl⟩ := Prod.mk.inj (Option.some.inj hsome)
      obtain ⟨rest, hrun, ha, hgreatest⟩ := ih hinner
      refine ⟨rest, run_cons_iff.mpr ⟨rfl, hc, hrun⟩, ha, ?_⟩
      intro longer rest' hlonger hlength
      cases longer with
      | nil => exact absurd hlength (Nat.not_lt_zero _)
      | cons d longer =>
          exact hgreatest longer rest' (run_cons_iff.mp hlonger).2.2 (Nat.lt_of_succ_lt_succ hlength)
  | case3 c s hc hshorter _ =>
      obtain ⟨_, ha, hpair⟩ := Option.map_eq_some_iff.mp hsome
      obtain ⟨rfl, rfl⟩ := Prod.mk.inj hpair
      refine ⟨c :: s, .none _, ha, ?_⟩
      intro longer rest' hlonger hlength
      cases longer with
      | nil => exact absurd hlength (Nat.lt_irrefl _)
      | cons d longer => exact longest_none hshorter (run_cons_iff.mp hlonger).2.2
  | case4 c s hc =>
      obtain ⟨_, ha, hpair⟩ := Option.map_eq_some_iff.mp hsome
      obtain ⟨rfl, rfl⟩ := Prod.mk.inj hpair
      refine ⟨c :: s, .none _, ha, ?_⟩
      intro longer rest' hlonger hlength
      cases longer with
      | nil => exact absurd hlength (Nat.lt_irrefl _)
      | cons d longer => exact absurd (run_cons_iff.mp hlonger).2.1 hc

theorem longestRun_none (hnone : longestRun required test next s = none)
    (hrun : Run required test s run rest) : next rest = none := by
  cases required with
  | false => exact longest_none hnone hrun
  | true =>
      obtain ⟨d, run, rfl⟩ := List.exists_cons_of_ne_nil (hrun.nonempty rfl)
      cases s with
      | nil => exact absurd hrun.split (List.cons_ne_nil _ _)
      | cons c s =>
          obtain ⟨-, hc, hrun⟩ := run_cons_iff.mp hrun
          rw [longestRun, if_pos hc] at hnone
          exact longest_none (Option.map_eq_none_iff.mp hnone) hrun

theorem longestRun_some (hsome : longestRun required test next s = some (run, a)) :
    ∃ rest, Run required test s run rest ∧ next rest = some a ∧
      ∀ longer rest', Run required test s longer rest' → run.length < longer.length →
        next rest' = none := by
  cases required with
  | false => exact longest_some hsome
  | true =>
      cases s with
      | nil => cases hsome
      | cons c s =>
          rw [longestRun] at hsome
          split at hsome
          next hc =>
            obtain ⟨⟨run, _⟩, hinner, hpair⟩ := Option.map_eq_some_iff.mp hsome
            obtain ⟨rfl, rfl⟩ := Prod.mk.inj hpair
            obtain ⟨rest, hrun, ha, hgreatest⟩ := longest_some hinner
            refine ⟨rest, run_cons_iff.mpr ⟨rfl, hc, hrun⟩, ha, ?_⟩
            intro longer rest' hlonger hlength
            cases longer with
            | nil => exact absurd hlength (Nat.not_lt_zero _)
            | cons d longer =>
                exact hgreatest longer rest' (run_cons_iff.mp hlonger).2.2
                  (Nat.lt_of_succ_lt_succ hlength)
          next => cases hsome

end Gleaner.TextPattern
