import Gleaner.Proofs.Claims
import Mathlib.Data.List.Dedup

/-! # Claims as transactions

A checkpoint stays good for as long as only later checkpoints are gone back to. Whatever is claimed and
undone in between, going back to it takes away the claims that were made since and still stand, and
claiming these again brings everything back.
-/

namespace Gleaner.ClaimSet

universe u

variable {α : Type u} [BEq α] [LawfulBEq α] [Hashable α]

/-- The claims of a batch that are not made yet when it is their turn. -/
def fresh (claims : ClaimSet α) : List α → List α
  | [] => []
  | a :: batch =>
    if claims.contains a then claims.fresh batch else a :: (claims.claim a).fresh batch

/-- What can be done from `start` on without going back behind it. Beside the claims that this leads to
stand all claims that were new when they were made, in the order of time and whether or not they were
undone since, and the checkpoints taken on the way. -/
inductive Session (start : ClaimSet α) : ClaimSet α → (made : List α) → (taken : List Nat) → Prop
  | start : Session start start [] [start.checkpoint]
  | claim {claims : ClaimSet α} {made : List α} {taken : List Nat}
      (hsession : Session start claims made taken) (a : α) :
      Session start (claims.claim a) (made ++ claims.fresh [a]) taken
  | replay {claims : ClaimSet α} {made : List α} {taken : List Nat}
      (hsession : Session start claims made taken) (batch : List α) :
      Session start (claims.replay batch) (made ++ claims.fresh batch) taken
  | checkpoint {claims : ClaimSet α} {made : List α} {taken : List Nat}
      (hsession : Session start claims made taken) :
      Session start claims made (claims.checkpoint :: taken)
  | rollback {claims : ClaimSet α} {made : List α} {taken : List Nat} {checkpoint : Nat}
      (hsession : Session start claims made taken) (hcheckpoint : checkpoint ∈ taken) :
      Session start (claims.rollback checkpoint).2 made taken

variable {start claims later : ClaimSet α} {made batch new : List α} {taken : List Nat}

/-! ## Claims that are new -/

theorem Consistent.contains_iff (hclaims : claims.Consistent) {a : α} :
    claims.contains a = true ↔ a ∈ claims.journal :=
  ClaimSet.contains_iff.trans (hclaims.mem_claimed a)

theorem journal_replay_fresh (claims : ClaimSet α) (batch : List α) :
    (claims.replay batch).journal = claims.journal ++ claims.fresh batch := by
  induction batch generalizing claims with
  | nil => simp [replay, fresh]
  | cons a batch ih =>
      rw [replay, List.foldl_cons, ← replay, ih, fresh]
      split
      next hmem => rw [claim, if_pos hmem]
      next hfree =>
        rw [claim, if_neg hfree]
        simp

/-- What is new in a batch comes once and was not claimed before. -/
theorem Consistent.nodup_fresh (hclaims : claims.Consistent) (batch : List α) :
    (claims.fresh batch).Nodup ∧ claims.journal.Disjoint (claims.fresh batch) := by
  have hnodup := (hclaims.replay batch).nodup
  rw [journal_replay_fresh, List.nodup_append'] at hnodup
  exact hnodup.2

/-! ## Claims that stand -/

variable [DecidableEq α]

/-- Those of the claims made that stand, in the order of time. Of a claim that was undone and made again
the last time counts. -/
def standing (claims : ClaimSet α) (made : List α) : List α := made.dedup.filter claims.contains

omit [Hashable α] in
theorem filter_dedup_append (hnew : new.Nodup) (p : α → Bool) :
    (made ++ new).dedup.filter (fun a => p a || a ∈ new) =
      made.dedup.filter (fun a => p a && a ∉ new) ++ new := by
  induction made with
  | nil =>
      rw [List.nil_append, hnew.dedup, List.filter_eq_self.mpr]
      · rfl
      · exact fun a ha => by simp [ha]
  | cons a made ih =>
      rw [List.cons_append]
      by_cases hmade : a ∈ made
      · rw [List.dedup_cons_of_mem hmade, List.dedup_cons_of_mem (List.mem_append_left _ hmade), ih]
      · rw [List.dedup_cons_of_notMem hmade, List.filter_cons]
        -- what is made again later does not count here
        by_cases hmem : a ∈ new
        · rw [List.dedup_cons_of_mem (List.mem_append_right _ hmem), ih]
          simp [hmem]
        · rw [List.dedup_cons_of_notMem (by simp [hmade, hmem]), List.filter_cons, ih]
          cases p a with
          | false => simp [hmem]
          | true => simp [hmem]

/-- New claims stand behind those that stood before. -/
theorem Consistent.standing_replay (hclaims : claims.Consistent) (batch : List α) :
    (claims.replay batch).standing (made ++ claims.fresh batch) =
      claims.standing made ++ claims.fresh batch := by
  obtain ⟨hnodup, hdisjoint⟩ := hclaims.nodup_fresh batch
  have hafter : ∀ a, (claims.replay batch).contains a =
      (claims.contains a || decide (a ∈ claims.fresh batch)) := by
    intro a
    rw [Bool.eq_iff_iff, Bool.or_eq_true, decide_eq_true_eq, hclaims.contains_iff,
      (hclaims.replay batch).contains_iff, journal_replay_fresh, List.mem_append]
  have hbefore : ∀ a, claims.contains a =
      (claims.contains a && decide (a ∉ claims.fresh batch)) := by
    intro a
    rw [Bool.eq_iff_iff, Bool.and_eq_true, decide_eq_true_eq, hclaims.contains_iff]
    exact ⟨fun hmem => ⟨hmem, fun hnew => hdisjoint hmem hnew⟩, And.left⟩
  unfold standing
  rw [funext hafter, filter_dedup_append hnodup, ← funext hbefore]

/-- What stands is what the journal says. -/
structure Sound (start claims : ClaimSet α) (made : List α) (taken : List Nat) : Prop where
  consistent : claims.Consistent
  journal : claims.journal = start.journal ++ claims.standing made
  taken : ∀ checkpoint ∈ taken, start.checkpoint ≤ checkpoint

theorem Sound.replay (hsound : Sound start claims made taken) (batch : List α) :
    Sound start (claims.replay batch) (made ++ claims.fresh batch) taken where
  consistent := hsound.consistent.replay batch
  journal := by
    rw [journal_replay_fresh, hsound.consistent.standing_replay, hsound.journal, List.append_assoc]
  taken := hsound.taken

/-- Going back to a checkpoint that is not before the start leaves the first of the claims that stood. -/
theorem Sound.rollback (hsound : Sound start claims made taken) {checkpoint : Nat}
    (hcheckpoint : start.checkpoint ≤ checkpoint) :
    Sound start (claims.rollback checkpoint).2 made taken := by
  have hback := hsound.consistent.rollback checkpoint
  have hnodup := hsound.consistent.nodup
  have hjournal : (claims.rollback checkpoint).2.journal =
      start.journal ++ (claims.standing made).take (checkpoint - start.checkpoint) := by
    change claims.journal.take (Text.placeOf _ _) = _
    have hplace : Text.placeOf claims.journal.length checkpoint = checkpoint := by
      simp [Text.placeOf]
    rw [hplace, hsound.journal, List.take_append, List.take_of_length_le hcheckpoint]
    rfl
  -- what stands after going back stood before, and of that exactly the first part is left
  have hfewer : (claims.rollback checkpoint).2.standing made =
      (claims.standing made).filter (claims.rollback checkpoint).2.contains := by
    unfold standing
    rw [List.filter_filter]
    apply List.filter_congr
    intro a _
    rw [Bool.eq_iff_iff, Bool.and_eq_true, hback.contains_iff, hsound.consistent.contains_iff]
    exact ⟨fun hmem => ⟨hmem, List.mem_of_mem_take hmem⟩, And.left⟩
  have hsplit := List.take_append_drop (checkpoint - start.checkpoint) (claims.standing made)
  rw [hsound.journal, ← hsplit, ← List.append_assoc, ← hjournal, List.nodup_append'] at hnodup
  refine ⟨hback, ?_, hsound.taken⟩
  rw [hfewer, ← hsplit, List.filter_append, List.filter_eq_self.mpr, List.filter_eq_nil_iff.mpr,
    List.append_nil, hjournal]
  · exact fun a hundone hkept => hnodup.2.2 (hback.contains_iff.mp hkept) hundone
  · intro a hkept
    rw [hback.contains_iff, hjournal]
    exact List.mem_append_right _ hkept

theorem Session.sound (hstart : start.Consistent) (hsession : Session start later made taken) :
    Sound start later made taken := by
  induction hsession with
  | start => exact ⟨hstart, by simp [standing], by simp⟩
  | claim _ a ih => exact ih.replay [a]
  | replay _ batch ih => exact ih.replay batch
  | checkpoint _ ih =>
      refine ⟨ih.consistent, ih.journal, List.forall_mem_cons.mpr ⟨?_, ih.taken⟩⟩
      unfold ClaimSet.checkpoint
      rw [ih.journal, List.length_append]
      exact Nat.le_add_right _ _
  | rollback _ hcheckpoint ih => exact ih.rollback (ih.taken _ hcheckpoint)

omit [DecidableEq α] in
/-- A batch that was undone brings back what it was taken from. -/
theorem replay_undone (hstart : start.Consistent) (hlater : later.Consistent)
    (hjournal : later.journal = start.journal ++ batch) : start.replay batch = later := by
  have hnodup := hlater.nodup
  rw [hjournal, List.nodup_append'] at hnodup
  apply (hstart.replay batch).eq_of_journal hlater
  rw [journal_replay hnodup.2.1, hjournal]
  exact fun a ha hmem => hnodup.2.2 ((hstart.mem_claimed a).mp hmem) ha

/-- The journal lists every claim that stands, and none twice. Whatever is done from a checkpoint on, going
back to it gives the claims as they were there, and in claim order exactly the claims that were made since
and stand. Claiming these again right away undoes the going back, which can then be repeated. -/
theorem rollback_restores :
    (∀ claims : ClaimSet α, claims.Reachable →
      claims.journal.Nodup ∧ ∀ a, a ∈ claims.journal ↔ claims.contains a = true) ∧
    ∀ (start later : ClaimSet α) (made : List α) (taken : List Nat), start.Reachable →
      Session start later made taken →
      let undone := later.standing made
      later.rollback start.checkpoint = (undone, start) ∧
        (∀ a, a ∈ undone ↔ later.contains a = true ∧ start.contains a = false) ∧
        start.replay undone = later ∧
        (start.replay undone).rollback start.checkpoint = (undone, start) := by
  constructor
  · intro claims hclaims
    have hconsistent := hclaims.consistent
    exact ⟨hconsistent.nodup, fun a => hconsistent.contains_iff.symm⟩
  · intro start later made taken hstart hsession undone
    have hstart := hstart.consistent
    obtain ⟨hlater, hjournal, -⟩ := hsession.sound hstart
    have hback : later.rollback start.checkpoint = (undone, start) := by
      rw [hstart.rollback_checkpoint hlater ⟨undone, hjournal.symm⟩, hjournal, List.drop_left]
    have hagain : start.replay undone = later := replay_undone hstart hlater hjournal
    refine ⟨hback, ?_, hagain, by rw [hagain, hback]⟩
    intro a
    have hnodup := hlater.nodup
    rw [hjournal, List.nodup_append'] at hnodup
    rw [← Bool.not_eq_true, hlater.contains_iff, hstart.contains_iff, hjournal, List.mem_append]
    constructor
    · exact fun hmem => ⟨.inr hmem, fun hold => hnodup.2.2 hold hmem⟩
    · exact fun hmem => hmem.1.resolve_left hmem.2

/-- One claim stands. A second one is undone after a checkpoint and made again in a batch, behind a third;
the first is only repeated. Going back to the start of this undoes the third and the second. -/
theorem rollback_restores_batch :
    let start := (empty : ClaimSet Nat).claim 1
    let later := ((start.claim 2).rollback start.checkpoint).2.replay [1, 3, 2]
    later.rollback start.checkpoint = ([3, 2], start) ∧ start.replay [3, 2] = later := by
  intro start later
  have hmade : start.fresh [2] = [2] ∧
      ((start.claim 2).rollback start.checkpoint).2.fresh [1, 3, 2] = [3, 2] := by
    simp [start, fresh, claim, contains, empty, rollback, checkpoint, Text.placeOf]
  have hbegin : Session start start [] [start.checkpoint] := .start
  have hsession := ((hbegin.claim 2).rollback List.mem_cons_self).replay [1, 3, 2]
  rw [hmade.1, hmade.2] at hsession
  obtain ⟨hback, -, hagain, -⟩ := rollback_restores.2 _ _ _ _ (.claim .empty 1) hsession
  have hstanding : later.standing [2, 3, 2] = [3, 2] := by
    simp [later, start, standing, replay, claim, contains, empty, rollback, checkpoint, Text.placeOf]
  change later.rollback start.checkpoint = (later.standing [2, 3, 2], start) at hback
  change start.replay (later.standing [2, 3, 2]) = later at hagain
  rw [hstanding] at hback hagain
  exact ⟨hback, hagain⟩

end Gleaner.ClaimSet
