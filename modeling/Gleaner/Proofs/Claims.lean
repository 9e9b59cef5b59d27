import Gleaner.Extract.Claims
import Mathlib.Data.List.Nodup

/-! # Consistent claims

However claims are made and undone, the set holds exactly what the journal lists, and the journal lists
nothing twice. A set of claims is therefore known by its journal, and going back to a checkpoint gives
exactly the claims that stood there.
-/

namespace Gleaner.ClaimSet

universe u

variable {α : Type u} [BEq α] [LawfulBEq α] [Hashable α]
variable {claims later : ClaimSet α} {a b : α} {batch : List α}

/-- Everything that claiming, undoing and claiming again can lead to. -/
inductive Reachable : ClaimSet α → Prop
  | empty : Reachable .empty
  | claim {claims : ClaimSet α} (hclaims : Reachable claims) (a : α) : Reachable (claims.claim a)
  | rollback {claims : ClaimSet α} (hclaims : Reachable claims) (checkpoint : Int) :
      Reachable (claims.rollback checkpoint).2
  | replay {claims : ClaimSet α} (hclaims : Reachable claims) (batch : List α) :
      Reachable (claims.replay batch)

/-- The set and the journal agree, and the journal has no repetition. -/
structure Consistent (claims : ClaimSet α) : Prop where
  mem_claimed : ∀ a, a ∈ claims.claimed ↔ a ∈ claims.journal
  nodup : claims.journal.Nodup

theorem contains_iff : claims.contains a = true ↔ a ∈ claims.claimed :=
  Std.ExtHashSet.contains_iff_mem

/-- Consistent claims are known by their journal. -/
theorem Consistent.eq_of_journal (hclaims : claims.Consistent) (hlater : later.Consistent)
    (hjournal : claims.journal = later.journal) : claims = later := by
  obtain ⟨claimed, journal⟩ := claims
  obtain ⟨claimed', journal'⟩ := later
  obtain rfl : journal = journal' := hjournal
  have hset : claimed = claimed' := by
    apply Std.ExtHashSet.ext_mem
    intro a
    exact (hclaims.mem_claimed a).trans (hlater.mem_claimed a).symm
  rw [hset]

theorem claimed_claim (claims : ClaimSet α) (a : α) :
    (claims.claim a).claimed = claims.claimed.insert a := by
  unfold claim
  split
  next hmem =>
    apply Std.ExtHashSet.ext_mem
    intro b
    rw [Std.ExtHashSet.mem_insert, beq_iff_eq]
    constructor
    · exact .inr
    · rintro (rfl | hb)
      · exact contains_iff.mp hmem
      · exact hb
  next => rfl

theorem claimed_replay (claims : ClaimSet α) (batch : List α) :
    (claims.replay batch).claimed = claims.claimed.insertMany batch := by
  induction batch generalizing claims with
  | nil => simp [replay]
  | cons a batch ih =>
      rw [replay, List.foldl_cons, ← replay, ih, claimed_claim, Std.ExtHashSet.insertMany_cons]

theorem replay_append (claims : ClaimSet α) (batch more : List α) :
    claims.replay (batch ++ more) = (claims.replay batch).replay more :=
  List.foldl_append

theorem prefix_journal_claim (claims : ClaimSet α) (a : α) :
    claims.journal <+: (claims.claim a).journal := by
  unfold claim
  split
  · exact List.prefix_refl _
  · exact List.prefix_append _ _

theorem prefix_journal_replay (claims : ClaimSet α) (batch : List α) :
    claims.journal <+: (claims.replay batch).journal := by
  induction batch generalizing claims with
  | nil => exact List.prefix_refl _
  | cons a batch ih => exact (prefix_journal_claim claims a).trans (ih (claims.claim a))

/-- Claims that are new and different go into the journal as they are. -/
theorem journal_replay (hnodup : batch.Nodup) (hnew : ∀ a ∈ batch, a ∉ claims.claimed) :
    (claims.replay batch).journal = claims.journal ++ batch := by
  induction batch generalizing claims with
  | nil => simp [replay]
  | cons a batch ih =>
      obtain ⟨ha, hbatch⟩ := List.nodup_cons.mp hnodup
      have hfree : ¬ claims.contains a = true := fun hmem =>
        hnew a List.mem_cons_self (contains_iff.mp hmem)
      have hrest : ∀ b ∈ batch, b ∉ (claims.claim a).claimed := by
        intro b hb hmem
        rw [claimed_claim, Std.ExtHashSet.mem_insert, beq_iff_eq] at hmem
        rcases hmem with rfl | hmem
        · exact ha hb
        · exact hnew b (List.mem_cons_of_mem _ hb) hmem
      have hhere : (claims.claim a).journal = claims.journal ++ [a] := by rw [claim, if_neg hfree]
      rw [replay, List.foldl_cons, ← replay, ih hbatch hrest, hhere, List.append_assoc,
        List.singleton_append]

theorem journal_replay_empty (hnodup : batch.Nodup) : (empty.replay batch).journal = batch :=
  journal_replay hnodup fun _ _ => Std.ExtHashSet.not_mem_empty

theorem consistent_empty : (empty : ClaimSet α).Consistent :=
  ⟨fun a => by simp [empty], List.nodup_nil⟩

theorem Consistent.claim (hclaims : claims.Consistent) (a : α) : (claims.claim a).Consistent := by
  unfold ClaimSet.claim
  split
  next => exact hclaims
  next hfree =>
    rw [contains_iff, hclaims.mem_claimed] at hfree
    refine ⟨?_, ?_⟩
    · intro b
      rw [Std.ExtHashSet.mem_insert, beq_iff_eq, hclaims.mem_claimed, List.mem_append,
        List.mem_singleton, or_comm, eq_comm]
    · exact List.nodup_append'.mpr ⟨hclaims.nodup, List.nodup_singleton a, by simpa using hfree⟩

theorem Consistent.replay (hclaims : claims.Consistent) (batch : List α) :
    (claims.replay batch).Consistent := by
  induction batch generalizing claims with
  | nil => exact hclaims
  | cons a batch ih => exact ih (hclaims.claim a)

theorem Consistent.rollback (hclaims : claims.Consistent) (checkpoint : Int) :
    (claims.rollback checkpoint).2.Consistent := by
  refine ⟨?_, hclaims.nodup.sublist (List.take_sublist _ _)⟩
  intro a
  have hsplit := List.take_append_drop (Text.placeOf claims.journal.length checkpoint) claims.journal
  have hnodup := hclaims.nodup
  rw [← hsplit, List.nodup_append'] at hnodup
  have hmem := hclaims.mem_claimed a
  rw [← hsplit, List.mem_append] at hmem
  simp only [ClaimSet.rollback, Std.ExtHashSet.mem_diff_iff, Std.ExtHashSet.mem_ofList,
    List.contains_iff_mem, hmem]
  -- nothing stands in the journal twice, so what is kept is not undone elsewhere
  constructor
  · rintro ⟨hkept | hundone, hnot⟩
    · exact hkept
    · exact absurd hundone hnot
  · intro hkept
    exact ⟨.inl hkept, hnodup.2.2 hkept⟩

theorem Reachable.consistent (hclaims : claims.Reachable) : claims.Consistent := by
  induction hclaims with
  | empty => exact consistent_empty
  | claim _ a ih => exact ih.claim a
  | rollback _ checkpoint ih => exact ih.rollback checkpoint
  | replay _ batch ih => exact ih.replay batch

/-- Going back to a checkpoint undoes what came after it and gives the claims as they were. -/
theorem Consistent.rollback_checkpoint (hclaims : claims.Consistent) (hlater : later.Consistent)
    (hgrown : claims.journal <+: later.journal) :
    later.rollback claims.checkpoint = (later.journal.drop claims.journal.length, claims) := by
  have hplace : Text.placeOf later.journal.length claims.checkpoint = claims.journal.length := by
    simp [Text.placeOf, checkpoint]
  have hjournal : (later.rollback claims.checkpoint).2.journal = claims.journal := by
    obtain ⟨more, hmore⟩ := hgrown
    change later.journal.take (Text.placeOf _ _) = _
    rw [hplace, ← hmore, List.take_left]
  refine Prod.ext ?_ ((hlater.rollback claims.checkpoint).eq_of_journal hclaims hjournal)
  change later.journal.drop (Text.placeOf _ _) = _
  rw [hplace]

end Gleaner.ClaimSet
