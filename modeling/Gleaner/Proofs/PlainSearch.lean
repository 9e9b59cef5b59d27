import Gleaner.Extract.Search

/-! # The search without state

The same search with nothing to undo: what is claimed is a value that is passed down, every candidate
of one slot is tried from the same claims, and the claims of a candidate are added only once it is
chosen. Texts are put together whenever they are asked for. Only attempts are counted on the way.
-/

namespace Gleaner

/-- The attempts that were made and what came of them. -/
structure Tally (α : Type) where
  attempts : Nat
  outcome : Except SearchError α

namespace Tally

variable {α β : Type}

def attempt : Tally Unit := ⟨1, .ok ()⟩

def fail (error : SearchError) : Tally α := ⟨0, .error error⟩

/-- An error ends everything; the attempts up to it stay counted. -/
def bind (first : Tally α) (next : α → Tally β) : Tally β :=
  match first.outcome with
  | .error error => ⟨first.attempts, .error error⟩
  | .ok a => ⟨first.attempts + (next a).attempts, (next a).outcome⟩

instance : Monad Tally where
  pure a := ⟨0, .ok a⟩
  bind := bind

theorem bind_of_error {first : Tally α} {error : SearchError} (next : α → Tally β)
    (hfirst : first.outcome = .error error) :
    first >>= next = ⟨first.attempts, .error error⟩ := by
  change bind first next = _
  rw [bind, hfirst]

theorem bind_of_ok {first : Tally α} {a : α} (next : α → Tally β)
    (hfirst : first.outcome = .ok a) :
    first >>= next = ⟨first.attempts + (next a).attempts, (next a).outcome⟩ := by
  change bind first next = _
  rw [bind, hfirst]

/-- A sequence succeeds exactly if its parts do. -/
@[simp] theorem outcome_bind_eq_ok {first : Tally α} {next : α → Tally β} {b : β} :
    (first >>= next).outcome = .ok b ↔
      ∃ a, first.outcome = .ok a ∧ (next a).outcome = .ok b := by
  cases hfirst : first.outcome with
  | error error => simp [bind_of_error next hfirst]
  | ok a => simp [bind_of_ok next hfirst]

@[simp] theorem outcome_pure_eq_ok {a b : α} : (pure a : Tally α).outcome = .ok b ↔ a = b := by
  change Except.ok a = .ok b ↔ a = b
  simp

@[simp] theorem outcome_fail_ne_ok {error : SearchError} {a : α} :
    (fail error : Tally α).outcome ≠ .ok a := by simp [fail]

@[simp] theorem outcome_attempt : attempt.outcome = .ok () := rfl

end Tally

/-- Sets of numbers are sets by equality. -/
instance equivBEqNat : EquivBEq Nat := inferInstance

instance lawfulHashableNat : LawfulHashable Nat := inferInstance

/-- What the text and the attributes of a node give for a slot. -/
def Slot.bound (slot : Slot) (n : Node) : Bound Record :=
  (if slot.text.isEmpty then .value [] else
    bindText slot.text (n.textContent Search.textSeparator)).bind fun r =>
      bindAttributes n.element r slot.attributes

/-- What a match of a slot and some of the parts below it has come to so far. -/
structure Fit where
  record : Record
  depthSum : Nat
  /-- The nodes bound by the match, in the order of binding. -/
  claimed : List Nat

/-- The match together with a candidate that was chosen for its next child. -/
def Fit.choose (fit : Fit) (c : Candidate) : Fit :=
  ⟨fit.record.update c.record, fit.depthSum + c.depthSum, fit.claimed ++ c.claimed⟩

namespace Plain

/-- A misfit gives no record; an unknown kind ends the search. -/
def settle : Bound Record → Tally (Option Record)
  | .value r => pure (some r)
  | .misfit _ => pure none
  | .unknownKind name => .fail (.unknownKind name)

/-- The candidates among the nodes that are not taken. -/
def tryEach (attempt : Node → Tally (Option Fit)) (taken : Std.ExtHashSet Nat) :
    List Node → Tally (List Candidate)
  | [] => pure []
  | n :: more =>
    if n.index ∈ taken then tryEach attempt taken more
    else do
      let outcome ← attempt n
      let candidates ← tryEach attempt taken more
      match outcome with
      | none => pure candidates
      | some fit => pure (⟨n, fit.record, fit.depthSum, fit.claimed⟩ :: candidates)

def candidates (doc : Document) (slot : Slot) (attempt : Node → Tally (Option Fit))
    (taken : Std.ExtHashSet Nat) (under : Node) (self direct : Bool) : Tally (List Candidate) :=
  match doc.selectAll under slot.selector self (if direct then some 1 else none) with
  | .error error => .fail (.selector error)
  | .ok found => do
    let matched ← tryEach attempt taken found
    pure (doc.innermost matched)

/-- Matches one slot with a node, when `inside` matches what stands below the slot. -/
def matchSlot (slot : Slot) (inside : Fit → Tally (Option Fit)) (n : Node) : Tally (Option Fit) := do
  Tally.attempt
  match ← settle (slot.bound n) with
  | none => pure none
  | some record =>
    match ← inside ⟨record, n.depth, []⟩ with
    | none => pure none
    | some fit => pure (some { fit with claimed := fit.claimed ++ [n.index] })

/-- Matches parts of a template below a node, given what is taken and the match so far. -/
def matchParts (doc : Document) :
    Parts → Node → Std.ExtHashSet Nat → Fit → Tally (Option Fit)
  | .done, _, _, fit => pure (some fit)
  | .child slot below after, n, taken, fit => do
    let found ← candidates doc slot (fun m => matchSlot slot (matchParts doc below m taken) m) taken
      n false slot.direct
    match deepest? found with
    | none =>
      if slot.optional then
        matchParts doc after n taken
          { fit with record := fit.record.update (Template.emptyRecord ⟨slot, below⟩) }
      else pure none
    | some best => matchParts doc after n (taken.insertMany best.claimed) (fit.choose best)
  | .listing name slot below, n, taken, fit => do
    let found ← candidates doc slot (fun m => matchSlot slot (matchParts doc below m taken) m) taken
      n false false
    pure (some
      { fit with
        record := fit.record.set name (.records (found.map (·.record)))
        claimed := fit.claimed ++ found.flatMap (·.claimed) })

def matchOne (doc : Document) (t : Template) (taken : Std.ExtHashSet Nat) (n : Node) :
    Tally (Option Fit) :=
  matchSlot t.slot (matchParts doc t.below n taken) n

def matchMany (doc : Document) (t : Template) (taken : Std.ExtHashSet Nat) (under : Node)
    (self direct : Bool) : Tally (List Candidate) :=
  candidates doc t.slot (matchOne doc t taken) taken under self direct

end Plain
end Gleaner
