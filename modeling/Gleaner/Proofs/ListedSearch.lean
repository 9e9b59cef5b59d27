import Gleaner.Proofs.PlainSearch

/-! # The search on a list of what is taken

Whether a node is taken is all that the search without state asks of what is taken. A set answers by a
hash, which says nothing about the answer before it is run; a list of the same numbers gives the same answers
and can be followed step by step. So what a search comes to on a given document is found with a list.
-/

namespace Gleaner
namespace Plain
namespace Listed

def tryEach (attempt : Node → Tally (Option Fit)) (taken : List Nat) : List Node → Tally (List Candidate)
  | [] => pure []
  | n :: more =>
    if n.index ∈ taken then tryEach attempt taken more
    else do
      let outcome ← attempt n
      let candidates ← tryEach attempt taken more
      match outcome with
      | none => pure candidates
      | some fit => pure (⟨n, fit.record, fit.depthSum, fit.claimed⟩ :: candidates)

def candidates (doc : Document) (slot : Slot) (attempt : Node → Tally (Option Fit)) (taken : List Nat)
    (under : Node) (self direct : Bool) : Tally (List Candidate) :=
  match doc.selectAll under slot.selector self (if direct then some 1 else none) with
  | .error error => .fail (.selector error)
  | .ok found => do
    let matched ← tryEach attempt taken found
    pure (doc.innermost matched)

/-- Matches parts of a template below a node, given what is taken and the match so far. -/
def matchParts (doc : Document) : Parts → Node → List Nat → Fit → Tally (Option Fit)
  | .done, _, _, fit => pure (some fit)
  | .child slot below after, n, taken, fit => do
    let found ← candidates doc slot (fun m => matchSlot slot (matchParts doc below m taken) m) taken
      n false slot.direct
    match deepest? found with
    | none =>
      if slot.optional then
        matchParts doc after n taken
          { fit with record := fit.record.update (Template.emptyRecord ⟨slot, below⟩) }
      else pure none
    | some best => matchParts doc after n (taken ++ best.claimed) (fit.choose best)
  | .listing name slot below, n, taken, fit => do
    let found ← candidates doc slot (fun m => matchSlot slot (matchParts doc below m taken) m) taken
      n false false
    pure (some
      { fit with
        record := fit.record.set name (.records (found.map (·.record)))
        claimed := fit.claimed ++ found.flatMap (·.claimed) })

def matchOne (doc : Document) (t : Template) (taken : List Nat) (n : Node) : Tally (Option Fit) :=
  matchSlot t.slot (matchParts doc t.below n taken) n

def matchMany (doc : Document) (t : Template) (taken : List Nat) (under : Node) (self direct : Bool) :
    Tally (List Candidate) :=
  candidates doc t.slot (matchOne doc t taken) taken under self direct

variable {doc : Document} {slot : Slot} {attempt : Node → Tally (Option Fit)} {parts : Parts} {n : Node}
  {taken : Std.ExtHashSet Nat} {listed : List Nat}

theorem tryEach_eq (hsame : ∀ i, i ∈ taken ↔ i ∈ listed) (nodes : List Node) :
    Plain.tryEach attempt taken nodes = tryEach attempt listed nodes := by
  induction nodes with
  | nil => rfl
  | cons n more ih =>
      rw [Plain.tryEach, tryEach]
      exact ite_congr (propext (hsame n.index)) (fun _ => ih) fun _ => ih ▸ rfl

theorem candidates_eq (hsame : ∀ i, i ∈ taken ↔ i ∈ listed) (under : Node) (self direct : Bool) :
    Plain.candidates doc slot attempt taken under self direct =
      candidates doc slot attempt listed under self direct := by
  unfold Plain.candidates candidates
  cases doc.selectAll under slot.selector self (if direct then some 1 else none) with
  | error error => rfl
  | ok found => exact congrArg (· >>= fun matched => pure (doc.innermost matched)) (tryEach_eq hsame found)

theorem matchParts_eq (hsame : ∀ i, i ∈ taken ↔ i ∈ listed) (fit : Fit) :
    Plain.matchParts doc parts n taken fit = matchParts doc parts n listed fit := by
  induction parts generalizing n taken listed fit with
  | done => rfl
  | child slot below after ihbelow ihafter =>
      have hbelow : ∀ m, Plain.matchParts doc below m taken = matchParts doc below m listed :=
        fun m => funext (ihbelow hsame)
      rw [Plain.matchParts, matchParts, candidates_eq hsame]
      simp only [hbelow]
      congr 1
      funext found
      cases deepest? found with
      | none => simp only [ihafter hsame]
      | some best =>
          refine ihafter (fun i => ?_) _
          rw [Std.ExtHashSet.mem_insertMany_list, List.mem_append, hsame, List.contains_iff_mem]
  | listing name slot below ihbelow =>
      have hbelow : ∀ m, Plain.matchParts doc below m taken = matchParts doc below m listed :=
        fun m => funext (ihbelow hsame)
      rw [Plain.matchParts, matchParts, candidates_eq hsame]
      simp only [hbelow]

theorem matchOne_eq (hsame : ∀ i, i ∈ taken ↔ i ∈ listed) (t : Template) (n : Node) :
    Plain.matchOne doc t taken n = matchOne doc t listed n := by
  rw [Plain.matchOne, matchOne, show Plain.matchParts doc t.below n taken = matchParts doc t.below n listed
    from funext (matchParts_eq hsame)]

/-- With the same numbers in a list the search comes to the same. -/
theorem matchMany_eq (hsame : ∀ i, i ∈ taken ↔ i ∈ listed) (t : Template) (under : Node)
    (self direct : Bool) :
    Plain.matchMany doc t taken under self direct = matchMany doc t listed under self direct := by
  rw [Plain.matchMany, matchMany, candidates_eq hsame,
    show Plain.matchOne doc t taken = matchOne doc t listed from funext (matchOne_eq hsame t)]

end Listed
end Plain
end Gleaner
