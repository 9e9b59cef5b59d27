import Gleaner.Extract.Claims
import Gleaner.Extract.TextPattern
import Gleaner.Selector.Search
import Std.Data.HashMap

/-! # Searching for a template

A template is matched with the nodes of a document slot by slot. Every node that a slot's selector finds
and that is not claimed is tried; of the nodes on which the slot succeeds those around another one are
dropped. A child slot takes the candidate whose matches lie deepest in sum, a listing takes all.
Claims of a candidate are undone as soon as it has been tried and made again once it is chosen, so that
no node is bound twice.
-/

namespace Gleaner

/-- What ends a search without a result. -/
inductive SearchError where
  | selector (error : SelectorError)
  | unknownKind (name : Text)
  /-- More attempts were made than allowed. -/
  | budget (limit : Int)
deriving DecidableEq

def SearchError.message : SearchError → Text
  | selector error => error.message
  | unknownKind name => "Invalid property type: ".toList ++ name
  | budget limit => "Extraction aborted after ".toList ++ Text.ofInt limit ++ " match attempts".toList

/-- A remark on the course of a search. -/
inductive SearchNote where
  | rejected (index : Nat) (selector : Text) (reason : Misfit)
  /-- How many nodes a selector found under a node, on how many its slot succeeded, and how many of
  those were kept. -/
  | tally (selector : Text) (found matched kept under : Nat)
deriving DecidableEq

def SearchNote.message : SearchNote → Text
  | rejected index selector reason =>
    '#' :: Text.ofNat index ++ " rejected for <".toList ++ selector ++ ">: ".toList ++ reason.message
  | tally selector found matched kept under =>
    '<' :: selector ++ ">: ".toList ++ Text.ofNat found ++ " found, ".toList ++ Text.ofNat matched ++
      " matched, ".toList ++ Text.ofNat kept ++ " kept under #".toList ++ Text.ofNat under

/-- The changing part of a search. -/
structure SearchState where
  /-- The nodes that are bound, by number. -/
  claims : ClaimSet Nat
  /-- The number of attempts, the one that broke the limit included. -/
  attempts : Nat
  /-- The texts of nodes that were asked for before, by the number of the node. -/
  texts : Std.HashMap Nat Text
  /-- The remarks, the latest first. -/
  notes : List SearchNote

def SearchState.empty : SearchState := ⟨.empty, 0, ∅, []⟩

/-- A step of a search. What it did to the state stays also if it fails. -/
abbrev SearchM := ExceptT SearchError (StateM SearchState)

/-- What a search works on: a document, and the number of attempts allowed if there is a limit. -/
structure SearchScope where
  document : Document
  limit : Option Int

/-- A successful match of a slot and all below it with a node. -/
structure Candidate where
  node : Node
  record : Record
  /-- The depths of all matched nodes together, those of listings left out. -/
  depthSum : Nat
  /-- The nodes that the match binds, in the order of binding. -/
  claimed : List Nat

/-- The first of the candidates with the greatest sum of depths. -/
def deepest? : List Candidate → Option Candidate
  | [] => none
  | c :: more =>
    match deepest? more with
    | none => some c
    | some best => if c.depthSum < best.depthSum then some best else some c

/-- The candidates whose nodes are not around the node of another one. -/
def Document.innermost (doc : Document) (candidates : List Candidate) : List Candidate :=
  candidates.filter fun c => !candidates.any fun other => doc.isAncestor c.node other.node

namespace Search

def modifyClaims (change : ClaimSet Nat → ClaimSet Nat) : SearchM Unit :=
  modify fun state => { state with claims := change state.claims }

/-- Undoes the claims since a checkpoint. -/
def rollback (checkpoint : Nat) : SearchM (List Nat) :=
  modifyGet fun state =>
    let (undone, claims) := state.claims.rollback checkpoint
    (undone, { state with claims := claims })

def note (remark : SearchNote) : SearchM Unit :=
  modify fun state => { state with notes := remark :: state.notes }

/-- Counts an attempt, and fails if it is one too many. -/
def countAttempt (limit : Option Int) : SearchM Unit := do
  modify fun state => { state with attempts := state.attempts + 1 }
  match limit with
  | none => pure ()
  | some limit => if limit < (← get).attempts then throw (.budget limit)

/-- The separator between the texts of a node and those below it. -/
def textSeparator : Text := ['\t']

/-- The text of a node, which is put together only once. -/
def textOf (n : Node) : SearchM Text := do
  match (← get).texts[n.index]? with
  | some t => pure t
  | none =>
    let t := n.textContent textSeparator
    modify fun state => { state with texts := state.texts.insert n.index t }
    pure t

/-- A record that was bound for a slot on a node. A misfit is noted and gives none. -/
def settle (slot : Slot) (n : Node) : Bound Record → SearchM (Option Record)
  | .value r => pure (some r)
  | .misfit reason => do
    note (.rejected n.index slot.selector reason)
    pure none
  | .unknownKind name => throw (.unknownKind name)

/-- The record that a slot's own text and attributes bind on a node. -/
def bindSlot (slot : Slot) (n : Node) : SearchM (Option Record) := do
  let bound ← if slot.text.isEmpty then pure (.value []) else
    pure (bindText slot.text (← textOf n))
  match ← settle slot n bound with
  | none => pure none
  | some r => settle slot n (bindAttributes n.element r slot.attributes)

/-- Tries every node that is not claimed, and undoes the claims of each attempt. -/
def tryEach (attempt : Node → SearchM (Option (Record × Nat))) : List Node → SearchM (List Candidate)
  | [] => pure []
  | n :: more => do
    if (← get).claims.contains n.index then tryEach attempt more
    else
      let checkpoint := (← get).claims.checkpoint
      let outcome ← attempt n
      let claimed ← rollback checkpoint
      let candidates ← tryEach attempt more
      match outcome with
      | none => pure candidates
      | some (record, depthSum) => pure (⟨n, record, depthSum, claimed⟩ :: candidates)

/-- The candidates of a slot under a node, when `attempt` tries a single node. -/
def candidates (scope : SearchScope) (slot : Slot)
    (attempt : Node → SearchM (Option (Record × Nat))) (under : Node) (self direct : Bool) :
    SearchM (List Candidate) := do
  match scope.document.selectAll under slot.selector self (if direct then some 1 else none) with
  | .error error => throw (.selector error)
  | .ok found =>
    let matched ← tryEach attempt found
    let kept := scope.document.innermost matched
    note (.tally slot.selector found.length matched.length kept.length under.index)
    pure kept

/-- Matches one slot with a node, when `inside` matches what stands below the slot. The node is claimed
last. -/
def matchSlot (scope : SearchScope) (slot : Slot)
    (inside : Record × Nat → SearchM (Option (Record × Nat))) (n : Node) :
    SearchM (Option (Record × Nat)) := do
  countAttempt scope.limit
  match ← bindSlot slot n with
  | none => pure none
  | some record =>
    match ← inside (record, n.depth) with
    | none => pure none
    | some result =>
      modifyClaims (·.claim n.index)
      pure (some result)

/-- Matches parts of a template below a node, given the record and the sum of depths so far. A child
without candidates fails the match unless it is optional. -/
def matchParts (scope : SearchScope) :
    Parts → Node → Record × Nat → SearchM (Option (Record × Nat))
  | .done, _, result => pure (some result)
  | .child slot below after, n, (record, depthSum) => do
    let found ← candidates scope slot (fun m => matchSlot scope slot (matchParts scope below m) m) n
      false slot.direct
    match deepest? found with
    | none =>
      if slot.optional then
        matchParts scope after n (record.update (Template.emptyRecord ⟨slot, below⟩), depthSum)
      else pure none
    | some best =>
      modifyClaims (·.replay best.claimed)
      matchParts scope after n (record.update best.record, depthSum + best.depthSum)
  | .listing name slot below, n, (record, depthSum) => do
    let found ← candidates scope slot (fun m => matchSlot scope slot (matchParts scope below m) m) n
      false false
    modifyClaims fun claims => found.foldl (fun claims item => claims.replay item.claimed) claims
    pure (some (record.set name (.records (found.map (·.record))), depthSum))

def matchOne (scope : SearchScope) (t : Template) (n : Node) : SearchM (Option (Record × Nat)) :=
  matchSlot scope t.slot (matchParts scope t.below n) n

/-- All matches of a template under a node: on the node itself if `self` allows it, and only right
below it if `direct` asks for that. -/
def matchMany (scope : SearchScope) (t : Template) (under : Node) (self direct : Bool) :
    SearchM (List Candidate) :=
  candidates scope t.slot (matchOne scope t) under self direct

end Search

def SearchM.runFrom {α : Type} (step : SearchM α) (state : SearchState) :
    Except SearchError α × SearchState :=
  (ExceptT.run step).run state

end Gleaner
