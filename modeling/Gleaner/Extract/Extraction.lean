import Gleaner.Extract.Search

/-! # Extraction

Records for a template from a document: all of them, or the one whose matches lie deepest. The search
may be confined to the first node that a root selector finds.
-/

namespace Gleaner

/-- Why there is no record. -/
inductive ExtractError where
  | root (error : SelectError)
  | search (error : SearchError)
  /-- Nothing fits the template under the root selector, in a document that may itself be the error. -/
  | noMatch (rootSelector : Option Text) (document : Option DocumentError)
deriving DecidableEq

def ExtractError.message : ExtractError → Text
  | root error => error.message
  | search error => error.message
  | noMatch rootSelector document =>
    "No elements found matching the template".toList ++
      (match rootSelector.filter (!·.isEmpty) with
        | some selector => " under ".toList ++ Text.quote selector
        | none => []) ++
      (match document with
        | some error => " (document could not be parsed: ".toList ++ error.message ++ [')']
        | none => [])

/-- A remark on the course of an extraction. -/
inductive ExtractNote where
  | search (note : SearchNote)
  | finished (records attempts : Nat)
deriving DecidableEq

def ExtractNote.message : ExtractNote → Text
  | search note => note.message
  | finished records attempts =>
    Text.ofNat records ++ " record(s) after ".toList ++ Text.ofNat attempts ++ " attempt(s)".toList

/-- The outcome of an extraction and the remarks made on the way. -/
structure Extraction (α : Type) where
  result : Except ExtractError α
  notes : List ExtractNote

namespace Extraction

/-- The node to which a root selector confines a search. An empty selector confines nothing. -/
def rootOf (doc : Document) (rootSelector : Option Text) : Except SelectError Node :=
  match rootSelector.filter (!·.isEmpty) with
  | none => .ok doc.root
  | some selector => doc.selectOrFail doc.root selector true

/-- The candidates of a template in a document. -/
def run (t : Template) (doc : Document) (rootSelector : Option Text) (limit : Option Int) :
    Extraction (List Candidate) :=
  match rootOf doc rootSelector with
  | .error error => ⟨.error (.root error), []⟩
  | .ok root =>
    let (result, state) := (Search.matchMany ⟨doc, limit⟩ t root true false).runFrom .empty
    let notes := state.notes.reverse.map ExtractNote.search
    match result with
    | .error error => ⟨.error (.search error), notes⟩
    | .ok found => ⟨.ok found, notes ++ [.finished found.length state.attempts]⟩

/-- The record of the candidate whose matches lie deepest, the first of these in document order. -/
def first (t : Template) (doc : Document) (rootSelector : Option Text) (limit : Option Int) :
    Extraction Record :=
  let found := run t doc rootSelector limit
  ⟨found.result.bind fun candidates =>
    match deepest? candidates with
    | some best => .ok best.record
    | none => .error (.noMatch rootSelector doc.error), found.notes⟩

/-- The records of all candidates in document order. -/
def all (t : Template) (doc : Document) (rootSelector : Option Text) (limit : Option Int) :
    Extraction (List Record) :=
  let found := run t doc rootSelector limit
  ⟨found.result.map fun candidates => candidates.map (·.record), found.notes⟩

end Extraction
end Gleaner
