import Gleaner.Yaml.Scalar

/-! # Nodes

The tree of a document: scalars, sequences and mappings as they are written. A mapping may take over the
entries of other mappings. These are kept apart from its own, because it is free to have keys of its own
that it has taken over, but not to have one key twice.
-/

namespace Gleaner.Yaml

inductive Node where
  | scalar (s : Scalar)
  | sequence (items : List Node)
  /-- The entries that a mapping has taken over, and its own. -/
  | mapping (merged own : List (Node × Node))
  /-- A mapping that is to take over something that has no entries, or to do so twice. -/
  | overloaded

namespace Node

/-- What stands where nothing is written. -/
def empty : Node := scalar .empty

def isMergeKey : Node → Bool
  | scalar s => s.isMerge
  | _ => false

/-- A node as a key: the mark for a default stands for itself there. -/
def asKey : Node → Node
  | scalar s => scalar (if s.isDefault then { s with plain := false } else s)
  | n => n

/-- The entries of a mapping, those that it has taken over before its own. -/
def entries? : Node → Option (List (Node × Node))
  | mapping merged own => some (merged ++ own)
  | _ => none

/-- The entries that a mapping takes over from a node: a mapping, or a sequence of mappings, the first of
which count most and therefore come last. -/
def mergeable? : Node → Option (List (Node × Node))
  | sequence items => (items.mapM entries?).map fun found => found.reverse.flatten
  | n => n.entries?

/-- The mapping with the given entries. -/
def ofEntries (entries : List (Node × Node)) : Node :=
  let add (parts : List (Node × Node) × List (Node × Node)) (entry : Node × Node) :
      Option (List (Node × Node) × List (Node × Node)) :=
    if !entry.1.isMergeKey then some (parts.1, parts.2 ++ [(entry.1.asKey, entry.2)])
    else if parts.1.isEmpty then entry.2.mergeable?.map fun merged => (merged, parts.2)
    else none
  match entries.foldlM add ([], []) with
  | some (merged, own) => mapping merged own
  | none => overloaded

end Node
end Gleaner.Yaml
