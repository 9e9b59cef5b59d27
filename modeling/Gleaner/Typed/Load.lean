import Gleaner.Typed.Scalar
import Gleaner.Typed.Schema

/-! # Loading data

A datum is loaded as a schema: the outcome is the datum with everything converted, or all flaws that were
found, in order. Only the first flaw is reported in full.
-/

namespace Gleaner

/-- Why a datum is not loaded. -/
inductive Refusal where
  /-- Parts of it do not fit, as listed in order. -/
  | flaws (found : List Flaw)
  /-- A key was loaded as something of the named type, which is no key. -/
  | keyless (type : Text)
deriving DecidableEq

/-- A loaded value or what prevents it. -/
abbrev Checked (α : Type) := Except Refusal α

namespace Checked

variable {α β : Type}

/-- A flaw in the datum itself. -/
def fail (kind : FlawKind) : Checked α := .error (.flaws [⟨[], kind⟩])

def ofScalar (make : α → Datum) : Except FlawKind α → Checked Datum
  | .ok a => .ok (make a)
  | .error kind => fail kind

/-- Nothing, unless there are flaws. -/
def ofFlaws : List Flaw → Checked Unit
  | [] => .ok ()
  | found => .error (.flaws found)

/-- Flaws inside a part, as seen from the whole. -/
def within (step : PathStep) : Checked α → Checked α
  | .error (.flaws found) => .error (.flaws (found.map (Flaw.within step)))
  | checked => checked

/-- Both values, or the flaws of both, those of the first one first. What is no key ends the loading at
once, whatever flaws there are. -/
def both (a : Checked α) (b : Checked β) : Checked (α × β) :=
  match a, b with
  | .error (.keyless type), _ => .error (.keyless type)
  | _, .error (.keyless type) => .error (.keyless type)
  | .error (.flaws found), .error (.flaws more) => .error (.flaws (found ++ more))
  | .error (.flaws found), .ok _ => .error (.flaws found)
  | .ok _, .error (.flaws found) => .error (.flaws found)
  | .ok a, .ok b => .ok (a, b)

/-- All values, or the flaws of all. -/
def all : List (Checked α) → Checked (List α)
  | [] => .ok []
  | a :: more => (both a (all more)).map fun (a, as) => a :: as

end Checked

/-- The items of a list, with their indices as steps. -/
def checkItems (check : Datum → Checked Datum) (items : List Datum) : Checked (List Datum) :=
  Checked.all (items.zipIdx.map fun (item, i) => (check item).within (.index i))

/-- The step that leads to the value of a key. -/
def Datum.step : Datum → PathStep
  | .text t => .name t
  | .int i => if Datum.isLong i then .name (Datum.int i).unshown else .ofInt i
  | .bool b => .index (if b then 1 else 0)
  | d => if d.holdsLong then .name d.unshown else .name d.shownInside

def keyStep : PathStep := .name "[key]".toList

/-- An entry whose key and value are loaded. -/
def checkKey (entry : Datum × Datum) : Checked (Datum × Datum) :=
  match entry.1.keyless? with
  | some type => .error (.keyless type)
  | none => .ok entry

/-- The entries of a dictionary. The flaws of a key come before those of its value. -/
def checkEntries (loadKey loadValue : Datum → Checked Datum) (entries : List (Datum × Datum)) :
    Checked (List (Datum × Datum)) :=
  Checked.all (entries.map fun (key, value) =>
    ((((loadKey key).within keyStep).both (loadValue value)).within key.step).bind checkKey)

/-- The items of a datum that counts as a list. -/
def listItems? (strict : Bool) : Datum → Option (List Datum)
  | .list items => some items
  | .tuple items => if strict then none else some items
  | _ => none

/-- The items of a datum that counts as a tuple. -/
def tupleItems? (strict : Bool) : Datum → Option (List Datum)
  | .tuple items => some items
  | .list items => if strict then none else some items
  | _ => none

/-- The entry of a dictionary under a textual key. -/
def lookupName (name : Text) (entries : List (Datum × Datum)) : Option Datum :=
  (entries.find? fun entry => entry.1.sameKey (.text name)).map (·.2)

/-- The flaws of keys that are not among the fields. The keys have to be texts, and if the object is
closed, any other than the fields has the flaw `unknown`. -/
def extraFlaws (unknown : FlawKind) (closed : Bool) (names : List Text)
    (entries : List (Datum × Datum)) : List Flaw :=
  entries.filterMap fun (key, _) =>
    match key with
    | .text name => if closed && !names.contains name then some ⟨[.name name], unknown⟩ else none
    | key => some ⟨[key.step], .keyType⟩

/-- A policy as it is in force when the caller asks for a strictness, or does not. -/
def Policy.inForce (own : Policy) (asked : Option Bool) : Policy :=
  { own with strict := asked.getD own.strict }

namespace Schema

mutual

/-- Loads a datum. `asked` is the strictness that the caller asks for, if any, and `policy` is in force:
that of the model around, except that the asked strictness takes precedence. -/
def check (asked : Option Bool) (policy : Policy) : Schema → Datum → Checked Datum
  | .text, d => .ofScalar .text (Scalar.loadText d)
  | .int, d => .ofScalar .int (Scalar.loadInt policy.strict d)
  | .float, d => .ofScalar .float (Scalar.loadFloat policy.strict d)
  | .bool, d => .ofScalar .bool (Scalar.loadBool policy.strict d)
  | .any, d => .ok d
  | .null, .null => .ok .null
  | .null, _ => .fail .notNull
  | .optional _, .null => .ok .null
  | .optional item, d => check asked policy item d
  | .list item, d =>
    match listItems? policy.strict d with
    | some items => (checkItems (fun d => check asked policy item d) items).map .list
    | none => .fail .listType
  | .dict key value, .dict entries =>
    (checkEntries (fun d => check asked policy key d) (fun d => check asked policy value d)
      entries).map .ofEntries
  | .dict _ _, _ => .fail .dictType
  | .tuple schemas, d =>
    match tupleItems? policy.strict d with
    | some items =>
      match checkTuple asked policy schemas 0 items with
      | .error (.keyless type) => .error (.keyless type)
      | checked =>
        if schemas.length < items.length then .fail (.tooLong schemas.length items.length)
        else checked.map .tuple
    | none => .fail .tupleType
  | .tupleOf item, d =>
    match tupleItems? policy.strict d with
    | some items => (checkItems (fun d => check asked policy item d) items).map .tuple
    | none => .fail .tupleType
  | .literal values, d =>
    match d with
    | .text t => if values.contains t then .ok d else .fail (.literal values.eraseDups)
    | _ => .fail (.literal values.eraseDups)
  | .enumeration name members, d =>
    if policy.strict then .fail (.instanceOf name)
    else
      match d with
      | .text t =>
        match members.find? fun entry => entry.2 == t with
        | some entry => .ok (.member name entry.1)
        | none => .fail (.enumeration (members.map (·.2)))
      | _ => .fail (.enumeration (members.map (·.2)))
  | .object .plain name fields, d =>
    if policy.strict then .fail (.exactInstanceOf name)
    else
      match d with
      | .dict entries =>
        ((checkFields asked policy entries fields).both
          (.ofFlaws (extraFlaws .unknownArgument policy.closed (fields.map (·.1)) entries))).map
          fun (values, _) => .object name values
      | _ => .fail (.plainType name)
  | .object (.model own) name fields, d =>
    match d with
    | .dict entries =>
      ((checkFields asked (own.inForce asked) entries fields).both
        (.ofFlaws (if own.closed then extraFlaws .unknownKey true (fields.map (·.1)) entries
          else []))).map
        fun (values, _) => .object name values
    | _ => .fail (.modelType name)

/-- The items of a tuple of fixed length, of which `index` are checked. -/
def checkTuple (asked : Option Bool) (policy : Policy) :
    List Schema → (index : Nat) → List Datum → Checked (List Datum)
  | [], _, _ => .ok []
  | schema :: schemas, index, items =>
    let first : Checked Datum :=
      match items with
      | [] => .fail .missing
      | item :: _ => check asked policy schema item
    ((first.within (.index index)).both
      (checkTuple asked policy schemas (index + 1) items.tail)).map fun (d, ds) => d :: ds

/-- The fields of an object. A missing field takes its value as it is. -/
def checkFields (asked : Option Bool) (policy : Policy) (entries : List (Datum × Datum)) :
    List (Text × Schema × Option Datum) → Checked (List (Text × Datum))
  | [] => .ok []
  | (name, schema, missing) :: fields =>
    let first : Checked Datum :=
      match lookupName name entries, missing with
      | some d, _ => check asked policy schema d
      | none, some d => .ok d
      | none, none => .fail .missing
    ((first.within (.name name)).both (checkFields asked policy entries fields)).map
      fun (d, ds) => (name, d) :: ds

end

end Schema

/-- Why loading fails. -/
inductive LoadError where
  /-- The first flaw, with the path to it from the name of the whole. -/
  | misfit (path : Text) (kind : FlawKind)
  | keyless (type : Text)
deriving DecidableEq

def LoadError.message : LoadError → Text
  | misfit path kind => path ++ ':' :: ' ' :: kind.message
  | keyless type => "unhashable type: ".toList ++ Text.quote type

/-- The outcome of loading and the lines for the log. -/
structure Loading where
  result : Except LoadError Datum
  log : List Text

/-- Loads a datum as a schema. `path` is the name of the whole datum in messages. -/
def Schema.load (schema : Schema) (d : Datum) (path : Text) (strict : Option Bool) : Loading :=
  let started := "Validating ".toList ++ schema.label ++ " at ".toList ++ path
  match schema.check strict (Policy.lenient.inForce strict) d with
  | .ok loaded => ⟨.ok loaded, [started]⟩
  | .error (.keyless type) => ⟨.error (.keyless type), [started]⟩
  | .error (.flaws found) =>
    let first := found.head?.getD ⟨[], .missing⟩
    let place := path ++ first.path.flatMap PathStep.shown
    ⟨.error (.misfit place first.kind),
      [started, Text.ofNat found.length ++ " error(s), first at ".toList ++ place ++ ": ".toList ++
        first.kind.code]⟩

/-- The path under which a datum is loaded when none is given. -/
def defaultPath : Text := ['$']

/-- Whether log lines are written: `setting` asks for it unless it is empty, and asking again adds
nothing. The answer is the number of writers. -/
def logWriters (setting : Text) (requests : Nat) : Nat :=
  if setting.isEmpty ∨ requests = 0 then 0 else 1

/-- A log message as a writer puts it out. It takes more than one line if it holds the end of a line. -/
def logLines (message : Text) : List Text :=
  Text.brokenLines ("[DEBUG] ".toList ++ message ++ ['\n'])

end Gleaner
