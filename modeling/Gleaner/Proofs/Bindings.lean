import Gleaner.Extract.TextPattern
import Gleaner.Proofs.Characters
import Gleaner.Proofs.Names
import Gleaner.Proofs.TextRuns
import Mathlib.Data.List.DropRight

/-! # What a slot binds

Text and attributes of a node are bound one after the other, each under its own name, and a pattern has
one capture for each binding. Whatever raw text a binding is given, it comes to a value of its kind, or
to no value if it may.
-/

namespace Gleaner

namespace Text

theorem trimRight_eq_rdropWhile (s : Text) : trimRight s = s.rdropWhile isBlank := rfl

theorem trimLeft_trimRight_trimLeft (s : Text) :
    trimLeft (trimRight (trimLeft s)) = trimRight (trimLeft s) := by
  cases hright : trimRight (trimLeft s) with
  | nil => rfl
  | cons c kept =>
      -- what is left begins as before, and there it does not begin with a blank
      have hfront : c :: kept <+: trimLeft s := by
        rw [← hright]
        exact List.rdropWhile_prefix isBlank _
      obtain ⟨rest, hrest⟩ := hfront
      have hhead := forall_head?_dropWhile isBlank s
      rw [← trimLeft, ← hrest] at hhead
      exact trimLeft_cons_of_not (hhead c rfl)

/-- Without white space at its ends a text stays as it is. -/
theorem trim_trim (s : Text) : trim (trim s) = trim s := by
  unfold trim
  rw [trimLeft_trimRight_trimLeft, trimRight_eq_rdropWhile, trimRight_eq_rdropWhile]
  exact List.rdropWhile_idempotent _ _

/-- Without white space at its first and last place there is nothing to trim. -/
theorem trim_of_ends {s : Text} (hfirst : ∀ c ∈ s.head?, isBlank c = false)
    (hlast : ∀ c ∈ s.getLast?, isBlank c = false) : trim s = s := by
  cases s with
  | nil => rfl
  | cons c s =>
      rw [trim, trimLeft_cons_of_not (hfirst c rfl), trimRight_eq_rdropWhile,
        List.rdropWhile_eq_self_iff]
      intro hne
      simpa using hlast _ (List.getLast?_eq_some_getLast hne)

end Text

namespace Binding

/-- A value of the kind of the binding, or none. Text has something in it and nothing to trim. -/
def Admits (b : Binding) : Value → Prop
  | .null => True
  | .text t => b.kind = .string ∧ t ≠ [] ∧ Text.trim t = t
  | .number _ => b.kind = .number
  | .records _ => False

/-- The binding may set the field, as part of something that may be missing if `missing`. -/
structure Gives (b : Binding) (missing : Bool) (field : Text × Value) : Prop where
  name : field.1 = b.name
  admits : b.Admits field.2
  nullable : field.2 = .null → b.nullable = true ∨ missing = true

theorem gives_of_coerce {b : Binding} {raw : Option Text} {value : Value} (missing : Bool)
    (hvalue : b.coerce raw = .value value) : b.Gives missing (b.name, value) := by
  unfold coerce at hvalue
  dsimp only at hvalue
  split at hvalue
  next =>
    split at hvalue
    next hnullable =>
      obtain rfl := Bound.value.inj hvalue
      exact ⟨rfl, trivial, fun _ => .inl hnullable⟩
    next => cases hvalue
  next hsome =>
    split at hvalue
    next hkind =>
      obtain rfl := Bound.value.inj hvalue
      exact ⟨rfl, ⟨hkind, by simpa using hsome, Text.trim_trim _⟩, nofun⟩
    next hkind =>
      split at hvalue
      next =>
        obtain rfl := Bound.value.inj hvalue
        exact ⟨rfl, hkind, nofun⟩
      next => cases hvalue
    next => cases hvalue

end Binding

namespace Bound

variable {α β : Type} {b : Bound α} {next : α → Bound β} {c : β}

theorem bind_eq_value : b.bind next = .value c ↔ ∃ a, b = .value a ∧ next a = .value c := by
  cases b with
  | value a => simp [bind]
  | misfit reason => simp [bind]
  | unknownKind name => simp [bind]

end Bound

/-- Adds the values that bindings take from raw texts to a record, one after the other. -/
def bindEach (r : Record) : List (Binding × Option Text) → Bound Record
  | [] => .value r
  | (binding, raw) :: more =>
    (binding.coerce raw).bind fun value => bindEach (r.set binding.name value) more

theorem bindCaptures_eq (r : Record) (pairs : List (Binding × Text)) :
    bindCaptures r pairs = bindEach r (pairs.map fun pair => (pair.1, some pair.2)) := by
  induction pairs generalizing r with
  | nil => rfl
  | cons pair more ih => simp only [bindCaptures, ih, List.map_cons, bindEach]

theorem bindAttributes_eq (e : Element) (r : Record) (attributes : List (Text × Binding)) :
    bindAttributes e r attributes =
      bindEach r (attributes.map fun pair => (pair.2, e.rawAttribute pair.1)) := by
  induction attributes generalizing r with
  | nil => rfl
  | cons pair more ih => simp only [bindAttributes, ih, List.map_cons, bindEach]

/-- Binding one after the other adds the names in order, and every new field is one that a binding may
set. -/
theorem bindEach_value {r s : Record} {pairs : List (Binding × Option Text)}
    (hbind : bindEach r pairs = .value s) :
    s.names = (pairs.map (·.1.name)).foldl Record.addName r.names ∧
      ∀ field ∈ s, field ∈ r ∨ ∃ b ∈ pairs.map (·.1), b.Gives false field := by
  induction pairs generalizing r with
  | nil =>
      obtain rfl := Bound.value.inj hbind
      exact ⟨rfl, fun field => .inl⟩
  | cons pair more ih =>
      rw [bindEach, Bound.bind_eq_value] at hbind
      obtain ⟨value, hvalue, hmore⟩ := hbind
      obtain ⟨hnames, hfields⟩ := ih hmore
      constructor
      · rw [hnames, Record.names_set, List.map_cons, List.foldl_cons]
        rfl
      · intro field hfield
        rcases hfields field hfield with hset | ⟨b, hb, hgives⟩
        · rcases Record.mem_of_mem_set hset with rfl | hr
          · exact .inr ⟨pair.1, List.mem_cons_self, Binding.gives_of_coerce false hvalue⟩
          · exact .inl hr
        · exact .inr ⟨b, List.mem_cons_of_mem _ hb, hgives⟩

/-- Where every binding takes its value and no name comes up twice, the record grows by a field for each. -/
theorem bindEach_of_forall {r : Record} {pairs : List (Binding × Option Text)}
    {value : Binding × Option Text → Value}
    (hvalues : ∀ pair ∈ pairs, pair.1.coerce pair.2 = .value (value pair))
    (hnodup : (r.names ++ pairs.map (·.1.name)).Nodup) :
    bindEach r pairs = .value (r ++ pairs.map fun pair => (pair.1.name, value pair)) := by
  induction pairs generalizing r with
  | nil => rw [bindEach, List.map_nil, List.append_nil]
  | cons pair more ih =>
      obtain ⟨hvalue, hmore⟩ := List.forall_mem_cons.mp hvalues
      have hnew : pair.1.name ∉ r.names := by
        intro hmem
        exact (List.nodup_append.mp hnodup).2.2 _ hmem _ List.mem_cons_self rfl
      have hset : (r.set pair.1.name (value pair)).names = r.names ++ [pair.1.name] := by
        rw [Record.names_set, if_neg hnew]
      rw [List.map_cons, List.append_cons, ← hset] at hnodup
      rw [bindEach, hvalue, Bound.bind, ih hmore hnodup, Record.set_of_notMem hnew, List.append_assoc]
      rfl

namespace TextPattern

def isCapture : Piece → Bool
  | .capture _ => true
  | _ => false

variable {s : Text}

theorem length_matchHere {pieces : List Piece} {captures : List Text}
    (hmatch : matchHere pieces s = some captures) :
    captures.length = pieces.countP isCapture := by
  induction pieces generalizing s captures with
  | nil =>
      obtain rfl := Option.some.inj hmatch
      rfl
  | cons piece more ih =>
      cases piece with
      | word w =>
          rw [matchHere] at hmatch
          split at hmatch
          next => exact ih hmatch
          next => cases hmatch
      | blanks required =>
          rw [matchHere] at hmatch
          obtain ⟨result, hrun, rfl⟩ := Option.map_eq_some_iff.mp hmatch
          obtain ⟨rest, -, hrest, -⟩ := longestRun_some hrun
          exact ih hrest
      | capture required =>
          rw [matchHere] at hmatch
          obtain ⟨result, hrun, rfl⟩ := Option.map_eq_some_iff.mp hmatch
          obtain ⟨rest, -, hrest, -⟩ := longestRun_some hrun
          rw [List.length_cons, ih hrest, List.countP_cons_of_pos rfl]
      | textEnd =>
          rw [matchHere] at hmatch
          split at hmatch
          next => exact ih hmatch
          next => cases hmatch

theorem length_search {p : TextPattern} {captures : List Text}
    (hsearch : p.search s = some captures) : captures.length = p.pieces.countP isCapture := by
  have hfrom : ∀ s, searchFrom p.pieces s = some captures →
      captures.length = p.pieces.countP isCapture := by
    intro s hsearch
    induction s with
    | nil => exact length_matchHere hsearch
    | cons c s ih =>
        rw [searchFrom, Option.or_eq_some_iff] at hsearch
        rcases hsearch with hhere | ⟨-, hlater⟩
        · exact length_matchHere hhere
        · exact ih hlater
  unfold search at hsearch
  split at hsearch
  next => exact length_matchHere hsearch
  next => exact hfrom s hsearch

theorem countP_literalPieces (t : Text) : (literalPieces t).countP isCapture = 0 := by
  unfold literalPieces
  induction Text.words t with
  | nil => rfl
  | cons w more ih =>
      cases more with
      | nil => rfl
      | cons next more => simpa [isCapture] using ih

theorem countP_segmentPieces (segment : Segment) :
    (segmentPieces segment).countP isCapture = segment.binding?.toList.length := by
  cases segment with
  | literal t => exact countP_literalPieces t
  | field binding => rfl

/-- A pattern has as many captures as there are bindings. -/
theorem countP_ofSegments (segments : List Segment) :
    (ofSegments segments).pieces.countP isCapture =
      (segments.filterMap Segment.binding?).length := by
  have hpieces : ([Piece.blanks false].intercalate (segments.map segmentPieces)).countP isCapture =
      (segments.flatMap fun segment => segment.binding?.toList).length := by
    induction segments with
    | nil => rfl
    | cons segment more ih =>
        have hsegment := countP_segmentPieces segment
        cases more with
        | nil => simpa using hsegment
        | cons next more =>
            have hblanks : [Piece.blanks false].countP isCapture = 0 := rfl
            rw [List.map_cons, List.map_cons, List.intercalate_cons_cons, List.countP_append,
              List.countP_append, hsegment, hblanks, ← List.map_cons, ih, Nat.add_zero,
              ← List.length_append]
            rfl
  rw [List.filterMap_eq_flatMap_toList]
  unfold ofSegments
  simp only [List.countP_append, hpieces]
  split <;> split <;> simp [isCapture]

end TextPattern

/-- The text of a node gives the bindings of the text their values. -/
theorem bindText_value {segments : List Segment} {s : Text} {r : Record}
    (hbind : bindText segments s = .value r) :
    r.names = ((segments.filterMap Segment.binding?).map Binding.name).foldl Record.addName [] ∧
      ∀ field ∈ r, ∃ b ∈ segments.filterMap Segment.binding?, b.Gives false field := by
  unfold bindText at hbind
  split at hbind
  next =>
    obtain rfl := Bound.value.inj hbind
    exact ⟨rfl, nofun⟩
  next binding =>
    rw [Bound.map, Bound.bind_eq_value] at hbind
    obtain ⟨value, hvalue, hr⟩ := hbind
    obtain rfl := Bound.value.inj hr
    refine ⟨rfl, ?_⟩
    intro field hfield
    obtain rfl := List.mem_singleton.mp hfield
    exact ⟨binding, List.mem_singleton_self _, Binding.gives_of_coerce false hvalue⟩
  next =>
    dsimp only at hbind
    split at hbind
    next => cases hbind
    next captures hsearch =>
      have hlength := (TextPattern.length_search hsearch).trans
        (TextPattern.countP_ofSegments segments)
      have hpairs := List.map_fst_zip hlength.ge
      rw [bindCaptures_eq] at hbind
      obtain ⟨hnames, hfields⟩ := bindEach_value hbind
      rw [List.map_map] at hnames hfields
      constructor
      · conv_rhs => rw [← hpairs, List.map_map]
        exact hnames
      · intro field hfield
        rcases hfields field hfield with hnone | ⟨b, hb, hgives⟩
        · simp at hnone
        · exact ⟨b, hpairs ▸ hb, hgives⟩

/-- What the text gave, the attributes complete to the record of the slot. -/
theorem bindSlot_value {slot : Slot} {e : Element} {s : Text} {own r : Record}
    (hown : (if slot.text.isEmpty then .value [] else bindText slot.text s) = Bound.value own)
    (hbind : bindAttributes e own slot.attributes = .value r) :
    r.names = slot.declared.foldl Record.addName [] ∧
      ∀ field ∈ r, ∃ b ∈ slot.bindings, b.Gives false field := by
  have htext : bindText slot.text s = .value own := by
    split at hown
    next hempty =>
      rw [List.isEmpty_iff.mp hempty]
      exact hown
    next => exact hown
  obtain ⟨hownNames, hownFields⟩ := bindText_value htext
  rw [bindAttributes_eq] at hbind
  obtain ⟨hnames, hfields⟩ := bindEach_value hbind
  rw [List.map_map] at hnames hfields
  constructor
  · rw [hnames, hownNames, Slot.declared, Slot.bindings, List.map_append, List.foldl_append,
      List.map_map]
    rfl
  · intro field hfield
    rcases hfields field hfield with howned | ⟨b, hb, hgives⟩
    · obtain ⟨b, hb, hgives⟩ := hownFields field howned
      exact ⟨b, List.mem_append_left _ hb, hgives⟩
    · exact ⟨b, List.mem_append_right _ hb, hgives⟩

end Gleaner
