import Gleaner.Template.Basic
import Mathlib.Data.List.Nodup

/-! # Names in a record

Setting fields adds names at the end, each one once, and moves none. The names of a record are
therefore known from the sequence of names that were set, whatever the values are and however often one
of the names came up. A template has such a sequence, read off its slots in order.
-/

namespace Gleaner

/-- A pair is what looking up its name gives if no other value has the name. -/
theorem lookup_of_unique {α : Type} {pairs : List (Text × α)} {name : Text} {value : α}
    (hpair : (name, value) ∈ pairs) (honly : ∀ other, (name, other) ∈ pairs → other = value) :
    pairs.lookup name = some value := by
  induction pairs with
  | nil => cases hpair
  | cons held more ih =>
      obtain ⟨other, first⟩ := held
      rw [List.lookup_cons]
      by_cases hname : name = other
      · obtain rfl := hname
        rw [beq_self_eq_true, honly first List.mem_cons_self]
      · rw [beq_false_of_ne hname]
        refine ih ?_ fun later hlater => honly later (List.mem_cons_of_mem _ hlater)
        rcases List.mem_cons.mp hpair with heq | hlater
        · exact absurd (congrArg Prod.fst heq) hname
        · exact hlater

/-- With every name once, a pair is what looking up its name gives. -/
theorem lookup_of_mem {α : Type} {pairs : List (Text × α)} {name : Text} {value : α}
    (hnodup : (pairs.map (·.1)).Nodup) (hpair : (name, value) ∈ pairs) :
    pairs.lookup name = some value :=
  lookup_of_unique hpair fun _ hother =>
    congrArg Prod.snd (List.inj_on_of_nodup_map hnodup hother hpair rfl)

namespace Record

variable {names more : List Text} {name other : Text} {value : Value} {field : Text × Value}

/-- The names with one more at the end if it was not there. -/
def addName (names : List Text) (name : Text) : List Text :=
  if name ∈ names then names else names ++ [name]

theorem mem_addName : other ∈ addName names name ↔ other ∈ names ∨ other = name := by
  unfold addName
  split
  next hmem =>
    constructor
    · exact .inl
    · rintro (hother | rfl)
      · exact hother
      · exact hmem
  next => rw [List.mem_append, List.mem_singleton]

theorem mem_foldl_addName : name ∈ more.foldl addName names ↔ name ∈ names ∨ name ∈ more := by
  induction more generalizing names with
  | nil => simp
  | cons first more ih => rw [List.foldl_cons, ih, mem_addName, List.mem_cons, or_assoc]

theorem nodup_foldl_addName (hnames : names.Nodup) : (more.foldl addName names).Nodup := by
  induction more generalizing names with
  | nil => exact hnames
  | cons first more ih =>
      apply ih
      unfold addName
      split
      next => exact hnames
      next hnew =>
        exact List.nodup_append'.mpr ⟨hnames, List.nodup_singleton first, by simpa using hnew⟩

/-- Adding names one by one and then the result to others is adding all of them to the others. -/
theorem foldl_addName_foldl (more seen names : List Text) :
    (more.foldl addName seen).foldl addName names =
      more.foldl addName (seen.foldl addName names) := by
  induction more generalizing seen with
  | nil => rfl
  | cons first more ih =>
      rw [List.foldl_cons, ih, List.foldl_cons]
      congr 1
      by_cases hseen : first ∈ seen
      · rw [addName, if_pos hseen, addName, if_pos (mem_foldl_addName.mpr (.inr hseen))]
      · rw [addName, if_neg hseen, List.foldl_append]
        rfl

theorem names_foldl_setDefault (bindings : List Binding) (r : Record) :
    Record.names (bindings.foldl (fun r binding => r.setDefault binding.name .null) r) =
      (bindings.map Binding.name).foldl addName r.names := by
  induction bindings generalizing r with
  | nil => rfl
  | cons binding more ih => rw [List.foldl_cons, ih, names_setDefault]; rfl

theorem names_update (r s : Record) : (r.update s).names = s.names.foldl addName r.names := by
  unfold update
  induction s generalizing r with
  | nil => rfl
  | cons field more ih => rw [List.foldl_cons, ih, names_set]; rfl

/-- A new name is added at the end. -/
theorem set_of_notMem {r : Record} (hname : name ∉ r.names) (value : Value) :
    r.set name value = r ++ [(name, value)] := by
  induction r with
  | nil => rfl
  | cons field more ih =>
      obtain ⟨hother, hmore⟩ := not_or.mp (mt List.mem_cons.mpr hname)
      rw [set, if_neg (Ne.symm hother), ih hmore]
      rfl

theorem mem_of_mem_set {r : Record} (hfield : field ∈ r.set name value) :
    field = (name, value) ∨ field ∈ r := by
  induction r with
  | nil => exact .inl (List.mem_singleton.mp hfield)
  | cons held more ih =>
      rw [set] at hfield
      split at hfield
      next =>
        exact (List.mem_cons.mp hfield).imp_right (List.mem_cons_of_mem _)
      next =>
        rcases List.mem_cons.mp hfield with rfl | hfield
        · exact .inr List.mem_cons_self
        · exact (ih hfield).imp_right (List.mem_cons_of_mem _)

theorem mem_of_mem_setDefault {r : Record} (hfield : field ∈ r.setDefault name value) :
    field = (name, value) ∨ field ∈ r := by
  unfold setDefault at hfield
  split at hfield
  next => exact .inr hfield
  next =>
    rcases List.mem_append.mp hfield with hfield | hfield
    · exact .inr hfield
    · exact .inl (List.mem_singleton.mp hfield)

theorem mem_of_mem_update {r s : Record} (hfield : field ∈ r.update s) :
    field ∈ s ∨ field ∈ r := by
  unfold update at hfield
  induction s generalizing r with
  | nil => exact .inr hfield
  | cons set more ih =>
      rcases ih hfield with hmore | hfield
      · exact .inl (List.mem_cons_of_mem _ hmore)
      · rcases mem_of_mem_set hfield with rfl | hfield
        · exact .inl List.mem_cons_self
        · exact .inr hfield

end Record

/-- The names that the text and the attributes of a slot are bound to, in order. -/
def Slot.declared (slot : Slot) : List Text := slot.bindings.map Binding.name

/-- The names that stand in parts of a template, in order. Those inside a listing are left out. -/
def Parts.declared : Parts → List Text
  | .done => []
  | .child slot below after => slot.declared ++ (below.declared ++ after.declared)
  | .listing name _ _ => [name]

def Template.declared (t : Template) : List Text := t.slot.declared ++ t.below.declared

theorem Slot.names_addEmpty (slot : Slot) (r : Record) :
    (slot.addEmpty r).names = slot.declared.foldl Record.addName r.names :=
  Record.names_foldl_setDefault slot.bindings r

theorem Parts.names_addEmpty (parts : Parts) (r : Record) :
    (parts.addEmpty r).names = parts.declared.foldl Record.addName r.names := by
  induction parts generalizing r with
  | done => rfl
  | child slot below after ihbelow ihafter =>
      rw [addEmpty, ihafter, ihbelow, Slot.names_addEmpty, declared, List.foldl_append,
        List.foldl_append]
  | listing name slot below => exact Record.names_setDefault r name _

namespace Template

/-- The names of a template are those that stand in it, each at its first place. -/
theorem fieldNames_eq (t : Template) : t.fieldNames = t.declared.foldl Record.addName [] := by
  rw [fieldNames, emptyRecord, Parts.names_addEmpty, Slot.names_addEmpty, declared,
    List.foldl_append]
  rfl

theorem nodup_fieldNames (t : Template) : t.fieldNames.Nodup := by
  rw [fieldNames_eq]
  exact Record.nodup_foldl_addName List.nodup_nil

theorem mem_fieldNames {t : Template} {name : Text} : name ∈ t.fieldNames ↔ name ∈ t.declared := by
  rw [fieldNames_eq, Record.mem_foldl_addName]
  simp

end Template
end Gleaner
