import Gleaner.Settings.File
import Mathlib.Data.List.Basic

/-! # What loading a file of settings comes to

Whatever bytes a file holds and however its text is read and made settings of, loading it gives settings with
a limit that a search can use, or says what is wrong with the file. The errors of what loading rests on come
through in three cases: the bytes are no text, the reader itself fails on a text that is not malformed, or the
message would have to name an integer that is too long to be shown.
-/

namespace Gleaner

/-! ### Outcomes of loading -/

namespace Checked

variable {α β : Type} {a : Checked α} {b : Checked β} {step : PathStep}

/-- If a value is not loaded, then for flaws that are found in it. -/
def OnlyFlaws (checked : Checked α) : Prop := ∀ type, checked ≠ .error (.keyless type)

theorem onlyFlaws_ok (x : α) : OnlyFlaws (.ok x) := nofun

theorem onlyFlaws_fail (kind : FlawKind) : OnlyFlaws (fail kind : Checked α) := nofun

theorem onlyFlaws_ofScalar (make : α → Datum) (read : Except FlawKind α) :
    OnlyFlaws (ofScalar make read) := by
  cases read with
  | ok x => exact nofun
  | error kind => exact onlyFlaws_fail kind

theorem onlyFlaws_ofFlaws (found : List Flaw) : OnlyFlaws (ofFlaws found) := by
  cases found with
  | nil => exact nofun
  | cons flaw more => exact nofun

theorem OnlyFlaws.map (ha : a.OnlyFlaws) (change : α → β) : OnlyFlaws (Except.map change a) := by
  intro type h
  cases a with
  | ok x => cases h
  | error refusal => exact ha type (congrArg Except.error (Except.error.inj h))

theorem OnlyFlaws.within (ha : a.OnlyFlaws) (step : PathStep) : OnlyFlaws (a.within step) := by
  intro type h
  unfold Checked.within at h
  split at h
  next => cases h
  next => exact ha type h

theorem OnlyFlaws.both (ha : a.OnlyFlaws) (hb : b.OnlyFlaws) : OnlyFlaws (a.both b) := by
  intro type h
  unfold Checked.both at h
  split at h
  next => exact ha _ rfl
  next => exact hb _ rfl
  all_goals cases h

theorem onlyFlaws_all {parts : List (Checked α)} (hparts : ∀ part ∈ parts, part.OnlyFlaws) :
    OnlyFlaws (all parts) := by
  induction parts with
  | nil => exact onlyFlaws_ok []
  | cons part more ih =>
      obtain ⟨hpart, hmore⟩ := List.forall_mem_cons.mp hparts
      exact (hpart.both (ih hmore)).map _

theorem within_eq_ok {x : α} : a.within step = .ok x ↔ a = .ok x := by
  unfold within
  split
  next => exact ⟨nofun, nofun⟩
  next => exact Iff.rfl

theorem both_eq_ok {x : α} {y : β} : a.both b = .ok (x, y) ↔ a = .ok x ∧ b = .ok y := by
  unfold both
  split
  all_goals simp

theorem map_eq_ok {change : α → β} {y : β} :
    Except.map change a = .ok y ↔ ∃ x, a = .ok x ∧ change x = y := by
  cases a with
  | error refusal => exact ⟨nofun, nofun⟩
  | ok x => simp [Except.map]

end Checked

/-! ### Looking up entries -/

section Lookup

variable {d : Datum} {name other : Text} {entries : List (Datum × Datum)}

theorem Datum.sameKey_text : d.sameKey (.text name) = true ↔ d = .text name := by
  cases d with
  | text t => simp [sameKey]
  | _ => simp [sameKey, number?]

/-- Leaving out the entries of one name changes nothing for the others. -/
theorem lookupName_filter (hname : name ≠ other) :
    lookupName name (entries.filter fun entry => !entry.1.sameKey (.text other)) =
      lookupName name entries := by
  unfold lookupName
  rw [List.find?_filter]
  congr 2
  funext entry
  by_cases hkey : entry.1.sameKey (.text name) = true
  · have hother : ¬ entry.1.sameKey (.text other) = true := by
      rw [Datum.sameKey_text.mp hkey, Datum.sameKey_text]
      exact fun heq => hname (Datum.text.inj heq)
    simp [hkey, hother]
  · simp [hkey]

end Lookup

/-! ### Objects -/

namespace Schema

variable {asked : Option Bool} {policy : Policy} {entries : List (Datum × Datum)}
  {fields : List (Text × Schema × Option Datum)} {name : Text} {schema : Schema} {missing : Option Datum}
  {values : List (Text × Datum)}

theorem onlyFlaws_checkFields
    (hfields : ∀ field ∈ fields, ∀ d, (field.2.1.check asked policy d).OnlyFlaws) :
    (checkFields asked policy entries fields).OnlyFlaws := by
  induction fields with
  | nil => exact Checked.onlyFlaws_ok []
  | cons field more ih =>
      obtain ⟨name, schema, missing⟩ := field
      obtain ⟨hfield, hmore⟩ := List.forall_mem_cons.mp hfields
      unfold checkFields
      refine ((Checked.OnlyFlaws.within ?_ _).both (ih hmore)).map _
      split
      next d _ => exact hfield d
      next => exact Checked.onlyFlaws_ok _
      next => exact Checked.onlyFlaws_fail _

theorem onlyFlaws_check_list {item : Schema} (hitem : ∀ d, (item.check asked policy d).OnlyFlaws) (d : Datum) :
    ((list item).check asked policy d).OnlyFlaws := by
  unfold check
  split
  next items _ =>
    refine Checked.OnlyFlaws.map (Checked.onlyFlaws_all fun part hpart => ?_) _
    obtain ⟨⟨given, i⟩, -, rfl⟩ := List.mem_map.mp hpart
    exact (hitem given).within _
  next => exact Checked.onlyFlaws_fail _

theorem onlyFlaws_check_optional {item : Schema} (hitem : ∀ d, (item.check asked policy d).OnlyFlaws)
    (d : Datum) : ((optional item).check asked policy d).OnlyFlaws := by
  cases d with
  | null => exact Checked.onlyFlaws_ok _
  | _ => exact hitem _

theorem onlyFlaws_check_model {own : Policy} {name : Text}
    (hfields : ∀ field ∈ fields, ∀ d, (field.2.1.check asked (own.inForce asked) d).OnlyFlaws) (d : Datum) :
    ((object (.model own) name fields).check asked policy d).OnlyFlaws := by
  unfold check
  split
  next => exact ((onlyFlaws_checkFields hfields).both (Checked.onlyFlaws_ofFlaws _)).map _
  next => exact Checked.onlyFlaws_fail _

/-- A field that is there is loaded as its type says, and its value is the first of those of the fields. -/
theorem checkFields_cons_eq_ok
    (hvalues : checkFields asked policy entries ((name, schema, missing) :: fields) = .ok values) :
    ∃ d more, values = (name, d) :: more ∧ checkFields asked policy entries fields = .ok more ∧
      match lookupName name entries with
      | some given => schema.check asked policy given = .ok d
      | none => missing = some d := by
  unfold checkFields at hvalues
  obtain ⟨⟨d, more⟩, hboth, rfl⟩ := Checked.map_eq_ok.mp hvalues
  obtain ⟨hfirst, hmore⟩ := Checked.both_eq_ok.mp hboth
  refine ⟨d, more, rfl, hmore, ?_⟩
  have hfirst := Checked.within_eq_ok.mp hfirst
  cases hgiven : lookupName name entries with
  | some given => simpa [hgiven] using hfirst
  | none =>
      cases missing with
      | none => simp [hgiven, Checked.fail] at hfirst
      | some d => simpa [hgiven] using hfirst

end Schema

namespace Settings

variable {path : Text} {entries : List (Datum × Datum)} {settings : Settings} {d loaded : Datum}
  {limit : Int}

/-- The type of settings has no dictionary in it, so nothing that is loaded has to be a key. -/
theorem onlyFlaws_check (asked : Option Bool) (policy : Policy) (d : Datum) :
    (schema.check asked policy d).OnlyFlaws := by
  refine Schema.onlyFlaws_check_model (fun field hfield => ?_) d
  have htext : ∀ own d, (Schema.text.check asked own d).OnlyFlaws := fun own d => by
    unfold Schema.check
    exact Checked.onlyFlaws_ofScalar _ _
  have hint : ∀ own d, (Schema.int.check asked own d).OnlyFlaws := fun own d => by
    unfold Schema.check
    exact Checked.onlyFlaws_ofScalar _ _
  simp only [List.mem_cons, List.not_mem_nil, or_false] at hfield
  rcases hfield with rfl | rfl | rfl
  · exact Schema.onlyFlaws_check_list (htext _)
  · exact Schema.onlyFlaws_check_optional (hint _)
  · exact Schema.onlyFlaws_check_optional (htext _)

theorem exists_misfit_of_load {error : LoadError} (herror : load d path = .error error) :
    ∃ place kind, error = .misfit place kind := by
  unfold load Schema.load at herror
  dsimp only at herror
  split at herror
  next => cases herror
  next type hkeyless => exact absurd hkeyless (onlyFlaws_check _ _ d type)
  next => exact ⟨_, _, (Except.error.inj herror).symm⟩

theorem exists_values_of_load (hload : load (.dict entries) path = .ok settings) :
    ∃ values, Schema.checkFields none ⟨true, true⟩ entries
        [(skipTagsName, .list .text, some (.list [])), (maxAttemptsName, .optional .int, some .null),
          (rootSelectorName, .optional .text, some .null)] = .ok values ∧
      settings = ofDatum (.object typeName values) := by
  unfold load Schema.load at hload
  dsimp only at hload
  split at hload
  next loaded hcheck =>
    unfold schema Schema.check at hcheck
    obtain ⟨⟨values, _⟩, hboth, rfl⟩ := Checked.map_eq_ok.mp hcheck
    exact ⟨values, (Checked.both_eq_ok.mp hboth).1, (Except.ok.inj hload).symm⟩
  next => cases hload
  next => cases hload

theorem eq_int_of_check {given : Datum}
    (hcheck : (Schema.optional .int).check none ⟨true, true⟩ given = .ok (.int limit)) : given = .int limit := by
  cases given with
  | int i => simpa [Schema.check, Scalar.loadInt, Checked.ofScalar] using hcheck
  | _ => simp [Schema.check, Scalar.loadInt, Checked.ofScalar, Checked.fail] at hcheck

theorem eq_int_of_maxAttempts {type first second third : Text} {tags attempts selector : Datum}
    (hlimit : (ofDatum (.object type [(first, tags), (second, attempts), (third, selector)])).maxAttempts =
      some limit) : attempts = .int limit := by
  unfold ofDatum at hlimit
  split at hlimit
  next heq =>
    cases heq
    cases attempts with
    | int i => simpa [intOf?] using hlimit
    | _ => cases hlimit
  next => cases hlimit

/-- A limit that was loaded is the integer that the mapping has for it. -/
theorem lookupName_of_load (hload : load (.dict entries) path = .ok settings)
    (hlimit : settings.maxAttempts = some limit) :
    lookupName maxAttemptsName entries = some (.int limit) := by
  obtain ⟨values, hvalues, rfl⟩ := exists_values_of_load hload
  obtain ⟨tags, _, rfl, hmore, -⟩ := Schema.checkFields_cons_eq_ok hvalues
  obtain ⟨attempts, _, rfl, hmore, hattempts⟩ := Schema.checkFields_cons_eq_ok hmore
  obtain ⟨selector, _, rfl, hmore, -⟩ := Schema.checkFields_cons_eq_ok hmore
  obtain rfl : _ = [] := (Except.ok.inj hmore).symm
  obtain rfl := eq_int_of_maxAttempts hlimit
  cases hgiven : lookupName maxAttemptsName entries with
  | some given =>
      rw [hgiven] at hattempts
      exact congrArg some (eq_int_of_check hattempts)
  | none =>
      rw [hgiven] at hattempts
      cases hattempts

/-- What is relied on where settings are made of a datum: it is refused only for what does not fit, and a limit
is the integer that the mapping has for it. -/
structure Validator.Strict (validate : Validator) : Prop where
  misfit : ∀ d path error, validate d path = .error error → ∃ place kind, error = .misfit place kind
  limit : ∀ entries path settings limit, validate (.dict entries) path = .ok settings →
    settings.maxAttempts = some limit → lookupName maxAttemptsName entries = some (.int limit)

theorem strict_load : Validator.Strict load where
  misfit _ _ _ herror := exists_misfit_of_load herror
  limit _ _ _ _ hload hlimit := lookupName_of_load hload hlimit

/-! ### Outcomes of files -/

/-- Settings that a search can use: where there is a limit, it allows one attempt at least. -/
def Usable (settings : Settings) : Prop := ∀ limit ∈ settings.maxAttempts, 1 ≤ limit

end Settings

/-- Whether an error says what is wrong with a file of settings. The others are errors of what loading
rests on. -/
def SettingsError.isDiagnosis : SettingsError → Bool
  | yaml _ => true
  | notMapping _ _ => true
  | version _ _ => true
  | load (.misfit _ _) => true
  | attempts _ _ => true
  | load (.keyless _) => false
  | directory _ => false
  | longName _ => false
  | encoding => false
  | fault _ => false
  | longInteger => false

namespace Settings

variable {read : Text → Except Yaml.Fault Datum} {validate : Validator} {files : Text → Option ByteArray}
  {path : Text} {bytes : ByteArray} {entries : List (Datum × Datum)} {settings : Settings}
  {error : SettingsError} {d : Datum}

/-- A mapping has an integer that a message would have to name and cannot: a version other than the one that
files have, or a limit that allows no attempt. -/
inductive Unnameable (entries : List (Datum × Datum)) : Prop
  | version {found : Datum} (hfound : lookupName versionName entries = some found)
      (hother : found.equalsInt version = false) (hlong : found.holdsLong = true)
  | attempts {limit : Int} (hlimit : lookupName maxAttemptsName entries = some (.int limit))
      (hnone : limit ≤ 0) (hlong : Datum.isLong limit = true)

/-- The errors that come through when bytes are loaded whose text is read by `read`. -/
inductive ComesThrough (read : Text → Except Yaml.Fault Datum) (bytes : ByteArray) : SettingsError → Prop
  | encoding (hbytes : ∀ s : String, s.toUTF8 ≠ bytes) : ComesThrough read bytes .encoding
  | fault {s : String} (hbytes : s.toUTF8 = bytes) {fault : Yaml.Fault}
      (hread : read s.toList = .error fault) (hother : fault ≠ .malformed) :
      ComesThrough read bytes (.fault fault)
  | longInteger {s : String} (hbytes : s.toUTF8 = bytes) {entries : List (Datum × Datum)}
      (hread : read s.toList = .ok (.dict entries)) (hentries : Unnameable entries) :
      ComesThrough read bytes .longInteger

theorem usable_of_checkAttempts {given : Settings} (hcheck : checkAttempts path given = .ok settings) :
    settings.Usable := by
  unfold checkAttempts at hcheck
  intro limit hlimit
  split at hcheck
  next found hfound =>
    split at hcheck
    next hpos =>
      cases hcheck
      obtain rfl := Option.some.inj (hfound.symm.trans hlimit)
      exact hpos
    next =>
      split at hcheck
      all_goals cases hcheck
  next hnone =>
    cases hcheck
    cases hnone.symm.trans hlimit

theorem error_of_checkAttempts (herror : checkAttempts path settings = .error error) :
    error.isDiagnosis = true ∨ error = .longInteger ∧
      ∃ limit, settings.maxAttempts = some limit ∧ limit ≤ 0 ∧ Datum.isLong limit = true := by
  unfold checkAttempts at herror
  split at herror
  next limit hlimit =>
    split at herror
    next => cases herror
    next hpos =>
      split at herror
      next hlong =>
        cases herror
        exact .inr ⟨rfl, limit, hlimit, Int.not_lt.mp hpos, hlong⟩
      next =>
        cases herror
        exact .inl rfl
  next => cases herror

theorem usable_of_ofEntries (hload : ofEntries validate path entries = .ok settings) : settings.Usable := by
  unfold ofEntries at hload
  dsimp only at hload
  split at hload
  next => cases hload
  next =>
    split at hload
    next => cases hload
    next => exact usable_of_checkAttempts hload

theorem maxAttemptsName_ne_versionName : maxAttemptsName ≠ versionName := by decide

theorem error_of_ofEntries (hvalidate : validate.Strict)
    (herror : ofEntries validate path entries = .error error) :
    error.isDiagnosis = true ∨ error = .longInteger ∧ Unnameable entries := by
  unfold ofEntries at herror
  dsimp only at herror
  split at herror
  next hother =>
    cases herror
    split
    next hlong =>
      -- the version that is meant when none is given is not long
      cases hfound : lookupName versionName entries with
      | none =>
          rw [hfound] at hlong
          exact absurd hlong (by decide)
      | some found =>
          rw [hfound] at hlong hother
          exact .inr ⟨rfl, .version hfound (by simpa using hother) hlong⟩
    next => exact .inl rfl
  next =>
    split at herror
    next misfit hmisfit =>
      cases herror
      obtain ⟨place, kind, rfl⟩ := hvalidate.misfit _ _ _ hmisfit
      exact .inl rfl
    next given hload =>
      refine (error_of_checkAttempts herror).imp_right ?_
      rintro ⟨hlonginteger, limit, hlimit, hnone, hlong⟩
      have hgiven := hvalidate.limit _ _ _ _ hload hlimit
      rw [lookupName_filter maxAttemptsName_ne_versionName] at hgiven
      exact ⟨hlonginteger, .attempts hgiven hnone hlong⟩

theorem usable_of_ofDocument {document : Except Yaml.Fault Datum}
    (hload : ofDocument validate path document = .ok settings) : settings.Usable := by
  unfold ofDocument at hload
  split at hload
  next => cases hload
  next => cases hload
  next =>
    split at hload
    next => exact usable_of_ofEntries hload
    next =>
      split at hload
      next => exact usable_of_ofEntries hload
      next => cases hload

/-- An empty mapping has nothing to name. -/
theorem not_unnameable_nil : ¬ Unnameable [] := by
  rintro (⟨hfound, -, -⟩ | ⟨hlimit, -, -⟩)
  · cases hfound
  · cases hlimit

theorem error_of_ofDocument {document : Except Yaml.Fault Datum} (hvalidate : validate.Strict)
    (herror : ofDocument validate path document = .error error) :
    error.isDiagnosis = true ∨ (∃ fault, error = .fault fault ∧ document = .error fault ∧ fault ≠ .malformed) ∨
      error = .longInteger ∧ ∃ entries, document = .ok (.dict entries) ∧ Unnameable entries := by
  unfold ofDocument at herror
  split at herror
  next =>
    cases herror
    exact .inl rfl
  next fault hfault =>
    cases herror
    exact .inr (.inl ⟨fault, rfl, rfl, hfault⟩)
  next d =>
    split at herror
    next =>
      refine (error_of_ofEntries hvalidate herror).imp_right fun ⟨_, hentries⟩ => ?_
      exact absurd hentries not_unnameable_nil
    next =>
      split at herror
      next entries _ =>
        refine (error_of_ofEntries hvalidate herror).imp_right fun ⟨hlong, hentries⟩ => .inr ?_
        exact ⟨hlong, entries, rfl, hentries⟩
      next =>
        cases herror
        exact .inl rfl

theorem usable_of_ofBytes (hload : ofBytes read validate path bytes = .ok settings) : settings.Usable := by
  unfold ofBytes at hload
  split at hload
  next => cases hload
  next => exact usable_of_ofDocument hload

/-- The text of bytes is the one that has these bytes. -/
theorem fromUTF8?_eq_some {s : String} : String.fromUTF8? bytes = some s ↔ s.toUTF8 = bytes := by
  constructor
  · intro hbytes
    unfold String.fromUTF8? at hbytes
    split at hbytes
    next =>
      cases hbytes
      rfl
    next => cases hbytes
  · rintro rfl
    exact dif_pos s.isValidUTF8

theorem error_of_ofBytes (hvalidate : validate.Strict)
    (herror : ofBytes read validate path bytes = .error error) :
    error.isDiagnosis = true ∨ ComesThrough read bytes error := by
  unfold ofBytes at herror
  split at herror
  next hnone =>
    cases herror
    refine .inr (.encoding ?_)
    intro s hbytes
    rw [fromUTF8?_eq_some.mpr hbytes] at hnone
    cases hnone
  next s hsome =>
    have hbytes := fromUTF8?_eq_some.mp hsome
    refine (error_of_ofDocument hvalidate herror).imp_right ?_
    rintro (⟨fault, rfl, hread, hother⟩ | ⟨rfl, entries, hread, hentries⟩)
    · exact .fault hbytes hread hother
    · exact .longInteger hbytes hread hentries

/-- Loading a file that is there, whatever its bytes are and however a text is read, gives settings that a
search can use or an error. The error says what is wrong with the file, unless the bytes are no text, the
reader fails on a text that it does not call malformed, or there is an integer to be named that is too
long to be shown. -/
theorem ofFileWith_outcome (read : Text → Except Yaml.Fault Datum) (hvalidate : validate.Strict)
    (hfile : files (shownPath path) = some bytes) (hlength : isTooLong (shownPath path) = false)
    (hdirectory : isDirectory path = false) :
    (∃ settings, ofFileWith read validate files path = .ok settings ∧ settings.Usable) ∨
      ∃ error, ofFileWith read validate files path = .error error ∧
        (error.isDiagnosis = true ∨ ComesThrough read bytes error) := by
  have hbytes : ofFileWith read validate files path = ofBytes read validate (shownPath path) bytes := by
    simp [ofFileWith, hlength, hdirectory, hfile]
  rw [hbytes]
  cases houtcome : ofBytes read validate (shownPath path) bytes with
  | ok settings => exact .inl ⟨settings, rfl, usable_of_ofBytes houtcome⟩
  | error error => exact .inr ⟨error, rfl, error_of_ofBytes hvalidate houtcome⟩

/-- A file with a limit that allows no attempt. -/
theorem ofFileWith_outcome_limit :
    let path := "settings.yaml".toList
    let bytes := "max_attempts: 0".toUTF8
    let files : Text → Option ByteArray := fun name => if name = path then some bytes else none
    (Validator.Strict load ∧ files (shownPath path) = some bytes ∧ isTooLong (shownPath path) = false ∧
        isDirectory path = false) ∧
      ofFileWith Yaml.read load files path = .error (.attempts path 0) ∧
      ((∃ settings, ofFileWith Yaml.read load files path = .ok settings ∧ settings.Usable) ∨
        ∃ error, ofFileWith Yaml.read load files path = .error error ∧
          (error.isDiagnosis = true ∨ ComesThrough Yaml.read bytes error)) := by
  intro path bytes files
  have hpath : shownPath path = path := by decide +kernel
  have hfile : files (shownPath path) = some bytes := by
    rw [hpath]
    exact if_pos rfl
  have hlength : isTooLong (shownPath path) = false := by decide +kernel
  have hdirectory : isDirectory path = false := by decide +kernel
  exact ⟨⟨strict_load, hfile, hlength, hdirectory⟩, by decide +kernel,
    ofFileWith_outcome Yaml.read strict_load hfile hlength hdirectory⟩

/-- A letter beyond ASCII in an encoding of single bytes: there are neither settings nor a word on what is
wrong with the file. -/
theorem not_diagnosis_single_byte :
    let path := "settings.yaml".toList
    let bytes := "root_selector: ".toUTF8 ++ ⟨#[0xe9, 0x0a]⟩
    let files : Text → Option ByteArray := fun name => if name = path then some bytes else none
    ¬ ((∃ settings, ofFile files path = .ok settings ∧ settings.Usable) ∨
        ∃ error, ofFile files path = .error error ∧ error.isDiagnosis = true) := by
  intro path bytes files
  have herror : ofFile files path = .error .encoding := by decide +kernel
  rintro (⟨settings, hload, -⟩ | ⟨error, hload, hdiagnosis⟩)
  · cases herror.symm.trans hload
  · cases herror.symm.trans hload
    cases hdiagnosis

end Settings
end Gleaner
