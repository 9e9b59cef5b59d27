import Gleaner.Settings.Basic
import Gleaner.Yaml.Document

/-! # Settings from files

A file of settings is a mapping, which may say the version of its form. A file that does not exist gives
the standard settings, as does an empty one.
-/

namespace Gleaner

/-- Why a file gives no settings. -/
inductive SettingsError where
  | directory (path : Text)
  /-- The path is longer than a path can be, or a name in it than the name of a file. -/
  | longName (path : Text)
  /-- The bytes are no text. -/
  | encoding
  | yaml (path : Text)
  /-- The text is well formed but has no value. -/
  | fault (fault : Yaml.Fault)
  | notMapping (path type : Text)
  | version (path found : Text)
  /-- An integer that the message would have to name has more digits than are shown. -/
  | longInteger
  | load (error : LoadError)
  | attempts (path : Text) (found : Int)
deriving DecidableEq

namespace Settings

/-- The version of the form that files have. -/
def version : Int := 1

def versionName : Text := "schema_version".toList

end Settings

/-- The message of an error; bytes that are no text have none. -/
def SettingsError.message? : SettingsError → Option Text
  | directory path => some ("[Errno 21] Is a directory: ".toList ++ Text.quote path)
  | longName path => some ("[Errno 36] File name too long: ".toList ++ Text.quote path)
  | encoding => none
  | yaml path => some (path ++ ": invalid YAML".toList)
  | fault cause => cause.message?
  | notMapping path type =>
    some (path ++ ": expected a mapping at top level, got ".toList ++ type)
  | version path found =>
    some (path ++ ": unsupported config schema ".toList ++ found ++ " (expected ".toList ++
      Text.ofInt Settings.version ++ [')'])
  | longInteger => Yaml.Fault.longInteger.message?
  | load error => some error.message
  | attempts path found =>
    some (path ++ '.' :: Settings.maxAttemptsName ++ ": must be positive, got ".toList ++
      Text.ofInt found)

namespace Settings

/-- Settings that a search can use: a limit on attempts has to be positive. -/
def checkAttempts (path : Text) (settings : Settings) : Except SettingsError Settings :=
  match settings.maxAttempts with
  | some limit =>
    if 0 < limit then .ok settings
    else if Datum.isLong limit then .error .longInteger
    else .error (.attempts path limit)
  | none => .ok settings

/-- What makes settings of a datum that has the given name in messages. -/
abbrev Validator := Datum → Text → Except LoadError Settings

def ofEntries (validate : Validator) (path : Text) (entries : List (Datum × Datum)) :
    Except SettingsError Settings :=
  let found := (lookupName versionName entries).getD (.int version)
  if !found.equalsInt version then
    .error (if found.holdsLong then .longInteger else .version path found.shown)
  else
    match validate (.dict (entries.filter fun entry => !entry.1.sameKey (.text versionName))) path with
    | .error error => .error (.load error)
    | .ok settings => checkAttempts path settings

/-- Settings from what the text of a file was read as. What counts as nothing counts as an empty mapping. -/
def ofDocument (validate : Validator) (path : Text) :
    Except Yaml.Fault Datum → Except SettingsError Settings
  | .error .malformed => .error (.yaml path)
  | .error fault => .error (.fault fault)
  | .ok d =>
    if d.isEmpty then ofEntries validate path []
    else
      match d with
      | .dict entries => ofEntries validate path entries
      | d => .error (.notMapping path d.typeName)

/-- Settings from the bytes of a file, when `read` gives the datum of a text and `validate` the settings of a
datum. -/
def ofBytes (read : Text → Except Yaml.Fault Datum) (validate : Validator) (path : Text) (bytes : ByteArray) :
    Except SettingsError Settings :=
  match String.fromUTF8? bytes with
  | none => .error .encoding
  | some s => ofDocument validate path (read s.toList)

/-- A path in its shortest spelling: without empty steps and steps to where one is. -/
def shownPath (path : Text) : Text :=
  let steps := (path.splitOn '/').filter fun step => !step.isEmpty && step != ['.']
  let absolute := path.head? == some '/'
  if steps.isEmpty then (if absolute then ['/'] else ['.'])
  else (if absolute then ['/'] else []) ++ ['/'].intercalate steps

/-- Whether a path leads to a directory wherever one is: it has no steps, or none but steps upwards. -/
def isDirectory (path : Text) : Bool :=
  (path.splitOn '/').all fun step => step.isEmpty || step == ['.'] || step == ['.', '.']

/-- The number of bytes of a text. -/
def byteCount (s : Text) : Nat := (String.ofList s).utf8ByteSize

/-- The most bytes of a path. -/
def longestPath : Nat := 4095

/-- The most bytes of the name of a file. -/
def longestName : Nat := 255

/-- Whether a path is too long, or the first name in it. The names behind that one are not looked at,
since no directory is there to hold them. -/
def isTooLong (path : Text) : Bool :=
  longestPath < byteCount path ||
    ((path.splitOn '/').find? fun step => !step.isEmpty && step != ['.', '.']).any
      (longestName < byteCount ·)

/-- Settings from the file at a path, when `files` gives the bytes of the files there are, `read` the datum of
a text and `validate` the settings of a datum. -/
def ofFileWith (read : Text → Except Yaml.Fault Datum) (validate : Validator)
    (files : Text → Option ByteArray) (path : Text) : Except SettingsError Settings :=
  if isTooLong (shownPath path) then .error (.longName (shownPath path))
  else if isDirectory path then .error (.directory (shownPath path))
  else
    match files (shownPath path) with
    | none => .ok standard
    | some bytes => ofBytes read validate (shownPath path) bytes

/-- Settings from the file at a path, whose text is read as a document and loaded as the type of settings. -/
def ofFile (files : Text → Option ByteArray) (path : Text) : Except SettingsError Settings :=
  ofFileWith Yaml.read load files path

/-- The settings that apply by default: those of the file that `location` names, if it names one. -/
def byDefault (files : Text → Option ByteArray) (location : Option Text) :
    Except SettingsError Settings :=
  match location.filter (!·.isEmpty) with
  | none => .ok standard
  | some path => ofFile files path

end Settings
end Gleaner
