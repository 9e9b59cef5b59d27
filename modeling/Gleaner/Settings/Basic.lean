import Gleaner.Typed.Load

/-! # Settings

What applies to every extraction unless the caller says otherwise: tags to leave out, a limit on
attempts, and a selector for the root of the search. Settings are loaded strictly and have no
other keys.
-/

namespace Gleaner

structure Settings where
  skipTags : List Text
  maxAttempts : Option Int
  rootSelector : Option Text
deriving DecidableEq

namespace Settings

def standard : Settings := ⟨[], none, none⟩

def typeName : Text := "ExtractorConfig".toList

def skipTagsName : Text := "skip_tags".toList

def maxAttemptsName : Text := "max_attempts".toList

def rootSelectorName : Text := "root_selector".toList

/-- The type of settings. -/
def schema : Schema :=
  .object (.model ⟨true, true⟩) typeName
    [(skipTagsName, .list .text, some (.list [])), (maxAttemptsName, .optional .int, some .null),
      (rootSelectorName, .optional .text, some .null)]

/-- Settings as the datum that loading gives. -/
def toDatum (settings : Settings) : Datum :=
  .object typeName
    [(skipTagsName, .list (settings.skipTags.map .text)),
      (maxAttemptsName, (settings.maxAttempts.map Datum.int).getD .null),
      (rootSelectorName, (settings.rootSelector.map Datum.text).getD .null)]

def textOf? : Datum → Option Text
  | .text t => some t
  | _ => none

def intOf? : Datum → Option Int
  | .int i => some i
  | _ => none

def ofDatum : Datum → Settings
  | .object _ [(_, .list tags), (_, attempts), (_, selector)] =>
    ⟨tags.filterMap textOf?, intOf? attempts, textOf? selector⟩
  | _ => standard

/-- Settings from a datum; `path` is its name in messages. -/
def load (d : Datum) (path : Text) : Except LoadError Settings :=
  (schema.load d path none).result.map ofDatum

end Settings
end Gleaner
