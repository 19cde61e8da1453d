import ClassDocs.Text.Basic

/-!
# Load errors

Why a configuration or a list of names cannot be used, with the texts that report it.
-/

namespace ClassDocs

/-- Why something cannot be loaded. Each cause carries the reason found by the reader below it. -/
inductive LoadError where
  | unreadable (reason : Text)
  | badConfig (reason : Text)
  | badNameList (path reason : Text)
  deriving DecidableEq, Repr

namespace LoadError

def message : LoadError → Text
  | .unreadable reason => reason
  | .badConfig reason => "failed to parse config file: ".toList ++ reason
  | .badNameList path reason =>
    "failed to load public name list `".toList ++ path ++ "`: ".toList ++ reason

def code : LoadError → Text
  | .unreadable _ => "gdts::io_error".toList
  | .badConfig _ => "gdts::config_parse".toList
  | .badNameList _ _ => "gdts::public_names".toList

def help? : LoadError → Option Text
  | .unreadable _ => none
  | .badConfig _ =>
    some "check that gdts.toml is valid TOML with [naming] and/or [docs] sections".toList
  | .badNameList _ _ =>
    some
      "the public name list must be a JSON array of strings, e.g. `[\"_get_property_list\"]`".toList

end LoadError

end ClassDocs
