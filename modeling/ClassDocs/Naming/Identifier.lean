import ClassDocs.Naming.Legal
import ClassDocs.Naming.NameSet

/-!
# Visibility of names

A leading underscore marks a name of the engine as internal. The callbacks that scripts override and
the names on a given list are public all the same.
-/

namespace ClassDocs

namespace Naming

def magicHooks : List Text :=
  ["_ready", "_process", "_physics_process", "_input", "_unhandled_input", "_unhandled_key_input",
    "_shortcut_input", "_gui_input", "_enter_tree", "_exit_tree", "_init", "_draw",
    "_notification", "_integrate_forces", "_get_configuration_warnings", "_to_string", "_get",
    "_set", "_get_property_list", "_property_can_revert", "_property_get_revert",
    "_validate_property"].map String.toList

def isMagicHook (name : Text) : Bool :=
  magicHooks.contains name

end Naming

inductive VisibilityRule where
  | magicHook
  | allowListed
  | stripped
  | unchanged
  deriving DecidableEq, Repr

def VisibilityRule.label : VisibilityRule → Text
  | .magicHook => "MagicHook".toList
  | .allowListed => "AllowListed".toList
  | .stripped => "Stripped".toList
  | .unchanged => "Unchanged".toList

structure Identifier where
  name : Text
  rule : VisibilityRule
  deriving DecidableEq, Repr

namespace Identifier

open Naming

def isPrivate (identifier : Identifier) : Bool :=
  decide (identifier.rule = .stripped)

/-- The name as its visibility wants it: only a private name is changed. -/
def classify (publicNames : NameSet) (raw : Text) : Identifier :=
  if isMagicHook raw then ⟨raw, .magicHook⟩
  else if raw ∈ publicNames then ⟨raw, .allowListed⟩
  else if raw.head? = some '_' then ⟨raw.dropWhile isUnderscore, .stripped⟩
  else ⟨raw, .unchanged⟩

/-- The identifier made of a name. Callbacks and listed names keep their spelling as far as it is
legal; all others are put in camel case. -/
def normalize (publicNames : NameSet) (raw : Text) : Identifier :=
  let identifier := classify publicNames raw
  match identifier.rule with
  | .magicHook | .allowListed => { identifier with name := legalize identifier.name }
  | .stripped | .unchanged => { identifier with name := sanitize identifier.name }

end Identifier

end ClassDocs
