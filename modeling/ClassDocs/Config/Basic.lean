import ClassDocs.DocSettings

/-!
# Configurations

The settings of a project, and how they follow from what a configuration says. Each of its sections
and each field of a section may be left out, and then has its default.
-/

namespace ClassDocs

/-- Which names with a leading underscore are public: those listed, and those in a file whose path is
taken from the project's root. -/
structure NamingSettings where
  publicNames : List Text
  nameListPath? : Option Text
  deriving DecidableEq, Repr

def NamingSettings.default : NamingSettings :=
  ⟨[], none⟩

structure Config where
  naming : NamingSettings
  docs : DocSettings
  deriving DecidableEq, Repr

def Config.default : Config :=
  ⟨.default, .default⟩

/-- The section `naming` as it is written, with its fields `public_underscore` and
`public_underscore_file`. -/
structure NamingFields where
  publicNames? : Option (List Text)
  nameListPath? : Option Text
  deriving DecidableEq, Repr

/-- The section `docs` as it is written, with its fields `language` and `base_url`. -/
structure DocsFields where
  language? : Option Text
  baseUrl? : Option Text
  deriving DecidableEq, Repr

structure ConfigFields where
  naming? : Option NamingFields
  docs? : Option DocsFields
  deriving DecidableEq, Repr

def NamingSettings.ofFields (fields : NamingFields) : NamingSettings :=
  ⟨fields.publicNames?.getD [], fields.nameListPath?⟩

def DocSettings.ofFields (fields : DocsFields) : DocSettings :=
  ⟨fields.language?.getD defaultLanguage, fields.baseUrl?.getD defaultBaseUrl⟩

def Config.ofFields (fields : ConfigFields) : Config :=
  ⟨(fields.naming?.map NamingSettings.ofFields).getD .default,
    (fields.docs?.map DocSettings.ofFields).getD .default⟩

/-- The readers of the two notations that settings are kept in, TOML and JSON. What they make of a
text, or the reason why they refuse it, is theirs to say; it depends on nothing but the text. -/
structure Decoders where
  config : Text → Except Text ConfigFields
  /-- An array of strings and nothing else. -/
  names : Text → Except Text (List Text)

end ClassDocs
