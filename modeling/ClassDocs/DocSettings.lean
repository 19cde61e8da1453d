import ClassDocs.Text.Basic

/-!
# Documentation settings

The choices that documentation is rendered with.
-/

namespace ClassDocs

structure DocSettings where
  /-- The language of code blocks that name none, and the only one kept of a group of samples. -/
  language : Text
  baseUrl : Text
  deriving DecidableEq, Repr

namespace DocSettings

def defaultLanguage : Text :=
  "gdscript".toList

def defaultBaseUrl : Text :=
  "https://docs.godotengine.org/en/stable".toList

def default : DocSettings :=
  ⟨defaultLanguage, defaultBaseUrl⟩

end DocSettings

end ClassDocs
