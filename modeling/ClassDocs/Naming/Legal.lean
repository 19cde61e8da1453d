import ClassDocs.Naming.Camel

/-!
# Legal identifiers

An identifier starts with a letter, an underscore or a dollar sign, goes on with letters, digits and
underscores, all of them ASCII, and is no reserved word. Any text can be made into one.
-/

namespace ClassDocs.Naming

open Text

def reservedWords : List Text :=
  ["arguments", "await", "break", "case", "catch", "class", "const", "continue", "debugger",
    "default", "delete", "do", "else", "enum", "eval", "export", "extends", "false", "finally",
    "for", "function", "if", "implements", "import", "in", "instanceof", "interface", "let", "new",
    "null", "package", "private", "protected", "public", "return", "static", "super", "switch",
    "this", "throw", "true", "try", "typeof", "var", "void", "while", "with", "yield"].map
    String.toList

def isReserved (name : Text) : Bool :=
  reservedWords.contains name

def isStartChar (c : Char) : Bool :=
  c.isAlpha || c == '_' || c == '$'

def isLegal : Text → Bool
  | [] => false
  | c :: rest => isStartChar c && rest.all isWordChar && !isReserved (c :: rest)

/-- A name with an underscore in place of each character that an identifier cannot have there. -/
def replaceIllegal : Text → Text
  | [] => []
  | c :: rest =>
    (if isWordChar c || c == '$' then c else '_') :: rest.map fun d => if isWordChar d then d else '_'

def guardStart : Text → Text
  | [] => ['_']
  | c :: rest => if c.isDigit then '_' :: c :: rest else c :: rest

def guardReserved (name : Text) : Text :=
  if isReserved name then name ++ ['_'] else name

/-- The identifier made of a name by replacing what is illegal and by adding at most one
underscore. -/
def legalize (name : Text) : Text :=
  guardReserved (guardStart (replaceIllegal name))

/-- The identifier made of any text: its case is settled before illegal characters are replaced. -/
def sanitize (name : Text) : Text :=
  legalize (cased name)

end ClassDocs.Naming
