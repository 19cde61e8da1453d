import ClassDocs.Unicode.CaseMapping
import ClassDocs.Unicode.WhiteSpace

/-!
# Camel case

Words joined by underscores, or by the separators of paths, become one word in which each further
part starts with a capital. Underscores around a name are kept, and so is a name without small
letters, which is a constant's.
-/

namespace ClassDocs.Naming

open Text Unicode

def isUnderscore (c : Char) : Bool :=
  c == '_'

/-- A text without underscores in which the character after each run of them is a capital; `capital`
tells whether such a run has just ended. -/
def joinWords (capital : Bool) : Text → Text
  | [] => []
  | c :: rest =>
    if isUnderscore c then joinWords true rest
    else (if capital then uppercase c else [c]) ++ joinWords false rest

def leadingUnderscores (name : Text) : Text :=
  name.takeWhile isUnderscore

def core (name : Text) : Text :=
  trim isUnderscore name

/-- The underscores at the end of a name; none when they are all of it. -/
def trailingUnderscores (name : Text) : Text :=
  ((trimStart isUnderscore name).reverse.takeWhile isUnderscore).reverse

def toCamel (name : Text) : Text :=
  if (core name).any isUnderscore && (core name).any isLowercase then
    leadingUnderscores name ++ joinWords false (core name) ++ trailingUnderscores name
  else name

def isSeparator (c : Char) : Bool :=
  c == '/' || c == '\\' || c == ':' || c == '.' || isWhiteSpace c

/-- A segment with its first character in lower case, unless it has no small letter. -/
def lowerFirst (segment : Text) : Text :=
  match segment with
  | [] => []
  | c :: rest => if segment.any isLowercase then lowercase c ++ rest else segment

def upperFirst : Text → Text
  | [] => []
  | c :: rest => uppercase c ++ rest

def joinSegments (name : Text) : Text :=
  match (name.splitOnP isSeparator).filter fun segment => !segment.isEmpty with
  | [] => []
  | first :: rest => lowerFirst (toCamel first) ++ rest.flatMap fun s => upperFirst (toCamel s)

def cased (name : Text) : Text :=
  if name.any isSeparator then joinSegments name else toCamel name

end ClassDocs.Naming
