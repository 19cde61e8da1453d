import ClassDocs.Text.Basic

/-!
# Paths

A path is a text. Paths are joined as they are written: nothing is resolved or simplified.
-/

namespace ClassDocs.Path

def isAbsolute (path : Text) : Bool :=
  path.head? == some '/'

/-- The path `file` taken from the directory `dir`. An absolute path stands for itself. -/
def join (dir file : Text) : Text :=
  if isAbsolute file then file
  else if dir.isEmpty || dir.getLast? == some '/' then dir ++ file
  else dir ++ '/' :: file

end ClassDocs.Path
