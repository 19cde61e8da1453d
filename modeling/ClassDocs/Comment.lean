import ClassDocs.Text.Replace

/-!
# Comment blocks

A documentation comment stands between an opening and a closing delimiter, with a star before each
of its lines. The closing delimiter is escaped wherever the lines hold it.
-/

namespace ClassDocs.Comment

open Text

def opening : Text :=
  "/**".toList

def margin : Text :=
  " * ".toList

def emptyLine : Text :=
  " *".toList

def closing : Text :=
  " */".toList

def terminator : Text :=
  "*/".toList

/-- The terminator with a backslash inside it, which ends nothing. -/
def escapedTerminator : Text :=
  "*\\/".toList

def escape (content : Text) : Text :=
  replaceAll terminator escapedTerminator content

/-- A line of a comment; an empty one carries no space at its end. -/
def framedLine (line : Text) : Text :=
  if (escape line).isEmpty then emptyLine else margin ++ escape line

def frame (ls : List Text) : Text :=
  opening ++ '\n' :: (ls.flatMap fun line => framedLine line ++ ['\n']) ++ closing

end ClassDocs.Comment
