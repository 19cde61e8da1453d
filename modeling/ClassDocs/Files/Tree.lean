import ClassDocs.Files.Path

/-!
# File trees

The files within reach, as a value. Where a path leads to, through links, dots and the current
directory, is the file system's to say, so a tree is any assignment of what is found to paths.
-/

namespace ClassDocs

/-- What a path leads to. A file or directory can be there and still not be readable. -/
inductive Entry where
  | missing
  /-- A regular file, with its bytes or the reason why they cannot be read. -/
  | file (content : Except Text ByteArray)
  /-- A directory, a device or a place that cannot be reached, with what reading it gives. -/
  | other (content : Except Text ByteArray)

def Entry.content? : Entry → Option (Except Text ByteArray)
  | .missing => none
  | .file content | .other content => some content

structure FileTree where
  entryAt : Text → Entry

inductive ReadFailure where
  | missing
  | failed (reason : Text)
  deriving DecidableEq, Repr

namespace ReadFailure

def notText : ReadFailure :=
  .failed "stream did not contain valid UTF-8".toList

def message : ReadFailure → Text
  | missing => "No such file or directory (os error 2)".toList
  | failed reason => reason

end ReadFailure

namespace FileTree

/-- Whether a path leads to a regular file, readable or not. -/
def isFile (tree : FileTree) (path : Text) : Bool :=
  match tree.entryAt path with
  | .file _ => true
  | _ => false

def readText (tree : FileTree) (path : Text) : Except ReadFailure Text :=
  match (tree.entryAt path).content? with
  | none => .error .missing
  | some (.error reason) => .error (.failed reason)
  | some (.ok bytes) =>
    match String.fromUTF8? bytes with
    | some text => .ok text.toList
    | none => .error .notText

end FileTree

end ClassDocs
