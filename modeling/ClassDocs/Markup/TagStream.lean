import ClassDocs.Markup.Slice

/-!
# The tags of a text

Each slice makes one tag, and neighbouring tags of plain text are merged.
-/

namespace ClassDocs

def Tag.ofSlice : Text → Tag
  | ['\n'] => .newline
  | '`' :: '`' :: '`' :: info => .rawFence (Text.nonEmpty? info) ('`' :: '`' :: '`' :: info)
  | '[' :: body => (Tag.ofBody? body.dropLast).getD .bracket
  | content => .text content

/-- Tags with every run of plain text made one tag. -/
def mergeText : List Tag → List Tag
  | [] => []
  | .text s :: rest =>
    match mergeText rest with
    | .text t :: tags => .text (s ++ t) :: tags
    | tags => .text s :: tags
  | tag :: rest => tag :: mergeText rest

def tagsOf (source : Text) : List Tag :=
  mergeText ((slices source).map Tag.ofSlice)

end ClassDocs
