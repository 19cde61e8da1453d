import ClassDocs.Markup.Fence
import ClassDocs.Text.Replace

/-!
# Layout of lines

Rendered lines are tidied outside code blocks only: they lose the spaces around them, and an empty
line is put before a code block and before a section heading. A line is read by its role, which
depends on the length of the fence that is open before it.
-/

namespace ClassDocs.Layout

open Text Unicode

def admonitionLabels : List Text :=
  ["Note:".toList, "Warning:".toList, "Example:".toList, "Tip:".toList, "Deprecated:".toList,
    "Experimental:".toList]

def boldMark : Text :=
  "**".toList

def isBoldSpan (line : Text) : Bool :=
  match (stripPrefix? boldMark line).bind fun rest => stripPrefix? boldMark rest.reverse with
  | some inner => !inner.isEmpty && !occursIn boldMark inner
  | none => false

/-- Whether a line reads like a section heading: one bold span, or an admonition label at its start,
bold or not. -/
def isSectionHeading (line : Text) : Bool :=
  let trimmed := trim isWhiteSpace line
  let label := (stripPrefix? boldMark trimmed).getD trimmed
  isBoldSpan trimmed || admonitionLabels.any fun admonition => admonition.isPrefixOf label

def trimSides (line : Text) : Text :=
  trim (fun c => c == ' ' || c == '\t' || c == '\r') line

inductive LineRole where
  | prose
  | opening
  | code
  | closing
  deriving DecidableEq, Repr

/-- The role of a line when a fence of the given length is open before it, or none. -/
def role (fence : Option Nat) (line : Text) : LineRole :=
  match fence with
  | none => if Fence.isDelimiter line then .opening else .prose
  | some length => if Fence.closes length (trimSides line) then .closing else .code

def fenceAfter (fence : Option Nat) (line : Text) : Option Nat :=
  match role fence line with
  | .opening => some (Fence.leadingBackticks (trimSides line))
  | .closing => none
  | .prose | .code => fence

/-- The form in which a line is written: code as it is, and any other line trimmed. -/
def emitted (fence : Option Nat) (line : Text) : Text :=
  match role fence line with
  | .code => line
  | .prose | .opening | .closing => trimSides line

/-- Whether a line is to be set apart from the line before it. -/
def startsParagraph (fence : Option Nat) (line : Text) : Bool :=
  match role fence line with
  | .opening => true
  | .prose => isSectionHeading (trimSides line)
  | .code | .closing => false

def leavesBlank (fence : Option Nat) (line : Text) : Bool :=
  match role fence line with
  | .prose => (trimSides line).isEmpty
  | .code => isBlank line
  | .opening | .closing => false

/-- The written form of lines, with an empty line wherever two lines are to be set apart. -/
def spaced (fence : Option Nat) (afterBlank : Bool) : List Text → List Text
  | [] => []
  | line :: rest =>
    (if startsParagraph fence line && !afterBlank then [[]] else []) ++
      emitted fence line :: spaced (fenceAfter fence line) (leavesBlank fence line) rest

def dropBlankEnds (ls : List Text) : List Text :=
  (ls.reverse.dropWhile isBlank).reverse.dropWhile isBlank

def tidyLines (s : Text) : List Text :=
  dropBlankEnds (spaced none true (lines s))

end ClassDocs.Layout
