/-!
# Text

A text is its list of characters. Documentation entries, names, paths and file contents are all
texts; `String` appears only where a program reads or prints.
-/

namespace ClassDocs

abbrev Text := List Char

namespace Text

/-- The lines of a text: the stretches between its newlines, so that there is always one more line
than there are newlines. -/
def lines (s : Text) : List Text :=
  s.splitOn '\n'

def unlines (ls : List Text) : Text :=
  ['\n'].intercalate ls

def lastLine (s : Text) : Text :=
  (s.reverse.takeWhile (· != '\n')).reverse

def completeLines (s : Text) : Text :=
  (s.reverse.dropWhile (· != '\n')).reverse

theorem completeLines_append_lastLine (s : Text) : completeLines s ++ lastLine s = s := by
  rw [completeLines, lastLine, ← List.reverse_append, List.takeWhile_append_dropWhile,
    List.reverse_reverse]

/-- What follows a leading `pre`, if the text starts with it. -/
def stripPrefix? : Text → Text → Option Text
  | [], s => some s
  | _ :: _, [] => none
  | p :: pre, c :: s => if p = c then stripPrefix? pre s else none

theorem stripPrefix?_eq_some_iff {pre s rest : Text} :
    stripPrefix? pre s = some rest ↔ s = pre ++ rest := by
  induction pre generalizing s with
  | nil => simp [stripPrefix?]
  | cons p pre ih =>
    cases s with
    | nil => simp [stripPrefix?]
    | cons c s =>
      by_cases h : p = c
      · simp [stripPrefix?, h, ih]
      · simp [stripPrefix?, h, Ne.symm h]

/-- A letter of the alphabet without accents, a digit, or an underscore. -/
def isWordChar (c : Char) : Bool :=
  c.isAlphanum || c == '_'

end Text

end ClassDocs
