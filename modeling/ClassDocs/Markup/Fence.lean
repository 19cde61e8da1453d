import ClassDocs.Unicode.WhiteSpace

/-!
# Fences

A fence is a run of at least three backticks on a line of its own; a block of code stands between
two of them. The run that delimits a block is longer than any run at the start of a line of its
code, so that no line of code can end it.
-/

namespace ClassDocs.Fence

open Text Unicode

def shortest : Text :=
  "```".toList

def leadingBackticks (line : Text) : Nat :=
  (line.takeWhile (· == '`')).length

def isDelimiter (line : Text) : Bool :=
  shortest.isPrefixOf (trimStart isWhiteSpace line)

/-- Whether a line ends a block that `length` backticks have opened: it holds nothing but a run of
backticks, and at least as many. -/
def closes (length : Nat) (line : Text) : Bool :=
  line.all (· == '`') && decide (length ≤ line.length)

/-- The most backticks at the start of a line of code, white space aside. -/
def longestRun (code : Text) : Nat :=
  ((lines code).map fun line => leadingBackticks (trimStart isWhiteSpace line)).foldl max 0

def delimiter (code : Text) : Text :=
  List.replicate (max (longestRun code + 1) shortest.length) '`'

/-- The code of a block without one line end at its start and without white space at its end. -/
def body (code : Text) : Text :=
  trimEnd isWhiteSpace
    ((stripPrefix? ['\r', '\n'] code <|> stripPrefix? ['\n'] code).getD code)

/-- Code between its two fences, the first of which names the language. -/
def block (language code : Text) : Text :=
  delimiter code ++ language ++ '\n' ::
    (if code.isEmpty then [] else code ++ ['\n']) ++ delimiter code

end ClassDocs.Fence
