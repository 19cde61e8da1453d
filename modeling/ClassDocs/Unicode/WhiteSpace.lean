import ClassDocs.Text.Trim

/-!
# White space

The characters with the Unicode property `White_Space`, and what the rules on blank text need of
them.
-/

namespace ClassDocs.Unicode

/-- The code points with the property `White_Space`, as ranges with both ends included. -/
def whiteSpaceRanges : List (Nat × Nat) :=
  [(0x9, 0xD), (0x20, 0x20), (0x85, 0x85), (0xA0, 0xA0), (0x1680, 0x1680), (0x2000, 0x200A),
    (0x2028, 0x2029), (0x202F, 0x202F), (0x205F, 0x205F), (0x3000, 0x3000)]

def isWhiteSpace (c : Char) : Bool :=
  whiteSpaceRanges.any fun range => decide (range.1 ≤ c.toNat) && decide (c.toNat ≤ range.2)

end ClassDocs.Unicode

namespace ClassDocs.Text

open Unicode

def isBlank (s : Text) : Bool :=
  s.all isWhiteSpace

/-- The non-empty stretches of a text between its white space. -/
def words (s : Text) : List Text :=
  (s.splitOnP isWhiteSpace).filter fun word => !word.isEmpty

@[simp] theorem isBlank_nil : isBlank [] = true := rfl

end ClassDocs.Text
