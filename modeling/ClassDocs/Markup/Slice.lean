import ClassDocs.Markup.Tag.Body

/-!
# Slices

Markup is cut from left to right into slices, the longest one that can be read at each place: a
newline, a complete tag in brackets or an opening bracket alone, a fence of three backticks with its
info word or a backtick alone, or a run of other characters. The slices of a text join to the text.
-/

namespace ClassDocs.Slice

/-- Whether a character belongs to a plain run: not a newline, an opening bracket or a backtick. -/
def isPlain (c : Char) : Bool :=
  c != '\n' && c != '[' && c != '`'

def isInfoChar (c : Char) : Bool :=
  Text.isWordChar c || c == '+' || c == '-'

def isBodyChar (c : Char) : Bool :=
  c != ']' && c != '\n'

/-- The rest of the slice that starts with a character, and the text after the slice. -/
def cut (c : Char) (rest : Text) : Text × Text :=
  if c = '\n' then ([], rest)
  else if c = '[' then
    match rest.dropWhile isBodyChar with
    | ']' :: after =>
      if (Tag.ofBody? (rest.takeWhile isBodyChar)).isSome then
        (rest.takeWhile isBodyChar ++ [']'], after)
      else ([], rest)
    | _ => ([], rest)
  else if c = '`' then
    match Text.stripPrefix? "``".toList rest with
    | some info => ("``".toList ++ info.takeWhile isInfoChar, info.dropWhile isInfoChar)
    | none => ([], rest)
  else (rest.takeWhile isPlain, rest.dropWhile isPlain)

theorem cut_append (c : Char) (rest : Text) : (cut c rest).1 ++ (cut c rest).2 = rest := by
  unfold cut
  split
  · rfl
  · split
    · split
      next after h =>
        have hsplit := List.takeWhile_append_dropWhile (p := isBodyChar) (l := rest)
        rw [h] at hsplit
        split
        · simpa using hsplit
        · rfl
      · rfl
    · split
      · split
        next info h =>
          rw [List.append_assoc, List.takeWhile_append_dropWhile]
          exact (Text.stripPrefix?_eq_some_iff.mp h).symm
        · rfl
      · exact List.takeWhile_append_dropWhile

theorem length_cut_le (c : Char) (rest : Text) : (cut c rest).2.length ≤ rest.length := by
  have h := congrArg List.length (cut_append c rest)
  rw [List.length_append] at h
  omega

end ClassDocs.Slice

namespace ClassDocs

def slices : Text → List Text
  | [] => []
  | c :: rest => (c :: (Slice.cut c rest).1) :: slices (Slice.cut c rest).2
termination_by s => s.length
decreasing_by exact Nat.lt_succ_of_le (Slice.length_cut_le c rest)

theorem flatten_slices (s : Text) : (slices s).flatten = s := by
  fun_induction slices s with
  | case1 => rfl
  | case2 c rest ih => rw [List.flatten_cons, ih, List.cons_append, Slice.cut_append]

end ClassDocs
