import ClassDocs.Text.Basic

/-!
# Trimming

Removing the characters of a class from one or both ends of a text.
-/

namespace ClassDocs.Text

def trimStart (p : Char → Bool) (s : Text) : Text :=
  s.dropWhile p

def trimEnd (p : Char → Bool) (s : Text) : Text :=
  (s.reverse.dropWhile p).reverse

def trim (p : Char → Bool) (s : Text) : Text :=
  trimEnd p (trimStart p s)

@[simp] theorem trimStart_nil (p : Char → Bool) : trimStart p [] = [] := rfl

@[simp] theorem trimEnd_nil (p : Char → Bool) : trimEnd p [] = [] := rfl

theorem takeWhile_append_trimStart (p : Char → Bool) (s : Text) :
    s.takeWhile p ++ trimStart p s = s :=
  List.takeWhile_append_dropWhile

theorem trimEnd_append_takeWhile (p : Char → Bool) (s : Text) :
    trimEnd p s ++ (s.reverse.takeWhile p).reverse = s := by
  rw [trimEnd, ← List.reverse_append, List.takeWhile_append_dropWhile, List.reverse_reverse]

theorem head?_trimStart (p : Char → Bool) (s : Text) (c : Char)
    (h : (trimStart p s).head? = some c) : p c = false := by
  induction s with
  | nil => simp at h
  | cons d r ih =>
    by_cases hd : p d = true
    · exact ih (by simpa [trimStart, hd] using h)
    · simp only [trimStart, List.dropWhile_cons_of_neg hd, List.head?_cons,
        Option.some.injEq] at h
      simpa [← h] using hd

end ClassDocs.Text
