import ClassDocs.Proofs.Text.Lines
import ClassDocs.Proofs.Text.Trim

/-!
# Ink

The ink of a text is what is left of it without its white space. Trimming, splitting into lines and
leaving out blank parts keep it.
-/

namespace ClassDocs.Text

open Unicode

/-- The characters of a text that are not white space, in order. -/
def ink (s : Text) : Text :=
  s.filter fun c => !isWhiteSpace c

@[simp] theorem ink_nil : ink [] = [] := rfl

@[simp] theorem ink_append (s t : Text) : ink (s ++ t) = ink s ++ ink t :=
  List.filter_append s t

@[simp] theorem ink_newline_cons (s : Text) : ink ('\n' :: s) = ink s := rfl

theorem ink_sublist (s : Text) : (ink s).Sublist s :=
  List.filter_sublist

theorem ink_mono {s t : Text} (h : s.Sublist t) : (ink s).Sublist (ink t) :=
  h.filter _

theorem ink_eq_nil_iff {s : Text} : ink s = [] ↔ isBlank s = true := by
  simp [ink, isBlank]

theorem ink_flatten (parts : List Text) : ink parts.flatten = parts.flatMap ink := by
  rw [ink, List.filter_flatten, List.flatMap_def]
  rfl

theorem ink_flatMap {α : Type} (f : α → Text) (as : List α) :
    ink (as.flatMap f) = as.flatMap fun a => ink (f a) := by
  rw [List.flatMap_def, ink_flatten, List.flatMap_map]

theorem ink_of_forall {s : Text} (h : ∀ c ∈ s, isWhiteSpace c = true) : ink s = [] :=
  ink_eq_nil_iff.mpr (isBlank_iff.mpr h)

theorem ink_trim {p : Char → Bool} (hp : ∀ c, p c = true → isWhiteSpace c = true) (s : Text) :
    ink (trim p s) = ink s := by
  obtain ⟨before, after, hs, hbefore, hafter⟩ := exists_trim_append p s
  have hb := ink_of_forall fun c hc => hp c (hbefore c hc)
  have ha := ink_of_forall fun c hc => hp c (hafter c hc)
  have hink := congrArg ink hs
  rw [ink_append, ink_append, hb, ha, List.nil_append, List.append_nil] at hink
  exact hink.symm

theorem ink_trimEnd (s : Text) : ink (trimEnd isWhiteSpace s) = ink s := by
  have hend : ink (s.reverse.takeWhile isWhiteSpace).reverse = [] :=
    ink_of_forall fun c hc => List.mem_takeWhile_imp (List.mem_reverse.mp hc)
  have hink := congrArg ink (trimEnd_append_takeWhile isWhiteSpace s)
  rw [ink_append, hend, List.append_nil] at hink
  exact hink

theorem flatMap_ink_lines (s : Text) : (lines s).flatMap ink = ink s := by
  obtain ⟨line, more, hlines⟩ := List.exists_cons_of_ne_nil (lines_ne_nil s)
  have hs := unlines_lines s
  rw [hlines, unlines_cons_eq_flatMap] at hs
  rw [hlines, ← hs, ink_append, ink_flatMap, List.flatMap_cons]
  simp only [ink_newline_cons]

theorem flatMap_ink_dropWhile (ls : List Text) : (ls.dropWhile isBlank).flatMap ink = ls.flatMap ink := by
  induction ls with
  | nil => rfl
  | cons line ls ih =>
    cases hline : isBlank line with
    | true =>
      rw [List.dropWhile_cons_of_pos hline, ih, List.flatMap_cons, ink_eq_nil_iff.mpr hline,
        List.nil_append]
    | false => rw [List.dropWhile_cons_of_neg (by simp [hline])]

theorem flatMap_ink_rdropWhile (ls : List Text) :
    (ls.rdropWhile isBlank).flatMap ink = ls.flatMap ink := by
  induction ls using List.reverseRecOn with
  | nil => rfl
  | append_singleton ls line ih =>
    cases hline : isBlank line with
    | true =>
      rw [List.rdropWhile_concat_pos _ _ _ hline, ih, List.flatMap_append, List.flatMap_singleton,
        ink_eq_nil_iff.mpr hline, List.append_nil]
    | false => rw [List.rdropWhile_concat_neg _ _ _ (by simp [hline])]

theorem ink_completeLines {s : Text} (h : isBlank (lastLine s) = true) :
    ink (completeLines s) = ink s := by
  have hink := congrArg ink (completeLines_append_lastLine s)
  rw [ink_append, ink_eq_nil_iff.mpr h, List.append_nil] at hink
  exact hink

end ClassDocs.Text
