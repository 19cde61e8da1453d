import ClassDocs.Proofs.Text.Trim
import Mathlib.Data.List.Basic

/-!
# Lines

How the lines of a text come apart at a newline and go together again, and what the last line of a
longer text is.
-/

namespace ClassDocs.Text

theorem lines_ne_nil (s : Text) : lines s ≠ [] :=
  List.splitOn_ne_nil '\n' s

@[simp] theorem lines_nil : lines [] = [[]] := rfl

theorem lines_append_newline (a b : Text) : lines (a ++ '\n' :: b) = lines a ++ lines b :=
  List.splitOn_append_cons_self a b

theorem lines_eq_singleton {s : Text} (h : '\n' ∉ s) : lines s = [s] :=
  List.splitOn_eq_singleton h

theorem unlines_lines (s : Text) : unlines (lines s) = s :=
  List.intercalate_splitOn '\n'

theorem lines_unlines {ls : List Text} (h : ∀ line ∈ ls, '\n' ∉ line) (hne : ls ≠ []) :
    lines (unlines ls) = ls :=
  List.splitOn_intercalate '\n' h hne

theorem mem_of_mem_splitOnP {p : Char → Bool} {s part : Text} (h : part ∈ s.splitOnP p) {c : Char}
    (hc : c ∈ part) : c ∈ s ∧ p c = false := by
  induction s generalizing part with
  | nil =>
    have hpart : part = [] := by simpa using h
    exact absurd (hpart ▸ hc) List.not_mem_nil
  | cons d s ih =>
    rw [List.splitOnP_cons_eq_if_modifyHead] at h
    split at h
    next =>
      rcases List.mem_cons.mp h with rfl | h
      · exact absurd hc List.not_mem_nil
      · exact (ih h hc).imp_left (List.mem_cons_of_mem d)
    next hd =>
      -- The first part grows by `d`; the others are parts of the shorter text.
      obtain ⟨first, more, hparts⟩ := List.exists_cons_of_ne_nil (List.splitOnP_ne_nil p s)
      rw [hparts, List.modifyHead_cons] at h
      rw [hparts] at ih
      rcases List.mem_cons.mp h with rfl | h
      · rcases List.mem_cons.mp hc with rfl | hc
        · exact ⟨List.mem_cons_self, eq_false_of_ne_true hd⟩
        · exact (ih List.mem_cons_self hc).imp_left (List.mem_cons_of_mem d)
      · exact (ih (List.mem_cons_of_mem first h) hc).imp_left (List.mem_cons_of_mem d)

theorem newline_notMem_of_mem_lines {s line : Text} (h : line ∈ lines s) : '\n' ∉ line := by
  intro hnewline
  rw [lines, List.splitOn] at h
  exact absurd (mem_of_mem_splitOnP h hnewline).2 (by decide)

@[simp] theorem unlines_nil : unlines [] = [] := rfl

@[simp] theorem unlines_singleton (line : Text) : unlines [line] = line :=
  List.intercalate_singleton

theorem unlines_cons {line : Text} {ls : List Text} (hne : ls ≠ []) :
    unlines (line :: ls) = line ++ '\n' :: unlines ls := by
  rw [unlines, List.intercalate_cons_of_ne_nil hne, List.append_assoc]
  rfl

theorem unlines_cons_eq_flatMap (line : Text) (ls : List Text) :
    unlines (line :: ls) = line ++ ls.flatMap fun other => '\n' :: other := by
  induction ls generalizing line with
  | nil => rw [unlines_singleton, List.flatMap_nil, List.append_nil]
  | cons next ls ih => rw [unlines_cons (by simp), ih, List.flatMap_cons, List.cons_append]

theorem unlines_concat {ls : List Text} (last : Text) (hne : ls ≠ []) :
    unlines (ls ++ [last]) = unlines ls ++ '\n' :: last := by
  obtain ⟨first, rest, rfl⟩ := List.exists_cons_of_ne_nil hne
  rw [List.cons_append, unlines_cons_eq_flatMap, unlines_cons_eq_flatMap, List.flatMap_append,
    List.flatMap_singleton, List.append_assoc]

theorem suffix_unlines (ls : List Text) (last : Text) : last <:+ unlines (ls ++ [last]) := by
  by_cases hne : ls = []
  · have hlast : unlines (ls ++ [last]) = last := by rw [hne, List.nil_append, unlines_singleton]
    exact ⟨[], hlast.symm⟩
  · rw [unlines_concat last hne]
    exact ⟨unlines ls ++ ['\n'], by simp⟩

theorem mem_unlines {ls : List Text} {c : Char} (h : c ∈ unlines ls) :
    c = '\n' ∨ ∃ line ∈ ls, c ∈ line := by
  cases ls with
  | nil => exact absurd h List.not_mem_nil
  | cons first ls =>
    rw [unlines_cons_eq_flatMap] at h
    rcases List.mem_append.mp h with h | h
    · exact Or.inr ⟨first, List.mem_cons_self, h⟩
    · obtain ⟨line, hline, hc⟩ := List.mem_flatMap.mp h
      rcases List.mem_cons.mp hc with rfl | hc
      · exact Or.inl rfl
      · exact Or.inr ⟨line, List.mem_cons_of_mem first hline, hc⟩

theorem notMem_unlines {ls : List Text} {c : Char} (hc : c ≠ '\n') (h : ∀ line ∈ ls, c ∉ line) :
    c ∉ unlines ls := by
  intro hmem
  rcases mem_unlines hmem with rfl | ⟨line, hline, hmem⟩
  · exact hc rfl
  · exact h line hline hmem

/-- Lines that each end with a newline, and a text after the last of them. -/
theorem lines_flatMap_append (ls : List Text) (s : Text) (h : ∀ line ∈ ls, '\n' ∉ line) :
    lines (ls.flatMap (fun line => line ++ ['\n']) ++ s) = ls ++ lines s := by
  induction ls with
  | nil => rfl
  | cons line ls ih =>
    have hline := h line List.mem_cons_self
    have hrest := ih fun other hother => h other (List.mem_cons_of_mem _ hother)
    simp only [List.flatMap_cons, List.append_assoc, List.cons_append, List.nil_append] at hrest ⊢
    rw [lines_append_newline, lines_eq_singleton hline, hrest]
    rfl

theorem lines_append_flatMap (s : Text) (texts : List Text) :
    lines (s ++ texts.flatMap fun text => '\n' :: text) = lines s ++ texts.flatMap lines := by
  induction texts generalizing s with
  | nil => simp
  | cons text texts ih =>
    rw [List.flatMap_cons, List.cons_append, lines_append_newline, ih, List.flatMap_cons]

theorem flatMap_lines {ls : List Text} (h : ∀ line ∈ ls, '\n' ∉ line) : ls.flatMap lines = ls := by
  calc
    ls.flatMap lines = ls.flatMap fun line => [line] :=
      List.flatMap_congr fun line hline => lines_eq_singleton (h line hline)
    _ = ls := List.flatMap_singleton' ls

theorem isInfix_of_mem_lines {s line : Text} (h : line ∈ lines s) : line <:+: s := by
  obtain ⟨before, after, hlines⟩ := List.append_of_mem h
  have hs := unlines_lines s
  rw [hlines] at hs
  rw [← hs]
  cases before with
  | nil =>
    rw [List.nil_append, unlines_cons_eq_flatMap]
    exact (List.prefix_append line _).isInfix
  | cons first before =>
    rw [List.cons_append, unlines_cons_eq_flatMap, List.flatMap_append, List.flatMap_cons]
    exact ⟨first ++ before.flatMap (fun other => '\n' :: other) ++ ['\n'],
      after.flatMap fun other => '\n' :: other, by simp⟩

theorem lastLine_newline_append (a b : Text) : lastLine (a ++ '\n' :: b) = lastLine b := by
  rw [lastLine, List.reverse_append, List.reverse_cons, List.append_assoc, List.singleton_append,
    takeWhile_append_cons_of_neg _ _ (by decide), ← lastLine]

theorem completeLines_newline_append (a b : Text) :
    completeLines (a ++ '\n' :: b) = a ++ '\n' :: completeLines b := by
  rw [completeLines, List.reverse_append, List.reverse_cons, List.append_assoc,
    List.singleton_append, dropWhile_append_cons_of_neg _ _ (by decide), List.reverse_append,
    List.reverse_cons, List.reverse_reverse, List.append_assoc, List.singleton_append,
    ← completeLines]

theorem exists_append_newline_of_mem {s : Text} (h : '\n' ∈ s) :
    ∃ before last, s = before ++ '\n' :: last ∧ '\n' ∉ last := by
  obtain ⟨last, before, hs, hlast⟩ := List.eq_append_cons_of_mem (List.mem_reverse.mpr h)
  refine ⟨before.reverse, last.reverse, ?_, fun hmem => hlast (List.mem_reverse.mp hmem)⟩
  rw [← List.reverse_reverse s, hs, List.reverse_append, List.reverse_cons, List.append_assoc,
    List.singleton_append]

theorem lastLine_eq_self {s : Text} (h : '\n' ∉ s) : lastLine s = s := by
  have hall : ∀ c ∈ s.reverse, (c != '\n') = true := by
    intro c hc
    rw [bne_iff_ne]
    rintro rfl
    exact h (List.mem_reverse.mp hc)
  rw [lastLine, List.takeWhile_eq_self_iff.mpr hall, List.reverse_reverse]

theorem lastLine_append_newline (a : Text) {b : Text} (h : '\n' ∉ b) :
    lastLine (a ++ '\n' :: b) = b := by
  rw [lastLine_newline_append, lastLine_eq_self h]

theorem exists_lines_eq_append_lastLine (s : Text) : ∃ before, lines s = before ++ [lastLine s] := by
  by_cases h : '\n' ∈ s
  · obtain ⟨before, last, rfl, hlast⟩ := exists_append_newline_of_mem h
    refine ⟨lines before, ?_⟩
    rw [lastLine_append_newline before hlast, lines_append_newline, lines_eq_singleton hlast]
  · exact ⟨[], by rw [lastLine_eq_self h, lines_eq_singleton h, List.nil_append]⟩

theorem lastLine_mem_lines (s : Text) : lastLine s ∈ lines s := by
  obtain ⟨before, hlines⟩ := exists_lines_eq_append_lastLine s
  rw [hlines]
  exact List.mem_append_right before List.mem_cons_self

theorem exists_append_mem_lines {s : Text} (hs : '\n' ∉ s) (t : Text) :
    ∃ first, s ++ first ∈ lines (s ++ t) := by
  by_cases ht : '\n' ∈ t
  · obtain ⟨first, rest, rfl, hfirst⟩ := List.eq_append_cons_of_mem ht
    refine ⟨first, ?_⟩
    have hnewline : '\n' ∉ s ++ first := by simp [hs, hfirst]
    rw [← List.append_assoc, lines_append_newline, lines_eq_singleton hnewline]
    exact List.mem_append_left _ List.mem_cons_self
  · have hnewline : '\n' ∉ s ++ t := by simp [hs, ht]
    exact ⟨t, by simp [lines_eq_singleton hnewline]⟩

/-- A line of a longer text is a line of one of its parts, or it starts as the last line of the first
part and goes on as the first line of the second. -/
theorem mem_lines_append {s t line : Text} (h : line ∈ lines (s ++ t)) :
    line ∈ lines s ∨ line ∈ lines t ∨
      ∃ first, first ∈ lines t ∧ first <+: t ∧ line = lastLine s ++ first := by
  have hseam : ∀ {last : Text}, '\n' ∉ last → line ∈ lines (last ++ t) →
      line ∈ lines t ∨ ∃ first, first ∈ lines t ∧ first <+: t ∧ line = last ++ first := by
    intro last hlast hline
    by_cases ht : '\n' ∈ t
    · obtain ⟨first, rest, rfl, hfirst⟩ := List.eq_append_cons_of_mem ht
      have hnewline : '\n' ∉ last ++ first := by simp [hlast, hfirst]
      rw [← List.append_assoc, lines_append_newline, lines_eq_singleton hnewline] at hline
      rw [lines_append_newline, lines_eq_singleton hfirst]
      rcases List.mem_cons.mp hline with rfl | hline
      · exact Or.inr ⟨first, List.mem_cons_self, List.prefix_append first _, rfl⟩
      · exact Or.inl (List.mem_cons_of_mem first hline)
    · have hnewline : '\n' ∉ last ++ t := by simp [hlast, ht]
      rw [lines_eq_singleton hnewline, List.mem_singleton] at hline
      rw [lines_eq_singleton ht]
      exact Or.inr ⟨t, List.mem_cons_self, List.prefix_refl t, hline⟩
  by_cases hs : '\n' ∈ s
  · obtain ⟨before, last, rfl, hlast⟩ := exists_append_newline_of_mem hs
    rw [List.append_assoc, List.cons_append, lines_append_newline] at h
    rw [lines_append_newline, lastLine_append_newline before hlast]
    rcases List.mem_append.mp h with h | h
    · exact Or.inl (List.mem_append_left _ h)
    · exact Or.inr (hseam hlast h)
  · rw [lastLine_eq_self hs]
    exact Or.inr (hseam hs h)

theorem completeLines_eq_self {s : Text} (h : lastLine s = []) : completeLines s = s := by
  have hsplit := completeLines_append_lastLine s
  rwa [h, List.append_nil] at hsplit

theorem lastLine_flatMap_newline (ls : List Text) :
    lastLine (ls.flatMap fun line => line ++ ['\n']) = [] := by
  rcases List.eq_nil_or_concat ls with rfl | ⟨before, line, rfl⟩
  · rfl
  · have hlast := lastLine_append_newline (before.flatMap (fun line => line ++ ['\n']) ++ line)
      (b := []) List.not_mem_nil
    rw [List.concat_eq_append, List.flatMap_append, List.flatMap_singleton, ← List.append_assoc]
    exact hlast

end ClassDocs.Text
