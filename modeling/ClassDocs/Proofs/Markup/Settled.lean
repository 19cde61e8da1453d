import ClassDocs.DocComment
import ClassDocs.Proofs.Markup.Fence
import ClassDocs.Proofs.Text.Replace

/-!
# Tidied lines are settled

Lines are settled if laying them out changes nothing: each line is in its written form, and each line
that is to be set apart is set apart already. A written line is read in the role of the line it was
written from, so a layout is settled, and it stays so when its blank ends are dropped.
-/

namespace ClassDocs.Layout

open Text Unicode Fence

@[simp] theorem trimSides_trimSides (line : Text) : trimSides (trimSides line) = trimSides line :=
  trim_trim _ line

theorem isDelimiter_of_isBlank {line : Text} (h : isBlank line = true) :
    isDelimiter line = false := by
  rw [isDelimiter, trimStart_eq_nil_iff.mpr h]
  rfl

theorem shortest_isPrefixOf_append {s t : Text} (h : '`' ∉ t) :
    shortest.isPrefixOf (s ++ t) = shortest.isPrefixOf s := by
  cases t with
  | nil => rw [List.append_nil]
  | cons c t =>
    have hc : c ∉ shortest := by simpa [shortest] using Ne.symm (List.ne_of_not_mem_cons h)
    exact isPrefixOf_append_cons s t hc

@[simp] theorem isDelimiter_trimSides (line : Text) :
    isDelimiter (trimSides line) = isDelimiter line := by
  cases hblank : isBlank line with
  | true =>
    rw [isDelimiter_of_isBlank hblank, isDelimiter_of_isBlank ((isBlank_trimSides line).trans hblank)]
  | false =>
    obtain ⟨after, hstart, hafter⟩ := exists_trimStart_append hblank
    rw [isDelimiter, isDelimiter, hstart, shortest_isPrefixOf_append hafter]

@[simp] theorem role_emitted (fence : Option Nat) (line : Text) :
    role fence (emitted fence line) = role fence line := by
  rw [emitted]
  split
  · rfl
  all_goals cases fence <;> simp [role]

@[simp] theorem emitted_emitted (fence : Option Nat) (line : Text) :
    emitted fence (emitted fence line) = emitted fence line := by
  conv_lhs => rw [emitted, role_emitted]
  rw [emitted]
  split <;> simp

theorem trimSides_emitted (fence : Option Nat) (line : Text) :
    trimSides (emitted fence line) = trimSides line := by
  rw [emitted]
  split <;> simp

theorem fenceAfter_emitted (fence : Option Nat) (line : Text) :
    fenceAfter fence (emitted fence line) = fenceAfter fence line := by
  rw [fenceAfter, role_emitted, trimSides_emitted, fenceAfter]

theorem startsParagraph_emitted (fence : Option Nat) (line : Text) :
    startsParagraph fence (emitted fence line) = startsParagraph fence line := by
  rw [startsParagraph, role_emitted, trimSides_emitted, startsParagraph]

theorem leavesBlank_emitted (fence : Option Nat) (line : Text) :
    leavesBlank fence (emitted fence line) = leavesBlank fence line := by
  rw [leavesBlank, role_emitted, trimSides_emitted, isBlank_emitted, leavesBlank]

/-- Whether lines are written already, where a fence may be open and the text set apart. -/
def Settled (fence : Option Nat) (afterBlank : Bool) : List Text → Prop
  | [] => True
  | line :: rest =>
    emitted fence line = line ∧ (startsParagraph fence line = true → afterBlank = true) ∧
      Settled (fenceAfter fence line) (leavesBlank fence line) rest

theorem spaced_of_settled {fence : Option Nat} {afterBlank : Bool} {ls : List Text}
    (h : Settled fence afterBlank ls) : spaced fence afterBlank ls = ls := by
  induction ls generalizing fence afterBlank with
  | nil => rfl
  | cons line rest ih =>
    obtain ⟨hline, hgap, hrest⟩ := h
    rw [spaced, hline, ih hrest, if_neg, List.nil_append]
    rw [Bool.and_eq_true, Bool.not_eq_true']
    rintro ⟨hstarts, hnot⟩
    exact absurd (hgap hstarts) (by simp [hnot])

theorem settled_append_iff (fence : Option Nat) (afterBlank : Bool) (as bs : List Text) :
    Settled fence afterBlank (as ++ bs) ↔ Settled fence afterBlank as ∧
      Settled (afterLines (fence, afterBlank) as).1 (afterLines (fence, afterBlank) as).2 bs := by
  induction as generalizing fence afterBlank with
  | nil => simp [Settled, afterLines]
  | cons line as ih =>
    rw [List.cons_append, Settled, Settled, ih, and_assoc, and_assoc]
    rfl

theorem Settled.afterBlank {fence : Option Nat} {afterBlank : Bool} {ls : List Text}
    (h : Settled fence afterBlank ls) : Settled fence true ls := by
  cases ls with
  | nil => trivial
  | cons line rest => exact ⟨h.1, fun _ => rfl, h.2.2⟩

theorem fence_eq_none_of_startsParagraph {fence : Option Nat} {line : Text}
    (h : startsParagraph fence line = true) : fence = none := by
  cases fence with
  | none => rfl
  | some length =>
    cases hcloses : closes length (trimSides line) <;>
      simp [startsParagraph, role, hcloses] at h

theorem settled_spaced (fence : Option Nat) (afterBlank : Bool) (ls : List Text) :
    Settled fence afterBlank (spaced fence afterBlank ls) := by
  induction ls generalizing fence afterBlank with
  | nil => trivial
  | cons line rest ih =>
    have hline : ∀ set, (startsParagraph fence line = true → set = true) →
        Settled fence set (emitted fence line ::
          spaced (fenceAfter fence line) (leavesBlank fence line) rest) := by
      intro set hset
      refine ⟨emitted_emitted fence line, ?_, ?_⟩
      · rwa [startsParagraph_emitted]
      · rw [fenceAfter_emitted, leavesBlank_emitted]
        exact ih _ _
    rw [spaced]
    split
    next hgap =>
      -- The empty line between sets the line apart.
      rw [Bool.and_eq_true] at hgap
      obtain rfl := fence_eq_none_of_startsParagraph hgap.1
      exact ⟨rfl, fun hstarts => absurd hstarts (by decide), hline true fun _ => rfl⟩
    next hgap =>
      rw [Bool.and_eq_true, Bool.not_eq_true', not_and, Bool.not_eq_false] at hgap
      exact hline afterBlank hgap

theorem exists_dropBlankEnds_append (ls : List Text) :
    ∃ before after, ls = before ++ dropBlankEnds ls ++ after ∧
      ∀ line ∈ before, isBlank line = true := by
  obtain ⟨after, hafter⟩ := List.rdropWhile_prefix isBlank (l := ls)
  refine ⟨(ls.rdropWhile isBlank).takeWhile isBlank, after, ?_, ?_⟩
  · change ls = (ls.rdropWhile isBlank).takeWhile isBlank ++
      (ls.rdropWhile isBlank).dropWhile isBlank ++ after
    rw [List.takeWhile_append_dropWhile, hafter]
  · exact fun line hline => List.mem_takeWhile_imp hline

theorem settled_tidyLines (s : Text) : Settled none true (tidyLines s) := by
  obtain ⟨before, after, hlines, hbefore⟩ := exists_dropBlankEnds_append (spaced none true (lines s))
  have hall := settled_spaced none true (lines s)
  rw [hlines, List.append_assoc, settled_append_iff] at hall
  have hfence := afterLines_prose true fun line hline => isDelimiter_of_isBlank (hbefore line hline)
  have hrest := hall.2.afterBlank
  rw [hfence, settled_append_iff] at hrest
  exact hrest.1

theorem dropBlankEnds_dropBlankEnds (ls : List Text) :
    dropBlankEnds (dropBlankEnds ls) = dropBlankEnds ls := by
  have hend : (dropBlankEnds ls).rdropWhile isBlank = dropBlankEnds ls := by
    refine List.rdropWhile_eq_self_iff.mpr fun hne => ?_
    rw [isBlank_of_getLast?_dropBlankEnds (List.getLast?_eq_some_getLast hne)]
    exact Bool.false_ne_true
  calc
    dropBlankEnds (dropBlankEnds ls) =
        ((dropBlankEnds ls).rdropWhile isBlank).dropWhile isBlank := rfl
    _ = (dropBlankEnds ls).dropWhile isBlank := by rw [hend]
    _ = dropBlankEnds ls := List.dropWhile_idempotent isBlank (ls.rdropWhile isBlank)

theorem tidyLines_unlines (s : Text) : tidyLines (unlines (tidyLines s)) = tidyLines s := by
  by_cases hne : tidyLines s = []
  · rw [hne]
    rfl
  · rw [tidyLines, lines_unlines (fun _ => newline_notMem_of_mem_tidyLines) hne,
      spaced_of_settled (settled_tidyLines s)]
    exact dropBlankEnds_dropBlankEnds _

/-- Tidying lines that are tidied changes nothing, and an entry's lines are tidied. -/
theorem tidied_lines_stay :
    (∀ s : Text, tidyLines (unlines (tidyLines s)) = tidyLines s) ∧
    ∀ (settings : DocSettings) (entry : List Text),
      tidyLines (unlines (DocComment.contentLines settings entry)) =
        DocComment.contentLines settings entry :=
  ⟨tidyLines_unlines, fun _ _ => tidyLines_unlines _⟩

end ClassDocs.Layout
