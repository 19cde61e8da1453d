import ClassDocs.Markup.Layout
import ClassDocs.Proofs.Text.Lines
import ClassDocs.Proofs.Text.Trim

/-!
# Laying out a run of lines

Lines are laid out one after another, so a run of lines is laid out as its parts are, each from the
state that the part before it leaves. Spacing and dropping blank ends add and take away blank lines
only.
-/

namespace ClassDocs.Layout

open Text Unicode

/-- The open fence and whether the text is set apart, after one more line. -/
def afterLine (state : Option Nat × Bool) (line : Text) : Option Nat × Bool :=
  (fenceAfter state.1 line, leavesBlank state.1 line)

def afterLines (state : Option Nat × Bool) (ls : List Text) : Option Nat × Bool :=
  ls.foldl afterLine state

def written (fence : Option Nat) : List Text → List Text
  | [] => []
  | line :: rest => emitted fence line :: written (fenceAfter fence line) rest

def nonBlank (ls : List Text) : List Text :=
  ls.filter fun line => !isBlank line

@[simp] theorem nonBlank_append (as bs : List Text) :
    nonBlank (as ++ bs) = nonBlank as ++ nonBlank bs :=
  List.filter_append as bs

theorem nonBlank_cons_of_blank {line : Text} (ls : List Text) (h : isBlank line = true) :
    nonBlank (line :: ls) = nonBlank ls := by
  simp [nonBlank, h]

theorem nonBlank_cons_of_not_blank {line : Text} (ls : List Text) (h : isBlank line = false) :
    nonBlank (line :: ls) = line :: nonBlank ls := by
  simp [nonBlank, h]

theorem spaced_append (fence : Option Nat) (afterBlank : Bool) (as bs : List Text) :
    spaced fence afterBlank (as ++ bs) = spaced fence afterBlank as ++
      spaced (afterLines (fence, afterBlank) as).1 (afterLines (fence, afterBlank) as).2 bs := by
  induction as generalizing fence afterBlank with
  | nil => rfl
  | cons line as ih =>
    rw [List.cons_append, spaced, spaced, ih, List.append_assoc, List.cons_append]
    rfl

section Roles

variable {length : Nat} {line : Text}

theorem role_opening (h : Fence.isDelimiter line = true) : role none line = .opening :=
  if_pos h

theorem role_prose (h : Fence.isDelimiter line = false) : role none line = .prose :=
  if_neg (Bool.eq_false_iff.mp h)

theorem role_closing (h : Fence.closes length (trimSides line) = true) :
    role (some length) line = .closing :=
  if_pos h

theorem role_code (h : Fence.closes length (trimSides line) = false) :
    role (some length) line = .code :=
  if_neg (Bool.eq_false_iff.mp h)

theorem fenceAfter_opening (h : Fence.isDelimiter line = true) :
    fenceAfter none line = some (Fence.leadingBackticks (trimSides line)) := by
  rw [fenceAfter, role_opening h]

theorem fenceAfter_prose (h : Fence.isDelimiter line = false) : fenceAfter none line = none := by
  rw [fenceAfter, role_prose h]

theorem fenceAfter_closing (h : Fence.closes length (trimSides line) = true) :
    fenceAfter (some length) line = none := by
  rw [fenceAfter, role_closing h]

theorem fenceAfter_code (h : Fence.closes length (trimSides line) = false) :
    fenceAfter (some length) line = some length := by
  rw [fenceAfter, role_code h]

end Roles

theorem fenceAfter_some_empty_line {length : Nat} (h : 0 < length) :
    fenceAfter (some length) [] = some length :=
  fenceAfter_code (decide_eq_false (Nat.not_le_of_lt h))

def isSide (c : Char) : Bool :=
  c == ' ' || c == '\t' || c == '\r'

theorem isWhiteSpace_of_isSide {c : Char} (h : isSide c = true) : isWhiteSpace c = true := by
  simp only [isSide, Bool.or_eq_true, beq_iff_eq] at h
  rcases h with (rfl | rfl) | rfl <;> rfl

theorem exists_trimSides_append (line : Text) :
    ∃ before after, line = before ++ trimSides line ++ after ∧ (∀ c ∈ before, isSide c = true) ∧
      ∀ c ∈ after, isSide c = true :=
  exists_trim_append isSide line

@[simp] theorem isBlank_trimSides (line : Text) : isBlank (trimSides line) = isBlank line :=
  isBlank_trim (fun _ => isWhiteSpace_of_isSide) line

/-- Behind its white space, a line that is not blank goes on as its trimmed form does, up to what is
trimmed off its end. -/
theorem exists_trimStart_append {line : Text} (h : isBlank line = false) :
    ∃ after, trimStart isWhiteSpace line = trimStart isWhiteSpace (trimSides line) ++ after ∧
      '`' ∉ after := by
  obtain ⟨before, after, hline, hbefore, hafter⟩ := exists_trimSides_append line
  refine ⟨after, ?_, fun hmem => absurd (hafter '`' hmem) (by decide)⟩
  conv_lhs => rw [hline, List.append_assoc]
  rw [trimStart_append_of_forall _ fun c hc => isWhiteSpace_of_isSide (hbefore c hc)]
  exact trimStart_append_of_not_blank after ((isBlank_trimSides line).trans h)

@[simp] theorem isBlank_emitted (fence : Option Nat) (line : Text) :
    isBlank (emitted fence line) = isBlank line := by
  rw [emitted]
  split <;> simp

theorem nonBlank_spaced (fence : Option Nat) (afterBlank : Bool) (ls : List Text) :
    nonBlank (spaced fence afterBlank ls) = nonBlank (written fence ls) := by
  induction ls generalizing fence afterBlank with
  | nil => rfl
  | cons line rest ih =>
    have hgap : nonBlank (if startsParagraph fence line && !afterBlank then [[]] else []) = [] := by
      split <;> rfl
    rw [spaced, nonBlank_append, hgap, List.nil_append, written]
    cases hline : isBlank line with
    | true =>
      have hemitted := (isBlank_emitted fence line).trans hline
      rw [nonBlank_cons_of_blank _ hemitted, nonBlank_cons_of_blank _ hemitted, ih]
    | false =>
      have hemitted := (isBlank_emitted fence line).trans hline
      rw [nonBlank_cons_of_not_blank _ hemitted, nonBlank_cons_of_not_blank _ hemitted, ih]

theorem nonBlank_dropWhile (ls : List Text) : nonBlank (ls.dropWhile isBlank) = nonBlank ls := by
  induction ls with
  | nil => rfl
  | cons line ls ih =>
    cases hline : isBlank line with
    | true => rw [List.dropWhile_cons_of_pos hline, nonBlank_cons_of_blank _ hline, ih]
    | false => rw [List.dropWhile_cons_of_neg (by simp [hline])]

theorem nonBlank_rdropWhile (ls : List Text) : nonBlank (ls.rdropWhile isBlank) = nonBlank ls := by
  have hreverse : ∀ ms : List Text, nonBlank ms.reverse = (nonBlank ms).reverse := fun _ =>
    List.filter_reverse
  rw [List.rdropWhile, hreverse, nonBlank_dropWhile, hreverse, List.reverse_reverse]

theorem nonBlank_tidyLines (s : Text) : nonBlank (tidyLines s) = nonBlank (written none (lines s)) := by
  have hends := nonBlank_rdropWhile (spaced none true (lines s))
  rw [tidyLines, dropBlankEnds, nonBlank_dropWhile]
  exact hends.trans (nonBlank_spaced none true (lines s))

theorem isBlank_of_head?_dropBlankEnds {ls : List Text} {line : Text}
    (h : (dropBlankEnds ls).head? = some line) : isBlank line = false := by
  change ((ls.rdropWhile isBlank).dropWhile isBlank).head? = some line at h
  rw [← List.find?_not_eq_head?_dropWhile] at h
  simpa using List.find?_some h

theorem isBlank_of_getLast?_dropBlankEnds {ls : List Text} {line : Text}
    (h : (dropBlankEnds ls).getLast? = some line) : isBlank line = false := by
  obtain ⟨hne, rfl⟩ := List.mem_getLast?_eq_getLast h
  have hsuffix : dropBlankEnds ls <:+ ls.rdropWhile isBlank := List.dropWhile_suffix isBlank
  rw [hsuffix.getLast hne]
  simpa using List.rdropWhile_last_not isBlank ls (hsuffix.ne_nil hne)

theorem dropBlankEnds_append_cons {line : Text} (as bs : List Text) (h : isBlank line = false) :
    dropBlankEnds (as ++ line :: bs) = as.dropWhile isBlank ++ line :: bs.rdropWhile isBlank := by
  change ((as ++ line :: bs).rdropWhile isBlank).dropWhile isBlank = _
  rw [rdropWhile_append_cons_of_neg as bs h, dropWhile_append_cons_of_neg _ _ h]

theorem dropBlankEnds_append {first last : Text} (as middle bs : List Text)
    (hfirst : isBlank first = false) (hlast : isBlank last = false) :
    dropBlankEnds (as ++ first :: (middle ++ last :: bs)) =
      as.dropWhile isBlank ++ first :: (middle ++ last :: bs.rdropWhile isBlank) := by
  rw [dropBlankEnds_append_cons _ _ hfirst, rdropWhile_append_cons_of_neg _ _ hlast]

/-- A laid-out line is empty, or a line of the text, trimmed or as it was. -/
theorem mem_spaced {fence : Option Nat} {afterBlank : Bool} {ls : List Text} {line : Text}
    (h : line ∈ spaced fence afterBlank ls) :
    line = [] ∨ ∃ source ∈ ls, line = source ∨ line = trimSides source := by
  induction ls generalizing fence afterBlank with
  | nil => simp [spaced] at h
  | cons source rest ih =>
    rw [spaced, List.mem_append, List.mem_cons] at h
    rcases h with hgap | hline | hrest
    · left
      split at hgap
      · exact List.mem_singleton.mp hgap
      · exact absurd hgap List.not_mem_nil
    · right
      refine ⟨source, List.mem_cons_self, ?_⟩
      rw [hline, emitted]
      split
      · exact Or.inl rfl
      all_goals exact Or.inr rfl
    · rcases ih hrest with hempty | ⟨other, hother, hform⟩
      · exact Or.inl hempty
      · exact Or.inr ⟨other, List.mem_cons_of_mem source hother, hform⟩

theorem mem_of_mem_dropBlankEnds {ls : List Text} {line : Text} (h : line ∈ dropBlankEnds ls) :
    line ∈ ls :=
  (List.rdropWhile_prefix isBlank (l := ls)).subset
    ((List.dropWhile_suffix isBlank).subset h)

theorem newline_notMem_of_mem_tidyLines {s line : Text} (h : line ∈ tidyLines s) :
    '\n' ∉ line := by
  rcases mem_spaced (mem_of_mem_dropBlankEnds h) with rfl | ⟨source, hsource, rfl | rfl⟩
  · exact List.not_mem_nil
  · exact newline_notMem_of_mem_lines hsource
  · exact fun hnewline => newline_notMem_of_mem_lines hsource (mem_of_mem_trim hnewline)

end ClassDocs.Layout
