import ClassDocs.Proofs.Markup.Inline
import ClassDocs.Proofs.Markup.Settled
import Mathlib.Data.List.Chain

/-!
# Tidied lines read back

Lines are read one after another, each where a fence of some length is open or none. Tidying keeps
each line that is not blank once, in order and in the form that its place gives it. Read in the same
way, the tidied lines are laid out: they start and end with text, only code has spaces around it, and
a block or a heading stands behind an empty line.
-/

namespace ClassDocs.Layout

open Text Unicode

structure Reading where
  fence : Option Nat
  line : Text

/-- Lines as they are read from an open fence on, or from none. -/
def readings (fence : Option Nat) : List Text → List Reading
  | [] => []
  | line :: rest => ⟨fence, line⟩ :: readings (fenceAfter fence line) rest

namespace Reading

def role (reading : Reading) : LineRole :=
  Layout.role reading.fence reading.line

def form (reading : Reading) : Text :=
  if reading.role = .code then reading.line else trimSides reading.line

/-- Whether the line opens a block, or reads like a section heading outside blocks. -/
def IsSetApart (reading : Reading) : Prop :=
  reading.role = .opening ∨ reading.role = .prose ∧ isSectionHeading reading.line = true

theorem form_eq_emitted (reading : Reading) :
    reading.form = emitted reading.fence reading.line := by
  rw [form, role, emitted]
  cases Layout.role reading.fence reading.line <;> rfl

end Reading

theorem written_eq_map_readings (fence : Option Nat) (ls : List Text) :
    written fence ls = (readings fence ls).map Reading.form := by
  induction ls generalizing fence with
  | nil => rfl
  | cons line rest ih => rw [written, readings, List.map_cons, Reading.form_eq_emitted, ih]

theorem nonBlank_written (fence : Option Nat) (ls : List Text) :
    nonBlank (written fence ls) =
      ((readings fence ls).filter fun reading => !isBlank reading.line).map Reading.form := by
  rw [written_eq_map_readings, nonBlank, List.filter_map]
  congr 1
  apply List.filter_congr
  intro reading _
  rw [Function.comp_apply, Reading.form_eq_emitted, isBlank_emitted]

/-- The lines with text in a tidied text are the forms of those in the text, one for one and in
order. -/
theorem tidyLines_keeps_every_line (s : Text) :
    nonBlank (tidyLines s) =
      ((readings none (lines s)).filter fun reading => !isBlank reading.line).map Reading.form :=
  (nonBlank_tidyLines s).trans (nonBlank_written none (lines s))

/-- Lines that are laid out: they start and end with text, only code has spaces around it, and what
is to be set apart stands first or behind an empty line. -/
structure LaidOut (ls : List Text) : Prop where
  oneLine : ∀ line ∈ ls, '\n' ∉ line
  first : ∀ line, ls.head? = some line → isBlank line = false
  last : ∀ line, ls.getLast? = some line → isBlank line = false
  trimmed : ∀ reading ∈ readings none ls, reading.role ≠ .code → HasCleanEnds reading.line
  setApart : (readings none ls).IsChain fun above reading => reading.IsSetApart → above.line = []

section Settled

variable {fence : Option Nat} {afterBlank : Bool} {ls : List Text}

theorem Settled.hasCleanEnds (h : Settled fence afterBlank ls) :
    ∀ reading ∈ readings fence ls, reading.role ≠ .code → HasCleanEnds reading.line := by
  induction ls generalizing fence afterBlank with
  | nil => simp [readings]
  | cons line rest ih =>
    intro reading hreading hrole
    rcases List.mem_cons.mp hreading with rfl | hreading
    · have hline : trimSides line = line := by
        have hform := Reading.form_eq_emitted ⟨fence, line⟩
        rwa [Reading.form, if_neg hrole, h.1] at hform
      rw [← hline]
      exact hasCleanEnds_trimSides line
    · exact ih h.2.2 reading hreading hrole

theorem startsParagraph_of_isSetApart {reading : Reading} (h : reading.IsSetApart)
    (hline : emitted reading.fence reading.line = reading.line) :
    startsParagraph reading.fence reading.line = true := by
  rcases h with hopening | ⟨hprose, hheading⟩
  · rw [Reading.role] at hopening
    rw [startsParagraph, hopening]
  · rw [Reading.role] at hprose
    rw [emitted, hprose] at hline
    rw [startsParagraph, hprose]
    exact (congrArg isSectionHeading hline).trans hheading

/-- Outside blocks, only an empty line leaves the text after it set apart. -/
theorem eq_nil_of_leavesBlank {line : Text} (hline : emitted fence line = line)
    (hfence : fenceAfter fence line = none) (hblank : leavesBlank fence line = true) : line = [] := by
  rw [leavesBlank] at hblank
  cases hrole : role fence line with
  | prose =>
    rw [hrole, List.isEmpty_iff] at hblank
    rwa [emitted, hrole, hblank, eq_comm] at hline
  | code =>
    rw [fenceAfter, hrole] at hfence
    obtain rfl : fence = none := hfence
    cases hdelimiter : Fence.isDelimiter line with
    | true => simp [role_opening hdelimiter] at hrole
    | false => simp [role_prose hdelimiter] at hrole
  | opening => simp [hrole] at hblank
  | closing => simp [hrole] at hblank

theorem Settled.isChain (h : Settled fence afterBlank ls) (above : Reading)
    (habove : fence = none → afterBlank = true → above.line = []) :
    (above :: readings fence ls).IsChain
      fun above reading => reading.IsSetApart → above.line = [] := by
  induction ls generalizing fence afterBlank above with
  | nil => exact List.isChain_singleton above
  | cons line rest ih =>
    obtain ⟨hline, hgap, hrest⟩ := h
    rw [readings, List.isChain_cons_cons]
    constructor
    · intro hapart
      have hstarts := startsParagraph_of_isSetApart hapart hline
      exact habove (fence_eq_none_of_startsParagraph hstarts) (hgap hstarts)
    · exact ih hrest ⟨fence, line⟩ (eq_nil_of_leavesBlank hline)

end Settled

theorem tidied_lines_are_laid_out (s : Text) : LaidOut (tidyLines s) where
  oneLine _ hline := newline_notMem_of_mem_tidyLines hline
  first _ hline := isBlank_of_head?_dropBlankEnds hline
  last _ hline := isBlank_of_getLast?_dropBlankEnds hline
  trimmed := (settled_tidyLines s).hasCleanEnds
  setApart := by
    have hsettled := settled_tidyLines s
    cases hlines : tidyLines s with
    | nil => exact List.isChain_nil
    | cons first rest =>
      rw [hlines] at hsettled
      exact hsettled.2.2.isChain ⟨none, first⟩ (eq_nil_of_leavesBlank hsettled.1)

example :
    tidyLines "\n\u00a0\n```\n x\n\n```\n\tNote: y\n".toList =
      ["```".toList, " x".toList, [], "```".toList, [], "Note: y".toList] := by
  decide +kernel

end ClassDocs.Layout
