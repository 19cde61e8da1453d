import ClassDocs.Markup.Slice
import ClassDocs.Proofs.Markup.Layout

/-!
# Fences hold their code

The run of backticks around a block is longer than any run at the start of a line of its code. So a
block, laid out where no fence is open, ends at its own last line and keeps every line of its code,
unless the language behind its first run starts with a backtick.
-/

namespace ClassDocs.Fence

open Text Unicode Layout

/-- The lines of a block of code: a run of backticks and the language, the code, and the run again.
The run has three backticks at least and more than any line of the code starts with. -/
def fencedLines (language code : Text) : List Text :=
  let run : Text := List.replicate (max 3 (1 + longestRun code)) '`'
  (run ++ language) :: ((if code = [] then [] else lines code) ++ [run])

theorem delimiter_eq (code : Text) :
    delimiter code = List.replicate (max 3 (1 + longestRun code)) '`' := by
  rw [delimiter, Nat.max_comm, Nat.add_comm]
  rfl

theorem isBlank_delimiter_append (code s : Text) : isBlank (delimiter code ++ s) = false := by
  obtain ⟨n, hn⟩ := Nat.exists_eq_add_of_lt (show 0 < max 3 (1 + longestRun code) by omega)
  rw [delimiter_eq, hn, List.replicate_succ]
  rfl

theorem newline_notMem_delimiter (code : Text) : '\n' ∉ delimiter code := by
  rw [delimiter, List.mem_replicate]
  exact fun h => absurd h.2 (by decide)

private theorem le_foldl_max (numbers : List Nat) (start : Nat) :
    start ≤ numbers.foldl max start ∧ ∀ n ∈ numbers, n ≤ numbers.foldl max start := by
  induction numbers generalizing start with
  | nil => exact ⟨Nat.le_refl start, by simp⟩
  | cons m numbers ih =>
    obtain ⟨hstart, hrest⟩ := ih (max start m)
    refine ⟨(Nat.le_max_left start m).trans hstart, fun n hn => ?_⟩
    rcases List.mem_cons.mp hn with rfl | hn
    · exact (Nat.le_max_right start n).trans hstart
    · exact hrest n hn

/-- The number of backticks that a line starts with, white space aside. -/
def run (line : Text) : Nat :=
  leadingBackticks (trimStart isWhiteSpace line)

theorem run_le_longestRun {code line : Text} (h : line ∈ lines code) : run line ≤ longestRun code :=
  (le_foldl_max _ 0).2 _ (List.mem_map_of_mem h)

theorem leadingBackticks_append (s : Text) {t : Text} (h : t.head? ≠ some '`') :
    leadingBackticks (s ++ t) = leadingBackticks s := by
  cases t with
  | nil => rw [List.append_nil]
  | cons c t =>
    have hc : (c == '`') = false := by simpa using h
    exact congrArg List.length (takeWhile_append_cons_of_neg (p := (· == '`')) s t hc)

theorem leadingBackticks_of_forall {s : Text} (h : ∀ c ∈ s, (c == '`') = true) :
    leadingBackticks s = s.length := by
  rw [leadingBackticks, List.takeWhile_eq_self_iff.mpr h]

theorem run_trimSides (line : Text) : run (trimSides line) = run line := by
  cases hblank : isBlank line with
  | true =>
    rw [run, run, trimStart_eq_nil_iff.mpr hblank,
      trimStart_eq_nil_iff.mpr ((isBlank_trimSides line).trans hblank)]
  | false =>
    obtain ⟨after, hstart, hafter⟩ := exists_trimStart_append hblank
    have hhead : after.head? ≠ some '`' := fun hhead => hafter (List.mem_of_mem_head? hhead)
    rw [run, run, hstart, leadingBackticks_append _ hhead]

theorem leadingBackticks_replicate_append (n : Nat) {s : Text} (h : s.head? ≠ some '`') :
    leadingBackticks (List.replicate n '`' ++ s) = n := by
  rw [leadingBackticks_append _ h, leadingBackticks_of_forall (by simp), List.length_replicate]

theorem leadingBackticks_run_append (n : Nat) (s : Text) :
    leadingBackticks (List.replicate n '`' ++ s) = n + leadingBackticks s := by
  rw [leadingBackticks, List.takeWhile_append_of_pos (by simp), List.length_append,
    List.length_replicate]
  rfl

theorem leadingBackticks_pos {s : Text} (h : s.head? = some '`') : 0 < leadingBackticks s := by
  obtain ⟨rest, rfl⟩ := List.head?_eq_some_iff.mp h
  simp [leadingBackticks]

theorem run_replicate (n : Nat) : run (List.replicate n '`') = n := by
  have hstart : trimStart isWhiteSpace (List.replicate n '`') = List.replicate n '`' := by
    cases n with
    | zero => rfl
    | succ n => exact trimStart_cons_of_neg _ (by decide)
  rw [run, hstart, leadingBackticks_of_forall (by simp), List.length_replicate]

theorem closes_iff {length : Nat} {line : Text} :
    closes length line = true ↔ ∃ n, length ≤ n ∧ line = List.replicate n '`' := by
  rw [closes, Bool.and_eq_true, decide_eq_true_eq, List.all_eq_true]
  constructor
  · rintro ⟨hall, hlength⟩
    exact ⟨line.length, hlength, List.eq_replicate_of_mem fun c hc => by simpa using hall c hc⟩
  · rintro ⟨n, hlength, rfl⟩
    simpa using hlength

theorem le_run_of_closes {length : Nat} {line : Text} (h : closes length (trimSides line) = true) :
    length ≤ run line := by
  obtain ⟨n, hn, hline⟩ := closes_iff.mp h
  rwa [← run_trimSides, hline, run_replicate]

/-- No line of code ends a block that more backticks open than any of its lines starts with. -/
theorem not_closes_of_mem_lines {code line : Text} {length : Nat} (h : line ∈ lines code)
    (hlength : longestRun code < length) : closes length (trimSides line) = false := by
  rw [Bool.eq_false_iff]
  intro hcloses
  have hle := le_run_of_closes hcloses
  have hrun := run_le_longestRun h
  omega

theorem not_closes_of_notMem {line : Text} {length : Nat} (h : '`' ∉ line) (hlength : 0 < length) :
    closes length (trimSides line) = false := by
  rw [Bool.eq_false_iff]
  intro hcloses
  obtain ⟨n, hn, hline⟩ := closes_iff.mp hcloses
  have hmem : '`' ∈ trimSides line := by
    rw [hline, List.mem_replicate]
    exact ⟨by omega, rfl⟩
  exact h (mem_of_mem_trim hmem)

theorem lines_block {language code : Text} (h : '\n' ∉ language) :
    lines (block language code) = fencedLines language code := by
  have hrun := newline_notMem_delimiter code
  have hopening : '\n' ∉ delimiter code ++ language := by
    rw [List.mem_append, not_or]
    exact ⟨hrun, h⟩
  have hlast := lines_eq_singleton hrun
  rw [block, List.append_assoc, List.cons_append, lines_append_newline,
    lines_eq_singleton hopening, fencedLines, ← delimiter_eq]
  by_cases hcode : code = []
  · simp only [hcode, List.isEmpty_nil, if_true, List.nil_append] at hlast ⊢
    rw [hlast]
    rfl
  · rw [if_neg (by simp [hcode]), if_neg hcode, List.append_assoc, List.singleton_append,
      List.singleton_append, lines_append_newline, hlast]

theorem body_newline_cons (s : Text) : body ('\n' :: s) = trimEnd isWhiteSpace s := by
  rfl

end ClassDocs.Fence

namespace ClassDocs.Layout

open Text Unicode Fence

theorem isDelimiter_replicate_append {n : Nat} (hn : 3 ≤ n) (s : Text) :
    isDelimiter (List.replicate n '`' ++ s) = true := by
  obtain ⟨m, rfl⟩ := Nat.exists_eq_add_of_le hn
  rw [isDelimiter, List.isPrefixOf_iff_prefix, Nat.add_comm, List.replicate_succ, List.cons_append,
    trimStart_cons_of_neg _ (by decide)]
  exact ⟨List.replicate m '`' ++ s, by simp [shortest, List.replicate_succ]⟩

theorem spaced_code {length : Nat} (afterBlank : Bool) {ls : List Text} (rest : List Text)
    (h : ∀ line ∈ ls, closes length (trimSides line) = false) :
    ∃ nowBlank, spaced (some length) afterBlank (ls ++ rest) =
      ls ++ spaced (some length) nowBlank rest := by
  induction ls generalizing afterBlank with
  | nil => exact ⟨afterBlank, rfl⟩
  | cons line ls ih =>
    have hrole := role_code (h line List.mem_cons_self)
    obtain ⟨nowBlank, hrest⟩ := ih (leavesBlank (some length) line) fun other hother =>
      h other (List.mem_cons_of_mem line hother)
    refine ⟨nowBlank, ?_⟩
    rw [List.cons_append, spaced, startsParagraph, emitted, fenceAfter, hrole]
    exact congrArg (line :: ·) hrest

theorem spaced_closing {length : Nat} (afterBlank : Bool) {line : Text} (rest : List Text)
    (h : closes length (trimSides line) = true) :
    spaced (some length) afterBlank (line :: rest) = trimSides line :: spaced none false rest := by
  rw [spaced, startsParagraph, emitted, fenceAfter, leavesBlank, role_closing h]
  rfl

theorem spaced_opening (afterBlank : Bool) {line : Text} (rest : List Text)
    (h : isDelimiter line = true) :
    spaced none afterBlank (line :: rest) = (if afterBlank then [] else [[]]) ++
      trimSides line :: spaced (some (leadingBackticks (trimSides line))) false rest := by
  rw [spaced, startsParagraph, emitted, fenceAfter, leavesBlank, role_opening h]
  cases afterBlank <;> rfl

theorem isSide_of_isInfoChar {c : Char} (h : Slice.isInfoChar c = true) :
    isSide c = false := by
  rw [Bool.eq_false_iff]
  intro hside
  simp only [isSide, Bool.or_eq_true, beq_iff_eq] at hside
  rcases hside with (rfl | rfl) | rfl <;> exact absurd h (by decide)

theorem trimSides_run_append (n : Nat) {language : Text} (h : ∀ c ∈ language, isSide c = false) :
    trimSides (List.replicate n '`' ++ language) = List.replicate n '`' ++ language := by
  have hside : ∀ c ∈ List.replicate n '`' ++ language, isSide c = false := by
    intro c hc
    rcases List.mem_append.mp hc with hc | hc
    · rw [(List.mem_replicate.mp hc).2]
      rfl
    · exact h c hc
  exact trim_eq_self (fun c hc => hside c (List.mem_of_mem_head? hc))
    (fun c hc => hside c (List.mem_of_getLast? hc))

theorem trimSides_replicate (n : Nat) : trimSides (List.replicate n '`') = List.replicate n '`' := by
  have hrun := @trimSides_run_append n [] (by simp)
  rwa [List.append_nil] at hrun

theorem not_closes_of_mem_code {code line : Text} {length : Nat}
    (h : line ∈ if code = [] then [] else lines code) (hlength : longestRun code < length) :
    closes length (trimSides line) = false := by
  split at h
  · exact absurd h List.not_mem_nil
  · exact not_closes_of_mem_lines h hlength

/-- A block laid out where no fence is open is set apart, keeps its lines and leaves no fence
open, if its language starts with no backtick. -/
theorem spaced_fencedLines_of_head (afterBlank : Bool) {language : Text} (code : Text)
    (rest : List Text) (hside : ∀ c ∈ language, isSide c = false)
    (hhead : language.head? ≠ some '`') :
    spaced none afterBlank (fencedLines language code ++ rest) =
      (if afterBlank then [] else [[]]) ++ (fencedLines language code ++ spaced none false rest) := by
  obtain ⟨n, hn⟩ : ∃ n, n = max 3 (1 + longestRun code) := ⟨_, rfl⟩
  have hcode : ∀ line ∈ (if code = [] then [] else lines code),
      closes n (trimSides line) = false :=
    fun line hline => not_closes_of_mem_code hline (by omega)
  have hcloses : closes n (trimSides (List.replicate n '`')) = true := by
    rw [trimSides_replicate]
    exact closes_iff.mpr ⟨n, le_rfl, rfl⟩
  obtain ⟨nowBlank, hspaced⟩ := spaced_code false (List.replicate n '`' :: rest) hcode
  rw [fencedLines, ← hn, List.cons_append, List.append_assoc, List.singleton_append,
    spaced_opening afterBlank _ (isDelimiter_replicate_append (by omega) language),
    trimSides_run_append n hside, leadingBackticks_replicate_append n hhead, hspaced,
    spaced_closing nowBlank rest hcloses, trimSides_replicate]
  simp only [List.cons_append, List.append_assoc, List.nil_append]

theorem spaced_fencedLines (afterBlank : Bool) {language : Text} (code : Text) (rest : List Text)
    (h : ∀ c ∈ language, Slice.isInfoChar c = true) :
    spaced none afterBlank (fencedLines language code ++ rest) =
      (if afterBlank then [] else [[]]) ++ (fencedLines language code ++ spaced none false rest) := by
  refine spaced_fencedLines_of_head afterBlank code rest
    (fun c hc => isSide_of_isInfoChar (h c hc)) fun hhead => ?_
  exact absurd (h '`' (List.mem_of_mem_head? hhead)) (by decide)

/-- A block whose language starts with a backtick is not ended by its own last line, so the lines
below it are code. -/
theorem spaced_fencedLines_of_backtick {language : Text} (code : Text) {below : List Text}
    (hside : ∀ c ∈ language, isSide c = false) (hhead : language.head? = some '`')
    (hbelow : ∀ line ∈ below, '`' ∉ line) :
    spaced none true (fencedLines language code ++ below) = fencedLines language code ++ below := by
  obtain ⟨n, hn⟩ : ∃ n, n = max 3 (1 + longestRun code) := ⟨_, rfl⟩
  have hlength := leadingBackticks_run_append n language
  have hpos := leadingBackticks_pos hhead
  have hcode : ∀ line ∈ (if code = [] then [] else lines code) ++ List.replicate n '`' :: below,
      closes (leadingBackticks (List.replicate n '`' ++ language)) (trimSides line) = false := by
    intro line hline
    rcases List.mem_append.mp hline with hline | hline
    · exact not_closes_of_mem_code hline (by omega)
    · rcases List.mem_cons.mp hline with rfl | hline
      -- The run at the end of the block has `n` backticks, and its first line starts with more.
      · rw [trimSides_replicate, closes, List.length_replicate, decide_eq_false (by omega),
          Bool.and_false]
      · exact not_closes_of_notMem (hbelow line hline) (by omega)
  obtain ⟨nowBlank, hspaced⟩ := spaced_code false [] hcode
  rw [List.append_nil, spaced, List.append_nil] at hspaced
  rw [fencedLines, ← hn, List.cons_append, List.append_assoc, List.singleton_append,
    spaced_opening true _ (isDelimiter_replicate_append (by omega) language),
    trimSides_run_append n hside, hspaced]
  rfl

theorem spaced_prose (afterBlank : Bool) {line : Text} (rest : List Text)
    (h : isDelimiter line = false) :
    spaced none afterBlank (line :: rest) =
      (if isSectionHeading (trimSides line) && !afterBlank then [[]] else []) ++
        trimSides line :: spaced none (trimSides line).isEmpty rest := by
  rw [spaced, startsParagraph, emitted, fenceAfter, leavesBlank, role_prose h]

theorem isDelimiter_of_notMem_backtick {line : Text} (h : '`' ∉ line) :
    isDelimiter line = false := by
  rw [Bool.eq_false_iff]
  intro hdelimiter
  obtain ⟨rest, hrest⟩ := List.isPrefixOf_iff_prefix.mp hdelimiter
  have hmem : '`' ∈ trimStart isWhiteSpace line := by
    rw [← hrest]
    exact List.mem_append_left rest (by decide)
  exact h ((List.dropWhile_suffix isWhiteSpace).subset hmem)

theorem afterLines_prose (afterBlank : Bool) {ls : List Text}
    (h : ∀ line ∈ ls, isDelimiter line = false) : (afterLines (none, afterBlank) ls).1 = none := by
  induction ls generalizing afterBlank with
  | nil => rfl
  | cons line ls ih =>
    have hline := fenceAfter_prose (h line List.mem_cons_self)
    rw [afterLines, List.foldl_cons, afterLine, hline]
    exact ih _ fun other hother => h other (List.mem_cons_of_mem line hother)

theorem written_prose {ls : List Text} (h : ∀ line ∈ ls, isDelimiter line = false) :
    written none ls = ls.map trimSides := by
  induction ls with
  | nil => rfl
  | cons line ls ih =>
    have hline := h line List.mem_cons_self
    rw [written, fenceAfter_prose hline, ih fun other hother => h other (List.mem_cons_of_mem line hother),
      emitted, role_prose hline]
    rfl

theorem nonBlank_map_trimSides (ls : List Text) :
    nonBlank (ls.map trimSides) = (nonBlank ls).map trimSides := by
  rw [nonBlank, List.filter_map]
  congr 1
  apply List.filter_congr
  intro line _
  rw [Function.comp_apply, isBlank_trimSides]

end ClassDocs.Layout
