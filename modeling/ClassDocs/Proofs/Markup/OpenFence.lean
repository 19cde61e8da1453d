import ClassDocs.Proofs.Markup.Settled

/-!
# Fences that are open

A fence is open with the length that was counted on its opening line. Opening lines are told by their
backticks behind any white space, but the length is counted behind spaces, tabs and carriage returns
only: it is the number of these backticks if nothing else stands before them, and zero otherwise.
A fence of three backticks or more keeps the lines behind it as they are, up to the first that closes
it.
-/

namespace ClassDocs.Fence

open Text Unicode

theorem leadingBackticks_cons_of_ne {c : Char} (s : Text) (h : c ≠ '`') :
    leadingBackticks (c :: s) = 0 := by
  rw [leadingBackticks, List.takeWhile_cons_of_neg (by simpa using h), List.length_nil]

theorem three_le_run {line : Text} (h : isDelimiter line = true) : 3 ≤ run line := by
  obtain ⟨rest, hrest⟩ := List.isPrefixOf_iff_prefix.mp h
  have hshortest : ∀ c ∈ shortest, (c == '`') = true := by simp [shortest]
  rw [run, ← hrest, leadingBackticks, List.takeWhile_append_of_pos hshortest, List.length_append]
  exact Nat.le_add_right 3 _

theorem isBlank_of_closes {length : Nat} {line : Text} (hpos : 0 < length)
    (h : closes length line = true) : isBlank line = false := by
  obtain ⟨n, hn, rfl⟩ := closes_iff.mp h
  obtain ⟨m, rfl⟩ := Nat.exists_eq_add_of_lt (hpos.trans_le hn)
  rfl

end ClassDocs.Fence

namespace ClassDocs.Layout

open Text Unicode Fence

/-- Whether all white space at the start of a line is spaces, tabs and carriage returns. -/
def isPlainlyIndented (line : Text) : Bool :=
  (line.takeWhile isWhiteSpace).all isSide

def openFence (ls : List Text) : Option Nat :=
  ls.foldl fenceAfter none

theorem leadingBackticks_trimSides {line : Text} (h : isPlainlyIndented line = true) :
    leadingBackticks (trimSides line) = run line := by
  have hstart : trimStart isSide line = trimStart isWhiteSpace line := by
    conv_lhs => rw [← takeWhile_append_trimStart isWhiteSpace line]
    rw [trimStart_append_of_forall _ (List.all_eq_true.mp h)]
    cases hrest : trimStart isWhiteSpace line with
    | nil => rfl
    | cons c rest =>
      have hc := head?_trimStart isWhiteSpace line c (by rw [hrest]; rfl)
      refine trimStart_cons_of_neg rest (Bool.eq_false_iff.mpr fun hside => ?_)
      exact absurd (isWhiteSpace_of_isSide hside) (by simp [hc])
  have hend := trimEnd_append_takeWhile isSide (trimStart isWhiteSpace line)
  have hbacktick : ((trimStart isWhiteSpace line).reverse.takeWhile isSide).reverse.head? ≠ some '`' :=
    fun hhead => absurd
      (List.mem_takeWhile_imp (List.mem_reverse.mp (List.mem_of_mem_head? hhead))) (by decide)
  calc
    leadingBackticks (trimSides line) = leadingBackticks (trimEnd isSide (trimStart isSide line)) := rfl
    _ = leadingBackticks (trimStart isWhiteSpace line) := by
      rw [hstart, ← leadingBackticks_append _ hbacktick, hend]
    _ = run line := rfl

theorem leadingBackticks_trimSides_eq_zero {line : Text} (h : isPlainlyIndented line = false) :
    leadingBackticks (trimSides line) = 0 := by
  have hne : (line.takeWhile isWhiteSpace).dropWhile isSide ≠ [] := by
    intro hnil
    rw [List.dropWhile_eq_nil_iff] at hnil
    rw [isPlainlyIndented, List.all_eq_true.mpr hnil] at h
    exact absurd h (by decide)
  -- What the trimmed line starts with is white space, too, but of another kind.
  obtain ⟨c, rest, hrest⟩ := List.exists_cons_of_ne_nil hne
  have hside : isSide c = false := head?_trimStart isSide _ c (by rw [trimStart, hrest]; rfl)
  have hwhite : isWhiteSpace c = true := by
    have hmem : c ∈ (line.takeWhile isWhiteSpace).dropWhile isSide := by simp [hrest]
    exact List.mem_takeWhile_imp ((List.dropWhile_suffix isSide).subset hmem)
  have hstart : trimStart isSide line = c :: (rest ++ trimStart isWhiteSpace line) := by
    conv_lhs => rw [← takeWhile_append_trimStart isWhiteSpace line]
    rw [trimStart, dropWhile_append_of_ne_nil _ hne, hrest, List.cons_append]
  have hend : trimSides line = c :: (rest ++ trimStart isWhiteSpace line).rdropWhile isSide := by
    have hcut := rdropWhile_append_cons_of_neg [] (rest ++ trimStart isWhiteSpace line) hside
    rw [List.nil_append, List.nil_append, ← hstart] at hcut
    exact hcut
  rw [hend]
  exact leadingBackticks_cons_of_ne _ fun heq => absurd (heq ▸ hwhite) (by decide)

theorem openFence_concat (ls : List Text) (line : Text) :
    openFence (ls ++ [line]) = fenceAfter (openFence ls) line :=
  List.foldl_concat fenceAfter none line ls

theorem fst_afterLines (fence : Option Nat) (afterBlank : Bool) (ls : List Text) :
    (afterLines (fence, afterBlank) ls).1 = ls.foldl fenceAfter fence := by
  induction ls generalizing fence afterBlank with
  | nil => rfl
  | cons line rest ih => exact ih (fenceAfter fence line) (leavesBlank fence line)

/-- An open fence was opened by a line before, and no line since closes it. -/
theorem exists_opening_of_openFence {ls : List Text} {length : Nat}
    (h : openFence ls = some length) :
    ∃ above opening code, ls = above ++ opening :: code ∧ openFence above = none ∧
      isDelimiter opening = true ∧ length = leadingBackticks (trimSides opening) ∧
      ∀ line ∈ code, closes length (trimSides line) = false := by
  induction ls using List.reverseRecOn generalizing length with
  | nil => exact absurd h (by simp [openFence])
  | append_singleton ls line ih =>
    rw [openFence_concat] at h
    cases hopen : openFence ls with
    | none =>
      rw [hopen] at h
      cases hdelimiter : isDelimiter line with
      | true =>
        rw [fenceAfter_opening hdelimiter] at h
        exact ⟨ls, line, [], rfl, hopen, hdelimiter, (Option.some.inj h).symm, by simp⟩
      | false =>
        rw [fenceAfter_prose hdelimiter] at h
        exact absurd h (by simp)
    | some opened =>
      rw [hopen] at h
      cases hcloses : closes opened (trimSides line) with
      | true =>
        rw [fenceAfter_closing hcloses] at h
        exact absurd h (by simp)
      | false =>
        rw [fenceAfter_code hcloses] at h
        obtain rfl : opened = length := Option.some.inj h
        obtain ⟨above, opening, code, rfl, habove, hdelimiter, hlength, hcode⟩ := ih hopen
        refine ⟨above, opening, code ++ [line], by simp, habove, hdelimiter, hlength, ?_⟩
        simpa [or_imp, forall_and, hcloses] using hcode

/-- The lines that `length` backticks have opened a block for come out under it as they are, up to the
first that closes it. Blank lines are dropped at the end of a block that nothing closes. -/
inductive KeepsCode (length : Nat) : List Text → List Text → Prop
  | unclosed {code : List Text} (hcode : ∀ line ∈ code, closes length (trimSides line) = false) :
      KeepsCode length code (code.rdropWhile isBlank)
  | closed {code below tail : List Text} {closing : Text}
      (hcode : ∀ line ∈ code, closes length (trimSides line) = false)
      (hclosing : closes length (trimSides closing) = true)
      (hbelow : nonBlank tail = nonBlank (written none below)) :
      KeepsCode length (code ++ closing :: below) (code ++ trimSides closing :: tail)

theorem exists_closing (length : Nat) (ls : List Text) :
    (∀ line ∈ ls, closes length (trimSides line) = false) ∨
      ∃ code closing below, ls = code ++ closing :: below ∧
        (∀ line ∈ code, closes length (trimSides line) = false) ∧
        closes length (trimSides closing) = true := by
  induction ls with
  | nil => exact Or.inl (by simp)
  | cons line rest ih =>
    cases hline : closes length (trimSides line) with
    | true => exact Or.inr ⟨[], line, rest, rfl, by simp, hline⟩
    | false =>
      rcases ih with hall | ⟨code, closing, below, rfl, hcode, hclosing⟩
      · exact Or.inl (by simpa [hline] using hall)
      · exact Or.inr ⟨line :: code, closing, below, rfl, by simpa [hline] using hcode, hclosing⟩

theorem keepsCode_spaced {length : Nat} (hpos : 0 < length) (afterBlank : Bool) (rest : List Text) :
    KeepsCode length rest ((spaced (some length) afterBlank rest).rdropWhile isBlank) := by
  rcases exists_closing length rest with hcode | ⟨code, closing, below, rfl, hcode, hclosing⟩
  · obtain ⟨nowBlank, hspaced⟩ := spaced_code afterBlank [] hcode
    rw [List.append_nil, spaced, List.append_nil] at hspaced
    rw [hspaced]
    exact .unclosed hcode
  · obtain ⟨nowBlank, hspaced⟩ := spaced_code afterBlank (closing :: below) hcode
    rw [hspaced, spaced_closing nowBlank below hclosing,
      rdropWhile_append_cons_of_neg _ _ (isBlank_of_closes hpos hclosing)]
    refine .closed hcode hclosing ?_
    rw [nonBlank_rdropWhile, nonBlank_spaced]

theorem tidyLines_of_opening {s opening : Text} {above rest : List Text}
    (hs : lines s = above ++ opening :: rest) (habove : openFence above = none)
    (hopening : isDelimiter opening = true) :
    ∃ upper, nonBlank upper = nonBlank (written none above) ∧
      tidyLines s = upper ++ trimSides opening ::
        (spaced (some (leadingBackticks (trimSides opening))) false rest).rdropWhile isBlank := by
  have hfence : (afterLines (none, true) above).1 = none := (fst_afterLines none true above).trans habove
  have hblank : isBlank (trimSides opening) = false := by
    rw [isBlank_trimSides, Bool.eq_false_iff]
    intro hblank
    rw [isDelimiter_of_isBlank hblank] at hopening
    exact absurd hopening (by decide)
  have hgap : ∀ afterBlank : Bool, nonBlank (if afterBlank then [] else [[]]) = [] := by
    intro afterBlank
    cases afterBlank <;> rfl
  refine ⟨(spaced none true above ++
    if (afterLines (none, true) above).2 then [] else [[]]).dropWhile isBlank, ?_, ?_⟩
  · rw [nonBlank_dropWhile, nonBlank_append, hgap, List.append_nil, nonBlank_spaced]
  · rw [tidyLines, hs, spaced_append, hfence, spaced_opening _ rest hopening, ← List.append_assoc,
      dropBlankEnds_append_cons _ _ hblank]

/-- A fence that is open behind lines was opened by one of them. If nothing but spaces, tabs and
carriage returns stands before its backticks, its length is their number, it takes three at least, and
an empty line leaves it open; if other white space does, its length is zero and an empty line closes
it. The lines under an opening line of the first kind are kept up to the first line that holds nothing
but as many backticks or more. -/
theorem open_fence_counts_its_backticks (s : Text) :
    (∀ before after length, lines s = before ++ after → openFence before = some length →
      ∃ above opening code, before = above ++ opening :: code ∧ openFence above = none ∧
        isDelimiter opening = true ∧ (∀ line ∈ code, closes length (trimSides line) = false) ∧
        (isPlainlyIndented opening = true →
          length = run opening ∧ 3 ≤ length ∧ openFence (before ++ [[]]) = some length) ∧
        (isPlainlyIndented opening = false → length = 0 ∧ openFence (before ++ [[]]) = none)) ∧
    ∀ above opening rest, lines s = above ++ opening :: rest → openFence above = none →
      isDelimiter opening = true → isPlainlyIndented opening = true →
      ∃ upper lower, tidyLines s = upper ++ trimSides opening :: lower ∧
        nonBlank upper = nonBlank (written none above) ∧ KeepsCode (run opening) rest lower := by
  constructor
  · intro before after length _ hopen
    obtain ⟨above, opening, code, hbefore, habove, hopening, hlength, hcode⟩ :=
      exists_opening_of_openFence hopen
    refine ⟨above, opening, code, hbefore, habove, hopening, hcode, fun hplain => ?_, fun hother => ?_⟩
    · rw [leadingBackticks_trimSides hplain] at hlength
      have hthree : 3 ≤ length := hlength ▸ three_le_run hopening
      rw [openFence_concat, hopen]
      exact ⟨hlength, hthree, fenceAfter_some_empty_line (by omega)⟩
    · rw [leadingBackticks_trimSides_eq_zero hother] at hlength
      rw [openFence_concat, hopen, hlength]
      exact ⟨rfl, rfl⟩
  · intro above opening rest hs habove hopening hplain
    obtain ⟨upper, hupper, hlines⟩ := tidyLines_of_opening hs habove hopening
    have hpos : 0 < run opening := Nat.lt_of_lt_of_le (by decide) (three_le_run hopening)
    rw [leadingBackticks_trimSides hplain] at hlines
    exact ⟨upper, _, hlines, hupper, keepsCode_spaced hpos false rest⟩

def indentedOpening : Text :=
  "\t````gd".toList

def nestedFence : List Text :=
  [[], "```".toList, "  x ".toList, "````` ".toList, " b".toList]

theorem nestedFence_stays_code :
    lines "a\n\t````gd\n\n```\n  x \n````` \n b".toList =
      ["a".toList, indentedOpening] ++ nestedFence ∧
    openFence ["a".toList, indentedOpening] = some 4 ∧
    (∃ above opening code, ["a".toList, indentedOpening] = above ++ opening :: code ∧
      openFence above = none ∧ isDelimiter opening = true ∧
      (∀ line ∈ code, closes 4 (trimSides line) = false) ∧
      (isPlainlyIndented opening = true →
        4 = run opening ∧ 3 ≤ 4 ∧ openFence (["a".toList, indentedOpening] ++ [[]]) = some 4) ∧
      (isPlainlyIndented opening = false →
        4 = 0 ∧ openFence (["a".toList, indentedOpening] ++ [[]]) = none)) ∧
    openFence ["a".toList] = none ∧ isDelimiter indentedOpening = true ∧
    isPlainlyIndented indentedOpening = true ∧
    ∃ upper lower, tidyLines "a\n\t````gd\n\n```\n  x \n````` \n b".toList =
        upper ++ trimSides indentedOpening :: lower ∧
      nonBlank upper = nonBlank (written none ["a".toList]) ∧
      KeepsCode (run indentedOpening) nestedFence lower := by
  have hlines : lines "a\n\t````gd\n\n```\n  x \n````` \n b".toList =
      ["a".toList, indentedOpening] ++ nestedFence := by
    decide +kernel
  have hopen : openFence ["a".toList, indentedOpening] = some 4 := by decide +kernel
  have habove : openFence ["a".toList] = none := by decide +kernel
  have hopening : isDelimiter indentedOpening = true := by decide +kernel
  have hplain : isPlainlyIndented indentedOpening = true := by decide +kernel
  obtain ⟨hlength, hcode⟩ := open_fence_counts_its_backticks _
  exact ⟨hlines, hopen, hlength _ _ _ hlines hopen, habove, hopening, hplain,
    hcode _ _ _ hlines habove hopening hplain⟩

/-- A no-break space in front of three backticks leaves a fence of length zero, which the empty line
behind it closes. -/
theorem noBreakSpace_leaves_no_length :
    isDelimiter "\u00a0```".toList = true ∧ run "\u00a0```".toList = 3 ∧
    lines "\u00a0```\n\n  x  \n```".toList =
      ["\u00a0```".toList] ++ [[], "  x  ".toList, "```".toList] ∧
    openFence ["\u00a0```".toList] = some 0 ∧ openFence ["\u00a0```".toList, []] = none ∧
    tidyLines "\u00a0```\n\n  x  \n```".toList =
      ["\u00a0```".toList, [], "x".toList, [], "```".toList] := by
  decide +kernel

end ClassDocs.Layout
