import ClassDocs.Proofs.Markup.ReturnGaps
import ClassDocs.Proofs.Markup.Settled
import Mathlib.Data.List.Infix

/-!
# Lines that end in carriage returns

An entry whose lines end in carriage returns makes the same lines, carriage returns aside, as the entry
without them. Two things stand against it. Inside a container line ends are dropped, so a carriage
return can come to stand inside a line. And a carriage return right behind a code block starts a line,
which is left empty.
-/

namespace ClassDocs

open Text Unicode

namespace Layout

/-- Whether a line is read as the same line without its carriage returns: as a fence or not, with as
many backticks at its start, and as a section heading or not. -/
def ReadsWithoutReturns (line : Text) : Prop :=
  Fence.isDelimiter (dropReturns line) = Fence.isDelimiter line ∧
    Fence.leadingBackticks (trimSides (dropReturns line)) = Fence.leadingBackticks (trimSides line) ∧
    isSectionHeading (trimSides (dropReturns line)) = isSectionHeading (trimSides line)

instance (line : Text) : Decidable (ReadsWithoutReturns line) :=
  inferInstanceAs (Decidable (_ ∧ _ ∧ _))

section Lines

variable {line : Text}

theorem trimSides_dropReturns (line : Text) :
    trimSides (dropReturns line) = dropReturns (trimSides line) :=
  trim_dropReturns rfl line

theorem return_notMem_trimSides (h : ReturnsEndLines line) (hnewline : '\n' ∉ line) :
    '\r' ∉ trimSides line := by
  obtain ⟨before, after, hline, -, -⟩ := exists_trimSides_append line
  have hkept : ReturnsEndLines (trimSides line) := h.mono ⟨before, after, hline.symm⟩
  obtain ⟨kept, hreturn, hsides | hsides⟩ :=
    hkept.exists_line fun hmem => hnewline (mem_of_mem_trim hmem)
  · rwa [hsides]
  · have hlast : (trimSides line).getLast? = some '\r' := by rw [hsides, List.getLast?_concat]
    exact absurd (getLast?_trim hlast) (by decide)

theorem readsWithoutReturns_of_notMem (h : '\r' ∉ trimSides line) : ReadsWithoutReturns line := by
  have hsides : trimSides (dropReturns line) = trimSides line := by
    rw [trimSides_dropReturns, dropReturns_eq_self h]
  refine ⟨?_, congrArg Fence.leadingBackticks hsides, congrArg isSectionHeading hsides⟩
  rw [← isDelimiter_trimSides, hsides, isDelimiter_trimSides]

/-- A carriage return inside a text stands behind the run of backticks at its start, in front of
another character. -/
theorem leadingBackticks_lt_of_return {s : Text} (hreturn : '\r' ∈ s)
    (hlast : s.getLast? ≠ some '\r') : Fence.leadingBackticks s < (dropReturns s).length := by
  have hsplit : s.takeWhile (· == '`') ++ s.dropWhile (· == '`') = s := List.takeWhile_append_dropWhile
  have hrun : '\r' ∉ s.takeWhile (· == '`') := fun hmem =>
    absurd (List.mem_takeWhile_imp hmem) (by decide)
  have hrest : s.dropWhile (· == '`') ≠ [] := by
    intro hnil
    rw [hnil, List.append_nil] at hsplit
    rw [← hsplit] at hreturn
    exact hrun hreturn
  have hkept : (s.dropWhile (· == '`')).getLast hrest ∈ dropReturns (s.dropWhile (· == '`')) := by
    refine mem_dropReturns.mpr ⟨List.getLast_mem hrest, fun heq => hlast ?_⟩
    rw [← hsplit, List.getLast?_append_of_ne_nil _ hrest, List.getLast?_eq_some_getLast hrest, heq]
  have hpos := List.length_pos_of_mem hkept
  have hlength : (dropReturns s).length =
      (s.takeWhile (· == '`')).length + (dropReturns (s.dropWhile (· == '`'))).length := by
    conv_lhs => rw [← hsplit]
    rw [dropReturns_append, dropReturns_eq_self hrun, List.length_append]
  rw [Fence.leadingBackticks]
  omega

theorem closes_dropReturns (length : Nat) (h : ReadsWithoutReturns line) :
    Fence.closes length (trimSides (dropReturns line)) = Fence.closes length (trimSides line) := by
  by_cases hreturn : '\r' ∈ trimSides line
  · have hkept : (trimSides line).all (· == '`') = false :=
      List.all_eq_false.mpr ⟨'\r', hreturn, by decide⟩
    have hdropped : (dropReturns (trimSides line)).all (· == '`') = false := by
      rw [Bool.eq_false_iff]
      intro hall
      have hrun := Fence.leadingBackticks_of_forall (List.all_eq_true.mp hall)
      have hless := leadingBackticks_lt_of_return hreturn fun hlast =>
        absurd (getLast?_trim hlast) (by decide)
      have hsame := h.2.1
      rw [trimSides_dropReturns] at hsame
      omega
    rw [trimSides_dropReturns, Fence.closes, Fence.closes, hkept, hdropped]
    rfl
  · rw [trimSides_dropReturns, dropReturns_eq_self hreturn]

theorem isEmpty_trimSides_dropReturns (line : Text) :
    (trimSides (dropReturns line)).isEmpty = (trimSides line).isEmpty := by
  rw [trimSides_dropReturns]
  cases hsides : trimSides line with
  | nil => rfl
  | cons c rest =>
    have hc : c ≠ '\r' := by
      rintro rfl
      exact absurd (head?_trim (congrArg List.head? hsides)) (by decide)
    rw [dropReturns_cons_of_ne rest hc]
    rfl

theorem role_dropReturns (fence : Option Nat) (h : ReadsWithoutReturns line) :
    role fence (dropReturns line) = role fence line := by
  cases fence with
  | none => rw [role, role, h.1]
  | some length => rw [role, role, closes_dropReturns length h]

theorem dropReturns_emitted (fence : Option Nat) (h : ReadsWithoutReturns line) :
    dropReturns (emitted fence line) = emitted fence (dropReturns line) := by
  rw [emitted, emitted, role_dropReturns fence h, trimSides_dropReturns]
  split <;> rfl

theorem fenceAfter_dropReturns (fence : Option Nat) (h : ReadsWithoutReturns line) :
    fenceAfter fence (dropReturns line) = fenceAfter fence line := by
  rw [fenceAfter, fenceAfter, role_dropReturns fence h, h.2.1]

theorem startsParagraph_dropReturns (fence : Option Nat) (h : ReadsWithoutReturns line) :
    startsParagraph fence (dropReturns line) = startsParagraph fence line := by
  rw [startsParagraph, startsParagraph, role_dropReturns fence h, h.2.2]

theorem leavesBlank_dropReturns (fence : Option Nat) (h : ReadsWithoutReturns line) :
    leavesBlank fence (dropReturns line) = leavesBlank fence line := by
  rw [leavesBlank, leavesBlank, role_dropReturns fence h, isEmpty_trimSides_dropReturns,
    isBlank_dropReturns]

end Lines

theorem map_dropReturns_spaced (fence : Option Nat) (afterBlank : Bool) {ls : List Text}
    (h : ∀ line ∈ ls, ReadsWithoutReturns line) :
    (spaced fence afterBlank ls).map dropReturns =
      spaced fence afterBlank (ls.map dropReturns) := by
  induction ls generalizing fence afterBlank with
  | nil => rfl
  | cons line ls ih =>
    have hline := h line List.mem_cons_self
    have hrest := ih (fenceAfter fence line) (leavesBlank fence line) fun other hmem =>
      h other (List.mem_cons_of_mem line hmem)
    rw [spaced, List.map_append, List.map_cons, hrest, dropReturns_emitted fence hline, List.map_cons,
      spaced, startsParagraph_dropReturns fence hline, fenceAfter_dropReturns fence hline,
      leavesBlank_dropReturns fence hline]
    congr 1
    split <;> rfl

theorem map_dropReturns_dropBlankEnds (ls : List Text) :
    (dropBlankEnds ls).map dropReturns = dropBlankEnds (ls.map dropReturns) := by
  have hblank : isBlank ∘ dropReturns = isBlank := by
    funext line
    exact isBlank_dropReturns line
  rw [dropBlankEnds, dropBlankEnds, ← List.map_reverse, List.dropWhile_map, ← List.map_reverse,
    List.dropWhile_map, hblank]

theorem map_dropReturns_tidyLines {s : Text} (h : ∀ line ∈ lines s, ReadsWithoutReturns line) :
    (tidyLines s).map dropReturns = tidyLines (dropReturns s) := by
  rw [tidyLines, map_dropReturns_dropBlankEnds, map_dropReturns_spaced none true h, tidyLines,
    lines_dropReturns]

theorem fenceAfter_empty_line (fence : Option Nat) {run : Text} (h : Fence.closes 3 run = true) :
    fenceAfter (fenceAfter fence run) [] = fenceAfter fence run := by
  obtain ⟨n, hn, rfl⟩ := Fence.closes_iff.mp h
  have htrim := trimSides_replicate n
  cases fence with
  | none =>
    have hdelimiter : Fence.isDelimiter (List.replicate n '`') = true := by
      simpa using isDelimiter_replicate_append hn []
    have hlength : Fence.leadingBackticks (List.replicate n '`') = n := by
      simpa using Fence.leadingBackticks_replicate_append n (s := []) (by simp)
    rw [fenceAfter_opening hdelimiter, htrim, hlength, fenceAfter_some_empty_line (by omega)]
  | some length =>
    cases hcloses : Fence.closes length (trimSides (List.replicate n '`')) with
    | true =>
      rw [fenceAfter_closing hcloses]
      rfl
    | false =>
      have hlonger : 0 < length := by
        simp [Fence.closes, htrim] at hcloses
        omega
      rw [fenceAfter_code hcloses, fenceAfter_some_empty_line hlonger]

theorem nonBlank_written_of_padded {ls padded : List Text} (h : Padded ls padded)
    (fence : Option Nat) : nonBlank (written fence padded) = nonBlank (written fence ls) := by
  induction h generalizing fence with
  | nil => rfl
  | line line _ ih =>
    rw [written, written]
    cases hblank : isBlank (emitted fence line) with
    | true => rw [nonBlank_cons_of_blank _ hblank, nonBlank_cons_of_blank _ hblank, ih]
    | false => rw [nonBlank_cons_of_not_blank _ hblank, nonBlank_cons_of_not_blank _ hblank, ih]
  | @gap _ _ run hfence _ ih =>
    have hempty : isBlank (emitted (fenceAfter fence run) []) = true := isBlank_emitted _ []
    rw [written, written, written, fenceAfter_empty_line fence hfence]
    cases hblank : isBlank (emitted fence run) with
    | true =>
      rw [nonBlank_cons_of_blank _ hblank, nonBlank_cons_of_blank _ hempty,
        nonBlank_cons_of_blank _ hblank, ih]
    | false =>
      rw [nonBlank_cons_of_not_blank _ hblank, nonBlank_cons_of_blank _ hempty,
        nonBlank_cons_of_not_blank _ hblank, ih]

theorem spaced_empty_line (fence : Option Nat) (afterBlank : Bool) :
    spaced fence afterBlank [[]] = [[]] := by
  cases fence with
  | none => cases afterBlank <;> rfl
  | some length =>
    have hempty : trimSides [] = [] := rfl
    cases hcloses : Fence.closes length [] <;>
      simp [spaced, startsParagraph, emitted, role, hempty, hcloses]

theorem tidyLines_append_newline (s : Text) : tidyLines (s ++ ['\n']) = tidyLines s := by
  have hend : ∀ ls : List Text, dropBlankEnds (ls ++ [[]]) = dropBlankEnds ls := by
    intro ls
    have hdrop := List.rdropWhile_concat_pos isBlank ls [] rfl
    exact congrArg (List.dropWhile isBlank) hdrop
  rw [tidyLines, lines_append_newline, lines_nil, spaced_append, spaced_empty_line, hend, ← tidyLines]

end Layout

def withReturns (entry : List Text) : List Text :=
  entry.map (· ++ ['\r'])

theorem source_eq_unlines (settings : DocSettings) (entry : List Text) :
    DocComment.source settings entry =
      unlines (entry.map (replaceAll DocComment.urlPlaceholder settings.baseUrl)) :=
  replaceAll_unlines _ _ (by decide) (by decide)

theorem source_withReturns (settings : DocSettings) (entry : List Text) :
    DocComment.source settings (withReturns entry) =
      unlines ((entry.map (replaceAll DocComment.urlPlaceholder settings.baseUrl)).map
        (· ++ ['\r'])) := by
  have hline : ∀ line : Text,
      replaceAll DocComment.urlPlaceholder settings.baseUrl (line ++ ['\r']) =
        replaceAll DocComment.urlPlaceholder settings.baseUrl line ++ ['\r'] := by
    intro line
    rw [replaceAll_append_cons _ line [] (by decide) (by decide), replaceAll_nil]
  rw [source_eq_unlines, withReturns, List.map_map, List.map_map]
  congr 1
  apply List.map_congr_left
  intro line _
  exact hline line

section Documents

variable {settings : DocSettings} {entry : List Text}

private theorem return_notMem_line (hbase : '\r' ∉ settings.baseUrl)
    (hentry : ∀ line ∈ entry, '\r' ∉ line) :
    ∀ line ∈ entry.map (replaceAll DocComment.urlPlaceholder settings.baseUrl), '\r' ∉ line := by
  intro line hline hmem
  obtain ⟨source, hsource, rfl⟩ := List.mem_map.mp hline
  rcases mem_replaceAll hmem with hmem | hmem
  · exact hbase hmem
  · exact hentry source hsource hmem

theorem returnLines_withReturns (hbase : '\r' ∉ settings.baseUrl)
    (hentry : ∀ line ∈ entry, '\r' ∉ line) :
    ReturnLines (tagsOf (DocComment.source settings (withReturns entry))) where
  returns := by
    rw [source_withReturns]
    exact returnsEndTags_tagsOf (return_notMem_line hbase hentry)
  oneLine _ htag := newline_notMem_display htag
  named _ htag _ := return_notMem_namedLanguage htag

theorem withoutReturns_withReturns (hbase : '\r' ∉ settings.baseUrl)
    (hentry : ∀ line ∈ entry, '\r' ∉ line) :
    withoutReturns (tagsOf (DocComment.source settings (withReturns entry))) =
      tagsOf (DocComment.source settings entry) := by
  rw [source_withReturns, withoutReturns_tagsOf (return_notMem_line hbase hentry), source_eq_unlines]

theorem document_eq_filterMap (hbase : '\r' ∉ settings.baseUrl)
    (hentry : ∀ line ∈ entry, '\r' ∉ line) :
    DocComment.document settings (DocComment.source settings entry) =
      (DocComment.document settings (DocComment.source settings (withReturns entry))).filterMap
        Piece.withoutReturns? := by
  have hreturns := (returnLines_withReturns hbase hentry).returns
  rw [DocComment.document, ← withoutReturns_withReturns hbase hentry]
  exact pieces_withoutReturns fun tag hmem htext => hreturns.return_notMem hmem htext

theorem returnsFit_of_mem_document (hlanguage : '\r' ∉ settings.language)
    (hbase : '\r' ∉ settings.baseUrl) (hentry : ∀ line ∈ entry, '\r' ∉ line) :
    ∀ piece ∈ DocComment.document settings (DocComment.source settings (withReturns entry)),
      piece.ReturnsFit :=
  returnsFit_of_mem_pieces (returnLines_withReturns hbase hentry) hlanguage (by simp)

theorem returnsEndPieces_document (hbase : '\r' ∉ settings.baseUrl)
    (hentry : ∀ line ∈ entry, '\r' ∉ line) :
    ReturnsEndPieces False
      (DocComment.document settings (DocComment.source settings (withReturns entry))) :=
  returnsEndPieces_pieces (returnLines_withReturns hbase hentry).returns False.elim

/-- Outside containers, no carriage return comes to stand inside a line. -/
theorem return_notMem_trimSides_rendered (hlanguage : '\r' ∉ settings.language)
    (hbase : '\r' ∉ settings.baseUrl) (hentry : ∀ line ∈ entry, '\r' ∉ line)
    (hopen : Tag.spanOpen .container ∉ tagsOf (DocComment.source settings entry)) :
    ∀ line ∈ lines (rendered
        (DocComment.document settings (DocComment.source settings (withReturns entry)))),
      '\r' ∉ Layout.trimSides line := by
  have htags := (returnLines_withReturns hbase hentry).returns
  have hfree : Tag.spanOpen .container ∉ tagsOf (DocComment.source settings (withReturns entry)) := by
    intro hmem
    apply hopen
    rw [← withoutReturns_withReturns hbase hentry]
    exact List.mem_filterMap.mpr ⟨_, hmem, rfl⟩
  have hends : ReturnsEndPieces True
      (DocComment.document settings (DocComment.source settings (withReturns entry))) :=
    returnsEndPieces_pieces htags fun _ => ⟨List.not_mem_nil, hfree⟩
  have hrendered : ReturnsEndLines (rendered
      (DocComment.document settings (DocComment.source settings (withReturns entry)))) :=
    returnsEndLines_addAll (returnsFit_of_mem_document hlanguage hbase hentry) hends List.isChain_nil
      (by simp [Page.blank])
  intro line hline
  exact Layout.return_notMem_trimSides (hrendered.mono (isInfix_of_mem_lines hline))
    (newline_notMem_of_mem_lines hline)

end Documents

/-- An entry with carriage returns at the ends of its lines makes the lines that it makes without
them, blank lines aside, and exactly these lines if no line of it ends right behind a code block. If a
container opens in it, carriage returns must not keep a rendered line from being read as a fence or a
heading. -/
theorem contentLines_withReturns (entry : List Text) (hentry : ∀ line ∈ entry, '\r' ∉ line)
    (hreads : Tag.spanOpen .container ∈ tagsOf (DocComment.source .default entry) →
      ∀ line ∈ lines (rendered
          (DocComment.document .default (DocComment.source .default (withReturns entry)))),
        Layout.ReadsWithoutReturns line) :
    Layout.nonBlank ((DocComment.contentLines .default (withReturns entry)).map dropReturns) =
      Layout.nonBlank (DocComment.contentLines .default entry) ∧
    ((∀ before, before ++ [Piece.newline] <+:
          DocComment.document .default (DocComment.source .default entry) →
        (Page.blank.addAll before).afterBlock = false) →
      (DocComment.contentLines .default (withReturns entry)).map dropReturns =
        DocComment.contentLines .default entry) := by
  have hlanguage : '\r' ∉ DocSettings.default.language := by decide
  have hbase : '\r' ∉ DocSettings.default.baseUrl := by decide
  have hfit := returnsFit_of_mem_document hlanguage hbase hentry
  have hends := returnsEndPieces_document hbase hentry
  have hlinesRead : ∀ line ∈ lines (rendered
      (DocComment.document .default (DocComment.source .default (withReturns entry)))),
      Layout.ReadsWithoutReturns line := by
    by_cases hopen : Tag.spanOpen .container ∈ tagsOf (DocComment.source .default entry)
    · exact hreads hopen
    · intro line hline
      apply Layout.readsWithoutReturns_of_notMem
      exact return_notMem_trimSides_rendered hlanguage hbase hentry hopen line hline
  rw [DocComment.contentLines, Layout.map_dropReturns_tidyLines hlinesRead, DocComment.contentLines,
    document_eq_filterMap hbase hentry]
  constructor
  · have hpadded := padded_addAll hfit hends .blank fun hblock => absurd hblock Bool.false_ne_true
    rw [Layout.nonBlank_tidyLines, Layout.nonBlank_tidyLines]
    exact Layout.nonBlank_written_of_padded hpadded none
  · intro hlines
    have hrendered := dropReturns_addAll hfit hends .blank fun before after heq =>
      hlines before ⟨after, by rw [heq, List.append_assoc]; rfl⟩
    rcases hrendered with heq | heq
    · exact congrArg Layout.tidyLines heq
    · exact (congrArg Layout.tidyLines heq).trans (Layout.tidyLines_append_newline _)

def proseInGroup : List Text :=
  ["[b]Use[/b]\t".toList, "[codeblocks]".toList, "either of".toList, " these:".toList,
    "[gdscript]".toList, "x ".toList, "[/gdscript]".toList, "[/codeblocks]".toList]

theorem contentLines_proseInGroup_withReturns :
    (∀ line ∈ proseInGroup, '\r' ∉ line) ∧
    (∀ line ∈ lines (rendered
        (DocComment.document .default (DocComment.source .default (withReturns proseInGroup)))),
      Layout.ReadsWithoutReturns line) ∧
    (DocComment.contentLines .default (withReturns proseInGroup)).map dropReturns =
      DocComment.contentLines .default proseInGroup := by
  have hentry : ∀ line ∈ proseInGroup, '\r' ∉ line := by decide +kernel
  have hreads : ∀ line ∈ lines (rendered
      (DocComment.document .default (DocComment.source .default (withReturns proseInGroup)))),
      Layout.ReadsWithoutReturns line := by
    decide +kernel
  have hblocks : ∀ before ∈ (DocComment.document .default
      (DocComment.source .default proseInGroup)).inits,
      before ++ [Piece.newline] <+:
        DocComment.document .default (DocComment.source .default proseInGroup) →
      (Page.blank.addAll before).afterBlock = false := by
    decide +kernel
  refine ⟨hentry, hreads, (contentLines_withReturns proseInGroup hentry fun _ => hreads).2 ?_⟩
  intro before hbefore
  have hstart := (List.prefix_append before [Piece.newline]).trans hbefore
  exact hblocks before ((List.mem_inits _ _).mpr hstart) hbefore

/-- Backticks on two lines of a group of samples run together as a fence, which opens a block only
without the carriage return between them. -/
example :
    DocComment.contentLines .default
        ["[codeblocks]".toList, "``".toList, "`x".toList, "[/codeblocks]".toList, " y".toList] =
      ["```x".toList, " y".toList] ∧
    DocComment.contentLines .default
        ["[codeblocks]\r".toList, "``\r".toList, "`x\r".toList, "[/codeblocks]\r".toList,
          " y\r".toList] =
      ["``\r`x".toList, "y".toList] := by
  decide +kernel

def lineBehindBlock : List Text :=
  ["[codeblock]".toList, "x".toList, "[/codeblock]".toList, "y".toList]

theorem return_behind_block_leaves_empty_line :
    (∀ line ∈ lineBehindBlock, '\r' ∉ line ∧ '\n' ∉ line) ∧
    DocComment.contentLines .default lineBehindBlock =
      ["```gdscript".toList, "x".toList, "```".toList, "y".toList] ∧
    (DocComment.contentLines .default (withReturns lineBehindBlock)).map dropReturns =
      ["```gdscript".toList, "x".toList, "```".toList, [], "y".toList] := by
  decide +kernel

end ClassDocs
