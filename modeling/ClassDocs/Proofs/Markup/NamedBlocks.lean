import ClassDocs.Proofs.Markup.CodeBlocks
import ClassDocs.Proofs.Markup.TagContent

/-!
# Blocks that name their language

The run of backticks that opens a block stands right before the language, and the run that closes it
stands alone. So the two have the same length for the reader of the lines exactly if the language starts
with no backtick; otherwise the block is open until the end of the text.
-/

namespace ClassDocs

open Text Unicode Fence Layout

theorem DocComment.source_cons (settings : DocSettings) (first : Text) {rest : List Text}
    (h : ∀ line ∈ rest, occursIn urlPlaceholder line = false) :
    source settings (first :: rest) =
      unlines (replaceAll urlPlaceholder settings.baseUrl first :: rest) := by
  have hrest : rest.map (replaceAll urlPlaceholder settings.baseUrl) = rest :=
    (List.map_congr_left fun line hline => replaceAll_of_not_occursIn _ (h line hline)).trans
      (List.map_id rest)
  rw [source, replaceAll_unlines _ _ (by decide) (by decide), List.map_cons, hrest]

theorem fenceClose_notMem {source : Text} (h : '[' ∉ source) : .fenceClose ∉ tagsOf source :=
  fun hmem => h (mem_of_mem_display hmem (c := '[') (by decide))

def namedEntry (value : Text) (code : List Text) (last : Text) : List Text :=
  ["[codeblock lang=".toList ++ value ++ "]".toList] ++ code ++ ["[/codeblock]".toList, last]

theorem lines_rendered_namedEntry {settings : DocSettings} {value language written : Text}
    {code : List Text} {last : Text}
    (hopening : tagsOf (replaceAll DocComment.urlPlaceholder settings.baseUrl
      ("[codeblock lang=".toList ++ value ++ "]".toList)) = [.fenceOpen (some language) written])
    (hcode : ∀ line ∈ code, '\n' ∉ line ∧ '[' ∉ line)
    (hlast : '\n' ∉ last ∧ '[' ∉ last ∧ '`' ∉ last)
    (hplaceholder : ∀ line ∈ code ++ [last], occursIn DocComment.urlPlaceholder line = false)
    (hlanguage : ∀ c ∈ language, isWhiteSpace c = false) :
    lines (rendered (DocComment.document settings
        (DocComment.source settings (namedEntry value code last)))) =
      fencedLines language (codeText code) ++ [last] := by
  have hfree : ∀ line ∈ code ++ ["[/codeblock]".toList, last],
      occursIn DocComment.urlPlaceholder line = false := by
    intro line hline
    simp only [List.mem_append, List.mem_cons, List.not_mem_nil, or_false] at hline hplaceholder
    rcases hline with hline | rfl | rfl
    · exact hplaceholder line (Or.inl hline)
    · decide
    · exact hplaceholder line (Or.inr rfl)
  have hbracket : '[' ∉ unlines code :=
    notMem_unlines (by decide) fun line hline => (hcode line hline).2
  have hplain : ∀ line ∈ [last], IsPlainLine line :=
    List.forall_mem_singleton.mpr (isPlainLine_iff.mpr hlast)
  have hnone : ∀ line ∈ ([] : List Text), IsPlainLine line := by simp
  have hrendered := rendered_blockEntry settings.language hopening tagsOf_fenceClose hnone hplain
    rfl rfl (fun _ => rfl) fun tag htag hends =>
      fenceClose_notMem hbracket (fenceClose_of_closesRegion? hends ▸ htag)
  have hnewline : '\n' ∉ language := fun hmem => absurd (hlanguage _ hmem) (by decide)
  rw [namedEntry, List.append_assoc, List.singleton_append, DocComment.source_cons settings _ hfree,
    DocComment.document]
  rw [List.flatMap_nil, List.nil_append, List.nil_append, List.flatMap_singleton] at hrendered
  rw [hrendered, lines_append_newline, Option.getD_some, lines_block hnewline,
    lines_eq_singleton hlast.1]

theorem rdropWhile_spaced_singleton {last : Text} (hbacktick : '`' ∉ last)
    (hblank : isBlank last = false) :
    (spaced none false [last]).rdropWhile isBlank =
      (if isSectionHeading (trimSides last) then [[]] else []) ++ [trimSides last] := by
  have hkept := (isBlank_trimSides last).trans hblank
  rw [spaced_prose false [] (isDelimiter_of_notMem_backtick hbacktick), Bool.not_false,
    Bool.and_true, spaced, List.rdropWhile_concat_neg _ _ _ (by simp [hkept])]

/-- Behind a block that names its language, a line comes out trimmed, as a line outside blocks does, if
the language starts with no backtick. If it does start with one, the block is not closed at its own
last line, and the line behind it comes out as code. -/
theorem named_block_is_closed_iff (settings : DocSettings) (value language written : Text)
    (code : List Text) (last : Text)
    (hopening : tagsOf (replaceAll DocComment.urlPlaceholder settings.baseUrl
      ("[codeblock lang=".toList ++ value ++ "]".toList)) = [.fenceOpen (some language) written])
    (hcode : ∀ line ∈ code, '\n' ∉ line ∧ '[' ∉ line)
    (hlast : '\n' ∉ last ∧ '[' ∉ last ∧ '`' ∉ last) (hblank : isBlank last = false)
    (hplaceholder : ∀ line ∈ code ++ [last], occursIn DocComment.urlPlaceholder line = false) :
    (language.head? ≠ some '`' →
      DocComment.contentLines settings (namedEntry value code last) =
        fencedLines language (codeText code) ++
          ((if isSectionHeading (trimSides last) then [[]] else []) ++ [trimSides last])) ∧
    (language.head? = some '`' →
      DocComment.contentLines settings (namedEntry value code last) =
        fencedLines language (codeText code) ++ [last]) ∧
    ((DocComment.contentLines settings (namedEntry value code last)).getLast? =
        some (trimSides last) ↔ language.head? ≠ some '`' ∨ trimSides last = last) := by
  have hlanguage : ∀ c ∈ language, isWhiteSpace c = false := fun c hc =>
    not_whiteSpace_of_namedLanguage (hopening ▸ List.mem_singleton_self _) rfl hc
  have hside : ∀ c ∈ language, isSide c = false := by
    intro c hc
    rw [Bool.eq_false_iff]
    exact fun hside => absurd (isWhiteSpace_of_isSide hside) (by simp [hlanguage c hc])
  have hlines := lines_rendered_namedEntry hopening hcode hlast hplaceholder hlanguage
  have hclosed : language.head? ≠ some '`' →
      DocComment.contentLines settings (namedEntry value code last) =
        fencedLines language (codeText code) ++
          ((if isSectionHeading (trimSides last) then [[]] else []) ++ [trimSides last]) := by
    intro hhead
    rw [DocComment.contentLines, tidyLines_of_fencedLines hlines hside hhead,
      rdropWhile_spaced_singleton hlast.2.2 hblank]
  have hopen : language.head? = some '`' →
      DocComment.contentLines settings (namedEntry value code last) =
        fencedLines language (codeText code) ++ [last] := by
    intro hhead
    have hbelow : ∀ line ∈ [last], '`' ∉ line := List.forall_mem_singleton.mpr hlast.2.2
    have hkept := List.rdropWhile_concat_neg isBlank [] last (by simp [hblank])
    rw [List.nil_append] at hkept
    rw [DocComment.contentLines, tidyLines_of_fencedLines_of_backtick hlines hside hhead hbelow,
      hkept]
  refine ⟨hclosed, hopen, ?_⟩
  by_cases hhead : language.head? = some '`'
  · rw [hopen hhead, List.getLast?_concat, Option.some.injEq]
    simp [hhead, eq_comm]
  · rw [hclosed hhead, ← List.append_assoc, List.getLast?_concat]
    simp [hhead]

theorem quoted_language_closes_its_block :
    tagsOf (replaceAll DocComment.urlPlaceholder DocSettings.default.baseUrl
        ("[codeblock lang=".toList ++ "\"c++\" fold".toList ++ "]".toList)) =
      [.fenceOpen (some "c++".toList) "[codeblock lang=\"c++\" fold]".toList] ∧
    DocComment.contentLines .default
        (namedEntry "\"c++\" fold".toList ["  y ".toList, "````".toList] "\tNote: z ".toList) =
      ["`````c++".toList, "  y ".toList, "````".toList, "`````".toList, [], "Note: z".toList] := by
  have hopening : tagsOf (replaceAll DocComment.urlPlaceholder DocSettings.default.baseUrl
      ("[codeblock lang=".toList ++ "\"c++\" fold".toList ++ "]".toList)) =
        [.fenceOpen (some "c++".toList) "[codeblock lang=\"c++\" fold]".toList] := by
    decide +kernel
  have hclosed := (named_block_is_closed_iff .default _ _ _ ["  y ".toList, "````".toList]
    "\tNote: z ".toList hopening (by decide) (by decide) (by decide) (by decide)).1 (by decide)
  have hfenced : fencedLines "c++".toList (codeText ["  y ".toList, "````".toList]) =
      ["`````c++".toList, "  y ".toList, "````".toList, "`````".toList] := by
    decide +kernel
  rw [hfenced] at hclosed
  exact ⟨hopening, hclosed⟩

theorem backtick_language_leaves_block_open :
    tagsOf "[codeblock lang=`x]".toList =
      [.fenceOpen (some "`x".toList) "[codeblock lang=`x]".toList] ∧
    DocComment.contentLines .default (namedEntry "`x".toList ["a".toList] " y ".toList) =
      ["````x".toList, "a".toList, "```".toList, " y ".toList] ∧
    " y ".toList ≠ trimSides " y ".toList := by
  decide +kernel

end ClassDocs
