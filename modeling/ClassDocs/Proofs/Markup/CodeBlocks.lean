import ClassDocs.Project
import ClassDocs.Proofs.Markup.Fence
import ClassDocs.Proofs.Markup.Page
import ClassDocs.Proofs.Text.Replace

/-!
# Code blocks from source to comment

Code between the tags of a block reaches the comment as it is read: the tags of its lines are one
region, the region is written as one block, and the block's lines are laid out unchanged, whatever
tags and backticks the code holds.
-/

namespace ClassDocs

open Text Unicode Fence Layout

/-- The text of code as a block shows it: bracket escapes are resolved, and white space at its end is
left out. -/
def codeText (code : List Text) : Text :=
  trimEnd isWhiteSpace (literalText (tagsOf (unlines code)))

/-- The tags between the line that opens a block and the line that closes it. -/
def blockTags (code : List Text) : List Tag :=
  code.flatMap (fun line => .newline :: tagsOf line) ++ [.newline]

theorem blockTags_cons (line : Text) (code : List Text) :
    blockTags (line :: code) = .newline :: (tagsOf (unlines (line :: code)) ++ [.newline]) := by
  rw [blockTags, tagsOf_unlines_cons, List.flatMap_cons, List.cons_append, List.cons_append]

theorem mem_blockTags {code : List Text} {tag : Tag} (h : tag ∈ blockTags code) :
    tag = .newline ∨ tag ∈ tagsOf (unlines code) := by
  cases code with
  | nil => exact Or.inl (List.mem_singleton.mp h)
  | cons line code =>
    rw [blockTags_cons, List.mem_cons, List.mem_append, List.mem_singleton] at h
    rcases h with h | h | h
    · exact Or.inl h
    · exact Or.inr h
    · exact Or.inl h

theorem mem_blockTags_of_mem {code : List Text} {tag : Tag} (h : tag ∈ tagsOf (unlines code)) :
    tag ∈ blockTags code := by
  cases code with
  | nil =>
    rw [unlines_nil, tagsOf_nil] at h
    exact absurd h List.not_mem_nil
  | cons line code =>
    rw [blockTags_cons]
    exact List.mem_cons_of_mem _ (List.mem_append_left _ h)

theorem split?_blockTags_of_forall {region : Region} {close : Tag} {code : List Text}
    (rest : List Tag) (hclose : close.closesRegion? = some region)
    (hcode : ∀ tag ∈ tagsOf (unlines code), tag.closesRegion? ≠ some region) :
    region.split? (blockTags code ++ close :: rest) = some (blockTags code, rest) := by
  have hinside : ∀ tag ∈ blockTags code, tag.closesRegion? ≠ some region := by
    intro tag htag
    rcases mem_blockTags htag with rfl | htag
    · simp [Tag.closesRegion?]
    · exact hcode tag htag
  exact Region.split?_append rest hinside hclose

theorem split?_blockTags {region : Region} {close : Tag} {code : List Text} (rest : List Tag)
    (hclose : close.closesRegion? = some region)
    (honly : ∀ tag : Tag, tag.closesRegion? = some region → tag = close)
    (hcode : close ∉ tagsOf (unlines code)) :
    region.split? (blockTags code ++ close :: rest) = some (blockTags code, rest) :=
  split?_blockTags_of_forall rest hclose fun tag htag hends => hcode (honly tag hends ▸ htag)

theorem literalText_blockTags_cons (line : Text) (code : List Text) :
    literalText (blockTags (line :: code)) =
      '\n' :: (literalText (tagsOf (unlines (line :: code))) ++ ['\n']) := by
  rw [blockTags_cons, literalText, List.flatMap_cons, List.flatMap_append]
  rfl

/-- The newlines around the code are no part of its block. -/
theorem body_literalText_blockTags (code : List Text) :
    body (literalText (blockTags code)) = codeText code := by
  cases code with
  | nil =>
    rw [blockTags, codeText, unlines_nil, tagsOf_nil]
    rfl
  | cons line code =>
    rw [literalText_blockTags_cons, body_newline_cons,
      trimEnd_append_of_forall _ (List.all_eq_true.mp rfl), codeText]

theorem DocComment.source_eq_unlines (settings : DocSettings) {entry : List Text}
    (h : ∀ line ∈ entry, occursIn urlPlaceholder line = false) :
    source settings entry = unlines entry :=
  replaceAll_of_not_occursIn _ (occursIn_unlines (by decide) (by decide) h)

theorem dropBlankEnds_fencedLines (as bs : List Text) (language code : Text) :
    dropBlankEnds (as ++ (fencedLines language code ++ bs)) =
      as.dropWhile isBlank ++ (fencedLines language code ++ bs.rdropWhile isBlank) := by
  have hlast := isBlank_delimiter_append code []
  rw [List.append_nil] at hlast
  have hdrop := dropBlankEnds_append as (if code = [] then [] else lines code) bs
    (isBlank_delimiter_append code language) hlast
  simpa [fencedLines, delimiter_eq] using hdrop

theorem tidyLines_of_lines {s : Text} {before after : List Text} {language code : Text}
    (hlines : lines s = before ++ (fencedLines language code ++ after))
    (hlanguage : ∀ c ∈ language, Slice.isInfoChar c = true)
    (hbefore : ∀ line ∈ before, '`' ∉ line) (hafter : ∀ line ∈ after, '`' ∉ line) :
    ∃ above below, tidyLines s = above ++ (fencedLines language code ++ below) ∧
      nonBlank above = (nonBlank before).map trimSides ∧
      nonBlank below = (nonBlank after).map trimSides := by
  have hprose : ∀ {ls : List Text}, (∀ line ∈ ls, '`' ∉ line) →
      ∀ line ∈ ls, isDelimiter line = false :=
    fun h line hline => isDelimiter_of_notMem_backtick (h line hline)
  have hspaced : ∀ {ls : List Text} (afterBlank : Bool), (∀ line ∈ ls, '`' ∉ line) →
      nonBlank (spaced none afterBlank ls) = (nonBlank ls).map trimSides := by
    intro ls afterBlank h
    rw [nonBlank_spaced, written_prose (hprose h), nonBlank_map_trimSides]
  obtain ⟨nowBlank, hstate⟩ : ∃ nowBlank, afterLines (none, true) before = (none, nowBlank) :=
    ⟨_, Prod.ext (afterLines_prose true (hprose hbefore)) rfl⟩
  have hgap : nonBlank (if nowBlank then [] else [[]]) = [] := by
    cases nowBlank <;> rfl
  refine ⟨(spaced none true before ++ if nowBlank then [] else [[]]).dropWhile isBlank,
    (spaced none false after).rdropWhile isBlank, ?_, ?_, ?_⟩
  · rw [tidyLines, hlines, spaced_append, hstate, spaced_fencedLines nowBlank code after hlanguage,
      ← List.append_assoc, dropBlankEnds_fencedLines]
  · rw [nonBlank_dropWhile, nonBlank_append, hgap, List.append_nil, hspaced true hbefore]
  · rw [nonBlank_rdropWhile, hspaced false hafter]

/-- The lines of a block are written below `above` only, and end with a fence that is closed. -/
theorem tidyLines_of_fencedLines {s : Text} {language code : Text} {below : List Text}
    (hlines : lines s = fencedLines language code ++ below)
    (hside : ∀ c ∈ language, isSide c = false) (hhead : language.head? ≠ some '`') :
    tidyLines s = fencedLines language code ++ (spaced none false below).rdropWhile isBlank := by
  have hspaced := spaced_fencedLines_of_head true code below hside hhead
  have hdrop := dropBlankEnds_fencedLines [] (spaced none false below) language code
  rw [List.dropWhile_nil, List.nil_append, List.nil_append] at hdrop
  rw [tidyLines, hlines, hspaced, if_pos rfl, List.nil_append, hdrop]

theorem tidyLines_of_fencedLines_of_backtick {s : Text} {language code : Text} {below : List Text}
    (hlines : lines s = fencedLines language code ++ below)
    (hside : ∀ c ∈ language, isSide c = false) (hhead : language.head? = some '`')
    (hbelow : ∀ line ∈ below, '`' ∉ line) :
    tidyLines s = fencedLines language code ++ below.rdropWhile isBlank := by
  have hspaced := spaced_fencedLines_of_backtick code hside hhead hbelow
  have hdrop := dropBlankEnds_fencedLines [] below language code
  rw [List.dropWhile_nil, List.nil_append, List.nil_append] at hdrop
  rw [tidyLines, hlines, hspaced, hdrop]

section Entries

variable {before code after : List Text} {opening closing : Text} {first close : Tag}

theorem tagsOf_blockEntry (before code after : List Text) (hopening : tagsOf opening = [first])
    (hclosing : tagsOf closing = [close]) :
    tagsOf (unlines (before ++ opening :: (code ++ closing :: after))) =
      before.flatMap (fun line => tagsOf line ++ [.newline]) ++
        first :: (blockTags code ++ close :: after.flatMap fun line => .newline :: tagsOf line) := by
  rw [tagsOf_unlines_append_cons, tagsOf_unlines_cons, List.flatMap_append, List.flatMap_cons,
    hopening, hclosing, blockTags]
  simp only [List.append_assoc, List.cons_append, List.nil_append]

theorem rendered_blockEntry (language : Text) {region : Region} {named : Text}
    (hopening : tagsOf opening = [first]) (hclosing : tagsOf closing = [close])
    (hbefore : ∀ line ∈ before, IsPlainLine line) (hafter : ∀ line ∈ after, IsPlainLine line)
    (hopens : first.opensRegion? = some region) (hcloses : close.closesRegion? = some region)
    (hblock : ∀ content, first.regionPiece language content = .block named content)
    (hcode : ∀ tag ∈ tagsOf (unlines code), tag.closesRegion? ≠ some region) :
    rendered (pieces language [] (tagsOf (unlines
        (before ++ opening :: (code ++ closing :: after))))) =
      before.flatMap (fun line => line ++ ['\n']) ++ block named (codeText code) ++
        after.flatMap fun line => '\n' :: line := by
  have hsample : ∀ sample, first ≠ .languageOpen sample := by
    rintro sample rfl
    exact absurd (hblock []) (by simp [Tag.regionPiece])
  have hsplit := split?_blockTags_of_forall (after.flatMap fun line => .newline :: tagsOf line)
    hcloses hcode
  rw [rendered_eq_addAll, tagsOf_blockEntry before code after hopening hclosing,
    addAll_pieces_ended_lines _ hbefore (by simp) rfl, pieces_region hopens hsample hsplit, hblock,
    Page.addAll_cons, text_addAll_pieces_started_lines hafter (by simp)]
  have hwritten := Page.writeBlock_of_line_start
    ⟨Page.blank.text ++ before.flatMap fun line => line ++ ['\n'], false⟩ named
    (literalText (blockTags code)) (lastLine_flatMap_newline before)
  rw [body_literalText_blockTags] at hwritten
  exact congrArg (fun page => page.text ++ after.flatMap fun line => '\n' :: line) hwritten

end Entries

theorem fenceClose_of_closesRegion? {tag : Tag} (h : tag.closesRegion? = some .fence) :
    tag = .fenceClose := by
  cases tag with
  | fenceClose => rfl
  | _ => simp [Tag.closesRegion?] at h

theorem tagsOf_fenceClose : tagsOf "[/codeblock]".toList = [.fenceClose] :=
  tagsOf_bracketed "/codeblock".toList (by decide) rfl

theorem rendered_block (language : Text) {before code after : List Text}
    (hbefore : ∀ line ∈ before, IsPlainLine line) (hafter : ∀ line ∈ after, IsPlainLine line)
    (hcode : Tag.fenceClose ∉ tagsOf (unlines code)) :
    rendered (pieces language [] (tagsOf (unlines
        (before ++ "[codeblock]".toList :: (code ++ "[/codeblock]".toList :: after))))) =
      before.flatMap (fun line => line ++ ['\n']) ++ block language (codeText code) ++
        after.flatMap fun line => '\n' :: line := by
  have hopening : tagsOf "[codeblock]".toList = [.fenceOpen none "[codeblock]".toList] :=
    tagsOf_bracketed "codeblock".toList (by decide) rfl
  refine rendered_blockEntry language hopening tagsOf_fenceClose hbefore hafter rfl rfl
    (fun _ => rfl) fun tag htag hends => ?_
  exact hcode (fenceClose_of_closesRegion? hends ▸ htag)

theorem isPlainLine_iff {line : Text} :
    IsPlainLine line ↔ '\n' ∉ line ∧ '[' ∉ line ∧ '`' ∉ line := by
  simp only [IsPlainLine, Slice.isPlain_iff]
  constructor
  · intro h
    exact ⟨fun hc => (h _ hc).1 rfl, fun hc => (h _ hc).2.1 rfl, fun hc => (h _ hc).2.2 rfl⟩
  · rintro ⟨hnewline, hbracket, hbacktick⟩ c hc
    exact ⟨fun h => hnewline (h ▸ hc), fun h => hbracket (h ▸ hc), fun h => hbacktick (h ▸ hc)⟩

/-- The code between the tags of a block is kept as it is, between two runs of backticks of its own
length, and the plain lines around it are kept trimmed. -/
theorem contentLines_of_block (settings : DocSettings) (before code after : List Text)
    (hlanguage : ∀ c ∈ settings.language, Slice.isInfoChar c = true)
    (hbefore : ∀ line ∈ before, '\n' ∉ line ∧ '[' ∉ line ∧ '`' ∉ line)
    (hafter : ∀ line ∈ after, '\n' ∉ line ∧ '[' ∉ line ∧ '`' ∉ line)
    (hcode : Tag.fenceClose ∉ tagsOf (unlines code))
    (hplaceholder : ∀ line ∈ before ++ code ++ after,
      occursIn DocComment.urlPlaceholder line = false) :
    ∃ above below : List Text,
      DocComment.contentLines settings (before ++ ["[codeblock]".toList] ++ code ++
        ["[/codeblock]".toList] ++ after) =
          above ++ fencedLines settings.language (codeText code) ++ below ∧
      nonBlank above = (nonBlank before).map trimSides ∧
      nonBlank below = (nonBlank after).map trimSides := by
  have hentry : before ++ ["[codeblock]".toList] ++ code ++ ["[/codeblock]".toList] ++ after =
      before ++ "[codeblock]".toList :: (code ++ "[/codeblock]".toList :: after) := by
    simp only [List.append_assoc, List.cons_append, List.nil_append]
  have hfree : ∀ line ∈ before ++ "[codeblock]".toList :: (code ++ "[/codeblock]".toList :: after),
      occursIn DocComment.urlPlaceholder line = false := by
    intro line hline
    simp only [List.mem_append, List.mem_cons] at hline hplaceholder
    rcases hline with hline | rfl | hline | rfl | hline
    · exact hplaceholder line (Or.inl (Or.inl hline))
    · decide
    · exact hplaceholder line (Or.inl (Or.inr hline))
    · decide
    · exact hplaceholder line (Or.inr hline)
  have hsource := DocComment.source_eq_unlines settings hfree
  have hrendered := rendered_block settings.language
    (fun line hline => isPlainLine_iff.mpr (hbefore line hline))
    (fun line hline => isPlainLine_iff.mpr (hafter line hline)) hcode
  have hnewline : '\n' ∉ settings.language := fun h => absurd (hlanguage _ h) (by decide)
  have hlines := congrArg lines hrendered
  rw [List.append_assoc, lines_flatMap_append before _ fun line hline => (hbefore line hline).1,
    lines_append_flatMap, flatMap_lines fun line hline => (hafter line hline).1,
    lines_block hnewline] at hlines
  obtain ⟨above, below, htidy, habove, hbelow⟩ := tidyLines_of_lines hlines hlanguage
    (fun line hline => (hbefore line hline).2.2) (fun line hline => (hafter line hline).2.2)
  refine ⟨above, below, ?_, habove, hbelow⟩
  rw [hentry, DocComment.contentLines, hsource, DocComment.document, htidy, List.append_assoc]

theorem contentLines_of_block_of_tags :
    Tag.fenceClose ∉ tagsOf (unlines ["  ```[b]".toList, "[/code][/codeblocks]".toList]) ∧
    ∃ above below : List Text,
      DocComment.contentLines .default
          ([" see".toList, []] ++ ["[codeblock]".toList] ++
            ["  ```[b]".toList, "[/code][/codeblocks]".toList] ++
            ["[/codeblock]".toList] ++ ["Note: ]".toList]) =
        above ++ ["````gdscript".toList, "  ```[b]".toList, "[/code][/codeblocks]".toList,
          "````".toList] ++ below ∧
      nonBlank above = ["see".toList] ∧ nonBlank below = ["Note: ]".toList] := by
  have hcode : Tag.fenceClose ∉
      tagsOf (unlines ["  ```[b]".toList, "[/code][/codeblocks]".toList]) := by
    decide +kernel
  have hlanguage : ∀ c ∈ DocSettings.default.language, Slice.isInfoChar c = true :=
    List.all_eq_true.mp rfl
  have hblock := contentLines_of_block .default [" see".toList, []]
    ["  ```[b]".toList, "[/code][/codeblocks]".toList] ["Note: ]".toList] hlanguage (by decide)
    (by decide) hcode (by decide)
  have hfenced : fencedLines DocSettings.default.language
      (codeText ["  ```[b]".toList, "[/code][/codeblocks]".toList]) =
        ["````gdscript".toList, "  ```[b]".toList, "[/code][/codeblocks]".toList,
          "````".toList] := by
    decide +kernel
  rw [hfenced] at hblock
  exact ⟨hcode, hblock⟩

end ClassDocs
