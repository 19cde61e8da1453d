import ClassDocs.Proofs.Markup.CodeBlocks
import ClassDocs.Proofs.Markup.Pairing

/-!
# Samples in several languages

A group holds samples of the same thing in several languages. Each sample is one region, so the group
ends at its own last line whatever the samples hold; the samples in the language that is wanted
become blocks, and each of the others leaves a report and nothing else.
-/

namespace ClassDocs

open Text Unicode Fence Layout

structure Sample where
  language : Text
  code : List Text
  deriving DecidableEq

namespace Sample

def entry (sample : Sample) : List Text :=
  Tag.bracketed sample.language :: (sample.code ++ [Tag.bracketed ('/' :: sample.language)])

/-- The sample is in a language that has tags, and its code does not hold the one that ends it. -/
structure Readable (sample : Sample) : Prop where
  language_known : sample.language = "gdscript".toList ∨ sample.language = "csharp".toList
  no_placeholder : ∀ line ∈ sample.code, occursIn DocComment.urlPlaceholder line = false
  not_closed : Tag.languageClose sample.language ∉ tagsOf (unlines sample.code)

def tags (sample : Sample) : List Tag :=
  .languageOpen sample.language :: (blockTags sample.code ++ [.languageClose sample.language])

def piece (wanted : Text) (sample : Sample) : Piece :=
  if sample.language = wanted then .block sample.language (literalText (blockTags sample.code))
  else .omitted sample.language

def fenced (sample : Sample) : List Text :=
  fencedLines sample.language (codeText sample.code)

variable {sample : Sample} {samples : List Sample} {rest : List Tag}

theorem Readable.isInfoChar (h : sample.Readable) :
    ∀ c ∈ sample.language, Slice.isInfoChar c = true := by
  rcases h.language_known with hlanguage | hlanguage <;> rw [hlanguage] <;>
    exact List.all_eq_true.mp rfl

theorem Readable.split? (h : sample.Readable) :
    (Region.sample sample.language).split?
        (blockTags sample.code ++ .languageClose sample.language :: rest) =
      some (blockTags sample.code, rest) := by
  have honly : ∀ tag : Tag, tag.closesRegion? = some (.sample sample.language) →
      tag = .languageClose sample.language := by
    intro tag hends
    cases tag with
    | languageClose language =>
      obtain rfl : language = sample.language := by simpa [Tag.closesRegion?] using hends
      rfl
    | _ => simp [Tag.closesRegion?] at hends
  exact split?_blockTags rest rfl honly h.not_closed

theorem Readable.tagsOf_entry (h : sample.Readable) :
    (sample.entry.flatMap fun line => .newline :: tagsOf line) = .newline :: sample.tags := by
  have hopen : tagsOf (Tag.bracketed sample.language) = [.languageOpen sample.language] := by
    rcases h.language_known with hlanguage | hlanguage <;> rw [hlanguage] <;>
      exact tagsOf_bracketed _ (by decide) rfl
  have hclose : tagsOf (Tag.bracketed ('/' :: sample.language)) =
      [.languageClose sample.language] := by
    rcases h.language_known with hlanguage | hlanguage <;> rw [hlanguage] <;>
      exact tagsOf_bracketed _ (by decide) rfl
  rw [entry, List.flatMap_cons, List.flatMap_append, List.flatMap_singleton, hopen, hclose, tags,
    blockTags]
  simp only [List.append_assoc, List.cons_append, List.nil_append]

/-- The search for the end of a group passes over its samples. -/
theorem closesSpan_tags (h : ∀ sample ∈ samples, sample.Readable) :
    closesSpan .container 0 (samples.flatMap (fun sample => .newline :: sample.tags) ++ rest) =
      closesSpan .container 0 rest := by
  induction samples with
  | nil => rfl
  | cons sample samples ih =>
    have hsample := h sample List.mem_cons_self
    have hrest := ih fun other hother => h other (List.mem_cons_of_mem sample hother)
    have hafter : afterRegion? (.languageOpen sample.language)
        (blockTags sample.code ++ .languageClose sample.language ::
          (samples.flatMap (fun sample => .newline :: sample.tags) ++ rest)) =
        some (samples.flatMap (fun sample => .newline :: sample.tags) ++ rest) := by
      rw [afterRegion?, Tag.opensRegion?, Option.bind_some, hsample.split?]
      rfl
    rw [← hrest, ← closesSpan_region (by simp) rfl hafter, List.flatMap_cons, List.cons_append,
      List.cons_append, closesSpan_other (by simp) rfl rfl, tags]
    simp only [List.append_assoc, List.cons_append, List.nil_append]

theorem pieces_tags (wanted : Text) (h : ∀ sample ∈ samples, sample.Readable) :
    pieces wanted [.container] (samples.flatMap (fun sample => .newline :: sample.tags) ++ rest) =
      samples.map (piece wanted) ++ pieces wanted [.container] rest := by
  induction samples with
  | nil => rfl
  | cons sample samples ih =>
    have hsample := h sample List.mem_cons_self
    have hrest := ih fun other hother => h other (List.mem_cons_of_mem sample hother)
    have hcut : sample.tags ++ (samples.flatMap (fun sample => .newline :: sample.tags) ++ rest) =
        .languageOpen sample.language :: (blockTags sample.code ++ .languageClose sample.language ::
          (samples.flatMap (fun sample => .newline :: sample.tags) ++ rest)) := by
      rw [tags, List.cons_append, List.append_assoc, List.singleton_append]
    rw [List.flatMap_cons, List.cons_append, List.cons_append, List.append_assoc,
      pieces_blank (List.mem_singleton_self _) rfl, hcut,
      pieces_sample (List.mem_singleton_self _) hsample.split?, hrest, List.map_cons,
      List.cons_append, piece]

end Sample

def groupEntry (samples : List Sample) : List Text :=
  ["[codeblocks]".toList] ++ samples.flatMap Sample.entry ++ ["[/codeblocks]".toList]

private theorem tagsOf_groupEntry {samples : List Sample}
    (h : ∀ sample ∈ samples, sample.Readable) :
    tagsOf (unlines (groupEntry samples)) = .spanOpen .container ::
      (samples.flatMap (fun sample => .newline :: sample.tags) ++
        [.newline, .spanClose .container]) := by
  have hopen : tagsOf "[codeblocks]".toList = [.spanOpen .container] :=
    tagsOf_bracketed "codeblocks".toList (by decide) rfl
  have hclose : tagsOf "[/codeblocks]".toList = [.spanClose .container] :=
    tagsOf_bracketed "/codeblocks".toList (by decide) rfl
  have hsamples : ((samples.flatMap Sample.entry).flatMap fun line => .newline :: tagsOf line) =
      samples.flatMap fun sample => .newline :: sample.tags := by
    rw [List.flatMap_assoc]
    exact List.flatMap_congr fun sample hsample => (h sample hsample).tagsOf_entry
  rw [groupEntry, List.append_assoc, List.singleton_append, tagsOf_unlines_cons,
    List.flatMap_append, hsamples, List.flatMap_singleton, hopen, hclose, List.singleton_append]

/-- The pieces of a group are those of its samples between two marks that write nothing. -/
theorem pieces_groupEntry (wanted : Text) {samples : List Sample}
    (h : ∀ sample ∈ samples, sample.Readable) :
    pieces wanted [] (tagsOf (unlines (groupEntry samples))) =
      .spanStart .container :: (samples.map (Sample.piece wanted) ++ [.spanEnd .container]) := by
  have hends : closesSpan .container 0 (samples.flatMap (fun sample => .newline :: sample.tags) ++
      [.newline, .spanClose .container]) = true := by
    rw [Sample.closesSpan_tags h, closesSpan_other (by simp) rfl rfl, closesSpan_close_zero]
  have hfind : ([Span.container].find? fun span => span.kind == .container) = some .container := rfl
  rw [tagsOf_groupEntry h, pieces_spanOpen, Span.kind, if_pos hends, Sample.pieces_tags wanted h,
    pieces_blank (List.mem_singleton_self _) rfl, pieces_spanClose hfind, pieces_nil]

def samplesIn (wanted : Text) (samples : List Sample) : List Sample :=
  samples.filter fun sample => sample.language = wanted

def Sample.block (sample : Sample) : Text :=
  Fence.block sample.language (codeText sample.code)

private theorem addAll_samplePieces (wanted : Text) (samples : List Sample) (page : Page) :
    page.addAll (samples.map (Sample.piece wanted)) =
      page.addAll ((samplesIn wanted samples).map (Sample.piece wanted)) := by
  induction samples generalizing page with
  | nil => rfl
  | cons sample samples ih =>
    by_cases hlanguage : sample.language = wanted
    · rw [samplesIn, List.filter_cons_of_pos (by simpa using hlanguage), List.map_cons, List.map_cons,
        Page.addAll_cons, Page.addAll_cons, ih]
      rfl
    · rw [samplesIn, List.filter_cons_of_neg (by simpa using hlanguage), List.map_cons,
        Page.addAll_cons, Sample.piece, if_neg hlanguage, ih]
      rfl

private theorem text_addAll_kept {wanted : Text} {samples : List Sample} (page : Page)
    (hlanguage : ∀ sample ∈ samples, sample.language = wanted)
    (hpage : isBlank (lastLine page.text) = false) :
    (page.addAll (samples.map (Sample.piece wanted))).text =
      page.text ++ samples.flatMap fun sample => '\n' :: sample.block := by
  induction samples generalizing page with
  | nil => simp
  | cons sample samples ih =>
    have hsample := hlanguage sample List.mem_cons_self
    have hrest := fun other hother => hlanguage other (List.mem_cons_of_mem sample hother)
    have hadd : page.add (sample.piece wanted) = ⟨page.text ++ '\n' :: sample.block, true⟩ := by
      rw [Sample.piece, if_pos hsample, Page.add, Page.writeBlock_of_not_blank _ _ hpage,
        body_literalText_blockTags, Sample.block]
    have hlast : isBlank (lastLine (page.text ++ '\n' :: sample.block)) = false := by
      rw [show page.text ++ '\n' :: sample.block = page.text ++ ['\n'] ++ sample.block by simp]
      exact isBlank_lastLine_block _ _ _
    rw [List.map_cons, Page.addAll_cons, hadd, ih _ hrest hlast, List.flatMap_cons]
    simp only [List.append_assoc, List.cons_append]

private theorem rendered_group (document : List Piece) :
    rendered (.spanStart .container :: (document ++ [.spanEnd .container])) =
      (Page.blank.addAll document).text := by
  have hstart : Page.blank.add (.spanStart .container) = Page.blank := rfl
  have hend : ∀ page : Page, page.add (.spanEnd .container) = page := fun _ => rfl
  rw [rendered_eq_addAll, Page.addAll_cons, hstart, Page.addAll_append, Page.addAll_cons, hend,
    Page.addAll_nil]

private theorem mem_samplesIn {wanted : Text} {samples : List Sample} {sample : Sample}
    (h : sample ∈ samplesIn wanted samples) : sample ∈ samples ∧ sample.language = wanted := by
  simpa [samplesIn] using h

private theorem rendered_groupEntry (wanted : Text) {samples : List Sample} {first : Sample}
    {others : List Sample} (h : ∀ sample ∈ samples, sample.Readable)
    (hkept : samplesIn wanted samples = first :: others) :
    rendered (pieces wanted [] (tagsOf (unlines (groupEntry samples)))) =
      first.block ++ (others.map Sample.block).flatMap fun text => '\n' :: text := by
  have hlanguage : ∀ sample ∈ first :: others, sample.language = wanted := by
    intro sample hsample
    rw [← hkept] at hsample
    exact (mem_samplesIn hsample).2
  have hfirst : Page.blank.add (first.piece wanted) = ⟨first.block, true⟩ := by
    rw [Sample.piece, if_pos (hlanguage first List.mem_cons_self), Page.add,
      Page.writeBlock_of_line_start _ _ _ rfl, body_literalText_blockTags, Page.blank, List.nil_append,
      Sample.block]
  have hlast := isBlank_lastLine_block [] first.language (codeText first.code)
  rw [List.nil_append, ← Sample.block] at hlast
  have hothers := text_addAll_kept ⟨first.block, true⟩
    (fun sample hsample => hlanguage sample (List.mem_cons_of_mem first hsample)) hlast
  rw [pieces_groupEntry wanted h, rendered_group, addAll_samplePieces, hkept, List.map_cons,
    Page.addAll_cons, hfirst, hothers, List.flatMap_map]

theorem lines_rendered_group (wanted : Text) {samples : List Sample} {first : Sample}
    {others : List Sample} (h : ∀ sample ∈ samples, sample.Readable)
    (hkept : samplesIn wanted samples = first :: others) :
    lines (rendered (pieces wanted [] (tagsOf (unlines (groupEntry samples))))) =
      (first :: others).flatMap Sample.fenced := by
  have hblock : ∀ sample ∈ first :: others, lines sample.block = sample.fenced := by
    intro sample hsample
    rw [← hkept] at hsample
    have hreadable := h sample (mem_samplesIn hsample).1
    have hnewline : '\n' ∉ sample.language := fun hmem =>
      absurd (hreadable.isInfoChar _ hmem) (by decide)
    rw [Sample.block, Sample.fenced]
    exact lines_block hnewline
  rw [rendered_groupEntry wanted h hkept, lines_append_flatMap, List.flatMap_map, List.flatMap_cons,
    hblock first List.mem_cons_self]
  exact congrArg (first.fenced ++ ·)
    (List.flatMap_congr fun sample hsample => hblock sample (List.mem_cons_of_mem first hsample))

private theorem spaced_samples {samples : List Sample}
    (h : ∀ sample ∈ samples, ∀ c ∈ sample.language, Slice.isInfoChar c = true) :
    spaced none false (samples.flatMap Sample.fenced) =
      samples.flatMap fun sample => [] :: sample.fenced := by
  induction samples with
  | nil => rfl
  | cons sample samples ih =>
    have hrest := ih fun other hother => h other (List.mem_cons_of_mem sample hother)
    rw [List.flatMap_cons, Sample.fenced,
      spaced_fencedLines false (codeText sample.code) _ (h sample List.mem_cons_self), hrest,
      List.flatMap_cons]
    rfl

private theorem intercalate_cons (first : List Text) (others : List (List Text)) :
    [[]].intercalate (first :: others) = first ++ others.flatMap fun lines => [] :: lines := by
  induction others generalizing first with
  | nil => simp
  | cons next others ih =>
    rw [List.intercalate_cons_cons, ih, List.flatMap_cons]
    simp only [List.append_assoc, List.cons_append, List.nil_append]

private theorem rdropWhile_samples (samples : List Sample) :
    (samples.flatMap fun sample => [] :: sample.fenced).rdropWhile isBlank =
      samples.flatMap fun sample => [] :: sample.fenced := by
  rcases List.eq_nil_or_concat samples with rfl | ⟨before, sample, rfl⟩
  · rfl
  · have hrun := isBlank_delimiter_append (codeText sample.code) []
    rw [List.append_nil, delimiter_eq] at hrun
    rw [List.concat_eq_append, List.flatMap_append, List.flatMap_singleton, Sample.fenced,
      fencedLines, ← List.cons_append, ← List.cons_append, ← List.append_assoc,
      List.rdropWhile_concat_neg _ _ _ (by simp [hrun])]

theorem dropBlankEnds_spaced_samples {first : Sample} {others : List Sample}
    (h : ∀ sample ∈ first :: others, ∀ c ∈ sample.language, Slice.isInfoChar c = true) :
    dropBlankEnds (spaced none true ((first :: others).flatMap Sample.fenced)) =
      [[]].intercalate ((first :: others).map Sample.fenced) := by
  have hspaced := spaced_samples fun sample hsample => h sample (List.mem_cons_of_mem first hsample)
  have hdrop := dropBlankEnds_fencedLines [] (others.flatMap fun sample => [] :: sample.fenced)
    first.language (codeText first.code)
  rw [List.flatMap_cons, Sample.fenced,
    spaced_fencedLines true (codeText first.code) _ (h first List.mem_cons_self), hspaced,
    List.map_cons, intercalate_cons, List.flatMap_map]
  exact hdrop.trans (by rw [rdropWhile_samples]; rfl)

private theorem events_samplePieces (wanted : Text) (samples : List Sample) :
    (samples.map (Sample.piece wanted)).filterMap (Event.ofPiece? wanted) =
      (samples.filter fun sample => sample.language ≠ wanted).map fun sample =>
        .omittedSample sample.language wanted := by
  induction samples with
  | nil => rfl
  | cons sample samples ih =>
    rw [List.map_cons, Sample.piece]
    by_cases hlanguage : sample.language = wanted
    · rw [if_pos hlanguage, List.filterMap_cons_none rfl, ih,
        List.filter_cons_of_neg (by simpa using hlanguage)]
    · rw [if_neg hlanguage, List.filterMap_cons_some (f := Event.ofPiece? wanted) rfl, ih,
        List.filter_cons_of_pos (by simpa using hlanguage), List.map_cons]

private theorem no_placeholder_groupEntry {samples : List Sample}
    (h : ∀ sample ∈ samples, sample.Readable) :
    ∀ line ∈ groupEntry samples, occursIn DocComment.urlPlaceholder line = false := by
  intro line hline
  rw [groupEntry, List.mem_append, List.mem_append, List.mem_flatMap, List.mem_singleton,
    List.mem_singleton] at hline
  rcases hline with (rfl | ⟨sample, hsample, hline⟩) | rfl
  · decide
  · rw [Sample.entry, List.mem_cons, List.mem_append, List.mem_singleton] at hline
    rcases hline with rfl | hline | rfl
    · rcases (h sample hsample).language_known with hlanguage | hlanguage <;> rw [hlanguage] <;>
        decide
    · exact (h sample hsample).no_placeholder line hline
    · rcases (h sample hsample).language_known with hlanguage | hlanguage <;> rw [hlanguage] <;>
        decide
  · decide

/-- A group is written as the blocks of its samples in the wanted language, in order and with one
empty line between two of them. Each other sample is reported as left out, and nothing else is
reported. -/
theorem contentLines_of_group (settings : DocSettings) (samples : List Sample)
    (h : ∀ sample ∈ samples, sample.Readable) :
    DocComment.contentLines settings
        (["[codeblocks]".toList] ++ samples.flatMap Sample.entry ++ ["[/codeblocks]".toList]) =
      [[]].intercalate ((samples.filter fun sample => sample.language = settings.language).map
        fun sample => fencedLines sample.language (codeText sample.code)) ∧
    (DocComment.loggedLines settings
        (["[codeblocks]".toList] ++ samples.flatMap Sample.entry ++ ["[/codeblocks]".toList])).events =
      (samples.filter fun sample => sample.language ≠ settings.language).map fun sample =>
        .omittedSample sample.language settings.language := by
  have hsource := DocComment.source_eq_unlines settings (no_placeholder_groupEntry h)
  rw [← groupEntry, DocComment.loggedLines, DocComment.contentLines, DocComment.document, hsource]
  refine ⟨?_, ?_⟩
  · change _ = [[]].intercalate ((samplesIn settings.language samples).map Sample.fenced)
    cases hkept : samplesIn settings.language samples with
    | nil =>
      rw [pieces_groupEntry settings.language h, rendered_group, addAll_samplePieces, hkept]
      rfl
    | cons first others =>
      rw [tidyLines, lines_rendered_group settings.language h hkept]
      apply dropBlankEnds_spaced_samples
      intro sample hsample
      rw [← hkept] at hsample
      exact (h sample (mem_samplesIn hsample).1).isInfoChar
  · dsimp only
    rw [pieces_groupEntry settings.language h, List.filterMap_cons_none rfl, List.filterMap_append,
      events_samplePieces, List.filterMap_cons_none rfl, List.filterMap_nil, List.append_nil]

def nestedSamples : List Sample :=
  [⟨"gdscript".toList, ["[/codeblocks][csharp]".toList, "  ```".toList, "x[lb]0[rb] ".toList]⟩,
    ⟨"csharp".toList, ["[gdscript][codeblocks]".toList, "[/code]```".toList]⟩,
    ⟨"gdscript".toList, []⟩]

theorem contentLines_of_nestedSamples :
    DocComment.contentLines .default
        (["[codeblocks]".toList] ++ nestedSamples.flatMap Sample.entry ++ ["[/codeblocks]".toList]) =
      ["````gdscript".toList, "[/codeblocks][csharp]".toList, "  ```".toList, "x[0]".toList,
        "````".toList, [], "```gdscript".toList, "```".toList] ∧
    (DocComment.loggedLines .default
        (["[codeblocks]".toList] ++ nestedSamples.flatMap Sample.entry ++
          ["[/codeblocks]".toList])).events =
      [.omittedSample "csharp".toList "gdscript".toList] := by
  have hreadable : ∀ sample ∈ nestedSamples, sample.Readable := by
    intro sample hsample
    simp only [nestedSamples, List.mem_cons, List.not_mem_nil, or_false] at hsample
    rcases hsample with rfl | rfl | rfl
    · exact ⟨Or.inl rfl, by decide, by decide +kernel⟩
    · exact ⟨Or.inr rfl, by decide, by decide +kernel⟩
    · exact ⟨Or.inl rfl, by decide, by decide +kernel⟩
  obtain ⟨hlines, hevents⟩ := contentLines_of_group .default nestedSamples hreadable
  exact ⟨hlines.trans (by decide +kernel), hevents.trans (by decide +kernel)⟩

end ClassDocs
