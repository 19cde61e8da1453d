import ClassDocs.Proofs.Markup.CodeBlocks
import ClassDocs.Proofs.Markup.TagContent

/-!
# Fences in the source

Three backticks in the source open a region that the next three backticks end, wherever they stand in
their line and whatever follows them there. So a fence comes out as it is written, up to the length of
its runs, exactly if no line of its code holds three backticks in a row and its code does not end with
an empty line.
-/

namespace ClassDocs

open Text Unicode Fence Layout

section Unbracketed

variable {s line : Text}

theorem literalText_tagsOf (h : '[' ∉ s) : literalText (tagsOf s) = s := by
  have hliteral : ∀ tag ∈ tagsOf s, tag.literal = tag.display := by
    intro tag htag
    cases tag with
    | leftBracket | rightBracket => exact absurd (mem_of_mem_display htag List.mem_cons_self) h
    | _ => rfl
  have hdisplay : ∀ slice ∈ slices s, (Tag.ofSlice slice).display = slice := by
    intro slice hslice
    apply Tag.display_ofSlice (Slice.form_of_mem_slices hslice)
    rintro body rfl
    have hmem := List.mem_flatten_of_mem hslice (List.mem_cons_self (a := '['))
    exact absurd (flatten_slices s ▸ hmem) h
  calc
    literalText (tagsOf s) = (tagsOf s).flatMap Tag.display := List.flatMap_congr hliteral
    _ = (slices s).flatMap fun slice => (Tag.ofSlice slice).display := flatMap_display_tagsOf s
    _ = (slices s).flatMap id := List.flatMap_congr hdisplay
    _ = s := by rw [List.flatMap_id, flatten_slices]

theorem ofSlice_of_notMem {slice : Text} (h : Slice.Form slice) (hnewline : '\n' ∉ slice)
    (hbracket : '[' ∉ slice) :
    Tag.ofSlice slice = .text slice ∨ (Tag.ofSlice slice).closesRegion? = some .rawFence := by
  cases h with
  | newline => exact absurd List.mem_cons_self hnewline
  | bracket | tag => exact absurd List.mem_cons_self hbracket
  | backtick => exact Or.inl rfl
  | fence => exact Or.inr rfl
  | plain chars => exact Or.inl (Tag.ofSlice_plain chars)

theorem ne_text_of_closesRegion? {tag : Tag} {region : Region} (h : tag.closesRegion? = some region)
    (s : Text) : tag ≠ .text s := by
  rintro rfl
  simp [Tag.closesRegion?] at h

theorem tagsOf_of_no_fence (hne : line ≠ []) (hnewline : '\n' ∉ line) (hbracket : '[' ∉ line)
    (h : ∀ tag ∈ tagsOf line, tag.closesRegion? ≠ some .rawFence) : tagsOf line = [.text line] := by
  fun_induction slices line with
  | case1 => exact absurd rfl hne
  | case2 c rest ih =>
    have hsource : (c :: (Slice.cut c rest).1) ++ (Slice.cut c rest).2 = c :: rest := by
      rw [List.cons_append, Slice.cut_append]
    rw [← hsource, List.mem_append, not_or] at hnewline hbracket
    rw [tagsOf_cons] at h ⊢
    have hfirst : Tag.ofSlice (c :: (Slice.cut c rest).1) = .text (c :: (Slice.cut c rest).1) := by
      refine (ofSlice_of_notMem (Slice.form_cut c rest) hnewline.1 hbracket.1).resolve_right ?_
      intro hfence
      have hcons := prependTag_of_ne_text (tagsOf (Slice.cut c rest).2)
        (ne_text_of_closesRegion? hfence)
      exact h _ (hcons ▸ List.mem_cons_self) hfence
    rw [hfirst] at h ⊢
    by_cases hrest : (Slice.cut c rest).2 = []
    · rw [hrest, List.append_nil] at hsource
      rw [hrest, tagsOf_nil, hsource]
      rfl
    · have hplain := ih hrest hnewline.2 hbracket.2 fun tag htag hfence =>
        h tag (mem_prependTag_of_mem htag (ne_text_of_closesRegion? hfence)) hfence
      rw [hplain, prependTag, hsource]

end Unbracketed

/-- A tag that ends a fence is three backticks and an info word, as the text holds them. -/
theorem exists_info_of_closesRegion? {source : Text} {tag : Tag} (h : tag ∈ tagsOf source)
    (hfence : tag.closesRegion? = some .rawFence) :
    ∃ info, tag.literal = shortest ++ info ∧ shortest ++ info <:+: source := by
  refine forall_mem_tagsOf (P := fun tag => tag.closesRegion? = some .rawFence →
    ∃ info, tag.literal = shortest ++ info ∧ shortest ++ info <:+: source) ?_ ?_ tag h hfence
  · intro slice hslice hfence
    have hpart := List.infix_of_mem_flatten (L := slices source) hslice
    rw [flatten_slices] at hpart
    cases htag : Tag.ofSlice slice with
    | rawFence language fence =>
      obtain ⟨hsource, info, hinfo, -⟩ :=
        Tag.ofSlice_eq_rawFence (Slice.form_of_mem_slices hslice) htag
      exact ⟨info, hsource.trans hinfo, hinfo ▸ hpart⟩
    | _ => exact absurd hfence (by simp [htag, Tag.closesRegion?])
  · exact fun _ _ _ _ hfence => absurd hfence (by simp [Tag.closesRegion?])

theorem occursIn_of_closesRegion? {source : Text} {tag : Tag} (h : tag ∈ tagsOf source)
    (hfence : tag.closesRegion? = some .rawFence) : occursIn shortest source = true := by
  obtain ⟨info, -, before, after, hsource⟩ := exists_info_of_closesRegion? h hfence
  refine occursIn_iff.mpr ⟨before, info ++ after, ?_⟩
  rw [← hsource, List.append_assoc, List.append_assoc, List.append_assoc]

theorem exists_closesRegion?_of_occursIn {line : Text} (hnewline : '\n' ∉ line)
    (hbracket : '[' ∉ line) (h : occursIn shortest line = true) :
    ∃ tag ∈ tagsOf line, tag.closesRegion? = some .rawFence := by
  by_contra hnone
  push Not at hnone
  have hne : line ≠ [] := by
    rintro rfl
    exact absurd h (by decide)
  have htext := tagsOf_of_no_fence hne hnewline hbracket hnone
  have hmem : .text line ∈ tagsOf line := htext ▸ List.mem_singleton_self _
  rw [not_occursIn_of_text_mem hmem] at h
  exact absurd h (by decide)

/-- Code holds a tag that ends a fence exactly if three backticks in a row stand in one of its lines. -/
theorem exists_closesRegion?_iff {code : List Text} (hcode : ∀ line ∈ code, '\n' ∉ line ∧ '[' ∉ line) :
    (∃ tag ∈ tagsOf (unlines code), tag.closesRegion? = some .rawFence) ↔
      ∃ line ∈ code, occursIn shortest line = true := by
  constructor
  · rintro ⟨tag, htag, hfence⟩
    by_contra hnone
    push Not at hnone
    have hfree := occursIn_unlines (by decide) (by decide) fun line hline =>
      Bool.eq_false_iff.mpr (hnone line hline)
    rw [occursIn_of_closesRegion? htag hfence] at hfree
    exact absurd hfree (by decide)
  · rintro ⟨line, hline, hruns⟩
    obtain ⟨hnewline, hbracket⟩ := hcode line hline
    obtain ⟨tag, htag, hfence⟩ := exists_closesRegion?_of_occursIn hnewline hbracket hruns
    obtain ⟨before, after, rfl⟩ := List.append_of_mem hline
    refine ⟨tag, ?_, hfence⟩
    rw [tagsOf_unlines_append_cons, tagsOf_unlines_cons]
    exact List.mem_append_right _ (List.mem_append_left _ htag)

theorem length_shortest : shortest.length = 3 := rfl

section Code

variable {code : List Text} {inside after : List Tag} {close : Tag}

theorem literalText_tagsOf_unlines (hcode : ∀ line ∈ code, '\n' ∉ line ∧ '[' ∉ line) :
    literalText (tagsOf (unlines code)) = unlines code :=
  literalText_tagsOf (notMem_unlines (by decide) fun line hline => (hcode line hline).2)

theorem length_body_lt (hcode : ∀ line ∈ code, '\n' ∉ line ∧ '[' ∉ line)
    (hsplit : Region.rawFence.split? (blockTags code ++ [close]) = some (inside, after))
    (hafter : after ≠ []) : (body (literalText inside)).length < (unlines code).length := by
  obtain ⟨fence, htags, hfence, -⟩ := Region.split?_eq_some hsplit
  obtain ⟨more, last, rfl⟩ := (List.eq_nil_or_concat after).resolve_left hafter
  rw [List.concat_eq_append, ← List.cons_append, ← List.append_assoc] at htags
  have hinside : blockTags code = inside ++ fence :: more := (List.append_inj' htags rfl).1
  have hnewline : fence ≠ .newline := by
    rintro rfl
    exact absurd hfence (by simp [Tag.closesRegion?])
  have hmem : fence ∈ blockTags code := hinside ▸ List.mem_append_right inside List.mem_cons_self
  obtain ⟨info, hliteral, -⟩ :=
    exists_info_of_closesRegion? ((mem_blockTags hmem).resolve_left hnewline) hfence
  cases code with
  | nil => exact absurd (List.mem_singleton.mp hmem) hnewline
  | cons line code =>
    have htext := literalText_blockTags_cons line code
    rw [literalText_tagsOf_unlines hcode, hinside] at htext
    rw [blockTags_cons] at hinside
    -- The region starts with the newline behind the opening fence.
    cases inside with
    | nil => exact absurd (List.cons.inj hinside).1.symm hnewline
    | cons tag inside =>
      obtain ⟨rfl, -⟩ := List.cons.inj hinside
      have hparts : literalText (.newline :: inside ++ fence :: more) =
          '\n' :: (literalText inside ++ (shortest ++ info ++ literalText more)) := by
        rw [literalText, List.flatMap_append, List.flatMap_cons, List.flatMap_cons, hliteral]
        rfl
      have hlength := congrArg List.length (hparts.symm.trans htext)
      have hshorter := length_trimEnd_le isWhiteSpace (literalText inside)
      rw [show body (literalText (.newline :: inside)) = trimEnd isWhiteSpace (literalText inside) from
        body_newline_cons _]
      simp only [List.length_cons, List.length_append, List.length_nil, length_shortest] at hlength
      omega

theorem after_ne_nil_of_occursIn (hcode : ∀ line ∈ code, '\n' ∉ line ∧ '[' ∉ line)
    (hsplit : Region.rawFence.split? (blockTags code ++ [close]) = some (inside, after))
    (hruns : ∃ line ∈ code, occursIn shortest line = true) : after ≠ [] := by
  rintro rfl
  obtain ⟨fence, htags, -, hinside⟩ := Region.split?_eq_some hsplit
  obtain ⟨tag, htag, hends⟩ := (exists_closesRegion?_iff hcode).mpr hruns
  have hmem := mem_blockTags_of_mem htag
  rw [(List.append_inj' htags rfl).1] at hmem
  exact hinside tag hmem hends

/-- A fence whose code holds no three backticks in a row holds all of the code. -/
theorem body_of_not_occursIn (hcode : ∀ line ∈ code, '\n' ∉ line ∧ '[' ∉ line)
    (hsplit : Region.rawFence.split? (blockTags code ++ [.rawFence none shortest]) =
      some (inside, after)) (hfree : ∀ line ∈ code, occursIn shortest line = false) :
    body (literalText inside) = trimEnd isWhiteSpace (unlines code) ∧ after = [] := by
  have hcloses : (Tag.rawFence none shortest).closesRegion? = some .rawFence := rfl
  have hinside := split?_blockTags_of_forall [] hcloses fun tag htag hfence => by
    obtain ⟨line, hline, hruns⟩ := (exists_closesRegion?_iff hcode).mp ⟨tag, htag, hfence⟩
    rw [hfree line hline] at hruns
    exact absurd hruns (by decide)
  obtain ⟨rfl, rfl⟩ := Prod.mk.inj (Option.some.inj (hsplit.symm.trans hinside))
  rw [body_literalText_blockTags, codeText, literalText_tagsOf_unlines hcode]
  exact ⟨rfl, rfl⟩

end Code

theorem tagsOf_fence {info : Text} (hchars : ∀ c ∈ info, Slice.isInfoChar c = true) :
    tagsOf (shortest ++ info) = [.rawFence (nonEmpty? info) (shortest ++ info)] := by
  have hcut : Slice.cut '`' ("``".toList ++ info) = ("``".toList ++ info, []) := by
    rw [Slice.cut, if_neg (by decide), if_neg (by decide), if_pos rfl,
      stripPrefix?_eq_some_iff.mpr rfl]
    dsimp only
    rw [List.takeWhile_eq_self_iff.mpr hchars, List.dropWhile_eq_nil_iff.mpr hchars]
  have hslices : slices (shortest ++ info) = [shortest ++ info] := by
    change slices ('`' :: ("``".toList ++ info)) = _
    rw [slices, hcut, slices]
    rfl
  rw [tagsOf, hslices, List.map_singleton, mergeText_singleton]
  rfl

section Fences

variable {info : Text} {code : List Text} {inside after : List Tag}

theorem not_occursIn_placeholder_fence (hchars : ∀ c ∈ info, Slice.isInfoChar c = true) :
    occursIn DocComment.urlPlaceholder (shortest ++ info) = false := by
  rw [Bool.eq_false_iff]
  intro hoccurs
  obtain ⟨before, after, hs⟩ := occursIn_iff.mp hoccurs
  have hmem : '$' ∈ shortest ++ info := by
    rw [hs]
    exact List.mem_append_left after (List.mem_append_right before (by decide))
  rcases List.mem_append.mp hmem with hmem | hmem
  · exact absurd hmem (by decide)
  · exact absurd (hchars _ hmem) (by decide)

def fenceEntry (info : Text) (code : List Text) : List Text :=
  [shortest ++ info] ++ code ++ [shortest]

theorem tagsOf_fenceEntry (code : List Text) (hinfo : info ≠ [])
    (hchars : ∀ c ∈ info, Slice.isInfoChar c = true) :
    tagsOf (unlines (fenceEntry info code)) =
      .rawFence (some info) (shortest ++ info) :: (blockTags code ++ [.rawFence none shortest]) := by
  have hopening : tagsOf (shortest ++ info) = [.rawFence (some info) (shortest ++ info)] := by
    rw [tagsOf_fence hchars, nonEmpty?, if_neg (by simpa using hinfo)]
  have hclosing : tagsOf shortest = [.rawFence none shortest] := by decide +kernel
  have hentry : fenceEntry info code = (shortest ++ info) :: (code ++ [shortest]) := rfl
  have htags := tagsOf_blockEntry [] code [] hopening hclosing
  rwa [List.nil_append, List.flatMap_nil, List.flatMap_nil, List.nil_append, ← hentry] at htags

theorem lines_rendered_fenceEntry (language : Text) (hinfo : info ≠ [])
    (hchars : ∀ c ∈ info, Slice.isInfoChar c = true)
    (hsplit : Region.rawFence.split? (blockTags code ++ [.rawFence none shortest]) =
      some (inside, after)) :
    ∃ below, lines (rendered (pieces language [] (tagsOf (unlines (fenceEntry info code))))) =
        fencedLines info (body (literalText inside)) ++ below ∧ (after = [] → below = []) := by
  obtain ⟨page, hpage⟩ : ∃ page : Page,
      page = ⟨[] ++ block info (body (literalText inside)), true⟩ := ⟨_, rfl⟩
  have hblock : Page.blank.add ((Tag.rawFence (some info) (shortest ++ info)).regionPiece language
      (literalText inside)) = page :=
    (Page.writeBlock_of_line_start Page.blank info (literalText inside) rfl).trans hpage.symm
  have hrendered : rendered (pieces language [] (tagsOf (unlines (fenceEntry info code)))) =
      (page.addAll (pieces language [] after)).text := by
    rw [tagsOf_fenceEntry code hinfo hchars, pieces_region rfl (by simp) hsplit, rendered_eq_addAll,
      Page.addAll_cons, hblock]
  have hlines : lines page.text = fencedLines info (body (literalText inside)) := by
    rw [hpage, List.nil_append, lines_block fun hmem => absurd (hchars _ hmem) (by decide)]
  have hlast : isBlank (lastLine page.text) = false := by
    rw [hpage]
    exact isBlank_lastLine_block [] info (body (literalText inside))
  rw [hrendered]
  by_cases hafter : after = []
  · rw [hafter, pieces_nil, Page.addAll_nil, hlines]
    exact ⟨[], (List.append_nil _).symm, fun _ => rfl⟩
  · rcases Page.text_addAll_behind_block (pieces language [] after) (hpage ▸ rfl) hlast with
      hsame | ⟨more, hmore⟩
    · rw [hsame, hlines]
      exact ⟨[], (List.append_nil _).symm, fun _ => rfl⟩
    · rw [hmore, lines_append_newline, hlines]
      exact ⟨lines more, rfl, fun h => absurd h hafter⟩

theorem contentLines_fenceEntry (settings : DocSettings) (hinfo : info ≠ [])
    (hchars : ∀ c ∈ info, Slice.isInfoChar c = true)
    (hplaceholder : ∀ line ∈ code, occursIn DocComment.urlPlaceholder line = false)
    (hsplit : Region.rawFence.split? (blockTags code ++ [.rawFence none shortest]) =
      some (inside, after)) :
    ∃ below, DocComment.contentLines settings (fenceEntry info code) =
        fencedLines info (body (literalText inside)) ++ below ∧ (after = [] → below = []) := by
  have hfree : ∀ line ∈ fenceEntry info code, occursIn DocComment.urlPlaceholder line = false := by
    intro line hline
    simp only [fenceEntry, List.mem_append, List.mem_singleton] at hline
    rcases hline with (rfl | hline) | rfl
    · exact not_occursIn_placeholder_fence hchars
    · exact hplaceholder line hline
    · decide
  obtain ⟨below, hlines, hbelow⟩ := lines_rendered_fenceEntry settings.language hinfo hchars hsplit
  have htidy := tidyLines_of_fencedLines hlines (fun c hc => isSide_of_isInfoChar (hchars c hc))
    fun hhead => absurd (hchars _ (List.mem_of_mem_head? hhead)) (by decide)
  refine ⟨(spaced none false below).rdropWhile isBlank, ?_, ?_⟩
  · rw [DocComment.contentLines, DocComment.source_eq_unlines settings hfree, DocComment.document,
      htidy]
  · intro hafter
    rw [hbelow hafter]
    rfl

end Fences

def codeLines (code : Text) : List Text :=
  if code = [] then [] else lines code

theorem fencedLines_eq (language code : Text) :
    fencedLines language code = [delimiter code ++ language] ++ codeLines code ++ [delimiter code] := by
  rw [delimiter_eq]
  rfl

theorem unlines_codeLines (code : Text) : unlines (codeLines code) = code := by
  rw [codeLines]
  split
  next h => rw [unlines_nil, h]
  next => exact unlines_lines code

section CodeLines

variable {code : List Text}

theorem codeLines_unlines (hnewline : ∀ line ∈ code, '\n' ∉ line) (hempty : code.getLast? ≠ some []) :
    codeLines (unlines code) = code := by
  rcases List.eq_nil_or_concat code with rfl | ⟨before, last, rfl⟩
  · rfl
  · rw [List.concat_eq_append] at hnewline hempty ⊢
    rw [List.getLast?_concat, Ne, Option.some.injEq] at hempty
    have hne : unlines (before ++ [last]) ≠ [] := fun hnil =>
      hempty (List.suffix_nil.mp (hnil ▸ suffix_unlines before last))
    rw [codeLines, if_neg hne, lines_unlines hnewline (by simp)]

theorem trimEnd_unlines (hempty : code.getLast? ≠ some [])
    (hend : ∀ last c, code.getLast? = some last → last.getLast? = some c → isWhiteSpace c = false) :
    trimEnd isWhiteSpace (unlines code) = unlines code := by
  rcases List.eq_nil_or_concat code with rfl | ⟨before, last, rfl⟩
  · rfl
  · rw [List.concat_eq_append] at hempty hend ⊢
    rw [List.getLast?_concat] at hempty hend
    rcases List.eq_nil_or_concat last with rfl | ⟨start, c, rfl⟩
    · exact absurd rfl hempty
    · rw [List.concat_eq_append] at hend ⊢
      obtain ⟨above, habove⟩ := suffix_unlines before (start ++ [c])
      rw [← habove, ← List.append_assoc,
        trimEnd_concat_of_neg _ (hend _ c rfl List.getLast?_concat)]

end CodeLines

theorem getLast?_codeLines_trimEnd (s : Text) :
    (codeLines (trimEnd isWhiteSpace s)).getLast? ≠ some [] := by
  intro hlast
  obtain ⟨before, hlines⟩ := List.getLast?_eq_some_iff.mp hlast
  have hcode := unlines_codeLines (trimEnd isWhiteSpace s)
  rw [hlines] at hcode
  by_cases hbefore : before = []
  · rw [hbefore, List.nil_append, unlines_singleton] at hcode
    rw [← hcode] at hlast
    exact absurd hlast (by decide)
  · rw [unlines_concat [] hbefore] at hcode
    have hnewline : (trimEnd isWhiteSpace s).getLast? = some '\n' := by
      rw [← hcode, List.getLast?_concat]
    exact absurd (getLast?_trimEnd hnewline) (by decide)

/-- A block that is written as code between two runs, none of whose lines is the run, holds the code. -/
theorem codeLines_eq_of_fencedLines {language text : Text} {code below : List Text} {n : Nat}
    (hn : 3 ≤ n) (hbare : ∀ line ∈ code, closes 3 (trimSides line) = false)
    (h : fencedLines language text ++ below =
      [List.replicate n '`' ++ language] ++ code ++ [List.replicate n '`']) :
    codeLines text = code := by
  have hlines : (delimiter text ++ language) :: (codeLines text ++ delimiter text :: below) =
      (List.replicate n '`' ++ language) :: (code ++ [List.replicate n '`']) := by
    rw [fencedLines_eq] at h
    simpa only [List.append_assoc, List.cons_append, List.nil_append] using h
  obtain ⟨hfirst, hrest⟩ := List.cons.inj hlines
  rw [List.append_cancel_right hfirst] at hrest
  have hnotMem : List.replicate n '`' ∉ code := by
    intro hmem
    have hcloses := hbare _ hmem
    rw [trimSides_replicate, closes_iff.mpr ⟨n, hn, rfl⟩] at hcloses
    exact absurd hcloses (by decide)
  exact ((List.append_cons_inj_of_notMem hnotMem List.not_mem_nil).mp hrest.symm).1.symm

/-- A fence in the source comes out as it is written, up to the length of its runs, exactly if no line
of its code holds three backticks in a row and its code does not end with an empty line. -/
theorem raw_fence_is_kept_iff (settings : DocSettings) (info : Text) (code : List Text)
    (hinfo : info ≠ []) (hchars : ∀ c ∈ info, Slice.isInfoChar c = true)
    (hcode : ∀ line ∈ code, '\n' ∉ line ∧ '[' ∉ line)
    (hplaceholder : ∀ line ∈ code, occursIn DocComment.urlPlaceholder line = false)
    (hbare : ∀ line ∈ code, closes 3 (trimSides line) = false)
    (hend : ∀ last c, code.getLast? = some last → last.getLast? = some c → isWhiteSpace c = false) :
    (∃ n, 3 ≤ n ∧ DocComment.contentLines settings (fenceEntry info code) =
        [List.replicate n '`' ++ info] ++ code ++ [List.replicate n '`']) ↔
      (∀ line ∈ code, occursIn shortest line = false) ∧ code.getLast? ≠ some [] := by
  have hclosed : Region.rawFence.split? (blockTags code ++ [.rawFence none shortest]) ≠ none := by
    rw [Ne, Region.split?_eq_none_iff]
    exact fun hnone => hnone (.rawFence none shortest) (by simp) rfl
  obtain ⟨⟨inside, after⟩, hsplit⟩ := Option.ne_none_iff_exists'.mp hclosed
  obtain ⟨below, hcontent, hbelow⟩ :=
    contentLines_fenceEntry settings hinfo hchars hplaceholder hsplit
  rw [hcontent]
  constructor
  · rintro ⟨n, hn, hkept⟩
    have hlines := codeLines_eq_of_fencedLines hn hbare hkept
    have hbody : body (literalText inside) = unlines code := by rw [← hlines, unlines_codeLines]
    have hfree : ∀ line ∈ code, occursIn shortest line = false := by
      by_contra hruns
      push Not at hruns
      simp only [Bool.not_eq_false] at hruns
      have hshorter := length_body_lt hcode hsplit (after_ne_nil_of_occursIn hcode hsplit hruns)
      rw [hbody] at hshorter
      exact Nat.lt_irrefl _ hshorter
    refine ⟨hfree, ?_⟩
    rw [← hlines, (body_of_not_occursIn hcode hsplit hfree).1]
    exact getLast?_codeLines_trimEnd _
  · rintro ⟨hfree, hempty⟩
    obtain ⟨hbody, hafter⟩ := body_of_not_occursIn hcode hsplit hfree
    rw [hbody, hbelow hafter, List.append_nil, trimEnd_unlines hempty hend, fencedLines_eq,
      codeLines_unlines (fun line hline => (hcode line hline).1) hempty, delimiter_eq]
    exact ⟨_, Nat.le_max_left 3 _, rfl⟩

theorem python_fence_is_kept :
    ∃ n, 3 ≤ n ∧ DocComment.contentLines .default
        (fenceEntry "python".toList ["``a".toList, [], "  y `` z".toList]) =
      [List.replicate n '`' ++ "python".toList] ++ ["``a".toList, [], "  y `` z".toList] ++
        [List.replicate n '`'] := by
  refine (raw_fence_is_kept_iff .default "python".toList ["``a".toList, [], "  y `` z".toList]
    (by decide) (List.all_eq_true.mp rfl) (by decide) (by decide) (by decide) ?_).mpr (by decide)
  intro last c hlast hc
  obtain rfl : "  y `` z".toList = last := by simpa using hlast
  obtain rfl : 'z' = c := by simpa using hc
  decide

theorem backticks_inside_a_line_end_the_fence :
    (∀ line ∈ ["a ``` b".toList, "a".toList, []], closes 3 (trimSides line) = false) ∧
    DocComment.contentLines .default (fenceEntry "text".toList ["a ``` b".toList]) =
      ["```text".toList, "a".toList, "```".toList, "b".toList, [], "```".toList] ∧
    (¬∃ n, DocComment.contentLines .default (fenceEntry "text".toList ["a ``` b".toList]) =
      [List.replicate n '`' ++ "text".toList] ++ ["a ``` b".toList] ++ [List.replicate n '`']) ∧
    ¬∃ n, DocComment.contentLines .default (fenceEntry "text".toList ["a".toList, []]) =
      [List.replicate n '`' ++ "text".toList] ++ ["a".toList, []] ++ [List.replicate n '`'] := by
  have hinside : DocComment.contentLines .default (fenceEntry "text".toList ["a ``` b".toList]) =
      ["```text".toList, "a".toList, "```".toList, "b".toList, [], "```".toList] := by
    decide +kernel
  have hempty : DocComment.contentLines .default (fenceEntry "text".toList ["a".toList, []]) =
      ["```text".toList, "a".toList, "```".toList] := by
    decide +kernel
  refine ⟨by decide, hinside, ?_, ?_⟩
  · rintro ⟨n, hkept⟩
    exact absurd (congrArg List.length (hinside.symm.trans hkept)) (by simp)
  · rintro ⟨n, hkept⟩
    exact absurd (congrArg List.length (hempty.symm.trans hkept)) (by simp)

end ClassDocs
