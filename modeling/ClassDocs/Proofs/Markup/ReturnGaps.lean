import ClassDocs.Proofs.Markup.ReturnPages

/-!
# Empty lines behind code blocks

A carriage return right behind a code block leaves an empty line when it is taken out, and nothing else
is left of carriage returns at the ends of lines. Outside containers they stay at the ends of lines.
-/

namespace ClassDocs

open Text Unicode

namespace Page

/-- Whether a page that has just ended with a block ends with a fence. -/
def EndsWithFence (page : Page) : Prop :=
  page.afterBlock = true → Fence.closes 3 (lastLine page.text) = true

theorem EndsWithFence.write {page : Page} (h : page.EndsWithFence) (content : Text) :
    (page.write content).EndsWithFence := by
  by_cases hcontent : content = []
  · rwa [hcontent, write_nil]
  · rw [write_of_ne_nil page hcontent]
    split
    · exact fun hblock => absurd hblock Bool.false_ne_true
    · exact fun hblock => absurd hblock Bool.false_ne_true

theorem EndsWithFence.add {page : Page} (h : page.EndsWithFence) (piece : Piece) :
    (page.add piece).EndsWithFence := by
  cases piece with
  | newline => exact fun hblock => absurd hblock Bool.false_ne_true
  | omitted => exact h
  | block language code =>
    intro _
    rw [Page.add, writeBlock, lastLine_block, Fence.delimiter_eq]
    exact Fence.closes_iff.mpr ⟨_, Nat.le_max_left _ _, rfl⟩
  | _ => exact h.write _

end Page

/-- Lines with an empty line behind some of those that are a fence and nothing else. -/
inductive Padded : List Text → List Text → Prop where
  | nil : Padded [] []
  | line {ls padded : List Text} (line : Text) (more : Padded ls padded) :
      Padded (line :: ls) (line :: padded)
  | gap {ls padded : List Text} {run : Text} (fence : Fence.closes 3 run = true)
      (more : Padded ls padded) : Padded (run :: ls) (run :: [] :: padded)

theorem Padded.refl (ls : List Text) : Padded ls ls := by
  induction ls with
  | nil => exact .nil
  | cons line ls ih => exact .line line ih

theorem Padded.append {as bs as' bs' : List Text} (has : Padded as as') (hbs : Padded bs bs') :
    Padded (as ++ bs) (as' ++ bs') := by
  induction has with
  | nil => exact hbs
  | line line _ ih => exact .line line ih
  | gap fence _ ih => exact .gap fence ih

theorem padded_lines {s : Text} (h : Fence.closes 3 (lastLine s) = true) :
    Padded (lines s) (lines s ++ [[]]) := by
  obtain ⟨before, hlines⟩ := exists_lines_eq_append_lastLine s
  rw [hlines, List.append_assoc]
  exact (Padded.refl before).append (.gap h .nil)

theorem Piece.withoutReturns?_eq_none {piece : Piece} (h : piece.withoutReturns? = none) :
    ∃ s, piece = .text s ∧ dropReturns s = [] := by
  cases piece with
  | text s =>
    refine ⟨s, rfl, ?_⟩
    by_contra hs
    rw [withoutReturns?, if_neg hs] at h
    exact absurd h (by simp)
  | _ => exact absurd h (by simp [withoutReturns?])

theorem isBlank_of_dropReturns {s : Text} (h : dropReturns s = []) : isBlank s = true := by
  rw [← isBlank_dropReturns, h]
  rfl

theorem padded_addAll {document : List Piece} (hfit : ∀ piece ∈ document, piece.ReturnsFit)
    (hends : ReturnsEndPieces False document) (page : Page)
    (hpage : page.dropReturns.EndsWithFence) :
    Padded (lines (page.dropReturns.addAll (document.filterMap Piece.withoutReturns?)).text)
      (lines (dropReturns (page.addAll document).text)) := by
  -- Behind carriage returns that leave an empty line, the next line is written as a page of its own,
  -- so the induction is on the number of pieces.
  induction hlength : document.length using Nat.strongRecOn generalizing document page with
  | ind length ih =>
    cases document with
    | nil => exact Padded.refl _
    | cons piece rest =>
      have hshorter : rest.length < length := hlength ▸ Nat.lt_succ_self _
      obtain ⟨hpiece, hrestFit⟩ := List.forall_mem_cons.mp hfit
      obtain ⟨hnext, hrestEnds⟩ := List.isChain_cons.mp hends
      cases hkept : piece.withoutReturns? with
      | some kept =>
        have hadd := page.dropReturns_add hpiece hkept
        have hrest := ih rest.length hshorter hrestFit hrestEnds (page.add piece)
          (hadd ▸ hpage.add kept) rfl
        rw [hadd] at hrest
        rw [List.filterMap_cons_some hkept]
        exact hrest
      | none =>
        obtain ⟨s, rfl, hs⟩ := Piece.withoutReturns?_eq_none hkept
        rw [List.filterMap_cons_none hkept, Page.addAll_cons]
        rcases page.dropReturns_add_returns hs with hadd | ⟨hreturn, hblock, hadd⟩
        · have hrest := ih rest.length hshorter hrestFit hrestEnds (page.add (.text s))
            (hadd ▸ hpage) rfl
          rwa [hadd] at hrest
        · have hblank := isBlank_of_dropReturns hs
          cases rest with
          | nil =>
            rw [hadd]
            simpa [hs, lines_append_newline, dropReturns_cons_of_ne] using padded_lines (hpage hblock)
          | cons next more =>
            obtain rfl : next = .newline := hnext next rfl s rfl hreturn (Or.inl hblank)
            have hmore := ih more.length (by simp only [List.length_cons] at hshorter; omega)
              (List.forall_mem_cons.mp hrestFit).2
              (List.isChain_cons.mp hrestEnds).2 .blank
              (fun hblock => absurd hblock Bool.false_ne_true) rfl
            have hnewline : Piece.newline.withoutReturns? = some .newline := rfl
            rw [List.filterMap_cons_some hnewline, text_addAll_newline, text_addAll_newline, hadd,
              dropReturns_append, dropReturns_append, dropReturns_cons_of_ne _ (by decide),
              dropReturns_cons_of_ne _ (by decide), hs, lines_append_newline, lines_append_newline,
              lines_append_newline, lines_nil]
            exact (padded_lines (hpage hblock)).append hmore

/-- Where no line ends right behind a code block, at most the end of the last line is left. -/
theorem dropReturns_addAll {document : List Piece} (hfit : ∀ piece ∈ document, piece.ReturnsFit)
    (hends : ReturnsEndPieces False document) (page : Page)
    (hblock : ∀ before after, document.filterMap Piece.withoutReturns? = before ++ .newline :: after →
      (page.dropReturns.addAll before).afterBlock = false) :
    dropReturns (page.addAll document).text =
        (page.dropReturns.addAll (document.filterMap Piece.withoutReturns?)).text ∨
      dropReturns (page.addAll document).text =
        (page.dropReturns.addAll (document.filterMap Piece.withoutReturns?)).text ++ ['\n'] := by
  induction document generalizing page with
  | nil => exact Or.inl rfl
  | cons piece rest ih =>
    obtain ⟨hpiece, hrestFit⟩ := List.forall_mem_cons.mp hfit
    obtain ⟨hnext, hrestEnds⟩ := List.isChain_cons.mp hends
    cases hkept : piece.withoutReturns? with
    | some kept =>
      have hadd := page.dropReturns_add hpiece hkept
      rw [List.filterMap_cons_some hkept] at hblock ⊢
      have hrest := ih hrestFit hrestEnds (page.add piece) fun before after heq => by
        rw [hadd]
        exact hblock (kept :: before) after (by rw [heq, List.cons_append])
      rwa [hadd] at hrest
    | none =>
      obtain ⟨s, rfl, hs⟩ := Piece.withoutReturns?_eq_none hkept
      rw [List.filterMap_cons_none hkept] at hblock ⊢
      rcases page.dropReturns_add_returns hs with hadd | ⟨hreturn, hafter, hadd⟩
      · have hrest := ih hrestFit hrestEnds (page.add (.text s)) (by rwa [hadd])
        rwa [hadd] at hrest
      · cases rest with
        | nil =>
          right
          rw [Page.addAll_cons, Page.addAll_nil, hadd]
          simp [hs, dropReturns_cons_of_ne]
        | cons next more =>
          obtain rfl := hnext next rfl s rfl hreturn (Or.inl (isBlank_of_dropReturns hs))
          have hopen := hblock [] (more.filterMap Piece.withoutReturns?) rfl
          exact absurd (hafter.symm.trans hopen) (by decide)

theorem getLast?_inlineCode (content : Text) : (inlineCode content).getLast? = some '`' := by
  rw [inlineCode, List.getLast?_append_of_ne_nil _ (by simp)]
  rfl

theorem returnsEndLines_inlineCode {content : Text} (h : ReturnsEndLines content)
    (hlast : content.getLast? ≠ some '\r') : ReturnsEndLines (inlineCode content) := by
  have hescaped : ReturnsEndLines
      ((content.flatMap fun c => if c = '`' then ['\\', '`'] else [c]) ++ ['`']) := by
    induction content with
    | nil => exact List.isChain_singleton '`'
    | cons c content ih =>
      obtain ⟨hhead, htail⟩ := List.isChain_cons.mp h
      rw [List.flatMap_cons, List.append_assoc]
      cases content with
      | nil =>
        have hc : c ≠ '\r' := fun hc => hlast (by rw [hc]; rfl)
        split
        · exact ReturnsEndLines.append (List.isChain_singleton '`') (by decide)
        · exact ReturnsEndLines.append (List.isChain_singleton '`') (by simpa using hc.symm)
      | cons d content =>
        have hrest := ih htail (by rwa [List.getLast?_cons_cons] at hlast)
        by_cases hc : c = '\r'
        · obtain rfl : d = '\n' := hhead d rfl hc
          subst hc
          exact hrest.append_return (s := []) List.not_mem_nil
        · split
          · exact hrest.append (by decide)
          · exact hrest.append (by simpa using Ne.symm hc)
  exact hescaped.append (s := ['`']) (by decide)

theorem getLast?_append_block (s language code : Text) :
    (s ++ Fence.block language code).getLast? = some '`' := by
  obtain ⟨n, hn⟩ := Nat.exists_eq_add_of_lt (show 0 < max 3 (1 + Fence.longestRun code) by omega)
  rw [Fence.block, ← List.append_assoc, Fence.delimiter_eq, hn, List.replicate_succ',
    ← List.append_assoc, List.getLast?_concat]

theorem returnsEndLines_block {language code : Text} (hlanguage : '\r' ∉ language)
    (h : ReturnsEndLines code) : ReturnsEndLines (Fence.block language code) := by
  have hrun := returnsEndLines_of_notMem (Fence.return_notMem_delimiter code)
  have hopening : ReturnsEndLines (Fence.delimiter code ++ language) :=
    (returnsEndLines_of_notMem hlanguage).append (Fence.return_notMem_delimiter code)
  have hcode : ReturnsEndLines
      ((if code.isEmpty then [] else code ++ ['\n']) ++ Fence.delimiter code) := by
    split
    · exact hrun
    · rw [List.append_assoc]
      exact h.append_newline hrun
  rw [Fence.block, List.append_assoc, List.cons_append]
  exact hopening.append_newline hcode

namespace Page

variable {page : Page}

theorem returnsEndLines_write {content : Text} (hpage : ReturnsEndLines page.text)
    (hlast : page.text.getLast? ≠ some '\r') (hcontent : ReturnsEndLines content) :
    ReturnsEndLines (page.write content).text ∧
      ((page.write content).text.getLast? = some '\r' → content.getLast? = some '\r') := by
  by_cases hne : content = []
  · subst hne
    exact ⟨hpage, fun hreturn => absurd hreturn hlast⟩
  · rw [write_of_ne_nil page hne]
    split
    · refine ⟨hpage.append_newline hcontent, fun hreturn => ?_⟩
      rwa [List.append_cons, List.getLast?_append_of_ne_nil _ hne] at hreturn
    · refine ⟨hpage.concat hcontent hlast, fun hreturn => ?_⟩
      rwa [List.getLast?_append_of_ne_nil _ hne] at hreturn

theorem returnsEndLines_write_of_notMem {content : Text} (hpage : ReturnsEndLines page.text)
    (hlast : page.text.getLast? ≠ some '\r') (hcontent : '\r' ∉ content) :
    ReturnsEndLines (page.write content).text ∧
      (page.write content).text.getLast? ≠ some '\r' := by
  obtain ⟨hwrite, hend⟩ := returnsEndLines_write hpage hlast (returnsEndLines_of_notMem hcontent)
  exact ⟨hwrite, fun hreturn => hcontent (List.mem_of_getLast? (hend hreturn))⟩

theorem returnsEndLines_endLine (hpage : ReturnsEndLines page.text) :
    ReturnsEndLines page.endLine.text ∧ page.endLine.text.getLast? ≠ some '\r' := by
  refine ⟨hpage.append_newline List.isChain_nil, fun hreturn => ?_⟩
  exact absurd (List.getLast?_concat.symm.trans hreturn) (by decide)

theorem returnsEndLines_add {piece : Piece} (hpage : ReturnsEndLines page.text)
    (hlast : page.text.getLast? ≠ some '\r') (hfit : piece.ReturnsFit) :
    ReturnsEndLines (page.add piece).text ∧
      ((page.add piece).text.getLast? = some '\r' → ∃ s, piece = .text s ∧ '\r' ∈ s) := by
  have hmark : ∀ content : Text, '\r' ∉ content → ReturnsEndLines (page.write content).text ∧
      ((page.write content).text.getLast? = some '\r' → ∃ s, piece = .text s ∧ '\r' ∈ s) := by
    intro content hcontent
    obtain ⟨hwrite, hend⟩ := returnsEndLines_write_of_notMem hpage hlast hcontent
    exact ⟨hwrite, fun hreturn => absurd hreturn hend⟩
  cases piece with
  | text s =>
    obtain ⟨hwrite, hend⟩ := returnsEndLines_write hpage hlast hfit.2
    exact ⟨hwrite, fun hreturn => ⟨s, rfl, List.mem_of_getLast? (hend hreturn)⟩⟩
  | newline =>
    obtain ⟨hline, hend⟩ := returnsEndLines_endLine hpage
    exact ⟨hline, fun hreturn => absurd hreturn hend⟩
  | code s =>
    obtain ⟨hwrite, hend⟩ :=
      returnsEndLines_write hpage hlast (returnsEndLines_inlineCode hfit.1 hfit.2)
    refine ⟨hwrite, fun hreturn => ?_⟩
    exact absurd ((getLast?_inlineCode s).symm.trans (hend hreturn)) (by decide)
  | spanStart span =>
    apply hmark
    cases span with
    | link => exact List.not_mem_nil
    | _ => decide
  | spanEnd span => exact hmark span.endMark hfit
  | unpaired tag => exact hmark tag.display hfit
  | omitted => exact ⟨hpage, fun hreturn => absurd hreturn hlast⟩
  | block language code =>
    have hblock := returnsEndLines_block hfit.1 (hfit.2.mono (Fence.body_isInfix code))
    rw [add, writeBlock]
    refine ⟨?_, fun hreturn => ?_⟩
    · dsimp only
      split
      · have hcomplete : completeLines page.text <+: page.text :=
          ⟨_, completeLines_append_lastLine page.text⟩
        refine (hpage.mono hcomplete.isInfix).concat hblock fun hreturn => ?_
        rw [completeLines, List.getLast?_reverse] at hreturn
        exact absurd (head?_trimStart _ _ _ hreturn) (by decide)
      · rw [List.append_assoc]
        exact hpage.append_newline hblock
    · exact absurd ((getLast?_append_block _ _ _).symm.trans hreturn) (by decide)

end Page

theorem returnsEndLines_addAll {document : List Piece} (hfit : ∀ piece ∈ document, piece.ReturnsFit)
    (hends : ReturnsEndPieces True document) {page : Page} (hpage : ReturnsEndLines page.text)
    (hseam : page.text.getLast? = some '\r' → ∀ next ∈ document.head?, next = .newline) :
    ReturnsEndLines (page.addAll document).text := by
  induction document generalizing page with
  | nil => exact hpage
  | cons piece rest ih =>
    obtain ⟨hpiece, hrestFit⟩ := List.forall_mem_cons.mp hfit
    obtain ⟨hnext, hrestEnds⟩ := List.isChain_cons.mp hends
    rw [Page.addAll_cons]
    have hadd : ReturnsEndLines (page.add piece).text ∧
        ((page.add piece).text.getLast? = some '\r' → ∃ s, piece = .text s ∧ '\r' ∈ s) := by
      by_cases hnewline : piece = .newline
      · subst hnewline
        obtain ⟨hline, hend⟩ := Page.returnsEndLines_endLine hpage
        exact ⟨hline, fun hreturn => absurd hreturn hend⟩
      · have hlast : page.text.getLast? ≠ some '\r' := fun hreturn =>
          hnewline (hseam hreturn piece rfl)
        exact Page.returnsEndLines_add hpage hlast hpiece
    apply ih hrestFit hrestEnds hadd.1
    intro hreturn next hmem
    obtain ⟨s, hs, hmark⟩ := hadd.2 hreturn
    exact hnext next hmem s hs hmark (Or.inr trivial)

end ClassDocs
