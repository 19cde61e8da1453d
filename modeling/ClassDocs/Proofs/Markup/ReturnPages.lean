import ClassDocs.Proofs.Markup.Page
import ClassDocs.Proofs.Markup.ReturnPieces

/-!
# Pages of lines that end in carriage returns

Written without their carriage returns, pieces make the page without carriage returns. A carriage return
right behind a code block is the exception: it is content, so it starts a new line, and an empty line
is left when it is taken out.
-/

namespace ClassDocs

open Text Unicode

namespace Fence

theorem leadingBackticks_dropReturns {line : Text} (h : ReturnsEndLines line) (hnewline : '\n' ∉ line) :
    leadingBackticks (dropReturns line) = leadingBackticks line := by
  obtain ⟨kept, hkept, rfl | rfl⟩ := h.exists_line hnewline
  · rw [dropReturns_eq_self hkept]
  · have hrun : (kept ++ ['\r']).takeWhile (· == '`') = kept.takeWhile (· == '`') :=
      takeWhile_append_cons_of_neg kept [] rfl
    rw [dropReturns_append, dropReturns_eq_self hkept, leadingBackticks, leadingBackticks, hrun]
    simp

theorem longestRun_dropReturns {code : Text} (h : ReturnsEndLines code) :
    longestRun (dropReturns code) = longestRun code := by
  rw [longestRun, lines_dropReturns, List.map_map, longestRun]
  congr 1
  apply List.map_congr_left
  intro line hline
  have hstart : trimStart isWhiteSpace line <:+ line := List.dropWhile_suffix isWhiteSpace
  have hreturns := h.mono (hstart.isInfix.trans (isInfix_of_mem_lines hline))
  have hnewline : '\n' ∉ trimStart isWhiteSpace line := fun hmem =>
    newline_notMem_of_mem_lines hline (hstart.subset hmem)
  rw [Function.comp_apply, trimStart_dropReturns rfl, leadingBackticks_dropReturns hreturns hnewline]

theorem return_notMem_delimiter (code : Text) : '\r' ∉ delimiter code := by
  rw [delimiter, List.mem_replicate]
  exact fun h => absurd h.2 (by decide)

theorem delimiter_dropReturns {code : Text} (h : ReturnsEndLines code) :
    delimiter (dropReturns code) = delimiter code := by
  rw [delimiter, longestRun_dropReturns h, delimiter]

theorem body_isInfix (code : Text) : body code <:+: code := by
  have hopened : (stripPrefix? ['\r', '\n'] code <|> stripPrefix? ['\n'] code).getD code <:+ code := by
    cases hreturn : stripPrefix? ['\r', '\n'] code with
    | some rest => exact ⟨_, (stripPrefix?_eq_some_iff.mp hreturn).symm⟩
    | none =>
      cases hnewline : stripPrefix? ['\n'] code with
      | some rest => exact ⟨_, (stripPrefix?_eq_some_iff.mp hnewline).symm⟩
      | none => exact List.suffix_refl code
  exact (List.rdropWhile_prefix isWhiteSpace _).isInfix.trans hopened.isInfix

theorem dropReturns_body {code : Text} (h : ReturnsEndLines code) :
    dropReturns (body code) = body (dropReturns code) := by
  rw [body, body, ← trimEnd_dropReturns rfl]
  congr 1
  cases code with
  | nil => rfl
  | cons c rest =>
    by_cases hnewline : c = '\n'
    · subst hnewline
      rw [dropReturns_cons_of_ne rest (by decide)]
      rfl
    · by_cases hreturn : c = '\r'
      · subst hreturn
        cases rest with
        | nil => rfl
        | cons d rest =>
          obtain rfl : d = '\n' := (List.isChain_cons_cons.mp h).1 rfl
          rfl
      · rw [dropReturns_cons_of_ne rest hreturn]
        simp [stripPrefix?, Ne.symm hnewline, Ne.symm hreturn, dropReturns_cons_of_ne rest hreturn]

theorem body_eq_nil_of_isBlank {code : Text} (h : isBlank (body code) = true) : body code = [] := by
  by_contra hne
  have hlast := List.getLast_mem hne
  have hspace := isBlank_iff.mp h _ hlast
  exact absurd hspace (List.rdropWhile_last_not isWhiteSpace _ hne)

theorem dropReturns_block {language code : Text} (hlanguage : '\r' ∉ language)
    (h : ReturnsEndLines code) :
    dropReturns (block language (body code)) = block language (body (dropReturns code)) := by
  have hrun := dropReturns_eq_self (return_notMem_delimiter (body code))
  have hbody := h.mono (body_isInfix code)
  have hcode : dropReturns (if (body code).isEmpty then [] else body code ++ ['\n']) =
      if (dropReturns (body code)).isEmpty then [] else dropReturns (body code) ++ ['\n'] := by
    by_cases hempty : body code = []
    · rw [hempty]
      rfl
    · have hkept : dropReturns (body code) ≠ [] := by
        intro hnil
        apply hempty
        apply body_eq_nil_of_isBlank
        rw [← isBlank_dropReturns, hnil]
        rfl
      rw [if_neg (by simpa using hempty), if_neg (by simpa using hkept), dropReturns_append]
      rfl
  rw [← dropReturns_body h, block, block, dropReturns_append, dropReturns_append, dropReturns_append,
    dropReturns_cons_of_ne _ (by decide), hcode, hrun, dropReturns_eq_self hlanguage,
    delimiter_dropReturns hbody]

end Fence

theorem dropReturns_inlineCode (content : Text) :
    dropReturns (inlineCode content) = inlineCode (dropReturns content) := by
  have hescaped : dropReturns (content.flatMap fun c => if c = '`' then ['\\', '`'] else [c]) =
      (dropReturns content).flatMap fun c => if c = '`' then ['\\', '`'] else [c] := by
    induction content with
    | nil => rfl
    | cons c content ih =>
      rw [List.flatMap_cons, dropReturns_append, ih]
      by_cases hc : c = '\r'
      · subst hc
        rfl
      · rw [dropReturns_cons_of_ne content hc, List.flatMap_cons]
        congr 1
        split
        · rfl
        · exact dropReturns_cons_of_ne [] hc
  rw [inlineCode, inlineCode, ← hescaped, dropReturns_append, dropReturns_cons_of_ne _ (by decide)]
  rfl

namespace Page

def dropReturns (page : Page) : Page :=
  ⟨Text.dropReturns page.text, page.afterBlock⟩

@[simp] theorem text_dropReturns (page : Page) :
    page.dropReturns.text = Text.dropReturns page.text := rfl

@[simp] theorem afterBlock_dropReturns (page : Page) :
    page.dropReturns.afterBlock = page.afterBlock := rfl

theorem dropReturns_write (page : Page) {content : Text}
    (hempty : Text.dropReturns content = [] → content = [])
    (hhead : content.head? = some '\n' ↔ (Text.dropReturns content).head? = some '\n') :
    (page.write content).dropReturns = page.dropReturns.write (Text.dropReturns content) := by
  by_cases hcontent : content = []
  · subst hcontent
    rfl
  · have hkept : Text.dropReturns content ≠ [] := fun hnil => hcontent (hempty hnil)
    have hline : ((Text.dropReturns content).head? != some '\n') = (content.head? != some '\n') := by
      rw [Bool.eq_iff_iff, bne_iff_ne, bne_iff_ne, Ne, Ne, hhead]
    rw [write_of_ne_nil page hcontent, write_of_ne_nil page.dropReturns hkept,
      afterBlock_dropReturns, hline]
    split
    · simp [dropReturns, dropReturns_cons_of_ne]
    · simp [dropReturns]

theorem dropReturns_write_of_notMem (page : Page) {content : Text} (h : '\r' ∉ content) :
    (page.write content).dropReturns = page.dropReturns.write content := by
  have hkept := dropReturns_eq_self h
  rw [dropReturns_write page, hkept]
  · rw [hkept]
    exact id
  · rw [hkept]

theorem dropReturns_writeBlock (page : Page) {language code : Text} (hlanguage : '\r' ∉ language)
    (h : ReturnsEndLines code) :
    (page.writeBlock language code).dropReturns =
      page.dropReturns.writeBlock language (Text.dropReturns code) := by
  have hlast : isBlank (lastLine page.dropReturns.text) = isBlank (lastLine page.text) := by
    rw [text_dropReturns, lastLine_dropReturns, isBlank_dropReturns]
  rw [writeBlock, writeBlock, hlast]
  dsimp only [dropReturns]
  rw [Text.dropReturns_append, Fence.dropReturns_block hlanguage h, completeLines_dropReturns]
  split
  · rfl
  · rw [Text.dropReturns_append]
    rfl

/-- A piece is written without its carriage returns where it is written. -/
theorem dropReturns_add (page : Page) {piece kept : Piece} (hfit : piece.ReturnsFit)
    (hkept : piece.withoutReturns? = some kept) :
    (page.add piece).dropReturns = page.dropReturns.add kept := by
  cases piece with
  | text s =>
    rw [Piece.withoutReturns?] at hkept
    split at hkept
    · exact absurd hkept (by simp)
    next hs =>
      obtain rfl := Option.some.inj hkept
      apply dropReturns_write
      · exact fun hnil => absurd hnil hs
      · have hnewline : '\n' ∉ Text.dropReturns s := fun hmem => hfit.1 (mem_dropReturns.mp hmem).1
        constructor
        · exact fun hhead => absurd (List.mem_of_head? hhead) hfit.1
        · exact fun hhead => absurd (List.mem_of_head? hhead) hnewline
  | newline =>
    obtain rfl := Option.some.inj hkept
    simp [add, endLine, dropReturns, dropReturns_cons_of_ne]
  | code s =>
    obtain rfl := Option.some.inj hkept
    rw [add, add, ← dropReturns_inlineCode]
    apply dropReturns_write
    · rw [dropReturns_inlineCode]
      exact fun hnil => absurd hnil (List.cons_ne_nil _ _)
    · rw [dropReturns_inlineCode]
      exact Iff.rfl
  | spanStart span =>
    obtain rfl := Option.some.inj hkept
    apply dropReturns_write_of_notMem
    cases span with
    | link => exact List.not_mem_nil
    | _ => decide
  | spanEnd span =>
    obtain rfl := Option.some.inj hkept
    exact dropReturns_write_of_notMem page hfit
  | block language s =>
    obtain rfl := Option.some.inj hkept
    exact dropReturns_writeBlock page hfit.1 hfit.2
  | unpaired tag =>
    obtain rfl := Option.some.inj hkept
    exact dropReturns_write_of_notMem page hfit
  | omitted =>
    obtain rfl := Option.some.inj hkept
    rfl

/-- Carriage returns alone leave the page as it is, unless it has just ended with a block. -/
theorem dropReturns_add_returns (page : Page) {s : Text} (hs : Text.dropReturns s = []) :
    (page.add (.text s)).dropReturns = page.dropReturns ∨
      '\r' ∈ s ∧ page.afterBlock = true ∧ page.add (.text s) = ⟨page.text ++ '\n' :: s, false⟩ := by
  cases s with
  | nil => exact Or.inl rfl
  | cons c rest =>
    obtain rfl : c = '\r' := by
      by_contra hc
      rw [dropReturns_cons_of_ne rest hc] at hs
      exact absurd hs (by simp)
    cases hblock : page.afterBlock with
    | true =>
      refine Or.inr ⟨List.mem_cons_self, rfl, ?_⟩
      rw [add, write_of_ne_nil page (by simp), hblock]
      rfl
    | false =>
      left
      rw [add, write_of_not_afterBlock _ hblock, dropReturns, Text.dropReturns_append, hs,
        List.append_nil, dropReturns, hblock]

end Page

end ClassDocs
