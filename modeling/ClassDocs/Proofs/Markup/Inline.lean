import ClassDocs.Proofs.Markup.Ink
import ClassDocs.Proofs.Markup.Settled
import ClassDocs.Proofs.Markup.TagContent
import Mathlib.Data.List.Infix

/-!
# Inline markup and fences

A line starts a fence by its backticks alone, so it matters where backticks come together. No piece of
a document without code blocks starts a fence by itself: plain text has no three backticks in a row,
and code has no backtick without a backslash in front but its two marks. What is left is that one or
two backticks at the start of a line are completed by the piece after them. Wherever that does not
happen, every line is trimmed.
-/

namespace ClassDocs

open Text Unicode

namespace Fence

def StartsNone (s : Text) : Prop :=
  ∀ line ∈ lines s, isDelimiter line = false

instance (s : Text) : Decidable (StartsNone s) :=
  inferInstanceAs (Decidable (∀ line ∈ lines s, isDelimiter line = false))

/-- Whether a line starts with one or two backticks, white space aside, and what is written behind it
makes them a fence. -/
def Completes (line more : Text) : Prop :=
  (trimStart isWhiteSpace line = ['`'] ∨ trimStart isWhiteSpace line = ['`', '`']) ∧
    shortest <+: trimStart isWhiteSpace line ++ more

theorem Completes.mono {line first more : Text} (h : Completes line first)
    (hfirst : first <+: more) : Completes line more :=
  ⟨h.1, h.2.trans ((List.prefix_append_right_inj _).mpr hfirst)⟩

theorem startsNone_of_not_occursIn {s : Text} (h : occursIn shortest s = false) : StartsNone s := by
  intro line hline
  rw [Bool.eq_false_iff]
  intro hdelimiter
  have hstarts := List.isPrefixOf_iff_prefix.mp hdelimiter
  have hpart : shortest <:+: s :=
    (hstarts.isInfix.trans (List.dropWhile_suffix isWhiteSpace).isInfix).trans
      (isInfix_of_mem_lines hline)
  obtain ⟨before, after, hs⟩ := hpart
  rw [occursIn_iff.mpr ⟨before, after, hs.symm⟩] at h
  exact absurd h (by decide)

theorem startsNone_line {line : Text} (hnewline : '\n' ∉ line) (h : isDelimiter line = false) :
    StartsNone line := by
  intro other hother
  rw [lines_eq_singleton hnewline, List.mem_singleton] at hother
  rw [hother, h]

/-- If two texts on one line start a fence, one of them does, or the second completes the first. -/
theorem isDelimiter_append_cases {s t : Text} (h : isDelimiter (s ++ t) = true) :
    isDelimiter s = true ∨ isDelimiter t = true ∨ Completes s t := by
  cases hblank : isBlank s with
  | true =>
    rw [isDelimiter, trimStart_append_of_forall t (isBlank_iff.mp hblank)] at h
    exact Or.inr (Or.inl h)
  | false =>
    rw [isDelimiter, trimStart_append_of_not_blank t hblank, List.isPrefixOf_iff_prefix] at h
    rcases List.prefix_or_prefix_of_prefix h (List.prefix_append _ t) with hs | ⟨rest, hrest⟩
    · exact Or.inl (List.isPrefixOf_iff_prefix.mpr hs)
    · have hrun := (List.mem_inits _ shortest).mpr ⟨rest, hrest⟩
      have hinits : shortest.inits = [[], ['`'], ['`', '`'], shortest] := by decide
      simp only [hinits, List.mem_cons, List.not_mem_nil, or_false] at hrun
      rcases hrun with hrun | hrun | hrun | hrun
      · rw [trimStart_eq_nil_iff.mp hrun] at hblank
        exact absurd hblank (by decide)
      · exact Or.inr (Or.inr ⟨Or.inl hrun, h⟩)
      · exact Or.inr (Or.inr ⟨Or.inr hrun, h⟩)
      · rw [isDelimiter, hrun]
        exact Or.inl (by decide)

theorem not_occursIn_inlineCode (content : Text) : occursIn shortest (inlineCode content) = false := by
  -- Every backtick of the content stands behind a backslash, so at most the last one meets the mark
  -- that ends the code.
  have hescaped : ∀ s : Text,
      let marked := (s.flatMap fun c => if c = '`' then ['\\', '`'] else [c]) ++ ['`']
      occursIn shortest marked = false ∧ ¬"``".toList <+: marked := by
    intro s
    induction s with
    | nil => decide
    | cons c s ih =>
      obtain ⟨hocc, hpair⟩ := ih
      dsimp only at hocc hpair ⊢
      rw [List.flatMap_cons, List.append_assoc]
      split
      next =>
        have hquote := (occursIn_backtick_cons hpair).trans hocc
        refine ⟨(occursIn_append_of_notMem (s := ['\\']) _ (by decide)).trans hquote, ?_⟩
        exact fun hrun => absurd (List.cons_prefix_cons.mp hrun).1 (by decide)
      next hc =>
        refine ⟨(occursIn_append_of_notMem (s := [c]) _ (by simpa [eq_comm] using hc)).trans hocc, ?_⟩
        exact fun hrun => hc (List.cons_prefix_cons.mp hrun).1.symm
  obtain ⟨hocc, hpair⟩ := hescaped content
  exact (occursIn_backtick_cons hpair).trans hocc

end Fence

open Fence

def Tag.startsBlock : Tag → Bool
  | .fenceOpen _ _ | .rawFence _ _ | .languageOpen _ => true
  | _ => false

/-- A tag that starts no block and is written on one line that starts no fence. -/
structure Tag.IsInline (tag : Tag) : Prop where
  startsBlock : tag.startsBlock = false
  startsNone : StartsNone tag.display
  oneLine : tag = .newline ∨ '\n' ∉ tag.display

theorem Tag.display_of_isBracketed {tag : Tag} (h : tag.isBracketed = true)
    (hblock : tag.startsBlock = false) : ∃ rest, tag.display = '[' :: rest := by
  cases tag with
  | text | newline | rawFence => exact absurd h Bool.false_ne_true
  | fenceOpen => exact absurd hblock.symm Bool.false_ne_true
  | spanOpen span =>
    cases span with
    | link target => cases target <;> exact ⟨_, rfl⟩
    | _ => exact ⟨_, rfl⟩
  | _ => exact ⟨_, rfl⟩

theorem isInline_of_mem_tagsOf {source : Text} {tag : Tag} (h : tag ∈ tagsOf source)
    (hblock : tag.startsBlock = false) : tag.IsInline := by
  have hline : tag = .newline ∨ '\n' ∉ tag.display := by
    by_cases hnewline : tag = .newline
    · exact Or.inl hnewline
    · exact Or.inr (newline_notMem_display h hnewline)
  refine ⟨hblock, ?_, hline⟩
  rcases hline with rfl | hline
  · decide
  · cases tag with
    | text s => exact startsNone_of_not_occursIn (not_occursIn_of_text_mem h)
    | newline => decide
    | rawFence => exact absurd hblock.symm Bool.false_ne_true
    | _ =>
      obtain ⟨rest, hdisplay⟩ := Tag.display_of_isBracketed rfl hblock
      apply startsNone_line hline
      rw [hdisplay]
      rfl

theorem startsNone_lonePiece {tag : Tag} (h : tag.IsInline) : StartsNone tag.lonePiece.writes := by
  cases tag with
  | newline | lineBreak | bracket | leftBracket | rightBracket => decide
  | reference _ name | typeReference name =>
    exact startsNone_of_not_occursIn (not_occursIn_inlineCode name)
  | _ => exact h.startsNone

theorem startsNone_startMark (span : Span) : StartsNone span.startMark := by
  cases span with
  | link => exact startsNone_line List.not_mem_nil rfl
  | _ => decide

theorem startsNone_endMark {span : Span} (h : ∀ target, span = .link (some target) → '\n' ∉ target) :
    StartsNone span.endMark := by
  cases span with
  | link target =>
    cases target with
    | none => decide
    | some target =>
      have hnewline : '\n' ∉ Span.endMark (.link (some target)) := by
        simpa [Span.endMark] using h target rfl
      exact startsNone_line hnewline rfl
  | _ => decide

theorem newline_notMem_target {target : Text}
    (h : (Tag.spanOpen (.link (some target))).IsInline) : '\n' ∉ target := by
  have hline := h.oneLine.resolve_left (by simp)
  intro hmem
  apply hline
  simp [Tag.display, Tag.bracketed, hmem]

theorem WalkStep.startsNone {language : Text} {stack stack' : List Span} {tags rest : List Tag}
    {made : List Piece} (h : WalkStep language stack tags made stack' rest)
    (htags : ∀ tag ∈ tags, tag.IsInline)
    (hstack : ∀ target, Span.link (some target) ∈ stack → '\n' ∉ target) :
    (∀ piece ∈ made, StartsNone piece.writes) ∧
      ∀ target, Span.link (some target) ∈ stack' → '\n' ∉ target := by
  cases h with
  | dropped => exact ⟨fun _ hmem => absurd hmem List.not_mem_nil, hstack⟩
  | alone =>
    have htag := htags _ List.mem_cons_self
    exact ⟨List.forall_mem_singleton.mpr (startsNone_lonePiece htag), hstack⟩
  | @region tag _ _ inside _ opens =>
    refine ⟨List.forall_mem_singleton.mpr ?_, hstack⟩
    have hblock := (htags tag List.mem_cons_self).startsBlock
    cases tag with
    | codeOpen => exact startsNone_of_not_occursIn (not_occursIn_inlineCode (literalText inside))
    | fenceOpen | rawFence | languageOpen => exact absurd hblock.symm Bool.false_ne_true
    | _ => exact absurd opens (by simp [Tag.opensRegion?])
  | sample | sampleUnclosed | sampleOutside =>
    have hblock := (htags _ List.mem_cons_self).startsBlock
    exact absurd hblock.symm Bool.false_ne_true
  | unclosed | unopened | notClosed =>
    have htag := htags _ List.mem_cons_self
    exact ⟨List.forall_mem_singleton.mpr htag.startsNone, hstack⟩
  | @opened span =>
    refine ⟨List.forall_mem_singleton.mpr (startsNone_startMark span), fun target hmem => ?_⟩
    rcases List.mem_cons.mp hmem with heq | hmem
    · exact newline_notMem_target (heq ▸ htags _ List.mem_cons_self)
    · exact hstack target hmem
  | closed innermost =>
    have hspan := List.mem_of_find?_eq_some innermost
    refine ⟨List.forall_mem_singleton.mpr (startsNone_endMark ?_), ?_⟩
    · exact fun target heq => hstack target (heq ▸ hspan)
    · exact fun target hmem => hstack target (List.mem_of_mem_eraseP hmem)

theorem startsNone_of_mem_pieces {language : Text} {stack : List Span} {tags : List Tag}
    (htags : ∀ tag ∈ tags, tag.IsInline)
    (hstack : ∀ target, Span.link (some target) ∈ stack → '\n' ∉ target) :
    ∀ piece ∈ pieces language stack tags, StartsNone piece.writes := by
  refine forall_mem_pieces (P := fun piece => StartsNone piece.writes)
    (I := fun stack tags => (∀ tag ∈ tags, tag.IsInline) ∧
      ∀ target, Span.link (some target) ∈ stack → '\n' ∉ target) ?_ ⟨htags, hstack⟩
  intro stack tags made stack' rest hstep ⟨htags, hstack⟩
  obtain ⟨hmade, hstack'⟩ := hstep.startsNone htags hstack
  exact ⟨hmade, fun tag hmem => htags tag (hstep.rest_suffix.subset hmem), hstack'⟩

theorem not_startsNone_block (language code : Text) : ¬StartsNone (block language code) := by
  obtain ⟨first, hfirst⟩ := exists_append_mem_lines (newline_notMem_delimiter code)
    (language ++ '\n' :: (if code.isEmpty then [] else code ++ ['\n']) ++ delimiter code)
  intro hnone
  have hdelimiter : isDelimiter (delimiter code ++ first) = true := by
    rw [delimiter_eq]
    exact Layout.isDelimiter_replicate_append (by omega) first
  rw [hnone _ (by simpa [block] using hfirst)] at hdelimiter
  exact absurd hdelimiter (by decide)

theorem Page.add_of_startsNone {page : Page} {piece : Piece} (hpage : page.afterBlock = false)
    (hpiece : StartsNone piece.writes) :
    page.add piece = ⟨page.text ++ (if piece = .newline then ['\n'] else piece.writes), false⟩ := by
  cases piece with
  | newline => rfl
  | block language code => exact absurd hpiece (not_startsNone_block language _)
  | omitted =>
    obtain ⟨text, afterBlock⟩ := page
    subst hpage
    simp [add, Piece.writes]
  | _ => exact write_of_not_afterBlock _ hpage

theorem afterBlock_addAll {document : List Piece} (h : ∀ piece ∈ document, StartsNone piece.writes)
    {page : Page} (hpage : page.afterBlock = false) : (page.addAll document).afterBlock = false := by
  induction document generalizing page with
  | nil => exact hpage
  | cons piece document ih =>
    rw [Page.addAll_cons, Page.add_of_startsNone hpage (h piece List.mem_cons_self)]
    exact ih (fun other hmem => h other (List.mem_cons_of_mem piece hmem)) rfl

/-- Pieces that start no fence leave the page without one, unless one of them completes what stands
at the start of its line. -/
theorem startsNone_rendered_or_completes {document : List Piece}
    (h : ∀ piece ∈ document, StartsNone piece.writes) :
    StartsNone (rendered document) ∨ ∃ before piece after, document = before ++ piece :: after ∧
      Completes (lastLine (rendered before)) piece.writes := by
  induction document using List.reverseRecOn with
  | nil => exact Or.inl (by decide)
  | append_singleton document piece ih =>
    have hdocument : ∀ other ∈ document, StartsNone other.writes := fun other hmem =>
      h other (List.mem_append_left _ hmem)
    rcases ih hdocument with hpage | ⟨before, other, after, rfl, hcompletes⟩
    · have hpiece := h piece (by simp)
      have hblock : (Page.blank.addAll document).afterBlock = false := afterBlock_addAll hdocument rfl
      have hadd := Page.add_of_startsNone hblock hpiece
      have hrendered : rendered (document ++ [piece]) =
          rendered document ++ (if piece = .newline then ['\n'] else piece.writes) := by
        rw [rendered_eq_addAll, Page.addAll_append, Page.addAll_cons, Page.addAll_nil, hadd]
        rfl
      by_cases hcompletes : Completes (lastLine (rendered document)) piece.writes
      · exact Or.inr ⟨document, piece, [], rfl, hcompletes⟩
      · left
        rw [hrendered]
        split
        next =>
          intro line hline
          rw [lines_append_newline] at hline
          rcases List.mem_append.mp hline with hline | hline
          · exact hpage line hline
          · exact startsNone_line List.not_mem_nil rfl line hline
        next =>
          intro line hline
          rcases mem_lines_append hline with hline | hline | ⟨first, hfirst, hstarts, rfl⟩
          · exact hpage line hline
          · exact hpiece line hline
          · rw [Bool.eq_false_iff]
            intro hdelimiter
            rcases isDelimiter_append_cases hdelimiter with hlast | hstart | hseam
            · rw [hpage _ (lastLine_mem_lines _)] at hlast
              exact absurd hlast (by decide)
            · rw [hpiece first hfirst] at hstart
              exact absurd hstart (by decide)
            · exact hcompletes (hseam.mono hstarts)
    · exact Or.inr ⟨before, other, after ++ [piece], by simp, hcompletes⟩

def HasCleanEnds (line : Text) : Prop :=
  ∀ c, line.head? = some c ∨ line.getLast? = some c → c ≠ ' ' ∧ c ≠ '\t' ∧ c ≠ '\r'

namespace Layout

theorem hasCleanEnds_trimSides (line : Text) : HasCleanEnds (trimSides line) := by
  intro c hc
  have hside : isSide c = false := hc.elim head?_trim getLast?_trim
  simpa [isSide, and_assoc] using hside

theorem hasCleanEnds_of_mem_spaced {afterBlank : Bool} {ls : List Text} {line : Text}
    (hprose : ∀ source ∈ ls, isDelimiter source = false) (h : line ∈ spaced none afterBlank ls) :
    HasCleanEnds line := by
  induction ls generalizing afterBlank with
  | nil => exact absurd h List.not_mem_nil
  | cons source rest ih =>
    have hsource := hprose source List.mem_cons_self
    rw [spaced, fenceAfter_prose hsource, emitted, role_prose hsource, List.mem_append,
      List.mem_cons] at h
    rcases h with hgap | rfl | hrest
    · split at hgap
      · rw [List.mem_singleton.mp hgap]
        exact hasCleanEnds_trimSides []
      · exact absurd hgap List.not_mem_nil
    · exact hasCleanEnds_trimSides source
    · exact ih (fun other hmem => hprose other (List.mem_cons_of_mem source hmem)) hrest

theorem hasCleanEnds_of_mem_tidyLines {s line : Text} (hs : StartsNone s) (h : line ∈ tidyLines s) :
    HasCleanEnds line :=
  hasCleanEnds_of_mem_spaced hs (mem_of_mem_dropBlankEnds h)

end Layout

/-- If no tag of an entry can start a block, no piece of its document starts a fence by itself, and
either all its lines are trimmed or a piece completes one or two backticks at the start of a line to a
fence. -/
theorem inline_markup_starts_no_fence (settings : DocSettings) (entry : List Text)
    (hinline : ∀ tag ∈ tagsOf (DocComment.source settings entry), tag.startsBlock = false) :
    (∀ piece ∈ DocComment.document settings (DocComment.source settings entry),
      StartsNone piece.writes) ∧
    ((∀ line ∈ DocComment.contentLines settings entry, HasCleanEnds line) ∨
      ∃ before piece after,
        DocComment.document settings (DocComment.source settings entry) =
          before ++ piece :: after ∧
        Completes (lastLine (rendered before)) piece.writes) := by
  have hpieces : ∀ piece ∈ DocComment.document settings (DocComment.source settings entry),
      StartsNone piece.writes := by
    apply startsNone_of_mem_pieces
    · exact fun tag htag => isInline_of_mem_tagsOf htag (hinline tag htag)
    · simp
  refine ⟨hpieces, ?_⟩
  rcases startsNone_rendered_or_completes hpieces with hrendered | hcompletes
  · exact Or.inl fun line hline => Layout.hasCleanEnds_of_mem_tidyLines hrendered hline
  · exact Or.inr hcompletes

def linkedEntry : List Text :=
  ["`[url]``[/url]".toList, "\tx".toList]

theorem linkedEntry_completes_a_fence :
    (∀ tag ∈ tagsOf (DocComment.source .default linkedEntry), tag.startsBlock = false) ∧
    ∃ before piece after,
      DocComment.document .default (DocComment.source .default linkedEntry) =
        before ++ piece :: after ∧
      Completes (lastLine (rendered before)) piece.writes := by
  have hinline : ∀ tag ∈ tagsOf (DocComment.source .default linkedEntry),
      tag.startsBlock = false := by
    decide +kernel
  have hlines : DocComment.contentLines .default linkedEntry = ["```".toList, "\tx".toList] := by
    decide +kernel
  refine ⟨hinline, (inline_markup_starts_no_fence .default linkedEntry hinline).2.resolve_left ?_⟩
  intro hclean
  rw [hlines] at hclean
  have hends := hclean "\tx".toList (by simp) '\t' (Or.inl rfl)
  exact hends.2.1 rfl

/-- Two backticks of plain text and the mark of the code behind them are read as a fence, and the line
after them is taken for code. -/
theorem quoted_code_starts_a_fence :
    (∀ tag ∈ tagsOf (DocComment.source .default
        ["``[code]x[/code]".toList, "  foo ".toList]), tag.startsBlock = false) ∧
    ¬∀ line ∈ DocComment.contentLines .default ["``[code]x[/code]".toList, "  foo ".toList],
      HasCleanEnds line := by
  have hlines : DocComment.contentLines .default ["``[code]x[/code]".toList, "  foo ".toList] =
      ["```x`".toList, "  foo ".toList] := by
    decide +kernel
  refine ⟨by decide +kernel, fun hclean => ?_⟩
  rw [hlines] at hclean
  have hends := hclean "  foo ".toList (by simp) ' ' (Or.inl rfl)
  exact hends.1 rfl

end ClassDocs
