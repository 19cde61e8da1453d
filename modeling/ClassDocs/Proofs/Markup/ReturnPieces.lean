import ClassDocs.Markup.Page
import ClassDocs.Proofs.Markup.ReturnTags
import ClassDocs.Proofs.Markup.Walk

/-!
# Pieces of lines that end in carriage returns

Without carriage returns in its tags, the walk makes the same pieces without carriage returns. A piece
of carriage returns alone is the end of a line, and inside the other pieces they end lines of code.
-/

namespace ClassDocs

open Text

def Piece.withoutReturns? : Piece → Option Piece
  | .text s => if dropReturns s = [] then none else some (.text (dropReturns s))
  | .code s => some (.code (dropReturns s))
  | .block language s => some (.block language (dropReturns s))
  | piece => some piece

theorem Tag.exists_display_cons {tag : Tag} (halone : tag.standsAlone = true)
    (htext : ∀ s, tag ≠ .text s) : ∃ c rest, tag.display = c :: rest := by
  cases tag with
  | text s => exact absurd rfl (htext s)
  | spanOpen | fenceOpen | rawFence => exact absurd halone Bool.false_ne_true
  | _ => exact ⟨_, _, rfl⟩

theorem Piece.withoutReturns?_text_of_notMem {s : Text} (h : '\r' ∉ s) (hne : s ≠ []) :
    (Piece.text s).withoutReturns? = some (.text s) := by
  have hs : dropReturns s = s := dropReturns_eq_self h
  rw [withoutReturns?, hs, if_neg hne]

theorem Piece.return_notMem_of_withoutReturns? {s : Text}
    (h : (Piece.text s).withoutReturns? = some (.text s)) : '\r' ∉ s := by
  rw [withoutReturns?] at h
  split at h
  · exact absurd h (by simp)
  · obtain hs := Piece.text.inj (Option.some.inj h)
    rw [← hs]
    exact fun hmem => (mem_dropReturns.mp hmem).2 rfl

theorem Tag.withoutReturns?_lonePiece {tag : Tag} (halone : tag.standsAlone = true)
    (htext : ∀ s, tag ≠ .text s) (h : '\r' ∉ tag.display) :
    tag.lonePiece.withoutReturns? = some tag.lonePiece := by
  cases tag with
  | newline | lineBreak | bracket | leftBracket | rightBracket => rfl
  | reference kind name =>
    have hname : '\r' ∉ name := fun hmem => h (by simp [display, bracketed, hmem])
    rw [lonePiece, Piece.withoutReturns?, dropReturns_eq_self hname]
  | typeReference name =>
    have hname : '\r' ∉ name := fun hmem => h (by simp [display, bracketed, hmem])
    rw [lonePiece, Piece.withoutReturns?, dropReturns_eq_self hname]
  | _ =>
    obtain ⟨c, rest, hdisplay⟩ := exists_display_cons halone htext
    exact Piece.withoutReturns?_text_of_notMem h (by simp [hdisplay])

theorem Tag.withoutReturns?_regionPiece (tag : Tag) (language content : Text) :
    (tag.regionPiece language content).withoutReturns? =
      some (tag.regionPiece language (dropReturns content)) := by
  cases tag <;> rfl

section Walk

variable {language : Text} {stack stack' : List Span} {tags rest : List Tag} {made : List Piece}

private theorem literalText_inside {tag : Tag} {region : Region} {inside after : List Tag}
    (hkept : ∀ other ∈ tag :: rest, (∀ s, other ≠ .text s) → '\r' ∉ other.display)
    (hsplit : region.split? rest = some (inside, after)) :
    region.split? (withoutReturns rest) = some (withoutReturns inside, withoutReturns after) ∧
      literalText (withoutReturns inside) = dropReturns (literalText inside) := by
  constructor
  · rw [Region.split?_withoutReturns, hsplit]
    rfl
  · obtain ⟨close, rfl, -⟩ := Region.split?_eq_some hsplit
    refine (dropReturns_literalText fun other hmem => hkept other ?_).symm
    exact List.mem_cons_of_mem tag (List.mem_append_left _ hmem)

theorem WalkStep.pieces_withoutReturns (h : WalkStep language stack tags made stack' rest)
    (hkept : ∀ tag ∈ tags, (∀ s, tag ≠ .text s) → '\r' ∉ tag.display) :
    pieces language stack (withoutReturns tags) =
      made.filterMap Piece.withoutReturns? ++ pieces language stack' (withoutReturns rest) := by
  cases h with
  | @dropped tag _ inside blank =>
    rcases tag.text_or_ne_text with ⟨s, rfl⟩ | htext
    · rw [withoutReturns_text_cons]
      split
      · rfl
      · exact pieces_blank inside ((isBlank_dropReturns s).trans blank)
    · rw [withoutReturns_cons_of_ne_text _ htext]
      exact pieces_blank inside blank
  | @alone tag _ alone shown =>
    rcases tag.text_or_ne_text with ⟨s, rfl⟩ | htext
    · have hshown : Span.container ∈ stack → (Tag.text (dropReturns s)).isBlank = false :=
        fun hopen => (isBlank_dropReturns s).trans (shown hopen)
      rw [withoutReturns_text_cons]
      split
      next hs => simp [Tag.lonePiece, Piece.withoutReturns?, Tag.display, hs]
      next hs =>
        rw [pieces_alone rfl hshown]
        simp [Tag.lonePiece, Piece.withoutReturns?, Tag.display, hs]
    · have hpiece := Tag.withoutReturns?_lonePiece alone htext (hkept tag List.mem_cons_self htext)
      rw [withoutReturns_cons_of_ne_text _ htext, pieces_alone alone shown,
        List.filterMap_cons_some hpiece]
      rfl
  | @region tag _ _ inside _ opens notSample split =>
    have htext := Tag.ne_text_of_opensRegion? opens
    obtain ⟨hsplit, hinside⟩ := literalText_inside hkept split
    rw [withoutReturns_cons_of_ne_text _ htext, pieces_region opens notSample hsplit, hinside,
      List.filterMap_cons_some (Tag.withoutReturns?_regionPiece tag language _)]
    rfl
  | @unclosed tag region _ opens notSample split =>
    have htext := Tag.ne_text_of_opensRegion? opens
    have hsplit : region.split? (withoutReturns rest) = none := by
      rw [Region.split?_withoutReturns, split]
      rfl
    rw [withoutReturns_cons_of_ne_text _ htext, pieces_unclosed opens notSample hsplit]
    rfl
  | @sample sample _ _ _ inContainer split =>
    obtain ⟨hsplit, hinside⟩ := literalText_inside hkept split
    rw [withoutReturns_cons_of_ne_text _ (by simp), pieces_sample inContainer hsplit, hinside]
    by_cases hlanguage : sample = language
    · simp [hlanguage, Piece.withoutReturns?]
    · simp [hlanguage, Piece.withoutReturns?]
  | @sampleUnclosed sample _ inContainer split =>
    have hsplit : (Region.sample sample).split? (withoutReturns rest) = none := by
      rw [Region.split?_withoutReturns, split]
      rfl
    rw [withoutReturns_cons_of_ne_text _ (by simp), pieces_sample_unclosed inContainer hsplit]
    rfl
  | @sampleOutside sample _ outside =>
    have hdisplay := hkept (.languageOpen sample) List.mem_cons_self (by simp)
    rw [withoutReturns_cons_of_ne_text _ (by simp), pieces_sample_outside sample outside,
      List.filterMap_cons_some (Piece.withoutReturns?_text_of_notMem hdisplay (List.cons_ne_nil _ _))]
    rfl
  | opened closes =>
    rw [withoutReturns_cons_of_ne_text _ (by simp), pieces_spanOpen, closesSpan_withoutReturns,
      if_pos closes]
    rfl
  | unopened closes =>
    rw [withoutReturns_cons_of_ne_text _ (by simp), pieces_spanOpen, closesSpan_withoutReturns,
      if_neg (by simp [closes])]
    rfl
  | closed innermost =>
    rw [withoutReturns_cons_of_ne_text _ (by simp), pieces_spanClose innermost]
    rfl
  | notClosed innermost =>
    rw [withoutReturns_cons_of_ne_text _ (by simp), pieces_spanClose_unpaired innermost]
    rfl

theorem pieces_withoutReturns
    (hkept : ∀ tag ∈ tags, (∀ s, tag ≠ .text s) → '\r' ∉ tag.display) :
    pieces language stack (withoutReturns tags) =
      (pieces language stack tags).filterMap Piece.withoutReturns? := by
  induction stack, tags using walk_induction language with
  | nil stack => simp
  | step hstep ih =>
    have hrest := ih fun tag hmem => hkept tag (hstep.rest_suffix.subset hmem)
    rw [hstep.pieces_withoutReturns hkept, hrest, hstep.pieces_eq, List.filterMap_append]

end Walk

/-- Tags of lines that end in carriage returns: no other tag holds one, nor a language that is named,
and nothing but a newline tag goes over a line end. -/
structure ReturnLines (tags : List Tag) : Prop where
  returns : ReturnsEndTags tags
  oneLine : ∀ tag ∈ tags, tag ≠ .newline → '\n' ∉ tag.display
  named : ∀ tag ∈ tags, ∀ language, tag.namedLanguage? = some language → '\r' ∉ language

theorem ReturnLines.of_suffix {tags rest : List Tag} (h : ReturnLines tags) (hsuffix : rest <:+ tags) :
    ReturnLines rest where
  returns := h.returns.of_suffix hsuffix
  oneLine tag hmem := h.oneLine tag (hsuffix.subset hmem)
  named tag hmem := h.named tag (hsuffix.subset hmem)

def Piece.ReturnsFit : Piece → Prop
  | .text s => '\n' ∉ s ∧ ReturnsEndLines s
  | .code s => ReturnsEndLines s ∧ s.getLast? ≠ some '\r'
  | .block language s => '\r' ∉ language ∧ ReturnsEndLines s
  | .spanEnd span => '\r' ∉ span.endMark
  | .unpaired tag => '\r' ∉ tag.display
  | .newline | .spanStart _ | .omitted _ => True

theorem Piece.returnsFit_text {s : Text} (hreturn : '\r' ∉ s) (hnewline : '\n' ∉ s) :
    (Piece.text s).ReturnsFit :=
  ⟨hnewline, returnsEndLines_of_notMem hreturn⟩

theorem Piece.returnsFit_code {s : Text} (hreturn : '\r' ∉ s) : (Piece.code s).ReturnsFit :=
  ⟨returnsEndLines_of_notMem hreturn, fun hlast => hreturn (List.mem_of_getLast? hlast)⟩

theorem Tag.returnsFit_lonePiece {tag : Tag} (halone : tag.standsAlone = true)
    (htext : ∀ s, tag ≠ .text s) (hreturn : '\r' ∉ tag.display)
    (hnewline : tag ≠ .newline → '\n' ∉ tag.display) : tag.lonePiece.ReturnsFit := by
  cases tag with
  | newline | lineBreak => trivial
  | bracket | leftBracket | rightBracket => exact Piece.returnsFit_text (by decide) (by decide)
  | text s => exact absurd rfl (htext s)
  | spanOpen | spanClose | codeOpen | fenceOpen | rawFence | languageOpen =>
    exact absurd halone Bool.false_ne_true
  | reference kind name =>
    exact Piece.returnsFit_code fun hmem => hreturn (by simp [display, bracketed, hmem])
  | typeReference name =>
    exact Piece.returnsFit_code fun hmem => hreturn (by simp [display, bracketed, hmem])
  | _ => exact Piece.returnsFit_text hreturn (hnewline (by simp))

theorem return_notMem_endMark {span : Span} (h : '\r' ∉ (Tag.spanOpen span).display) :
    '\r' ∉ span.endMark := by
  cases span with
  | link target =>
    cases target with
    | none => exact List.not_mem_nil
    | some target =>
      intro hmem
      apply h
      simp [Span.endMark] at hmem
      simp [Tag.display, Tag.bracketed, hmem]
  | _ => decide

theorem ReturnsEndTags.returnsEndLines_text {s : Text} {rest : List Tag}
    (h : ReturnsEndTags (.text s :: rest)) : ReturnsEndLines s := by
  rcases h.cons_cases.2 with hkept | ⟨kept, heq, hkept, -⟩
  · exact returnsEndLines_of_notMem hkept
  · obtain rfl := Tag.text.inj heq
    exact ReturnsEndLines.append (List.isChain_singleton '\r') hkept

section Fit

variable {language : Text} {stack stack' : List Span} {tags rest : List Tag} {made : List Piece}

theorem ReturnLines.region {tag : Tag} {region : Region} {inside after : List Tag}
    (h : ReturnLines (tag :: rest)) (hsplit : region.split? rest = some (inside, after)) :
    ReturnsEndLines (literalText inside) ∧ (literalText inside).getLast? ≠ some '\r' := by
  obtain ⟨close, rfl, hcloses, -⟩ := Region.split?_eq_some hsplit
  apply returnsEndLines_literalText (h.of_suffix (List.suffix_cons tag _)).returns
  rintro rfl
  exact absurd hcloses (by simp [Tag.closesRegion?])

theorem WalkStep.returnsFit (h : WalkStep language stack tags made stack' rest)
    (htags : ReturnLines tags) (hlanguage : '\r' ∉ language)
    (hstack : ∀ span ∈ stack, '\r' ∉ span.endMark) :
    (∀ piece ∈ made, piece.ReturnsFit) ∧ ∀ span ∈ stack', '\r' ∉ span.endMark := by
  cases h with
  | dropped => exact ⟨fun _ hmem => absurd hmem List.not_mem_nil, hstack⟩
  | @alone tag _ alone =>
    refine ⟨List.forall_mem_singleton.mpr ?_, hstack⟩
    have hline := htags.oneLine tag List.mem_cons_self
    rcases tag.text_or_ne_text with ⟨s, rfl⟩ | htext
    · exact ⟨hline (by simp), htags.returns.returnsEndLines_text⟩
    · exact Tag.returnsFit_lonePiece alone htext
        (htags.returns.return_notMem List.mem_cons_self htext) hline
  | @region tag _ _ inside _ opens _ split =>
    refine ⟨List.forall_mem_singleton.mpr ?_, hstack⟩
    have hinside := htags.region split
    have hnamed := htags.named tag List.mem_cons_self
    cases tag with
    | fenceOpen named | rawFence named =>
      refine ⟨?_, hinside.1⟩
      cases named with
      | none => exact hlanguage
      | some named => exact hnamed named rfl
    | _ => exact hinside
  | unclosed opens =>
    refine ⟨List.forall_mem_singleton.mpr ?_, hstack⟩
    exact htags.returns.return_notMem List.mem_cons_self (Tag.ne_text_of_opensRegion? opens)
  | sample _ split =>
    refine ⟨List.forall_mem_singleton.mpr ?_, hstack⟩
    have hinside := htags.region split
    split
    next hsample => exact ⟨hsample ▸ hlanguage, hinside.1⟩
    next => trivial
  | sampleUnclosed | unopened | notClosed =>
    refine ⟨List.forall_mem_singleton.mpr ?_, hstack⟩
    exact htags.returns.return_notMem List.mem_cons_self (by simp)
  | sampleOutside =>
    refine ⟨List.forall_mem_singleton.mpr ?_, hstack⟩
    exact Piece.returnsFit_text (htags.returns.return_notMem List.mem_cons_self (by simp))
      (htags.oneLine _ List.mem_cons_self (by simp))
  | opened =>
    refine ⟨List.forall_mem_singleton.mpr trivial, List.forall_mem_cons.mpr ⟨?_, hstack⟩⟩
    exact return_notMem_endMark (htags.returns.return_notMem List.mem_cons_self (by simp))
  | closed innermost =>
    refine ⟨List.forall_mem_singleton.mpr (hstack _ (List.mem_of_find?_eq_some innermost)), ?_⟩
    exact fun span hmem => hstack span (List.mem_of_mem_eraseP hmem)

theorem returnsFit_of_mem_pieces (htags : ReturnLines tags) (hlanguage : '\r' ∉ language)
    (hstack : ∀ span ∈ stack, '\r' ∉ span.endMark) :
    ∀ piece ∈ pieces language stack tags, piece.ReturnsFit := by
  refine forall_mem_pieces (P := Piece.ReturnsFit)
    (I := fun stack tags => ReturnLines tags ∧ ∀ span ∈ stack, '\r' ∉ span.endMark) ?_ ⟨htags, hstack⟩
  intro stack tags made stack' rest hstep ⟨htags, hstack⟩
  obtain ⟨hmade, hstack'⟩ := hstep.returnsFit htags hlanguage hstack
  exact ⟨hmade, htags.of_suffix hstep.rest_suffix, hstack'⟩

theorem WalkStep.made_cases (h : WalkStep language stack tags made stack' rest) :
    made = [] ∨ ∃ piece, made = [piece] := by
  cases h with
  | dropped => exact Or.inl rfl
  | _ => exact Or.inr ⟨_, rfl⟩

/-- Only plain text makes a piece of text with a carriage return, which is not blank in a container. -/
theorem WalkStep.tags_eq_of_return (h : WalkStep language stack tags made stack' rest)
    (htags : ReturnsEndTags tags) {s : Text} (hmade : .text s ∈ made) (hreturn : '\r' ∈ s) :
    tags = .text s :: rest ∧ stack' = stack ∧ (Span.container ∈ stack → isBlank s = false) := by
  cases h with
  | dropped => exact absurd hmade List.not_mem_nil
  | @alone tag _ alone shown =>
    have hpiece := List.mem_singleton.mp hmade
    rcases tag.text_or_ne_text with ⟨t, rfl⟩ | htext
    · obtain rfl := Piece.text.inj hpiece
      exact ⟨rfl, rfl, shown⟩
    · have hkept := htags.return_notMem List.mem_cons_self htext
      have hsame := Tag.withoutReturns?_lonePiece alone htext hkept
      rw [← hpiece] at hsame
      exact absurd hreturn (Piece.return_notMem_of_withoutReturns? hsame)
  | @region tag =>
    cases tag <;> exact absurd (List.mem_singleton.mp hmade) (by simp [Tag.regionPiece])
  | sample =>
    split at hmade
    · exact absurd (List.mem_singleton.mp hmade) (by simp)
    · exact absurd (List.mem_singleton.mp hmade) (by simp)
  | sampleOutside =>
    obtain rfl := Piece.text.inj (List.mem_singleton.mp hmade)
    exact absurd hreturn (htags.return_notMem List.mem_cons_self (by simp))
  | _ => exact absurd (List.mem_singleton.mp hmade) (by simp)

theorem WalkStep.container_notMem (h : WalkStep language stack tags made stack' rest)
    (hstack : Span.container ∉ stack) (htags : Tag.spanOpen .container ∉ tags) :
    Span.container ∉ stack' := by
  cases h with
  | opened =>
    intro hmem
    rcases List.mem_cons.mp hmem with heq | hmem
    · exact htags (heq ▸ List.mem_cons_self)
    · exact hstack hmem
  | closed => exact fun hmem => hstack (List.mem_of_mem_eraseP hmem)
  | _ => exact hstack

/-- Whether a newline follows each text of carriage returns and other white space, and, where `all`
holds, each text with a carriage return. -/
def ReturnsEndPieces (all : Prop) (document : List Piece) : Prop :=
  document.IsChain fun piece next =>
    ∀ s, piece = .text s → '\r' ∈ s → isBlank s = true ∨ all → next = .newline

theorem returnsEndPieces_pieces {all : Prop} (htags : ReturnsEndTags tags)
    (hall : all → Span.container ∉ stack ∧ Tag.spanOpen .container ∉ tags) :
    ReturnsEndPieces all (pieces language stack tags) := by
  induction stack, tags using walk_induction language with
  | nil stack =>
    rw [pieces_nil]
    exact List.isChain_nil
  | @step stack tags made stack' rest hstep ih =>
    have hrest := ih (htags.of_suffix hstep.rest_suffix) fun hyes =>
      ⟨hstep.container_notMem (hall hyes).1 (hall hyes).2,
        fun hmem => (hall hyes).2 (hstep.rest_suffix.subset hmem)⟩
    rw [hstep.pieces_eq]
    rcases hstep.made_cases with rfl | ⟨piece, rfl⟩
    · exact hrest
    · refine List.isChain_cons.mpr ⟨?_, hrest⟩
      rintro next hnext s rfl hreturn hends
      obtain ⟨rfl, rfl, hshown⟩ := hstep.tags_eq_of_return htags List.mem_cons_self hreturn
      -- In a container blank text is dropped, and the newline behind other text is.
      have hclosed : Span.container ∉ stack' := by
        rcases hends with hblank | hyes
        · intro hopen
          rw [hshown hopen] at hblank
          exact absurd hblank (by decide)
        · exact (hall hyes).1
      rcases htags.cons_cases.2 with hkept | ⟨-, -, -, rfl | ⟨more, rfl⟩⟩
      · exact absurd hreturn hkept
      · simp at hnext
      · have hline : pieces language stack' (.newline :: more) =
            .newline :: pieces language stack' more :=
          pieces_alone rfl fun hopen => absurd hopen hclosed
        change next ∈ (pieces language stack' (.newline :: more)).head? at hnext
        rw [hline] at hnext
        exact (Option.some.inj hnext).symm

end Fit

end ClassDocs
