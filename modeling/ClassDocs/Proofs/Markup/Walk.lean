import ClassDocs.Proofs.Markup.Piece

/-!
# Steps of the walk

The walk over tags goes step by step. A step takes the first tag, and the whole region behind it if
the tag opens one, makes at most one piece, and leaves the spans that are open after it. What every
step keeps holds of the whole walk.
-/

namespace ClassDocs

theorem Tag.standsAlone_or_paired (tag : Tag) :
    tag.standsAlone = true ∨ (∃ region, tag.opensRegion? = some region) ∨
      (∃ span, tag = .spanOpen span) ∨ ∃ kind, tag = .spanClose kind := by
  cases tag with
  | spanOpen span => exact .inr (.inr (.inl ⟨span, rfl⟩))
  | spanClose kind => exact .inr (.inr (.inr ⟨kind, rfl⟩))
  | codeOpen | fenceOpen | rawFence | languageOpen => exact .inr (.inl ⟨_, rfl⟩)
  | _ => exact .inl rfl

/-- One step, from the open spans and the tags before it, over the pieces it makes, to the open spans
and the tags after it. -/
inductive WalkStep (language : Text) :
    List Span → List Tag → List Piece → List Span → List Tag → Prop where
  | dropped {stack : List Span} {tag : Tag} {rest : List Tag} (inside : Span.container ∈ stack)
      (blank : tag.isBlank = true) : WalkStep language stack (tag :: rest) [] stack rest
  | alone {stack : List Span} {tag : Tag} {rest : List Tag} (alone : tag.standsAlone = true)
      (shown : Span.container ∈ stack → tag.isBlank = false) :
      WalkStep language stack (tag :: rest) [tag.lonePiece] stack rest
  | region {stack : List Span} {tag : Tag} {region : Region} {rest inside after : List Tag}
      (opens : tag.opensRegion? = some region) (notSample : ∀ sample, tag ≠ .languageOpen sample)
      (split : region.split? rest = some (inside, after)) :
      WalkStep language stack (tag :: rest) [tag.regionPiece language (literalText inside)] stack
        after
  | unclosed {stack : List Span} {tag : Tag} {region : Region} {rest : List Tag}
      (opens : tag.opensRegion? = some region) (notSample : ∀ sample, tag ≠ .languageOpen sample)
      (split : region.split? rest = none) :
      WalkStep language stack (tag :: rest) [.unpaired tag] stack rest
  | sample {stack : List Span} {sample : Text} {rest inside after : List Tag}
      (inContainer : Span.container ∈ stack)
      (split : (Region.sample sample).split? rest = some (inside, after)) :
      WalkStep language stack (.languageOpen sample :: rest)
        [if sample = language then .block sample (literalText inside) else .omitted sample] stack
        after
  | sampleUnclosed {stack : List Span} {sample : Text} {rest : List Tag}
      (inContainer : Span.container ∈ stack)
      (split : (Region.sample sample).split? rest = none) :
      WalkStep language stack (.languageOpen sample :: rest) [.unpaired (.languageOpen sample)]
        stack rest
  | sampleOutside {stack : List Span} {sample : Text} {rest : List Tag}
      (outside : Span.container ∉ stack) :
      WalkStep language stack (.languageOpen sample :: rest)
        [.text (Tag.languageOpen sample).display] stack rest
  | opened {stack : List Span} {span : Span} {rest : List Tag}
      (closes : closesSpan span.kind 0 rest = true) :
      WalkStep language stack (.spanOpen span :: rest) [.spanStart span] (span :: stack) rest
  | unopened {stack : List Span} {span : Span} {rest : List Tag}
      (closes : closesSpan span.kind 0 rest = false) :
      WalkStep language stack (.spanOpen span :: rest) [.unpaired (.spanOpen span)] stack rest
  | closed {stack : List Span} {kind : SpanKind} {span : Span} {rest : List Tag}
      (innermost : (stack.find? fun span => span.kind == kind) = some span) :
      WalkStep language stack (.spanClose kind :: rest) [.spanEnd span]
        (stack.eraseP fun span => span.kind == kind) rest
  | notClosed {stack : List Span} {kind : SpanKind} {rest : List Tag}
      (innermost : (stack.find? fun span => span.kind == kind) = none) :
      WalkStep language stack (.spanClose kind :: rest) [.unpaired (.spanClose kind)] stack rest

namespace WalkStep

variable {language : Text} {stack stack' : List Span} {tags rest : List Tag} {made : List Piece}

theorem pieces_eq (h : WalkStep language stack tags made stack' rest) :
    pieces language stack tags = made ++ pieces language stack' rest := by
  cases h with
  | dropped inside blank => exact pieces_blank inside blank
  | alone alone shown => exact pieces_alone alone shown
  | region opens notSample split => exact pieces_region opens notSample split
  | unclosed opens notSample split => exact pieces_unclosed opens notSample split
  | sample inContainer split => exact pieces_sample inContainer split
  | sampleUnclosed inContainer split => exact pieces_sample_unclosed inContainer split
  | sampleOutside outside => exact pieces_sample_outside _ outside
  | opened closes => rw [pieces_spanOpen, if_pos closes, List.singleton_append]
  | unopened closes => rw [pieces_spanOpen, if_neg (by simp [closes]), List.singleton_append]
  | closed innermost => exact pieces_spanClose innermost
  | notClosed innermost => exact pieces_spanClose_unpaired innermost

theorem length_lt (h : WalkStep language stack tags made stack' rest) :
    rest.length < tags.length := by
  cases h with
  | region _ _ split | sample _ split => exact Nat.lt_succ_of_lt (Region.length_lt_of_split? split)
  | _ => exact Nat.lt_succ_self _

theorem rest_suffix (h : WalkStep language stack tags made stack' rest) : rest <:+ tags := by
  cases h with
  | region _ _ split | sample _ split =>
    obtain ⟨close, rfl, -⟩ := Region.split?_eq_some split
    exact ((List.suffix_cons close _).trans (List.suffix_append _ _)).trans (List.suffix_cons _ _)
  | _ => exact List.suffix_cons _ _

theorem exists_of_alone {tag : Tag} (language : Text) (stack : List Span) (rest : List Tag)
    (alone : tag.standsAlone = true) :
    ∃ made, WalkStep language stack (tag :: rest) made stack rest := by
  by_cases hdropped : Span.container ∈ stack ∧ tag.isBlank = true
  · exact ⟨_, .dropped hdropped.1 hdropped.2⟩
  · have hshown : Span.container ∈ stack → tag.isBlank = false := fun hmem =>
      eq_false_of_ne_true fun hblank => hdropped ⟨hmem, hblank⟩
    exact ⟨_, .alone alone hshown⟩

/-- A closed region is passed over, unless it is a sample outside containers. -/
theorem exists_of_split {tag : Tag} {region : Region} {rest inside after : List Tag}
    (language : Text) (opens : tag.opensRegion? = some region)
    (split : region.split? rest = some (inside, after))
    (inContainer : ∀ sample, tag = .languageOpen sample → Span.container ∈ stack) :
    ∃ made, WalkStep language stack (tag :: rest) made stack after := by
  cases tag with
  | languageOpen sample =>
    obtain rfl := Option.some.inj opens
    exact ⟨_, .sample (inContainer sample rfl) split⟩
  | _ => exact ⟨_, .region opens (by simp) split⟩

theorem exists_of_unclosed {tag : Tag} {region : Region} {rest : List Tag} (language : Text)
    (stack : List Span) (opens : tag.opensRegion? = some region)
    (split : region.split? rest = none) :
    ∃ made, WalkStep language stack (tag :: rest) made stack rest := by
  cases tag with
  | languageOpen sample =>
    obtain rfl := Option.some.inj opens
    by_cases hstack : Span.container ∈ stack
    · exact ⟨_, .sampleUnclosed hstack split⟩
    · exact ⟨_, .sampleOutside hstack⟩
  | _ => exact ⟨_, .unclosed opens (by simp) split⟩

theorem exists_of_spanOpen (language : Text) (stack : List Span) (span : Span) (rest : List Tag) :
    ∃ made, WalkStep language stack (.spanOpen span :: rest) made
      (if closesSpan span.kind 0 rest then span :: stack else stack) rest := by
  cases hcloses : closesSpan span.kind 0 rest with
  | true => exact ⟨_, .opened hcloses⟩
  | false => exact ⟨_, .unopened hcloses⟩

theorem exists_of_spanClose (language : Text) (stack : List Span) (kind : SpanKind)
    (rest : List Tag) :
    ∃ made, WalkStep language stack (.spanClose kind :: rest) made
      (stack.eraseP fun span => span.kind == kind) rest := by
  cases hfind : stack.find? fun span => span.kind == kind with
  | some span => exact ⟨_, .closed hfind⟩
  | none =>
    rw [List.eraseP_of_forall_not (List.find?_eq_none.mp hfind)]
    exact ⟨_, .notClosed hfind⟩

theorem exists_of_opensRegion? {tag : Tag} {region : Region} (language : Text)
    (stack : List Span) (rest : List Tag) (opens : tag.opensRegion? = some region) :
    ∃ made after, WalkStep language stack (tag :: rest) made stack after := by
  cases hsplit : region.split? rest with
  | none =>
    obtain ⟨made, hstep⟩ := exists_of_unclosed language stack opens hsplit
    exact ⟨made, rest, hstep⟩
  | some found =>
    by_cases hstack : ∀ sample, tag = .languageOpen sample → Span.container ∈ stack
    · obtain ⟨made, hstep⟩ := exists_of_split language opens hsplit hstack
      exact ⟨made, found.2, hstep⟩
    · obtain ⟨sample, rfl, houtside⟩ : ∃ sample, tag = .languageOpen sample ∧
          Span.container ∉ stack := by simpa using hstack
      exact ⟨_, rest, .sampleOutside houtside⟩

theorem exists_of_cons (language : Text) (stack : List Span) (tag : Tag) (rest : List Tag) :
    ∃ made stack' after, WalkStep language stack (tag :: rest) made stack' after := by
  rcases tag.standsAlone_or_paired with halone | ⟨region, hopens⟩ | ⟨span, rfl⟩ | ⟨kind, rfl⟩
  · obtain ⟨made, hstep⟩ := exists_of_alone language stack rest halone
    exact ⟨made, stack, rest, hstep⟩
  · obtain ⟨made, after, hstep⟩ := exists_of_opensRegion? language stack rest hopens
    exact ⟨made, stack, after, hstep⟩
  · obtain ⟨made, hstep⟩ := exists_of_spanOpen language stack span rest
    exact ⟨made, _, rest, hstep⟩
  · obtain ⟨made, hstep⟩ := exists_of_spanClose language stack kind rest
    exact ⟨made, _, rest, hstep⟩

end WalkStep

/-- What holds where no tag is left and is carried back over every step holds of every walk. -/
theorem walk_induction (language : Text) {motive : List Span → List Tag → Prop}
    (nil : ∀ stack, motive stack [])
    (step : ∀ {stack tags made stack' rest}, WalkStep language stack tags made stack' rest →
      motive stack' rest → motive stack tags)
    (stack : List Span) (tags : List Tag) : motive stack tags := by
  -- Regions are passed over as a whole, so the induction is on the number of tags.
  induction hlength : tags.length using Nat.strongRecOn generalizing stack tags with
  | ind length ih =>
    cases tags with
    | nil => exact nil stack
    | cons tag rest =>
      obtain ⟨made, stack', after, hstep⟩ := WalkStep.exists_of_cons language stack tag rest
      have hshorter : after.length < length := hlength ▸ hstep.length_lt
      exact step hstep (ih after.length hshorter stack' after rfl)

/-- If every step keeps `I` and makes pieces with `P` from it, all pieces have `P`. -/
theorem forall_mem_pieces {language : Text} {P : Piece → Prop} {I : List Span → List Tag → Prop}
    (step : ∀ {stack tags made stack' rest}, WalkStep language stack tags made stack' rest →
      I stack tags → (∀ piece ∈ made, P piece) ∧ I stack' rest)
    {stack : List Span} {tags : List Tag} (h : I stack tags) :
    ∀ piece ∈ pieces language stack tags, P piece := by
  induction stack, tags using walk_induction language with
  | nil stack => simp
  | step hstep ih =>
    obtain ⟨hmade, hrest⟩ := step hstep h
    rw [hstep.pieces_eq]
    exact List.forall_mem_append.mpr ⟨hmade, ih hrest⟩

end ClassDocs
