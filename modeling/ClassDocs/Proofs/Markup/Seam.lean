import ClassDocs.Proofs.Markup.Balance
import ClassDocs.Proofs.Markup.Page

/-!
# Texts joined by a newline

A text in which everything is paired is a document of its own: no tag of it looks for its partner
behind it, no span of it stays open, and no line of it is touched again once it has ended. So whatever
text follows on a new line is written as if it stood alone.
-/

namespace ClassDocs

open Text

theorem Region.split?_append_right {region : Region} {tags inside after : List Tag}
    (h : region.split? tags = some (inside, after)) (more : List Tag) :
    region.split? (tags ++ more) = some (inside, after ++ more) := by
  obtain ⟨close, rfl, hcloses, hinside⟩ := Region.split?_eq_some h
  rw [List.append_assoc, List.cons_append]
  exact Region.split?_append _ hinside hcloses

theorem regionAt?_append_right {tag : Tag} {rest inside after : List Tag}
    (h : regionAt? tag rest = some (inside, after)) (more : List Tag) :
    regionAt? tag (rest ++ more) = some (inside, after ++ more) := by
  obtain ⟨region, hopens, hsplit⟩ := exists_split?_of_regionAt? h
  rw [regionAt?_eq, hopens, Option.bind_some]
  exact Region.split?_append_right hsplit more

theorem regionAt?_of_not_opens {tag : Tag} (rest : List Tag) (h : tag.opensRegion? = none) :
    regionAt? tag rest = none := by
  rw [regionAt?_eq, h, Option.bind_none]

theorem regionAt?_of_opens {tag : Tag} {region : Region} (rest : List Tag)
    (h : tag.opensRegion? = some region) : regionAt? tag rest = region.split? rest := by
  rw [regionAt?_eq, h, Option.bind_some]

theorem Tag.opensRegion?_of_standsAlone {tag : Tag} (h : tag.standsAlone = true) :
    tag.opensRegion? = none := by
  cases tag with
  | codeOpen | fenceOpen | rawFence | languageOpen => exact absurd h Bool.false_ne_true
  | _ => rfl

theorem Tag.standsAlone_of_isBlank {tag : Tag} (h : tag.isBlank = true) :
    tag.standsAlone = true := by
  cases tag with
  | text | newline => rfl
  | _ => exact absurd h Bool.false_ne_true

/-- Whether every tag that opens a region, outside other regions, has its region among the tags. -/
def RegionsClosed (tags : List Tag) : Prop :=
  ∀ tag, Segment.tag tag ∈ segments tags → tag.opensRegion? = none

theorem RegionsClosed.cons {tag : Tag} {rest : List Tag} (h : RegionsClosed rest)
    (hopens : tag.opensRegion? = none) : RegionsClosed (tag :: rest) := by
  intro other hother
  rw [segments_of_no_region (regionAt?_of_not_opens rest hopens)] at hother
  rcases List.mem_cons.mp hother with heq | hother
  · obtain rfl := Segment.tag.inj heq
    exact hopens
  · exact h other hother

theorem RegionsClosed.tail {tag : Tag} {rest : List Tag} (h : RegionsClosed (tag :: rest))
    (hopens : tag.opensRegion? = none) : RegionsClosed rest := by
  intro other hother
  apply h
  rw [segments_of_no_region (regionAt?_of_not_opens rest hopens)]
  exact List.mem_cons_of_mem _ hother

theorem RegionsClosed.region {tag : Tag} {rest inside after : List Tag} (h : RegionsClosed after)
    (hregion : regionAt? tag rest = some (inside, after)) : RegionsClosed (tag :: rest) := by
  intro other hother
  rw [segments_of_region hregion] at hother
  rcases List.mem_cons.mp hother with heq | hother
  · exact absurd heq (by simp)
  · exact h other hother

theorem segments_append {tags : List Tag} (h : RegionsClosed tags) (more : List Tag) :
    segments (tags ++ more) = segments tags ++ segments more := by
  fun_induction segments tags with
  | case1 => rfl
  | case2 tag rest inside after hregion _ ih =>
    have hafter : RegionsClosed after := by
      intro other hother
      apply h
      rw [segments_of_region hregion]
      exact List.mem_cons_of_mem _ hother
    rw [List.cons_append, segments_of_region (regionAt?_append_right hregion more), ih hafter]
    rfl
  | case3 tag rest hregion ih =>
    have hopens : tag.opensRegion? = none := by
      apply h
      rw [segments_of_no_region hregion]
      exact List.mem_cons_self
    rw [List.cons_append,
      segments_of_no_region (regionAt?_of_not_opens _ hopens), ih (h.tail hopens)]
    rfl

theorem closingsLeft_le_append (kind : SpanKind) (first second : List Segment) :
    closingsLeft kind first ≤ closingsLeft kind (first ++ second) := by
  induction first with
  | nil => exact Nat.zero_le _
  | cons segment first ih =>
    rw [List.cons_append]
    cases hopen : segment.opened? kind with
    | some span =>
      rw [closingsLeft_opened hopen, closingsLeft_opened hopen]
      omega
    | none =>
      cases hclose : segment.closes kind with
      | true =>
        rw [closingsLeft_closes hopen hclose, closingsLeft_closes hopen hclose]
        omega
      | false =>
        rw [closingsLeft_other hopen hclose, closingsLeft_other hopen hclose]
        exact ih

theorem closesSpan_append {kind : SpanKind} {tags : List Tag} (hclosed : RegionsClosed tags)
    (h : closesSpan kind 0 tags = true) (more : List Tag) :
    closesSpan kind 0 (tags ++ more) = true := by
  rw [closesSpan_eq, decide_eq_true_eq] at h ⊢
  rw [segments_append hclosed]
  exact h.trans_le (closingsLeft_le_append kind _ _)

namespace WalkStep

variable {language : Text} {stack stack' : List Span} {tags rest : List Tag} {made : List Piece}

theorem append (h : WalkStep language stack tags made stack' rest) (hclosed : RegionsClosed tags)
    (hpaired : ∀ tag, Piece.unpaired tag ∉ made) (more : List Tag) :
    WalkStep language stack (tags ++ more) made stack' (rest ++ more) := by
  cases h with
  | dropped inside blank => exact .dropped inside blank
  | alone alone shown => exact .alone alone shown
  | region opens notSample split =>
    exact .region opens notSample (Region.split?_append_right split more)
  | sample inContainer split =>
    exact .sample inContainer (Region.split?_append_right split more)
  | sampleOutside outside => exact .sampleOutside outside
  | opened closes => exact .opened (closesSpan_append (hclosed.tail rfl) closes more)
  | closed innermost => exact .closed innermost
  | unclosed | sampleUnclosed | unopened | notClosed =>
    exact absurd List.mem_cons_self (hpaired _)

theorem closable (h : WalkStep language stack tags made stack' rest)
    (hsamples : ∀ sample, Tag.languageOpen sample ∉ tags) (hclosable : Closable stack tags) :
    Closable stack' rest := by
  cases h with
  | dropped _ blank =>
    have halone := Tag.standsAlone_of_isBlank blank
    exact hclosable.other (regionAt?_of_not_opens _ (Tag.opensRegion?_of_standsAlone halone))
      (.inl halone)
  | alone alone =>
    exact hclosable.other (regionAt?_of_not_opens _ (Tag.opensRegion?_of_standsAlone alone))
      (.inl alone)
  | region opens _ split => exact hclosable.region ((regionAt?_of_opens _ opens).trans split)
  | unclosed opens _ split =>
    exact hclosable.other ((regionAt?_of_opens _ opens).trans split) (.inr ⟨_, opens⟩)
  | sample | sampleUnclosed | sampleOutside => exact absurd List.mem_cons_self (hsamples _)
  | opened closes =>
    have hnext := hclosable.spanOpen (regionAt?_of_not_opens _ rfl)
    rwa [if_pos closes] at hnext
  | unopened closes =>
    have hnext := hclosable.spanOpen (regionAt?_of_not_opens _ rfl)
    rwa [if_neg (by simp [closes])] at hnext
  | closed => exact hclosable.spanClose (regionAt?_of_not_opens _ rfl)
  | notClosed innermost =>
    have hnext := hclosable.spanClose (regionAt?_of_not_opens _ rfl)
    rwa [List.eraseP_of_forall_not (List.find?_eq_none.mp innermost)] at hnext

end WalkStep

theorem regionsClosed_of_paired {language : Text} {stack : List Span} {tags : List Tag}
    (hsamples : ∀ sample, Tag.languageOpen sample ∉ tags)
    (hpaired : ∀ tag, Piece.unpaired tag ∉ pieces language stack tags) : RegionsClosed tags := by
  induction stack, tags using walk_induction language with
  | nil stack =>
    intro tag htag
    rw [segments] at htag
    exact absurd htag List.not_mem_nil
  | step hstep ih =>
    rw [hstep.pieces_eq] at hpaired
    have hrest := ih (fun sample hmem => hsamples sample (hstep.rest_suffix.subset hmem))
      fun tag hmem => hpaired tag (List.mem_append_right _ hmem)
    cases hstep with
    | dropped _ blank =>
      exact hrest.cons (Tag.opensRegion?_of_standsAlone (Tag.standsAlone_of_isBlank blank))
    | alone alone => exact hrest.cons (Tag.opensRegion?_of_standsAlone alone)
    | region opens _ split => exact hrest.region ((regionAt?_of_opens _ opens).trans split)
    | opened | closed => exact hrest.cons rfl
    | sample | sampleOutside => exact absurd List.mem_cons_self (hsamples _)
    | unclosed | sampleUnclosed | unopened | notClosed =>
      exact absurd (List.mem_append_left _ List.mem_cons_self) (hpaired _)

/-- Tags in which everything is paired leave nothing open to the tags after them. -/
theorem pieces_append {language : Text} {stack : List Span} {tags : List Tag}
    (hsamples : ∀ sample, Tag.languageOpen sample ∉ tags)
    (hpaired : ∀ tag, Piece.unpaired tag ∉ pieces language stack tags)
    (hclosable : Closable stack tags) (more : List Tag) :
    pieces language stack (tags ++ more) =
      pieces language stack tags ++ pieces language [] more := by
  induction stack, tags using walk_induction language with
  | nil stack => rw [hclosable.eq_nil, pieces_nil, List.nil_append, List.nil_append]
  | step hstep ih =>
    have hclosed := regionsClosed_of_paired hsamples hpaired
    rw [hstep.pieces_eq] at hpaired ⊢
    have hmade : ∀ tag, Piece.unpaired tag ∉ _ := fun tag hmem =>
      hpaired tag (List.mem_append_left _ hmem)
    rw [(hstep.append hclosed hmade more).pieces_eq,
      ih (fun sample hmem => hsamples sample (hstep.rest_suffix.subset hmem))
        (fun tag hmem => hpaired tag (List.mem_append_right _ hmem))
        (hstep.closable hsamples hclosable), List.append_assoc]

theorem document_append_newline (settings : DocSettings) {a : Text} (b : Text)
    (hsamples : ∀ sample, Tag.languageOpen sample ∉ tagsOf a)
    (hpaired : ∀ tag, Piece.unpaired tag ∉ DocComment.document settings a) :
    DocComment.document settings (a ++ '\n' :: b) =
      DocComment.document settings a ++ .newline :: DocComment.document settings b := by
  rw [DocComment.document, tagsOf_append_newline,
    pieces_append hsamples hpaired (Closable.initial _),
    pieces_alone rfl fun hopen => absurd hopen List.not_mem_nil]
  rfl

/-- If nothing in a text is reported as unpaired and no sample opens in it, any other text that
follows it on a new line is written as if it stood alone. -/
theorem rendered_line_by_line (settings : DocSettings) (a b : Text)
    (hsamples : ∀ sample, Tag.languageOpen sample ∉ tagsOf a)
    (hevents : ∀ event ∈
        (DocComment.document settings a).filterMap (Event.ofPiece? settings.language),
      event.message ≠ "unbalanced tag kept as literal text".toList) :
    rendered (DocComment.document settings (a ++ '\n' :: b)) =
      rendered (DocComment.document settings a) ++
        '\n' :: rendered (DocComment.document settings b) := by
  have hpaired : ∀ tag, Piece.unpaired tag ∉ DocComment.document settings a := by
    intro tag htag
    exact hevents (.unpairedTag tag) (List.mem_filterMap.mpr ⟨_, htag, rfl⟩) rfl
  rw [document_append_newline settings b hsamples hpaired, rendered_append_newline]

def pairedSource : Text :=
  "[b]x [code][i][/code][/b][codeblocks] [/codeblocks]\n[codeblock]y[/codeblock]".toList

def straySource : Text :=
  " [/b][/code]\n```z".toList

theorem paired_source_above_stray_source :
    (∀ sample, Tag.languageOpen sample ∉ tagsOf pairedSource) ∧
    (∀ event ∈ (DocComment.document .default pairedSource).filterMap
        (Event.ofPiece? DocSettings.default.language),
      event.message ≠ "unbalanced tag kept as literal text".toList) ∧
    rendered (DocComment.document .default (pairedSource ++ '\n' :: straySource)) =
      "**x `[i]`**\n```gdscript\ny\n```\n [/b][/code]\n```z".toList := by
  have hsamples : ∀ sample, Tag.languageOpen sample ∉ tagsOf pairedSource := by
    have htags : (tagsOf pairedSource).all (fun tag => !tag.opensSample) = true := by decide +kernel
    intro sample hmem
    exact absurd (List.all_eq_true.mp htags _ hmem) (by simp [Tag.opensSample])
  have hevents : ∀ event ∈ (DocComment.document .default pairedSource).filterMap
      (Event.ofPiece? DocSettings.default.language),
      event.message ≠ "unbalanced tag kept as literal text".toList := by
    decide +kernel
  refine ⟨hsamples, hevents, ?_⟩
  rw [rendered_line_by_line .default pairedSource straySource hsamples hevents]
  decide +kernel

end ClassDocs
