import ClassDocs.Proofs.Markup.Page
import ClassDocs.Proofs.Markup.Tracking

/-!
# Spans are paired by matching

The walk over the tags decides on an opening tag by looking ahead and on a closing tag by looking at
the spans that are open. Both agree with the matching of closing tags with opening tags, kind by
kind, so what is shown and reported of a tag depends on its match alone.
-/

namespace ClassDocs

inductive Role where
  | startsSpan (span : Span)
  | endsSpan (span : Span)
  | unmatched (tag : Tag)
  | dropped
  | region (opening : Tag) (inside : List Tag)
  | alone (tag : Tag)
  deriving DecidableEq, Repr

def Segment.role (all : List Segment) (position : Nat) : Segment → Role
  | .region opening inside => .region opening inside
  | .tag (.spanOpen span) =>
    if startsMatch span.kind all position then .startsSpan span else .unmatched (.spanOpen span)
  | .tag (.spanClose kind) =>
    match stoppedAt? kind all position with
    | some span => .endsSpan span
    | none => .unmatched (.spanClose kind)
  | .tag other =>
    if other.opensRegion?.isSome then .unmatched other
    else if other.isBlank && insideMatch .container all position then .dropped
    else .alone other

def rolesFrom (all : List Segment) : (position : Nat) → List Segment → List Role
  | _, [] => []
  | position, segment :: rest => segment.role all position :: rolesFrom all (position + 1) rest

def roles (all : List Segment) : List Role :=
  rolesFrom all 0 all

namespace Role

/-- What is shown in a role. A mark surrounds what is bold or italic, where a link leads stands after
it, and nothing marks a container. -/
def shown? (language : Text) : Role → Option Piece
  | .startsSpan .bold | .endsSpan .bold => some (.text "**".toList)
  | .startsSpan .italic | .endsSpan .italic => some (.text "*".toList)
  | .endsSpan (.link (some target)) => some (.text (" (".toList ++ target ++ ")".toList))
  | .startsSpan _ | .endsSpan _ | .dropped => none
  | .unmatched tag => some (.text tag.display)
  | .region opening inside => some (opening.regionPiece language (literalText inside))
  | .alone tag => some tag.lonePiece

def unmatched? : Role → Option Tag
  | .unmatched tag => some tag
  | _ => none

def piece? (language : Text) : Role → Option Piece
  | .startsSpan span => some (.spanStart span)
  | .endsSpan span => some (.spanEnd span)
  | .unmatched tag => some (.unpaired tag)
  | .dropped => none
  | .region opening inside => some (opening.regionPiece language (literalText inside))
  | .alone tag => some tag.lonePiece

theorem addAll_piece? (language : Text) (role : Role) (page : Page) :
    page.addAll (role.piece? language).toList = page.addAll (role.shown? language).toList := by
  cases role with
  | startsSpan span => cases span <;> rfl
  | endsSpan span =>
    cases span with
    | link target => cases target <;> rfl
    | _ => rfl
  | _ => rfl

theorem addAll_filterMap_piece? (language : Text) (all : List Role) (page : Page) :
    page.addAll (all.filterMap (piece? language)) =
      page.addAll (all.filterMap (shown? language)) := by
  rw [List.filterMap_eq_flatMap_toList, List.filterMap_eq_flatMap_toList]
  induction all generalizing page with
  | nil => rfl
  | cons role all ih =>
    rw [List.flatMap_cons, List.flatMap_cons, Page.addAll_append, Page.addAll_append,
      addAll_piece?, ih]

theorem ofPiece?_piece? (language : Text) (role : Role) :
    (role.piece? language).bind (Event.ofPiece? language) =
      role.unmatched?.map Event.unpairedTag := by
  cases role with
  | region opening inside => cases opening <;> rfl
  | alone tag => cases tag <;> rfl
  | _ => rfl

end Role

section Walk

variable {language : Text} {all : List Segment} {position : Nat} {stack : List Span} {tag : Tag}
  {rest : List Tag}

private theorem pieces_of_alone (halone : tag.standsAlone = true)
    (h : Tracked all position stack (.tag tag :: segments rest)) :
    pieces language stack (tag :: rest) =
      (((Segment.tag tag).role all position).piece? language).toList ++
        pieces language stack rest := by
  have hopened : (Segment.tag tag).opened? .container = none := by
    cases tag with
    | spanOpen => exact absurd halone Bool.false_ne_true
    | _ => rfl
  have hcloses : (Segment.tag tag).closes .container = false := by
    cases tag with
    | spanClose => exact absurd halone Bool.false_ne_true
    | _ => rfl
  have hrole : (Segment.tag tag).role all position =
      if tag.isBlank && insideMatch .container all position then .dropped else .alone tag := by
    cases tag with
    | spanOpen | spanClose | codeOpen | fenceOpen | rawFence | languageOpen =>
      exact absurd halone Bool.false_ne_true
    | _ => rfl
  obtain ⟨past, waiting, htracks⟩ := h .container
  have hinside := htracks.insideMatch_iff hopened hcloses
  rw [← container_mem_iff] at hinside
  rw [hrole]
  by_cases hdropped : tag.isBlank = true ∧ Span.container ∈ stack
  · rw [pieces_blank hdropped.2 hdropped.1, hdropped.1, hinside.mpr hdropped.2]
    rfl
  · have hshown : Span.container ∈ stack → tag.isBlank = false := fun hmem =>
      eq_false_of_ne_true fun hblank => hdropped ⟨hblank, hmem⟩
    have hkept : ¬(tag.isBlank && insideMatch .container all position) = true := by
      rw [Bool.and_eq_true, hinside]
      exact hdropped
    rw [pieces_alone halone hshown, if_neg hkept]
    rfl

private theorem pieces_of_spanOpen {span : Span}
    (h : Tracked all position stack (.tag (.spanOpen span) :: segments rest)) :
    pieces language stack (.spanOpen span :: rest) =
      (((Segment.tag (.spanOpen span)).role all position).piece? language).toList ++
        pieces language
          (if 0 < closingsLeft span.kind (segments rest) then span :: stack else stack) rest := by
  obtain ⟨past, waiting, htracks⟩ := h span.kind
  have hstarts := htracks.startsMatch_eq (Segment.opened?_self span)
  rw [pieces_spanOpen, closesSpan_eq, Segment.role, hstarts]
  by_cases hreached : 0 < closingsLeft span.kind (segments rest)
  · simp only [hreached, decide_true, if_true]
    rfl
  · simp only [hreached, decide_false, if_false]
    rfl

private theorem pieces_of_spanClose {kind : SpanKind}
    (h : Tracked all position stack (.tag (.spanClose kind) :: segments rest)) :
    pieces language stack (.spanClose kind :: rest) =
      (((Segment.tag (.spanClose kind)).role all position).piece? language).toList ++
        pieces language (stack.eraseP fun span => span.kind == kind) rest := by
  obtain ⟨past, waiting, htracks⟩ := h kind
  have hstops := htracks.stoppedAt?_eq rfl (Segment.closes_self kind)
  rw [Segment.role, hstops]
  cases hfind : stack.find? fun span => span.kind == kind with
  | some span =>
    rw [pieces_spanClose hfind]
    rfl
  | none =>
    rw [pieces_spanClose_unpaired hfind, List.eraseP_of_forall_not (List.find?_eq_none.mp hfind)]
    rfl

private theorem pieces_of_region {inside after : List Tag}
    (hregion : regionAt? tag rest = some (inside, after))
    (hsample : ∀ sample, tag ≠ .languageOpen sample) :
    pieces language stack (tag :: rest) =
      (((Segment.region tag inside).role all position).piece? language).toList ++
        pieces language stack after := by
  obtain ⟨region, hopen, hsplit⟩ := exists_split?_of_regionAt? hregion
  rw [pieces_region hopen hsample hsplit]
  rfl

private theorem pieces_of_unclosed {region : Region} (hopen : tag.opensRegion? = some region)
    (hregion : regionAt? tag rest = none) (hsample : ∀ sample, tag ≠ .languageOpen sample) :
    pieces language stack (tag :: rest) =
      (((Segment.tag tag).role all position).piece? language).toList ++
        pieces language stack rest := by
  have hsplit : region.split? rest = none := by
    rw [regionAt?_eq, hopen] at hregion
    exact hregion
  have hrole : (Segment.tag tag).role all position = .unmatched tag := by
    cases tag with
    | codeOpen | fenceOpen | rawFence | languageOpen => rfl
    | _ => exact absurd hopen (by simp [Tag.opensRegion?])
  rw [pieces_unclosed hopen hsample hsplit, hrole]
  rfl

end Walk

private theorem samples_notMem_after {tag : Tag} {rest inside after : List Tag}
    (hsamples : ∀ sample, Tag.languageOpen sample ∉ tag :: rest)
    (hregion : regionAt? tag rest = some (inside, after)) :
    ∀ sample, Tag.languageOpen sample ∉ after := by
  intro sample hsample
  obtain ⟨region, -, hsplit⟩ := exists_split?_of_regionAt? hregion
  obtain ⟨close, rfl, -⟩ := Region.split?_eq_some hsplit
  apply hsamples sample
  simp [hsample]

/-- From any position on, the walk makes the pieces of the roles there. -/
theorem pieces_eq_roles (language : Text) (all : List Segment) {position : Nat} {stack : List Span}
    {tags : List Tag} (hsamples : ∀ sample, Tag.languageOpen sample ∉ tags)
    (h : Tracked all position stack (segments tags)) :
    pieces language stack tags =
      (rolesFrom all position (segments tags)).flatMap fun role =>
        (role.piece? language).toList := by
  -- Along the segments: every step leaves a stack that agrees with the matching again.
  fun_induction segments tags generalizing position stack with
  | case1 => simp [rolesFrom]
  | case2 tag rest inside after hregion _ ih =>
    have hafter := samples_notMem_after hsamples hregion
    have hsample : ∀ sample, tag ≠ .languageOpen sample := by
      rintro sample rfl
      exact hsamples sample List.mem_cons_self
    have hnext := h.other (fun _ => rfl) (fun _ => rfl)
    rw [pieces_of_region hregion hsample, ih hafter hnext, rolesFrom, List.flatMap_cons]
  | case3 tag rest hregion ih =>
    have hrest : ∀ sample, Tag.languageOpen sample ∉ rest := fun sample hsample =>
      hsamples sample (List.mem_cons_of_mem _ hsample)
    rw [rolesFrom, List.flatMap_cons]
    cases tag with
    | spanOpen span => rw [pieces_of_spanOpen h, ih hrest h.spanOpen]
    | spanClose kind => rw [pieces_of_spanClose h, ih hrest h.spanClose]
    | codeOpen | fenceOpen | rawFence =>
      have hnext := h.other (fun _ => rfl) (fun _ => rfl)
      rw [pieces_of_unclosed rfl hregion (by simp), ih hrest hnext]
    | languageOpen sample => exact absurd List.mem_cons_self (hsamples sample)
    | _ =>
      have hnext := h.other (fun _ => rfl) (fun _ => rfl)
      rw [pieces_of_alone rfl h, ih hrest hnext]

/-- Outside samples, what is shown of tags is what their roles show, and the unmatched tags are
reported, each once and in order, and nothing else is. -/
theorem spans_pair_by_matching (language : Text) (tags : List Tag)
    (hsamples : ∀ sample, Tag.languageOpen sample ∉ tags) :
    rendered (pieces language [] tags) =
      rendered ((roles (segments tags)).filterMap (Role.shown? language)) ∧
    (pieces language [] tags).filterMap (Event.ofPiece? language) =
      ((roles (segments tags)).filterMap Role.unmatched?).map Event.unpairedTag := by
  have hpieces : pieces language [] tags =
      (roles (segments tags)).filterMap (Role.piece? language) := by
    rw [List.filterMap_eq_flatMap_toList]
    exact pieces_eq_roles language _ hsamples (Tracked.initial _)
  rw [hpieces]
  constructor
  · rw [rendered_eq_addAll, Role.addAll_filterMap_piece?, ← rendered_eq_addAll]
  · rw [List.filterMap_filterMap, List.map_filterMap]
    exact congrArg (List.filterMap · _) (funext (Role.ofPiece?_piece? language))

def overlappingTags : List Tag :=
  [.spanOpen .bold, .spanOpen .italic, .text "x".toList, .spanClose .bold, .spanClose .italic,
    .spanClose .bold, .spanOpen (.link (some "u".toList)), .codeOpen .code, .spanClose .link,
    .codeClose .code, .spanClose .link, .newline, .spanOpen .container, .newline,
    .spanOpen .container, .text "y".toList, .spanClose .container, .text " ".toList,
    .spanClose .container, .newline, .codeOpen .key, .spanOpen .italic]

theorem overlapping_spans_pair :
    (∀ sample, Tag.languageOpen sample ∉ overlappingTags) ∧
    rendered (pieces "gdscript".toList [] overlappingTags) =
      "***x***[/b]`[/url]` (u)\ny\n[kbd][i]".toList ∧
    (pieces "gdscript".toList [] overlappingTags).filterMap
        (Event.ofPiece? "gdscript".toList) =
      [.unpairedTag (.spanClose .bold), .unpairedTag (.codeOpen .key),
        .unpairedTag (.spanOpen .italic)] := by
  have hsamples : ∀ sample, Tag.languageOpen sample ∉ overlappingTags := by
    intro sample
    simp [overlappingTags]
  obtain ⟨hshown, hreported⟩ := spans_pair_by_matching "gdscript".toList overlappingTags hsamples
  exact ⟨hsamples, hshown.trans (by decide +kernel), hreported.trans (by decide +kernel)⟩

end ClassDocs
