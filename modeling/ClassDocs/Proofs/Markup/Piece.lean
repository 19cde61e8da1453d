import ClassDocs.Event

/-!
# The pieces that one tag makes

What the first of some tags makes of itself, whether it stands alone, opens a region, or opens or
closes a span, and which tags it leaves to the walk after it.
-/

namespace ClassDocs

theorem Region.split?_append {region : Region} {inside : List Tag} {close : Tag} (after : List Tag)
    (hinside : ∀ tag ∈ inside, tag.closesRegion? ≠ some region)
    (hclose : close.closesRegion? = some region) :
    region.split? (inside ++ close :: after) = some (inside, after) := by
  induction inside with
  | nil => rw [List.nil_append, split?, if_pos hclose]
  | cons tag inside ih =>
    have htag := hinside tag List.mem_cons_self
    have hrest := ih fun other hother => hinside other (List.mem_cons_of_mem tag hother)
    rw [List.cons_append, split?, if_neg htag, hrest]
    rfl

namespace Tag

/-- Whether a tag neither opens or closes a span nor opens a region. -/
def standsAlone : Tag → Bool
  | .spanOpen _ | .spanClose _ | .codeOpen _ | .fenceOpen _ _ | .rawFence _ _
  | .languageOpen _ => false
  | _ => true

def lonePiece : Tag → Piece
  | .newline | .lineBreak => .newline
  | .bracket | .leftBracket => .text ['[']
  | .rightBracket => .text [']']
  | .reference _ name | .typeReference name => .code name
  | tag => .text tag.display

/-- The piece that a region makes of its text, behind the tag that opens it. -/
def regionPiece (language content : Text) : Tag → Piece
  | .fenceOpen named _ | .rawFence named _ => .block (named.getD language) content
  | _ => .code content

end Tag

section Pieces

variable {language : Text} {stack : List Span} {tag : Tag} {rest inside after : List Tag}

@[simp] theorem pieces_nil (language : Text) (stack : List Span) : pieces language stack [] = [] := by
  rw [pieces]

theorem pieces_blank (hopen : Span.container ∈ stack) (hblank : tag.isBlank = true) :
    pieces language stack (tag :: rest) = pieces language stack rest := by
  rw [pieces.eq_def]
  dsimp only
  rw [if_pos (by simp [hopen, hblank])]

private theorem not_dropped (hshown : Span.container ∈ stack → tag.isBlank = false) :
    ¬(stack.contains .container && tag.isBlank) = true := by
  rw [Bool.and_eq_true, List.contains_iff_mem]
  exact fun h => absurd h.2 (by simp [hshown h.1])

theorem pieces_alone (halone : tag.standsAlone = true)
    (hshown : Span.container ∈ stack → tag.isBlank = false) :
    pieces language stack (tag :: rest) = tag.lonePiece :: pieces language stack rest := by
  rw [pieces.eq_def]
  dsimp only
  rw [if_neg (not_dropped hshown)]
  cases tag with
  | spanOpen | spanClose | codeOpen | fenceOpen | rawFence | languageOpen =>
    exact absurd halone (by simp [Tag.standsAlone])
  | _ => rfl

theorem pieces_region {region : Region} (hopen : tag.opensRegion? = some region)
    (hsample : ∀ sample, tag ≠ .languageOpen sample)
    (hsplit : region.split? rest = some (inside, after)) :
    pieces language stack (tag :: rest) =
      tag.regionPiece language (literalText inside) :: pieces language stack after := by
  rw [pieces.eq_def]
  dsimp only
  cases tag with
  | codeOpen | fenceOpen | rawFence =>
    rw [if_neg (not_dropped fun _ => rfl)]
    obtain rfl := Option.some.inj hopen
    dsimp only
    split
    next hfound =>
      obtain ⟨rfl, rfl⟩ := Prod.mk.inj (Option.some.inj (hsplit.symm.trans hfound))
      rfl
    next hnone => exact absurd (hsplit.symm.trans hnone) (by simp)
  | languageOpen sample => exact absurd rfl (hsample sample)
  | _ => exact absurd hopen (by simp [Tag.opensRegion?])

theorem pieces_unclosed {region : Region} (hopen : tag.opensRegion? = some region)
    (hsample : ∀ sample, tag ≠ .languageOpen sample) (hsplit : region.split? rest = none) :
    pieces language stack (tag :: rest) = .unpaired tag :: pieces language stack rest := by
  rw [pieces.eq_def]
  dsimp only
  cases tag with
  | codeOpen | fenceOpen | rawFence =>
    rw [if_neg (not_dropped fun _ => rfl)]
    obtain rfl := Option.some.inj hopen
    dsimp only
    split
    next hfound => exact absurd (hsplit.symm.trans hfound) (by simp)
    next hnone => rfl
  | languageOpen sample => exact absurd rfl (hsample sample)
  | _ => exact absurd hopen (by simp [Tag.opensRegion?])

/-- In a container, a sample is kept as a block or leaves its place. -/
theorem pieces_sample {sample : Text} (hopen : Span.container ∈ stack)
    (hsplit : (Region.sample sample).split? rest = some (inside, after)) :
    pieces language stack (.languageOpen sample :: rest) =
      (if sample = language then .block sample (literalText inside) else .omitted sample) ::
        pieces language stack after := by
  rw [pieces.eq_def]
  dsimp only
  rw [if_neg (not_dropped fun _ => rfl), if_pos (List.contains_iff_mem.mpr hopen)]
  split
  next hfound =>
    obtain ⟨rfl, rfl⟩ := Prod.mk.inj (Option.some.inj (hsplit.symm.trans hfound))
    rfl
  next hnone => exact absurd (hsplit.symm.trans hnone) (by simp)

theorem pieces_sample_unclosed {sample : Text} (hopen : Span.container ∈ stack)
    (hsplit : (Region.sample sample).split? rest = none) :
    pieces language stack (.languageOpen sample :: rest) =
      .unpaired (.languageOpen sample) :: pieces language stack rest := by
  rw [pieces.eq_def]
  dsimp only
  rw [if_neg (not_dropped fun _ => rfl), if_pos (List.contains_iff_mem.mpr hopen)]
  split
  next hfound => exact absurd (hsplit.symm.trans hfound) (by simp)
  next hnone => rfl

/-- Outside containers the tag of a sample is plain text, whether the sample is complete or not. -/
theorem pieces_sample_outside (sample : Text) (hclosed : Span.container ∉ stack) :
    pieces language stack (.languageOpen sample :: rest) =
      .text (Tag.languageOpen sample).display :: pieces language stack rest := by
  rw [pieces.eq_def]
  dsimp only
  rw [if_neg (not_dropped fun _ => rfl),
    if_neg fun hopen => hclosed (List.contains_iff_mem.mp hopen)]

theorem pieces_spanOpen (span : Span) :
    pieces language stack (.spanOpen span :: rest) =
      if closesSpan span.kind 0 rest then
        .spanStart span :: pieces language (span :: stack) rest
      else .unpaired (.spanOpen span) :: pieces language stack rest := by
  rw [pieces.eq_def]
  dsimp only
  rw [if_neg (not_dropped fun _ => rfl)]

theorem pieces_spanClose {kind : SpanKind} {span : Span}
    (hfind : (stack.find? fun span => span.kind == kind) = some span) :
    pieces language stack (.spanClose kind :: rest) =
      .spanEnd span :: pieces language (stack.eraseP fun span => span.kind == kind) rest := by
  rw [pieces.eq_def]
  dsimp only
  rw [if_neg (not_dropped fun _ => rfl), hfind]

theorem pieces_spanClose_unpaired {kind : SpanKind}
    (hfind : (stack.find? fun span => span.kind == kind) = none) :
    pieces language stack (.spanClose kind :: rest) =
      .unpaired (.spanClose kind) :: pieces language stack rest := by
  rw [pieces.eq_def]
  dsimp only
  rw [if_neg (not_dropped fun _ => rfl), hfind]

end Pieces

end ClassDocs
