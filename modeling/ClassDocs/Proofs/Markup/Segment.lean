import ClassDocs.Proofs.Markup.Pairing

/-!
# Markup outside literal regions

Once the literal regions are cut out from left to right, what is left of some tags are segments: whole
regions, and tags outside them. The search for the end of a span counts the closing tags among the
segments that pair with nothing after it.
-/

namespace ClassDocs

/-- A tag outside literal regions, or a whole region behind the tag that opens it. -/
inductive Segment where
  | tag (tag : Tag)
  | region (opening : Tag) (inside : List Tag)
  deriving DecidableEq, Repr

def Tag.endsRegionOf : (opening : Tag) → Tag → Bool
  | .codeOpen style, .codeClose closed => decide (closed = style)
  | .fenceOpen _ _, .fenceClose => true
  | .rawFence _ _, .rawFence _ _ => true
  | .languageOpen language, .languageClose closed => decide (closed = language)
  | _, _ => false

/-- The tags inside the region that a tag opens, up to the first one that ends it, and the tags after
it. There is no region if no tag ends it. -/
def regionAt? (opening : Tag) : List Tag → Option (List Tag × List Tag)
  | [] => none
  | tag :: rest =>
    if opening.endsRegionOf tag then some ([], rest)
    else (regionAt? opening rest).map fun (inside, after) => (tag :: inside, after)

private theorem endsRegionOf_eq {opening : Tag} {region : Region}
    (h : opening.opensRegion? = some region) (tag : Tag) :
    opening.endsRegionOf tag = decide (tag.closesRegion? = some region) := by
  cases opening with
  | codeOpen | fenceOpen | rawFence | languageOpen =>
    obtain rfl := Option.some.inj h
    cases tag <;> simp [Tag.endsRegionOf, Tag.closesRegion?]
  | _ => exact absurd h (by simp [Tag.opensRegion?])

private theorem endsRegionOf_eq_false {opening : Tag} (h : opening.opensRegion? = none) (tag : Tag) :
    opening.endsRegionOf tag = false := by
  cases opening with
  | codeOpen | fenceOpen | rawFence | languageOpen => exact absurd h (by simp [Tag.opensRegion?])
  | _ => cases tag <;> rfl

theorem regionAt?_eq (opening : Tag) (rest : List Tag) :
    regionAt? opening rest = opening.opensRegion?.bind fun region => region.split? rest := by
  cases hopen : opening.opensRegion? with
  | none =>
    induction rest with
    | nil => rfl
    | cons tag rest ih =>
      rw [regionAt?, endsRegionOf_eq_false hopen tag, ih]
      rfl
  | some region =>
    rw [Option.bind_some]
    induction rest with
    | nil => rfl
    | cons tag rest ih =>
      rw [regionAt?, Region.split?, endsRegionOf_eq hopen tag, ih]
      simp only [decide_eq_true_eq]

theorem afterRegion?_eq (tag : Tag) (rest : List Tag) :
    afterRegion? tag rest = (regionAt? tag rest).map Prod.snd := by
  rw [afterRegion?, regionAt?_eq, Option.map_bind]
  rfl

theorem exists_split?_of_regionAt? {tag : Tag} {rest inside after : List Tag}
    (h : regionAt? tag rest = some (inside, after)) :
    ∃ region, tag.opensRegion? = some region ∧ region.split? rest = some (inside, after) := by
  rw [regionAt?_eq] at h
  exact Option.bind_eq_some_iff.mp h

theorem length_lt_of_regionAt? {tag : Tag} {rest inside after : List Tag}
    (h : regionAt? tag rest = some (inside, after)) : after.length < rest.length := by
  obtain ⟨region, -, hsplit⟩ := exists_split?_of_regionAt? h
  exact Region.length_lt_of_split? hsplit

/-- The segments of tags. A tag that opens a region takes everything up to the first tag that closes
the region; where there is none, it is a segment of its own. -/
def segments : List Tag → List Segment
  | [] => []
  | tag :: rest =>
    match h : regionAt? tag rest with
    | some (inside, after) =>
      have := length_lt_of_regionAt? h
      .region tag inside :: segments after
    | none => .tag tag :: segments rest
termination_by tags => tags.length

section Segments

variable {tag : Tag} {rest inside after : List Tag}

theorem segments_of_region (h : regionAt? tag rest = some (inside, after)) :
    segments (tag :: rest) = .region tag inside :: segments after := by
  rw [segments.eq_def]
  dsimp only
  split
  next hfound =>
    obtain ⟨rfl, rfl⟩ := Prod.mk.inj (Option.some.inj (h.symm.trans hfound))
    rfl
  next hnone => exact absurd (h.symm.trans hnone) (by simp)

theorem segments_of_no_region (h : regionAt? tag rest = none) :
    segments (tag :: rest) = .tag tag :: segments rest := by
  rw [segments.eq_def]
  dsimp only
  split
  next hfound => exact absurd (h.symm.trans hfound) (by simp)
  next => rfl

end Segments

namespace Segment

def opened? (kind : SpanKind) : Segment → Option Span
  | .tag (.spanOpen span) => if span.kind = kind then some span else none
  | _ => none

def closes (kind : SpanKind) : Segment → Bool
  | .tag (.spanClose closed) => decide (closed = kind)
  | _ => false

theorem opened?_self (span : Span) : (tag (.spanOpen span)).opened? span.kind = some span :=
  if_pos rfl

theorem opened?_of_ne {span : Span} {kind : SpanKind} (h : span.kind ≠ kind) :
    (tag (.spanOpen span)).opened? kind = none :=
  if_neg h

theorem closes_self (kind : SpanKind) : (tag (.spanClose kind)).closes kind = true :=
  decide_eq_true rfl

theorem closes_of_ne {closed kind : SpanKind} (h : closed ≠ kind) :
    (tag (.spanClose closed)).closes kind = false :=
  decide_eq_false h

end Segment

def closingsLeft (kind : SpanKind) : List Segment → Nat
  | [] => 0
  | segment :: rest =>
    match segment.opened? kind with
    | some _ => closingsLeft kind rest - 1
    | none => if segment.closes kind then closingsLeft kind rest + 1 else closingsLeft kind rest

section ClosingsLeft

variable {kind : SpanKind} {segment : Segment} {rest : List Segment}

theorem closingsLeft_opened {span : Span} (h : segment.opened? kind = some span) :
    closingsLeft kind (segment :: rest) = closingsLeft kind rest - 1 := by
  rw [closingsLeft, h]

theorem closingsLeft_closes (hopen : segment.opened? kind = none)
    (hclose : segment.closes kind = true) :
    closingsLeft kind (segment :: rest) = closingsLeft kind rest + 1 := by
  rw [closingsLeft, hopen]
  exact if_pos hclose

theorem closingsLeft_other (hopen : segment.opened? kind = none)
    (hclose : segment.closes kind = false) :
    closingsLeft kind (segment :: rest) = closingsLeft kind rest := by
  rw [closingsLeft, hopen]
  exact if_neg (by simp [hclose])

end ClosingsLeft

theorem opensSpan_of_regionAt? {tag : Tag} {rest inside after : List Tag} (kind : SpanKind)
    (h : regionAt? tag rest = some (inside, after)) :
    tag ≠ .spanClose kind ∧ tag.opensSpan kind = false := by
  obtain ⟨region, hregion, -⟩ := exists_split?_of_regionAt? h
  cases tag with
  | spanOpen | spanClose => simp [Tag.opensRegion?] at hregion
  | _ => exact ⟨by simp, rfl⟩

/-- A span is closed exactly if more closing tags are left for it and for the spans inside it than
there are spans inside it. -/
theorem closesSpan_eq (kind : SpanKind) (depth : Nat) (tags : List Tag) :
    closesSpan kind depth tags = decide (depth < closingsLeft kind (segments tags)) := by
  fun_induction segments tags generalizing depth with
  | case1 => simp [closingsLeft]
  | case2 tag rest inside after hregion _ ih =>
    obtain ⟨hclose, hopen⟩ := opensSpan_of_regionAt? kind hregion
    have hafter : afterRegion? tag rest = some after := by
      rw [afterRegion?_eq, hregion]
      rfl
    rw [closesSpan_region hclose hopen hafter, ih, closingsLeft_other rfl rfl]
  | case3 tag rest hregion ih =>
    have hafter : afterRegion? tag rest = none := by
      rw [afterRegion?_eq, hregion]
      rfl
    by_cases hclose : tag = .spanClose kind
    · have hclosing : closingsLeft kind (.tag tag :: segments rest) =
          closingsLeft kind (segments rest) + 1 := by
        subst hclose
        exact closingsLeft_closes rfl (Segment.closes_self kind)
      rw [hclosing, hclose]
      cases depth with
      | zero => rw [closesSpan_close_zero, eq_comm, decide_eq_true_eq]; omega
      | succ depth =>
        rw [closesSpan_close_succ, ih, decide_eq_decide]
        omega
    · cases hopen : tag.opensSpan kind with
      | true =>
        obtain ⟨span, htag, hkind⟩ : ∃ span, tag = .spanOpen span ∧ span.kind = kind := by
          cases tag with
          | spanOpen span => exact ⟨span, rfl, by simpa [Tag.opensSpan] using hopen⟩
          | _ => simp [Tag.opensSpan] at hopen
        have hopened : (Segment.tag tag).opened? kind = some span := by
          rw [htag, ← hkind]
          exact Segment.opened?_self span
        rw [closesSpan_open hopen, ih, closingsLeft_opened hopened, decide_eq_decide]
        omega
      | false =>
        have hopened : (Segment.tag tag).opened? kind = none := by
          cases tag with
          | spanOpen span => exact if_neg (by simpa [Tag.opensSpan] using hopen)
          | _ => rfl
        have hcloses : (Segment.tag tag).closes kind = false := by
          cases tag with
          | spanClose closed => simpa [Segment.closes] using hclose
          | _ => rfl
        rw [closesSpan_other hclose hopen hafter, ih, closingsLeft_other hopened hcloses]

end ClassDocs
