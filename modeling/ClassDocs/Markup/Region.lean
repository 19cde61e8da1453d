import ClassDocs.Markup.Tag

/-!
# Literal regions

Inside inline code and code blocks no markup is read: a region runs from the tag that opens it to
the first tag that closes it, whatever stands between them.
-/

namespace ClassDocs

/-- The regions in which tags stand for their text. -/
inductive Region where
  | code (style : CodeStyle)
  | fence
  | rawFence
  | sample (language : Text)
  deriving DecidableEq, Repr

namespace Tag

def opensRegion? : Tag → Option Region
  | .codeOpen style => some (.code style)
  | .fenceOpen _ _ => some .fence
  | .rawFence _ _ => some .rawFence
  | .languageOpen language => some (.sample language)
  | _ => none

def closesRegion? : Tag → Option Region
  | .codeClose style => some (.code style)
  | .fenceClose => some .fence
  | .rawFence _ _ => some .rawFence
  | .languageClose language => some (.sample language)
  | _ => none

end Tag

namespace Region

/-- The tags inside an opened region and the tags after it, unless nothing closes the region. -/
def split? (region : Region) : List Tag → Option (List Tag × List Tag)
  | [] => none
  | tag :: rest =>
    if tag.closesRegion? = some region then some ([], rest)
    else (split? region rest).map fun (inside, after) => (tag :: inside, after)

theorem split?_eq_some {region : Region} {tags inside after : List Tag}
    (h : region.split? tags = some (inside, after)) :
    ∃ close, tags = inside ++ close :: after ∧ close.closesRegion? = some region ∧
      ∀ tag ∈ inside, tag.closesRegion? ≠ some region := by
  induction tags generalizing inside with
  | nil => simp [split?] at h
  | cons tag rest ih =>
    rw [split?] at h
    split at h
    next hclose =>
      obtain ⟨rfl, rfl⟩ : [] = inside ∧ rest = after := by simpa using h
      exact ⟨tag, rfl, hclose, by simp⟩
    next hclose =>
      obtain ⟨⟨more, _⟩, hmore, hpair⟩ := Option.map_eq_some_iff.mp h
      obtain ⟨rfl, rfl⟩ : tag :: more = inside ∧ _ = after := by simpa using hpair
      obtain ⟨close, hrest, hends, hinside⟩ := ih hmore
      refine ⟨close, by rw [hrest, List.cons_append], hends, ?_⟩
      simpa using ⟨hclose, hinside⟩

theorem split?_eq_none_iff {region : Region} {tags : List Tag} :
    region.split? tags = none ↔ ∀ tag ∈ tags, tag.closesRegion? ≠ some region := by
  induction tags with
  | nil => simp [split?]
  | cons tag rest ih =>
    by_cases h : tag.closesRegion? = some region
    · simp [split?, h]
    · simp [split?, h, ih]

theorem length_lt_of_split? {region : Region} {tags inside after : List Tag}
    (h : region.split? tags = some (inside, after)) : after.length < tags.length := by
  obtain ⟨close, rfl, -⟩ := split?_eq_some h
  simp only [List.length_append, List.length_cons]
  omega

end Region

/-- The tags after the region that `tag` opens in front of `rest`, if it opens one that is closed. -/
def afterRegion? (tag : Tag) (rest : List Tag) : Option (List Tag) :=
  tag.opensRegion?.bind fun region => (region.split? rest).map Prod.snd

theorem length_lt_of_afterRegion? {tag : Tag} {rest after : List Tag}
    (h : afterRegion? tag rest = some after) : after.length < rest.length := by
  obtain ⟨region, -, hregion⟩ := Option.bind_eq_some_iff.mp h
  obtain ⟨⟨inside, _⟩, hsplit, rfl⟩ := Option.map_eq_some_iff.mp hregion
  exact Region.length_lt_of_split? hsplit

/-- The text that tags stand for inside a literal region. -/
def literalText (tags : List Tag) : Text :=
  tags.flatMap Tag.literal

end ClassDocs
