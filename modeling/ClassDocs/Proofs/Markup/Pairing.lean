import ClassDocs.Markup.Pairing
import ClassDocs.Proofs.Markup.Piece

/-!
# Looking for the end of a span

What the search for a closing tag does at each tag: it stops at a closing tag of its kind, counts
the spans of its kind that open on the way, and passes over everything else, regions as a whole.
-/

namespace ClassDocs

section ClosesSpan

variable {kind : SpanKind} {depth : Nat} {tag : Tag} {rest after : List Tag}

@[simp] theorem closesSpan_nil (kind : SpanKind) (depth : Nat) : closesSpan kind depth [] = false := by
  rw [closesSpan]

theorem closesSpan_close_zero (kind : SpanKind) (rest : List Tag) :
    closesSpan kind 0 (.spanClose kind :: rest) = true := by
  rw [closesSpan.eq_def]
  simp

theorem closesSpan_close_succ (kind : SpanKind) (depth : Nat) (rest : List Tag) :
    closesSpan kind (depth + 1) (.spanClose kind :: rest) = closesSpan kind depth rest := by
  rw [closesSpan.eq_def]
  simp

theorem closesSpan_open (hopen : tag.opensSpan kind = true) :
    closesSpan kind depth (tag :: rest) = closesSpan kind (depth + 1) rest := by
  have hclose : tag ≠ .spanClose kind := by
    rintro rfl
    exact absurd hopen (by simp [Tag.opensSpan])
  rw [closesSpan.eq_def]
  dsimp only
  rw [if_neg hclose, if_pos hopen]

theorem closesSpan_region (hclose : tag ≠ .spanClose kind) (hopen : tag.opensSpan kind = false)
    (hafter : afterRegion? tag rest = some after) :
    closesSpan kind depth (tag :: rest) = closesSpan kind depth after := by
  rw [closesSpan.eq_def]
  dsimp only
  rw [if_neg hclose, if_neg (by simp [hopen])]
  split
  next hfound =>
    obtain rfl := Option.some.inj (hafter.symm.trans hfound)
    rfl
  next hnone => exact absurd (hafter.symm.trans hnone) (by simp)

theorem closesSpan_other (hclose : tag ≠ .spanClose kind) (hopen : tag.opensSpan kind = false)
    (hafter : afterRegion? tag rest = none) :
    closesSpan kind depth (tag :: rest) = closesSpan kind depth rest := by
  rw [closesSpan.eq_def]
  dsimp only
  rw [if_neg hclose, if_neg (by simp [hopen])]
  split
  next hfound => exact absurd (hafter.symm.trans hfound) (by simp)
  next hnone => rfl

end ClosesSpan

end ClassDocs
