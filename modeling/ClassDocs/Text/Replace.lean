import ClassDocs.Text.Basic

/-!
# Replacing a pattern

Occurrences are taken from left to right and do not overlap; the text put in is not searched again.
-/

namespace ClassDocs.Text

/-- The text with every occurrence of `pattern` replaced by `new`. -/
def replaceAll (pattern new : Text) : Text → Text
  | [] => []
  | c :: rest =>
    if pattern.isPrefixOf (c :: rest) then
      new ++ replaceAll pattern new (rest.drop (pattern.length - 1))
    else
      c :: replaceAll pattern new rest
termination_by s => s.length
decreasing_by all_goals simp only [List.length_drop, List.length_cons]; omega

def occursIn (pattern : Text) : Text → Bool
  | [] => pattern.isEmpty
  | c :: rest => pattern.isPrefixOf (c :: rest) || occursIn pattern rest

theorem occursIn_iff {pattern s : Text} :
    occursIn pattern s = true ↔ ∃ before after, s = before ++ pattern ++ after := by
  induction s with
  | nil => simp [occursIn]
  | cons c rest ih =>
    rw [occursIn, Bool.or_eq_true, List.isPrefixOf_iff_prefix, ih]
    constructor
    · rintro (⟨after, h⟩ | ⟨before, after, h⟩)
      · exact ⟨[], after, h.symm⟩
      · exact ⟨c :: before, after, by rw [h]; rfl⟩
    · rintro ⟨before, after, h⟩
      cases before with
      | nil => exact Or.inl ⟨after, h.symm⟩
      | cons d before =>
        obtain ⟨rfl, htail⟩ := List.cons.inj h
        exact Or.inr ⟨before, after, htail⟩

@[simp] theorem replaceAll_nil (pattern new : Text) : replaceAll pattern new [] = [] := by
  rw [replaceAll]

end ClassDocs.Text
