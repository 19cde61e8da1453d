import ClassDocs.Proofs.Text.Lines
import ClassDocs.Text.Replace

/-!
# Occurrences of a pattern

A text without a pattern is not changed by replacing it, and a pattern does not reach over a
character that it does not hold.
-/

namespace ClassDocs.Text

theorem replaceAll_of_not_occursIn {pattern s : Text} (new : Text)
    (h : occursIn pattern s = false) : replaceAll pattern new s = s := by
  induction s with
  | nil => exact replaceAll_nil pattern new
  | cons c rest ih =>
    rw [occursIn, Bool.or_eq_false_iff] at h
    rw [replaceAll, if_neg (by simp [h.1]), ih h.2]

theorem replaceAll_singleton (c : Char) (new s : Text) :
    replaceAll [c] new s = s.flatMap fun d => if d = c then new else [d] := by
  induction s with
  | nil => exact replaceAll_nil [c] new
  | cons d rest ih =>
    rw [replaceAll, List.flatMap_cons]
    by_cases hd : d = c
    · rw [if_pos (by simp [hd]), if_pos hd]
      exact congrArg (new ++ ·) ih
    · rw [if_neg (by simp [Ne.symm hd]), if_neg hd, ih]
      rfl

theorem isPrefixOf_append_cons {pattern : Text} {c : Char} (s t : Text) (hc : c ∉ pattern) :
    pattern.isPrefixOf (s ++ c :: t) = pattern.isPrefixOf s := by
  induction pattern generalizing s with
  | nil => simp
  | cons p pattern ih =>
    obtain ⟨hp, hpattern⟩ := List.ne_and_not_mem_of_not_mem_cons hc
    cases s with
    | nil => simp [List.isPrefixOf, Ne.symm hp]
    | cons d s => rw [List.cons_append, List.isPrefixOf, List.isPrefixOf, ih s hpattern]

/-- A pattern is replaced on the two sides of a character that it does not hold. -/
theorem replaceAll_append_cons {pattern : Text} {c : Char} (new s t : Text) (hc : c ∉ pattern)
    (hne : pattern ≠ []) :
    replaceAll pattern new (s ++ c :: t) =
      replaceAll pattern new s ++ c :: replaceAll pattern new t := by
  have hskip : pattern.isPrefixOf (c :: t) = false := by
    have hstarts := isPrefixOf_append_cons [] t hc
    rw [List.nil_append] at hstarts
    rw [hstarts]
    cases pattern with
    | nil => exact absurd rfl hne
    | cons => rfl
  fun_induction replaceAll pattern new s with
  | case1 => rw [List.nil_append, replaceAll, if_neg (by simp [hskip]), List.nil_append]
  | case2 d rest hstarts ih =>
    have hlength : pattern.length - 1 ≤ rest.length := by
      have hle := (List.isPrefixOf_iff_prefix.mp hstarts).length_le
      rw [List.length_cons] at hle
      omega
    have hlonger : pattern.isPrefixOf (d :: (rest ++ c :: t)) = true := by
      rw [← List.cons_append, isPrefixOf_append_cons _ t hc, hstarts]
    rw [List.cons_append, replaceAll, if_pos hlonger, List.drop_append_of_le_length hlength, ih,
      List.append_assoc]
  | case3 d rest hstarts ih =>
    have hlonger : ¬pattern.isPrefixOf (d :: (rest ++ c :: t)) = true := by
      rwa [← List.cons_append, isPrefixOf_append_cons _ t hc]
    rw [List.cons_append, replaceAll, if_neg hlonger, ih, List.cons_append]

theorem replaceAll_unlines {pattern : Text} (new : Text) (ls : List Text) (hpattern : '\n' ∉ pattern)
    (hne : pattern ≠ []) :
    replaceAll pattern new (unlines ls) = unlines (ls.map (replaceAll pattern new)) := by
  induction ls with
  | nil => exact replaceAll_nil pattern new
  | cons line ls ih =>
    by_cases hls : ls = []
    · subst hls
      rw [unlines_singleton, List.map_singleton, unlines_singleton]
    · rw [unlines_cons hls, replaceAll_append_cons new line _ hpattern hne, ih, List.map_cons,
        unlines_cons (by simpa using hls)]

theorem mem_replaceAll {pattern new s : Text} {c : Char}
    (h : c ∈ replaceAll pattern new s) : c ∈ new ∨ c ∈ s := by
  fun_induction replaceAll pattern new s with
  | case1 => simp at h
  | case2 d rest _ ih =>
    rcases List.mem_append.mp h with h | h
    · exact Or.inl h
    · rcases ih h with h | h
      · exact Or.inl h
      · exact Or.inr (List.mem_cons_of_mem d (List.mem_of_mem_drop h))
  | case3 d rest _ ih =>
    rcases List.mem_cons.mp h with rfl | h
    · exact Or.inr List.mem_cons_self
    · rcases ih h with h | h
      · exact Or.inl h
      · exact Or.inr (List.mem_cons_of_mem d h)

private theorem occursIn_append_cons_of_notMem {pattern a b : Text} {c : Char} (hc : c ∉ pattern)
    (hne : pattern ≠ []) (ha : occursIn pattern a = false) (hb : occursIn pattern b = false) :
    occursIn pattern (a ++ c :: b) = false := by
  rw [Bool.eq_false_iff] at ha hb ⊢
  intro h
  obtain ⟨before, after, heq⟩ := occursIn_iff.mp h
  rw [List.append_assoc] at heq
  -- The character stands before, in or after the occurrence.
  rcases List.append_eq_append_iff.mp heq with ⟨gap, rfl, hgap⟩ | ⟨gap, rfl, hgap⟩
  · cases gap with
    | nil =>
      obtain ⟨p, rest, rfl⟩ := List.exists_cons_of_ne_nil hne
      obtain ⟨rfl, -⟩ := List.cons.inj hgap
      exact hc List.mem_cons_self
    | cons d gap =>
      obtain ⟨-, hgap⟩ := List.cons.inj hgap
      exact hb (occursIn_iff.mpr ⟨gap, after, hgap.trans (List.append_assoc gap pattern after).symm⟩)
  · rcases List.append_eq_append_iff.mp hgap with ⟨more, rfl, -⟩ | ⟨more, hpattern, hmore⟩
    · exact ha (occursIn_iff.mpr ⟨before, more, by rw [List.append_assoc]⟩)
    · cases more with
      | nil =>
        rw [List.append_nil] at hpattern
        exact ha (occursIn_iff.mpr ⟨before, [], by rw [hpattern, List.append_nil]⟩)
      | cons d more =>
        obtain ⟨rfl, -⟩ := List.cons.inj hmore
        exact hc (by simp [hpattern])

/-- A pattern without a newline that occurs in no line does not occur in the joined lines. -/
theorem occursIn_unlines {pattern : Text} {ls : List Text} (hpattern : '\n' ∉ pattern)
    (hne : pattern ≠ []) (h : ∀ line ∈ ls, occursIn pattern line = false) :
    occursIn pattern (unlines ls) = false := by
  induction ls with
  | nil => simp [occursIn, hne]
  | cons line ls ih =>
    have hline := h line List.mem_cons_self
    have hrest := ih fun other hother => h other (List.mem_cons_of_mem line hother)
    by_cases hls : ls = []
    · rw [hls, unlines_singleton]
      exact hline
    · rw [unlines_cons hls]
      exact occursIn_append_cons_of_notMem hpattern hne hline hrest

end ClassDocs.Text
