import ClassDocs.Proofs.Text.Replace
import Mathlib.Data.List.Chain

/-!
# Carriage returns

A text whose lines end in carriage returns has the lines of the text without them. They are white
space, so taking them out does not meet trimming, and a text in which they stand at the ends of lines
only is still such a text when a part of it is taken.
-/

namespace ClassDocs.Text

open Unicode

def dropReturns (s : Text) : Text :=
  s.filter (· != '\r')

@[simp] theorem dropReturns_nil : dropReturns [] = [] := rfl

@[simp] theorem dropReturns_append (s t : Text) :
    dropReturns (s ++ t) = dropReturns s ++ dropReturns t :=
  List.filter_append s t

@[simp] theorem dropReturns_return_cons (s : Text) : dropReturns ('\r' :: s) = dropReturns s := rfl

theorem dropReturns_cons_of_ne {c : Char} (s : Text) (h : c ≠ '\r') :
    dropReturns (c :: s) = c :: dropReturns s :=
  List.filter_cons_of_pos (by simpa using h)

theorem mem_dropReturns {s : Text} {c : Char} : c ∈ dropReturns s ↔ c ∈ s ∧ c ≠ '\r' := by
  simp [dropReturns]

theorem dropReturns_eq_self {s : Text} (h : '\r' ∉ s) : dropReturns s = s := by
  apply List.filter_eq_self.mpr
  intro c hc
  rw [bne_iff_ne]
  rintro rfl
  exact h hc

@[simp] theorem isBlank_dropReturns (s : Text) : isBlank (dropReturns s) = isBlank s := by
  induction s with
  | nil => rfl
  | cons c s ih =>
    by_cases hc : c = '\r'
    · subst hc
      exact ih
    · rw [dropReturns_cons_of_ne s hc, isBlank, isBlank, List.all_cons, List.all_cons, ← isBlank, ih]
      rfl

section Runs

variable {p : Char → Bool}

private theorem or_ne_return_eq (hp : p '\r' = true) : (fun c => !(c != '\r') || p c) = p := by
  funext c
  by_cases hc : c = '\r' <;> simp [hc, hp]

theorem takeWhile_dropReturns (hp : p '\r' = true) (s : Text) :
    (dropReturns s).takeWhile p = dropReturns (s.takeWhile p) := by
  rw [dropReturns, List.takeWhile_filter, or_ne_return_eq hp, dropReturns]

theorem dropWhile_dropReturns (hp : p '\r' = true) (s : Text) :
    (dropReturns s).dropWhile p = dropReturns (s.dropWhile p) := by
  rw [dropReturns, List.dropWhile_filter, or_ne_return_eq hp, dropReturns]

theorem reverse_dropReturns (s : Text) : (dropReturns s).reverse = dropReturns s.reverse :=
  List.filter_reverse.symm

theorem trimStart_dropReturns (hp : p '\r' = true) (s : Text) :
    trimStart p (dropReturns s) = dropReturns (trimStart p s) :=
  dropWhile_dropReturns hp s

theorem trimEnd_dropReturns (hp : p '\r' = true) (s : Text) :
    trimEnd p (dropReturns s) = dropReturns (trimEnd p s) := by
  rw [trimEnd, reverse_dropReturns, dropWhile_dropReturns hp, reverse_dropReturns, ← trimEnd]

theorem trim_dropReturns (hp : p '\r' = true) (s : Text) :
    trim p (dropReturns s) = dropReturns (trim p s) := by
  rw [trim, trimStart_dropReturns hp, trimEnd_dropReturns hp, ← trim]

theorem lastLine_dropReturns (s : Text) : lastLine (dropReturns s) = dropReturns (lastLine s) := by
  rw [lastLine, reverse_dropReturns, takeWhile_dropReturns (by decide), reverse_dropReturns,
    ← lastLine]

theorem completeLines_dropReturns (s : Text) :
    completeLines (dropReturns s) = dropReturns (completeLines s) := by
  rw [completeLines, reverse_dropReturns, dropWhile_dropReturns (by decide), reverse_dropReturns,
    ← completeLines]

end Runs

theorem dropReturns_unlines (ls : List Text) :
    dropReturns (unlines ls) = unlines (ls.map dropReturns) := by
  cases ls with
  | nil => rfl
  | cons line ls =>
    rw [unlines_cons_eq_flatMap, dropReturns_append, List.map_cons, unlines_cons_eq_flatMap]
    congr 1
    induction ls with
    | nil => rfl
    | cons other ls ih =>
      rw [List.flatMap_cons, dropReturns_append, ih, dropReturns_cons_of_ne _ (by decide)]
      rfl

theorem lines_dropReturns (s : Text) : lines (dropReturns s) = (lines s).map dropReturns := by
  have hne : (lines s).map dropReturns ≠ [] := by simpa using lines_ne_nil s
  have hlines : ∀ line ∈ (lines s).map dropReturns, '\n' ∉ line := by
    intro line hline hmem
    obtain ⟨source, hsource, rfl⟩ := List.mem_map.mp hline
    exact newline_notMem_of_mem_lines hsource (mem_dropReturns.mp hmem).1
  conv_lhs => rw [← unlines_lines s]
  rw [dropReturns_unlines, lines_unlines hlines hne]

/-- Whether carriage returns stand at the ends of lines only. -/
def ReturnsEndLines (s : Text) : Prop :=
  s.IsChain fun c d => c = '\r' → d = '\n'

theorem ReturnsEndLines.mono {s t : Text} (h : ReturnsEndLines t) (hpart : s <:+: t) :
    ReturnsEndLines s :=
  List.IsChain.infix h hpart

theorem returnsEndLines_of_notMem {s : Text} (h : '\r' ∉ s) : ReturnsEndLines s := by
  induction s with
  | nil => exact List.isChain_nil
  | cons c s ih =>
    obtain ⟨hc, hs⟩ := List.ne_and_not_mem_of_not_mem_cons h
    exact List.isChain_cons.mpr ⟨fun _ _ hreturn => absurd hreturn.symm hc, ih hs⟩

theorem ReturnsEndLines.concat {s t : Text} (hs : ReturnsEndLines s) (ht : ReturnsEndLines t)
    (hlast : s.getLast? ≠ some '\r') : ReturnsEndLines (s ++ t) := by
  refine List.isChain_append.mpr ⟨hs, ht, fun c hc _ _ hreturn => ?_⟩
  exact absurd (hreturn ▸ hc) hlast

theorem ReturnsEndLines.append {s t : Text} (h : ReturnsEndLines t) (hs : '\r' ∉ s) :
    ReturnsEndLines (s ++ t) :=
  (returnsEndLines_of_notMem hs).concat h fun hlast => hs (List.mem_of_getLast? hlast)

theorem ReturnsEndLines.append_newline {s t : Text} (hs : ReturnsEndLines s) (ht : ReturnsEndLines t) :
    ReturnsEndLines (s ++ '\n' :: t) := by
  have hline : ReturnsEndLines ('\n' :: t) := ht.append (s := ['\n']) (by decide)
  refine List.isChain_append.mpr ⟨hs, hline, fun _ _ d hd _ => ?_⟩
  exact (Option.some.inj hd).symm

theorem ReturnsEndLines.append_return {s t : Text} (h : ReturnsEndLines ('\n' :: t)) (hs : '\r' ∉ s) :
    ReturnsEndLines (s ++ '\r' :: '\n' :: t) := by
  have hend : ReturnsEndLines ('\r' :: '\n' :: t) := List.isChain_cons_cons.mpr ⟨fun _ => rfl, h⟩
  exact hend.append hs

/-- In one line, only the last character can be a carriage return. -/
theorem ReturnsEndLines.exists_line {line : Text} (h : ReturnsEndLines line) (hnewline : '\n' ∉ line) :
    ∃ kept, '\r' ∉ kept ∧ (line = kept ∨ line = kept ++ ['\r']) := by
  induction line with
  | nil => exact ⟨[], List.not_mem_nil, Or.inl rfl⟩
  | cons c line ih =>
    obtain ⟨hhead, htail⟩ := List.isChain_cons.mp h
    obtain ⟨-, hrest⟩ := List.ne_and_not_mem_of_not_mem_cons hnewline
    by_cases hc : c = '\r'
    · cases line with
      | nil => exact ⟨[], List.not_mem_nil, Or.inr (by rw [hc]; rfl)⟩
      | cons d line =>
        have hd : d = '\n' := hhead d rfl hc
        exact absurd (by simp [hd]) hrest
    · obtain ⟨kept, hkept, hline⟩ := ih htail hrest
      refine ⟨c :: kept, by simp [Ne.symm hc, hkept], ?_⟩
      rcases hline with rfl | rfl
      · exact Or.inl rfl
      · exact Or.inr rfl

end ClassDocs.Text
