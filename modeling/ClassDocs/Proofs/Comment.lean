import ClassDocs.DocComment
import ClassDocs.Proofs.Markup.Layout
import ClassDocs.Proofs.Text.Replace
import Mathlib.Data.List.Chain

/-!
# Comment blocks end where they are closed

A terminator is a star followed by a slash, so a text is free of terminators exactly when no two
neighbours in it are such a pair. Escaping leaves no such pair, and none arises where a margin, a
line and the delimiters meet.
-/

namespace ClassDocs.Comment

open Text

def Unterminated (s : Text) : Prop :=
  s.IsChain fun c d => ¬(c = '*' ∧ d = '/')

/-- The text ends with a terminator and holds no other. -/
def TerminatesAtEnd (s : Text) : Prop :=
  terminator <:+ s ∧ ∀ before after, s = before ++ terminator ++ after → after = []

theorem unterminated_of_notMem_slash {s : Text} (h : '/' ∉ s) : Unterminated s := by
  induction s with
  | nil => exact List.isChain_nil
  | cons c s ih =>
    obtain ⟨-, hs⟩ := List.ne_and_not_mem_of_not_mem_cons h
    refine List.isChain_cons.mpr ⟨?_, ih hs⟩
    rintro d hd ⟨-, rfl⟩
    exact hs (List.mem_of_mem_head? hd)

theorem Unterminated.append {s t : Text} (hs : Unterminated s) (ht : Unterminated t)
    (hmeet : s.getLast? ≠ some '*' ∨ t.head? ≠ some '/') : Unterminated (s ++ t) := by
  refine List.IsChain.append hs ht ?_
  rintro c hc d hd ⟨rfl, rfl⟩
  exact hmeet.elim (fun h => h hc) (fun h => h hd)

theorem Unterminated.no_terminator {s : Text} (h : Unterminated s) (before after : Text) :
    s ≠ before ++ terminator ++ after := by
  rintro rfl
  have hpair : List.IsChain (fun c d => ¬(c = '*' ∧ d = '/')) terminator :=
    List.IsChain.infix h ⟨before, after, rfl⟩
  exact (List.isChain_cons_cons.mp hpair).1 ⟨rfl, rfl⟩

theorem Unterminated.terminatesAtEnd {s : Text} (h : Unterminated (s ++ ['*'])) :
    TerminatesAtEnd (s ++ terminator) := by
  refine ⟨⟨s, rfl⟩, fun before after heq => ?_⟩
  rcases List.eq_nil_or_concat after with rfl | ⟨rest, c, rfl⟩
  · rfl
  · have hshort : s ++ ['*'] = before ++ terminator ++ rest := by
      have hdrop := congrArg List.dropLast heq
      rw [List.concat_eq_append, ← List.append_assoc, List.dropLast_concat] at hdrop
      rw [← hdrop, show s ++ terminator = (s ++ ['*']) ++ ['/'] by
        simp only [List.append_assoc]; rfl, List.dropLast_concat]
    exact absurd hshort (h.no_terminator before rest)

private theorem terminator_isPrefixOf_iff {c : Char} {rest : Text} :
    terminator.isPrefixOf (c :: rest) = true ↔ c = '*' ∧ ∃ more, rest = '/' :: more := by
  rw [List.isPrefixOf_iff_prefix]
  constructor
  · rintro ⟨more, h⟩
    have hcons : '*' :: '/' :: more = c :: rest := h
    obtain ⟨rfl, hrest⟩ := List.cons.inj hcons
    exact ⟨rfl, more, hrest.symm⟩
  · rintro ⟨rfl, more, rfl⟩
    exact ⟨more, rfl⟩

@[simp] theorem escape_nil : escape [] = [] :=
  replaceAll_nil terminator escapedTerminator

theorem escape_terminated (rest : Text) :
    escape ('*' :: '/' :: rest) = '*' :: '\\' :: '/' :: escape rest := by
  rw [escape, replaceAll, if_pos (terminator_isPrefixOf_iff.mpr ⟨rfl, rest, rfl⟩)]
  rfl

theorem escape_plain {c : Char} {rest : Text} (h : c = '*' → rest.head? ≠ some '/') :
    escape (c :: rest) = c :: escape rest := by
  have hprefix : ¬terminator.isPrefixOf (c :: rest) = true := by
    intro hp
    obtain ⟨hc, more, rfl⟩ := terminator_isPrefixOf_iff.mp hp
    exact h hc rfl
  rw [escape, replaceAll, if_neg hprefix]
  rfl

/-- Escaping reads a terminator as a whole and any other character alone. -/
theorem escape_induction {motive : Text → Prop} (nil : motive [])
    (terminated : ∀ rest, motive rest → motive ('*' :: '/' :: rest))
    (plain : ∀ c rest, (c = '*' → rest.head? ≠ some '/') → motive rest → motive (c :: rest))
    (s : Text) : motive s := by
  fun_induction replaceAll terminator escapedTerminator s with
  | case1 => exact nil
  | case2 c rest h ih =>
    obtain ⟨rfl, more, rfl⟩ := terminator_isPrefixOf_iff.mp h
    exact terminated more ih
  | case3 c rest h ih =>
    refine plain c rest (fun hc hrest => h (terminator_isPrefixOf_iff.mpr ⟨hc, ?_⟩)) ih
    exact List.head?_eq_some_iff.mp hrest

theorem head?_escape (s : Text) : (escape s).head? = s.head? := by
  induction s using escape_induction with
  | nil => rw [escape_nil]
  | terminated rest _ => rw [escape_terminated]; rfl
  | plain c rest h _ => rw [escape_plain h]; rfl

theorem unterminated_escape (s : Text) : Unterminated (escape s) := by
  induction s using escape_induction with
  | nil =>
    rw [escape_nil]
    exact List.isChain_nil
  | terminated rest ih =>
    have hslash : Unterminated ('/' :: escape rest) :=
      List.isChain_cons.mpr ⟨fun _ _ h => absurd h.1 (by decide), ih⟩
    rw [escape_terminated]
    exact List.isChain_cons_cons.mpr ⟨by decide, List.isChain_cons_cons.mpr ⟨by decide, hslash⟩⟩
  | plain c rest h ih =>
    rw [escape_plain h]
    refine List.isChain_cons.mpr ⟨?_, ih⟩
    rintro d hd ⟨hc, rfl⟩
    exact h hc ((head?_escape rest).symm.trans hd)

theorem newline_notMem_escape {line : Text} (h : '\n' ∉ line) : '\n' ∉ escape line := by
  intro hmem
  rcases mem_replaceAll hmem with hnew | hline
  · exact absurd hnew (by decide)
  · exact h hline

theorem emptyLine_prefix_framedLine (line : Text) : emptyLine <+: framedLine line := by
  rw [framedLine]
  split
  · exact List.prefix_rfl
  · exact ⟨' ' :: escape line, rfl⟩

theorem newline_notMem_framedLine {line : Text} (h : '\n' ∉ line) : '\n' ∉ framedLine line := by
  rw [framedLine]
  split
  · decide
  · rw [List.mem_append, not_or]
    exact ⟨by decide, newline_notMem_escape h⟩

theorem unterminated_framedLine (line : Text) : Unterminated (framedLine line) := by
  have hmargin : Unterminated margin := unterminated_of_notMem_slash (by decide)
  rw [framedLine]
  split
  · exact unterminated_of_notMem_slash (by decide)
  · exact hmargin.append (unterminated_escape line) (Or.inl (by decide))

theorem unterminated_framedLines (ls : List Text) :
    Unterminated (ls.flatMap fun line => framedLine line ++ ['\n']) := by
  induction ls with
  | nil => exact List.isChain_nil
  | cons line ls ih =>
    have hnewline : Unterminated ['\n'] := unterminated_of_notMem_slash (by decide)
    have hline : Unterminated (framedLine line ++ ['\n']) :=
      (unterminated_framedLine line).append hnewline (Or.inr (by decide))
    exact hline.append ih (Or.inl (by rw [List.getLast?_concat]; decide))

theorem terminatesAtEnd_frame (ls : List Text) : TerminatesAtEnd (frame ls) := by
  have hopening : Unterminated (opening ++ ['\n']) := by
    refine List.isChain_cons_cons.mpr ⟨by decide, ?_⟩
    exact unterminated_of_notMem_slash (by decide)
  have hbody := hopening.append (unterminated_framedLines ls) (Or.inl (by decide))
  have hstar : Unterminated [' ', '*'] := unterminated_of_notMem_slash (by decide)
  have hall := (hbody.append hstar (Or.inr (by decide)))
  have hend := Unterminated.terminatesAtEnd (s := opening ++ ['\n'] ++
    (ls.flatMap fun line => framedLine line ++ ['\n']) ++ [' ']) (by simpa using hall)
  simpa [frame, closing, terminator] using hend

theorem lines_frame {ls : List Text} (h : ∀ line ∈ ls, '\n' ∉ line) :
    lines (frame ls) = opening :: (ls.map framedLine ++ [closing]) := by
  have hframed : ∀ line ∈ ls.map framedLine, '\n' ∉ line := by
    intro framed hframed
    obtain ⟨line, hline, rfl⟩ := List.mem_map.mp hframed
    exact newline_notMem_framedLine (h line hline)
  have hbody := lines_flatMap_append (ls.map framedLine) closing hframed
  rw [List.flatMap_map] at hbody
  rw [frame, List.append_assoc, List.cons_append, lines_append_newline, hbody,
    lines_eq_singleton (by decide), lines_eq_singleton (by decide)]
  rfl

/-- Whatever an entry and its settings hold, its comment is opened and closed once, the terminator
at its end is the only one, and between the two delimiters there is one line with a star for each
line of the content. A frame around any texts ends with its only terminator. -/
theorem block_is_one_comment (settings : DocSettings) (entry : List Text) :
    "/**\n".toList <+: DocComment.block settings entry ∧
    " */".toList <:+ DocComment.block settings entry ∧
    TerminatesAtEnd (DocComment.block settings entry) ∧
    (∃ middle : List Text,
      lines (DocComment.block settings entry) = "/**".toList :: (middle ++ [" */".toList]) ∧
      (∀ line ∈ middle, " *".toList <+: line) ∧
      middle.length = (DocComment.contentLines settings entry).length) ∧
    ∀ ls : List Text, TerminatesAtEnd (frame ls) := by
  have hlines : ∀ line ∈ DocComment.contentLines settings entry, '\n' ∉ line :=
    fun line hline => Layout.newline_notMem_of_mem_tidyLines hline
  refine ⟨?_, ?_, terminatesAtEnd_frame _, ?_, terminatesAtEnd_frame⟩
  · rw [DocComment.block, frame, List.append_assoc]
    exact ⟨_, rfl⟩
  · exact List.suffix_append _ _
  · refine ⟨(DocComment.contentLines settings entry).map framedLine, lines_frame hlines, ?_, ?_⟩
    · intro framed hframed
      obtain ⟨line, -, rfl⟩ := List.mem_map.mp hframed
      exact emptyLine_prefix_framedLine line
    · exact List.length_map framedLine

end ClassDocs.Comment
