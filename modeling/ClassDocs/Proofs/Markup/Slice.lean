import ClassDocs.Markup.TagStream

/-!
# The forms of slices

A slice is a newline, a bracket or a backtick alone, a complete tag, a fence with its info word, or a
plain run. Each form makes a tag of its own.
-/

namespace ClassDocs

open Text

theorem Slice.isPlain_iff {c : Char} : isPlain c = true ↔ c ≠ '\n' ∧ c ≠ '[' ∧ c ≠ '`' := by
  simp [isPlain, and_assoc]

theorem Slice.not_whiteSpace_of_isInfoChar {c : Char} (h : isInfoChar c = true) :
    Unicode.isWhiteSpace c = false := by
  have halphanum : ∀ d : Char, d.isAlphanum = true → Unicode.isWhiteSpace d = false := by
    intro d hd
    have hval : d.toNat = d.val.toNat := rfl
    have halpha : d.isAlpha = (d.isUpper || d.isLower) := rfl
    have hupper : d.isUpper = decide (65 ≤ d.val ∧ d.val ≤ 90) := rfl
    have hlower : d.isLower = (decide (97 ≤ d.val) && decide (d.val ≤ 122)) := rfl
    simp only [Char.isAlphanum, Char.isDigit, halpha, hupper, hlower, Bool.or_eq_true,
      Bool.and_eq_true, decide_eq_true_eq, ge_iff_le, UInt32.le_iff_toNat_le] at hd
    simp at hd
    simp only [Unicode.isWhiteSpace, Unicode.whiteSpaceRanges, List.any_cons, List.any_nil,
      Bool.or_false, Bool.or_eq_false_iff, Bool.and_eq_false_iff, decide_eq_false_iff_not]
    omega
  simp only [isInfoChar, isWordChar, Bool.or_eq_true, beq_iff_eq] at h
  rcases h with ((h | rfl) | rfl) | rfl
  · exact halphanum c h
  all_goals rfl

theorem Slice.isInfoChar_of_isWordChar {c : Char} (h : isWordChar c = true) :
    isInfoChar c = true := by
  simp [isInfoChar, h]

theorem Slice.isBodyChar_of_isInfoChar {c : Char} (h : isInfoChar c = true) :
    isBodyChar c = true := by
  simp only [isBodyChar, Bool.and_eq_true, bne_iff_ne]
  constructor
  · intro hc
    exact absurd (hc ▸ h) (by decide)
  · intro hc
    exact absurd (hc ▸ h) (by decide)

/-- The texts that can be slices. -/
inductive Slice.Form : Text → Prop where
  | newline : Form ['\n']
  | bracket : Form ['[']
  | tag {body : Text} {tag : Tag} (chars : body.all isBodyChar = true)
      (reads : Tag.ofBody? body = some tag) : Form (Tag.bracketed body)
  | backtick : Form ['`']
  | fence {info : Text} (chars : info.all isInfoChar = true) : Form ("```".toList ++ info)
  | plain {c : Char} {rest : Text} (chars : (c :: rest).all isPlain = true) : Form (c :: rest)

theorem Slice.form_cut (c : Char) (rest : Text) : Form (c :: (cut c rest).1) := by
  unfold cut
  split
  next hnewline =>
    subst hnewline
    exact .newline
  next hnewline =>
    split
    next hbracket =>
      subst hbracket
      split
      · split
        next after _ hreads =>
          obtain ⟨tag, htag⟩ := Option.isSome_iff_exists.mp hreads
          exact .tag List.all_takeWhile htag
        · exact .bracket
      · exact .bracket
    next hbracket =>
      split
      next hbacktick =>
        subst hbacktick
        split
        · exact .fence List.all_takeWhile
        · exact .backtick
      next hbacktick =>
        apply Form.plain
        rw [List.all_cons, List.all_takeWhile, Bool.and_true]
        exact isPlain_iff.mpr ⟨hnewline, hbracket, hbacktick⟩

theorem Slice.form_of_mem_slices {source slice : Text} (h : slice ∈ slices source) :
    Form slice := by
  fun_induction slices source with
  | case1 => exact absurd h List.not_mem_nil
  | case2 c rest ih =>
    rcases List.mem_cons.mp h with rfl | h
    · exact form_cut c rest
    · exact ih h

namespace Tag

theorem ofSlice_bracketed (body : Text) :
    ofSlice (bracketed body) = (ofBody? body).getD .bracket := by
  rw [bracketed, ofSlice, List.dropLast_concat]

theorem ofSlice_plain {c : Char} {rest : Text} (h : (c :: rest).all Slice.isPlain = true) :
    ofSlice (c :: rest) = .text (c :: rest) := by
  have hc := List.all_eq_true.mp h c List.mem_cons_self
  obtain ⟨hnewline, hbracket, hbacktick⟩ := Slice.isPlain_iff.mp hc
  rw [ofSlice]
  · exact fun heq => hnewline (List.cons.inj heq).1
  · exact fun _ heq => hbacktick (List.cons.inj heq).1
  · exact fun _ heq => hbracket (List.cons.inj heq).1

end Tag

end ClassDocs
