import ClassDocs.Proofs.Comment

/-!
# Escaping once is enough

A backslash is put into each terminator and nothing else is changed. The slash behind it cannot end
another terminator, and a terminator that was escaped before is left alone, so nothing is left to escape
and the backslashes can be taken out again.
-/

namespace ClassDocs.Comment

open Text

/-- The text with the backslash taken out of each escaped terminator. -/
def unescape (s : Text) : Text :=
  replaceAll escapedTerminator terminator s

variable {c : Char} {s rest : Text}

theorem not_occursIn_escape (s : Text) : occursIn terminator (escape s) = false := by
  apply eq_false_of_ne_true
  intro h
  obtain ⟨before, after, heq⟩ := occursIn_iff.mp h
  exact (unterminated_escape s).no_terminator before after heq

theorem escape_eq_self_iff : escape s = s ↔ occursIn terminator s = false := by
  constructor
  · intro h
    rw [← h]
    exact not_occursIn_escape s
  · intro h
    exact replaceAll_of_not_occursIn escapedTerminator h

theorem sublist_escape (s : Text) : s.Sublist (escape s) := by
  induction s using escape_induction with
  | nil => simp
  | terminated rest ih =>
    rw [escape_terminated]
    exact ((ih.cons_cons '/').cons '\\').cons_cons '*'
  | plain c rest h ih =>
    rw [escape_plain h]
    exact ih.cons_cons c

theorem filter_escape (s : Text) :
    (escape s).filter (· != '\\') = s.filter (· != '\\') := by
  induction s using escape_induction with
  | nil => simp
  | terminated rest ih => simp [escape_terminated, ih]
  | plain c rest h ih => simp [escape_plain h, List.filter_cons, ih]

theorem escapedTerminator_prefix_iff :
    escapedTerminator <+: c :: rest ↔ c = '*' ∧ ∃ more, rest = '\\' :: '/' :: more := by
  constructor
  · intro h
    obtain ⟨more, hmore⟩ := h
    have hcons : '*' :: '\\' :: '/' :: more = c :: rest := hmore
    obtain ⟨hc, hrest⟩ := List.cons.inj hcons
    exact ⟨hc.symm, more, hrest.symm⟩
  · intro h
    obtain ⟨rfl, more, rfl⟩ := h
    exact ⟨more, rfl⟩

theorem unescape_escaped (rest : Text) :
    unescape ('*' :: '\\' :: '/' :: rest) = '*' :: '/' :: unescape rest := by
  have hprefix : escapedTerminator.isPrefixOf ('*' :: '\\' :: '/' :: rest) = true :=
    List.isPrefixOf_iff_prefix.mpr (escapedTerminator_prefix_iff.mpr ⟨rfl, rest, rfl⟩)
  rw [unescape, replaceAll, if_pos hprefix]
  rfl

theorem unescape_plain (h : c = '*' → ∀ more, rest ≠ '\\' :: '/' :: more) :
    unescape (c :: rest) = c :: unescape rest := by
  have hprefix : ¬escapedTerminator.isPrefixOf (c :: rest) = true := by
    intro hp
    obtain ⟨hc, more, hmore⟩ :=
      escapedTerminator_prefix_iff.mp (List.isPrefixOf_iff_prefix.mp hp)
    exact h hc more hmore
  rw [unescape, replaceAll, if_neg hprefix]
  rfl

theorem unescape_backslash_slash (rest : Text) :
    unescape ('\\' :: '/' :: rest) = '\\' :: '/' :: unescape rest := by
  rw [unescape_plain (by simp), unescape_plain (by simp)]

theorem escape_backslash_slash (rest : Text) :
    escape ('\\' :: '/' :: rest) = '\\' :: '/' :: escape rest := by
  rw [escape_plain (by simp), escape_plain (by simp)]

/-- Escaped text starts with a backslash and a slash exactly if the text does: a star in front of it is an escaped
terminator's in both or in neither. -/
theorem escape_eq_backslash_slash_iff :
    (∃ more, escape rest = '\\' :: '/' :: more) ↔ ∃ more, rest = '\\' :: '/' :: more := by
  constructor
  · intro h
    obtain ⟨more, hmore⟩ := h
    have hhead : rest.head? = some '\\' := by rw [← head?_escape, hmore, List.head?_cons]
    obtain ⟨behind, rfl⟩ := List.head?_eq_some_iff.mp hhead
    rw [escape_plain (by simp)] at hmore
    have hslash : behind.head? = some '/' := by
      rw [← head?_escape, (List.cons.inj hmore).2, List.head?_cons]
    obtain ⟨last, rfl⟩ := List.head?_eq_some_iff.mp hslash
    exact ⟨last, rfl⟩
  · intro h
    obtain ⟨more, rfl⟩ := h
    exact ⟨escape more, escape_backslash_slash more⟩

/-- The backslashes that were put in are taken out again, and so are those that were there before. -/
theorem unescape_escape (s : Text) : unescape (escape s) = unescape s := by
  induction s using escape_induction with
  | nil => simp
  | terminated rest ih =>
    have hplain : unescape ('*' :: '/' :: rest) = '*' :: '/' :: unescape rest := by
      rw [unescape_plain (by simp), unescape_plain (by simp)]
    rw [escape_terminated, unescape_escaped, ih, hplain]
  | plain c rest h ih =>
    rw [escape_plain h]
    by_cases hescaped : c = '*' ∧ ∃ more, rest = '\\' :: '/' :: more
    · -- The text holds an escaped terminator here, which is read as a whole on both sides.
      obtain ⟨rfl, more, rfl⟩ := hescaped
      rw [escape_backslash_slash, unescape_backslash_slash, unescape_backslash_slash] at ih
      have hmore : unescape (escape more) = unescape more := by simpa using ih
      rw [escape_backslash_slash, unescape_escaped, unescape_escaped, hmore]
    · have hrest : c = '*' → ∀ more, rest ≠ '\\' :: '/' :: more := by
        intro hc more hmore
        exact hescaped ⟨hc, more, hmore⟩
      have hafter : c = '*' → ∀ more, escape rest ≠ '\\' :: '/' :: more := by
        intro hc more hmore
        exact hescaped ⟨hc, escape_eq_backslash_slash_iff.mp ⟨more, hmore⟩⟩
      rw [unescape_plain hrest, unescape_plain hafter, ih]

/-- Escaped text holds no terminator, so escaping it again changes nothing, and only text that holds one
is changed at all. What is put in are backslashes, and taking the backslash out of each escaped
terminator gives the same text whether it has been escaped or not. -/
theorem escaping_is_a_closure (s : Text) :
    occursIn "*/".toList (escape s) = false ∧
    escape (escape s) = escape s ∧
    (escape s = s ↔ occursIn "*/".toList s = false) ∧
    replaceAll "*\\/".toList "*/".toList (escape s) = replaceAll "*\\/".toList "*/".toList s ∧
    s.Sublist (escape s) ∧ (escape s).filter (· != '\\') = s.filter (· != '\\') := by
  have htwice : escape (escape s) = escape s := escape_eq_self_iff.mpr (not_occursIn_escape s)
  exact ⟨not_occursIn_escape s, htwice, escape_eq_self_iff, unescape_escape s, sublist_escape s,
    filter_escape s⟩

example : escape "**/*/ *\\/".toList = "**\\/*\\/ *\\/".toList := by
  decide +kernel

end ClassDocs.Comment
