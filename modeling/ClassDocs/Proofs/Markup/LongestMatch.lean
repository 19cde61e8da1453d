import ClassDocs.Proofs.Markup.Lexeme

/-!
# Longest matches

Cutting takes the longest lexeme at each place: there is one at every place of a text, so nothing is
left over, and a text is cut in this way once only. Each slice belongs to one token, and it has all the
parts that the token's tag is made of.
-/

namespace ClassDocs

open Text

structure IsLongestMatch (slice s : Text) : Prop where
  ne_nil : slice ≠ []
  starts : slice <+: s
  lexeme : ∃ token : Token, slice ∈ token.lexemes
  longest : ∀ other, other <+: s → (∃ token : Token, other ∈ token.lexemes) →
    other.length ≤ slice.length

/-- Whether a text is cut from left to right into longest lexemes of the text that is left. -/
def LongestCut : Text → List Text → Prop
  | s, [] => s = []
  | s, slice :: parts => ∃ rest, s = slice ++ rest ∧ IsLongestMatch slice s ∧ LongestCut rest parts

theorem IsLongestMatch.unique {slice other s : Text} (h : IsLongestMatch slice s)
    (hother : IsLongestMatch other s) : slice = other := by
  have hle := hother.longest slice h.starts h.lexeme
  have hge := h.longest other hother.starts hother.lexeme
  exact (List.prefix_of_prefix_length_le h.starts hother.starts hle).eq_of_length
    (Nat.le_antisymm hle hge)

theorem LongestCut.unique {s : Text} {parts others : List Text} (h : LongestCut s parts)
    (hothers : LongestCut s others) : parts = others := by
  induction parts generalizing s others with
  | nil =>
    obtain rfl : s = [] := h
    cases others with
    | nil => rfl
    | cons slice others =>
      obtain ⟨rest, hs, hslice, -⟩ := hothers
      exact absurd (List.append_eq_nil_iff.mp hs.symm).1 hslice.ne_nil
  | cons slice parts ih =>
    obtain ⟨rest, hs, hslice, hrest⟩ := h
    cases others with
    | nil =>
      obtain rfl : s = [] := hothers
      exact absurd (List.append_eq_nil_iff.mp hs.symm).1 hslice.ne_nil
    | cons other others =>
      obtain ⟨rest', hs', hother, hrest'⟩ := hothers
      obtain rfl := hslice.unique hother
      obtain rfl := List.append_cancel_left (hs.symm.trans hs')
      rw [ih hrest hrest']

/-- No text of the form of a slice reaches farther than the slice that is cut. -/
theorem Slice.length_le_of_form {c : Char} {rest other : Text} (h : Form other)
    (hstarts : other <+: c :: rest) : other.length ≤ (c :: (cut c rest).1).length := by
  obtain ⟨tail, htail⟩ := hstarts
  cases h with
  | newline | bracket | backtick =>
    rw [List.length_singleton, List.length_cons]
    omega
  | @tag body tag chars reads =>
    rw [Tag.bracketed, List.cons_append, List.append_assoc, List.singleton_append] at htail
    obtain ⟨rfl, rfl⟩ := List.cons.inj htail
    rw [cut_bracketed tail chars reads, Tag.bracketed]
  | @fence info chars =>
    have hsource : '`' :: ("``".toList ++ (info ++ tail)) = c :: rest := by
      rw [← htail, List.append_assoc]
      rfl
    obtain ⟨rfl, hrest⟩ := List.cons.inj hsource
    have hstrip : stripPrefix? "``".toList rest = some (info ++ tail) :=
      stripPrefix?_eq_some_iff.mpr hrest.symm
    rw [cut, if_neg (by decide), if_neg (by decide), if_pos rfl, hstrip]
    dsimp only
    rw [List.takeWhile_append_of_pos (List.all_eq_true.mp chars)]
    simp
  | @plain d more chars =>
    rw [List.cons_append] at htail
    obtain ⟨rfl, rfl⟩ := List.cons.inj htail
    rw [List.all_cons, Bool.and_eq_true] at chars
    obtain ⟨hnewline, hbracket, hbacktick⟩ := isPlain_iff.mp chars.1
    rw [cut, if_neg hnewline, if_neg hbracket, if_neg hbacktick,
      List.takeWhile_append_of_pos (List.all_eq_true.mp chars.2)]
    simp

theorem isLexeme_iff {s : Text} : (∃ token : Token, s ∈ token.lexemes) ↔ Slice.Form s := by
  constructor
  · rintro ⟨token, htoken⟩
    exact (Token.mem_lexemes_iff.mp htoken).1
  · exact fun hform => ⟨Token.ofSlice s, Token.mem_lexemes_iff.mpr ⟨hform, rfl⟩⟩

theorem isLongestMatch_cut (c : Char) (rest : Text) :
    IsLongestMatch (c :: (Slice.cut c rest).1) (c :: rest) where
  ne_nil := by simp
  starts := ⟨(Slice.cut c rest).2, by rw [List.cons_append, Slice.cut_append]⟩
  lexeme := isLexeme_iff.mpr (Slice.form_cut c rest)
  longest _ hstarts hother := Slice.length_le_of_form (isLexeme_iff.mp hother) hstarts

theorem longestCut_slices (source : Text) : LongestCut source (slices source) := by
  fun_induction slices source with
  | case1 => exact rfl
  | case2 c rest ih =>
    exact ⟨(Slice.cut c rest).2, by rw [List.cons_append, Slice.cut_append],
      isLongestMatch_cut c rest, ih⟩

/-- The slices of a text are the one way to cut it into longest lexemes, and there is a lexeme to cut
off at every place. Each slice is a lexeme of one token, has all the parts that the token's tag is made
of, and the tags of the text are these tags with neighbouring plain text merged. -/
theorem slices_are_longest_matches (source : Text) :
    LongestCut source (slices source) ∧ (∃! parts, LongestCut source parts) ∧
    (slices source).flatten = source ∧
    (∀ slice ∈ slices source, ∃! token : Token, slice ∈ token.lexemes) ∧
    (∀ before after, source = before ++ after → after ≠ [] → ∃ slice, IsLongestMatch slice after) ∧
    ∃ (tokens : List Token) (tags : List Tag),
      List.Forall₂ (fun token slice => slice ∈ token.lexemes) tokens (slices source) ∧
      List.zipWith Token.tag? tokens (slices source) = tags.map some ∧
      tagsOf source = mergeText tags := by
  have hform : ∀ slice ∈ slices source, Slice.Form slice := fun _ => Slice.form_of_mem_slices
  refine ⟨longestCut_slices source, ⟨_, longestCut_slices source, ?_⟩, flatten_slices source, ?_, ?_,
    (slices source).map Token.ofSlice, (slices source).map Tag.ofSlice, ?_, ?_, rfl⟩
  · exact fun parts hparts => hparts.unique (longestCut_slices source)
  · intro slice hslice
    refine ⟨Token.ofSlice slice, Token.mem_lexemes_iff.mpr ⟨hform slice hslice, rfl⟩, ?_⟩
    exact fun token htoken => (Token.mem_lexemes_iff.mp htoken).2.symm
  · rintro before (_ | ⟨c, rest⟩) - hne
    · exact absurd rfl hne
    · exact ⟨_, isLongestMatch_cut c rest⟩
  · rw [List.forall₂_map_left_iff, List.forall₂_same]
    exact fun slice hslice => Token.mem_lexemes_iff.mpr ⟨hform slice hslice, rfl⟩
  · rw [List.zipWith_map_left, List.zipWith_self, List.map_map]
    exact List.map_congr_left fun slice hslice => Token.tag?_ofSlice (hform slice hslice)

theorem lone_bracket_is_longest_match :
    slices "[code[b]".toList = ["[".toList, "code".toList, "[b]".toList] ∧
    LongestCut "[code[b]".toList ["[".toList, "code".toList, "[b]".toList] ∧
    (∃! token : Token, "[b]".toList ∈ token.lexemes) ∧
    ∃ slice, IsLongestMatch slice "code[b]".toList := by
  have hslices : slices "[code[b]".toList = ["[".toList, "code".toList, "[b]".toList] := by
    decide +kernel
  obtain ⟨hcut, -, -, htokens, hplaces, -⟩ := slices_are_longest_matches "[code[b]".toList
  rw [hslices] at hcut htokens
  exact ⟨hslices, hcut, htokens "[b]".toList (by simp),
    hplaces "[".toList "code[b]".toList rfl (by decide)⟩

end ClassDocs
