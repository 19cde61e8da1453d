import ClassDocs.Proofs.Markup.TagContent
import Mathlib.Data.List.Chain

/-!
# Tags side by side

Plain text reaches as far as it can: no more of it follows, and what follows the info word of a fence
does not go on with the word. So a text is made of tags in one way, in which plain text holds nothing
that starts another tag.
-/

namespace ClassDocs

open Text

theorem Slice.cut_backtick_cases (rest : Text) :
    cut '`' rest = ([], rest) ∨ ∃ info, rest = "``".toList ++ info ∧
      cut '`' rest = ("``".toList ++ info.takeWhile isInfoChar, info.dropWhile isInfoChar) := by
  rw [cut, if_neg (by decide), if_neg (by decide), if_pos rfl]
  cases hstrip : stripPrefix? "``".toList rest with
  | none => exact Or.inl rfl
  | some info => exact Or.inr ⟨info, stripPrefix?_eq_some_iff.mp hstrip, rfl⟩

/-- The info word of a fence takes every character that can stand in it. -/
theorem Slice.not_isInfoChar_behind {c d : Char} {rest fence : Text} {language : Option Text}
    (hfence : Tag.ofSlice (c :: (cut c rest).1) = .rawFence language fence)
    (hd : (cut c rest).2.head? = some d) : isInfoChar d = false := by
  obtain ⟨-, info, hslice, -⟩ := Tag.ofSlice_eq_rawFence (form_cut c rest) hfence
  have hcons : c :: (cut c rest).1 = '`' :: '`' :: '`' :: info := hslice
  obtain ⟨rfl, hcut⟩ := List.cons.inj hcons
  rcases cut_backtick_cases rest with halone | ⟨behind, -, hlong⟩
  · rw [halone] at hcut
    exact absurd hcut (by simp)
  · rw [hlong] at hd
    exact head?_trimStart isInfoChar behind d hd

/-- Whether the second of two tags can stand right behind the first. -/
def Tag.Precedes : Tag → Tag → Prop
  | .text _, .text _ => False
  | .rawFence _ _, .text s => ∀ c, s.head? = some c → Slice.isInfoChar c = false
  | _, _ => True

theorem isChain_text {s : Text} (t : Text) {tags : List Tag}
    (h : (.text t :: tags).IsChain Tag.Precedes) : (.text s :: tags).IsChain Tag.Precedes := by
  apply h.imp_head
  intro tag htag
  cases tag with
  | text => exact htag
  | _ => trivial

theorem isChain_prependTag {first : Tag} {tags : List Tag}
    (hfence : ∀ language fence s more, first = .rawFence language fence → tags = .text s :: more →
      ∀ c, s.head? = some c → Slice.isInfoChar c = false)
    (htags : tags.IsChain Tag.Precedes) : (prependTag first tags).IsChain Tag.Precedes := by
  cases tags with
  | nil => cases first <;> exact List.isChain_singleton _
  | cons tag tags =>
    cases first with
    | text s =>
      cases tag with
      | text t => exact isChain_text t htags
      | _ => exact List.isChain_cons_cons.mpr ⟨trivial, htags⟩
    | rawFence language fence =>
      refine List.isChain_cons_cons.mpr ⟨?_, htags⟩
      cases tag with
      | text s => exact hfence language fence s tags rfl rfl
      | _ => trivial
    | _ => exact List.isChain_cons_cons.mpr ⟨trivial, htags⟩

theorem isChain_tagsOf (source : Text) : (tagsOf source).IsChain Tag.Precedes := by
  fun_induction slices source with
  | case1 => simp
  | case2 c rest ih =>
    rw [tagsOf_cons]
    apply isChain_prependTag _ ih
    intro language fence s tags hfence htags d hd
    apply Slice.not_isInfoChar_behind hfence
    obtain ⟨behind, hbehind⟩ := prefix_of_tagsOf_eq htags
    rw [← hbehind, List.head?_append, hd, Option.some_or]

theorem bracket_notMem_of_text_mem {source s : Text} (h : .text s ∈ tagsOf source) : '[' ∉ s := by
  refine forall_mem_tagsOf (P := fun tag => ∀ s, tag = .text s → '[' ∉ s) ?_ ?_ _ h s rfl
  · intro slice hslice s htext
    obtain ⟨rfl, rfl | hplain⟩ := Tag.ofSlice_eq_text (Slice.form_of_mem_slices hslice) htext
    · decide
    · intro hmem
      exact absurd (List.all_eq_true.mp hplain _ hmem) (by decide)
  · intro s t hs ht joined hjoined
    rw [← Tag.text.inj hjoined, List.mem_append, not_or]
    exact ⟨hs s rfl, ht t rfl⟩

theorem getD_nonEmpty? (s : Text) : (nonEmpty? s).getD [] = s := by
  cases s <;> rfl

theorem eq_of_rawFence_mem {source fence : Text} {language : Option Text}
    (h : .rawFence language fence ∈ tagsOf source) : fence = "```".toList ++ language.getD [] := by
  refine forall_mem_tagsOf (P := fun tag => ∀ language fence, tag = .rawFence language fence →
    fence = "```".toList ++ language.getD []) ?_ ?_ _ h language fence rfl
  · intro slice hslice language fence hfence
    obtain ⟨rfl, info, hinfo, -, rfl⟩ :=
      Tag.ofSlice_eq_rawFence (Slice.form_of_mem_slices hslice) hfence
    rw [hinfo, getD_nonEmpty?]
  · intro s t _ _ language fence hfence
    exact absurd hfence (by simp)

/-- No plain text stands right behind plain text, and plain text is not empty and holds no bracket, no
newline and no three backticks in a row. A fence is written as three backticks and its language, if it
has one, and plain text behind it does not start with a character that could go on with the language. -/
theorem tag_stream_is_canonical (source : Text) :
    (∀ (before : List Tag) (s t : Text) (after : List Tag),
      tagsOf source ≠ before ++ .text s :: .text t :: after) ∧
    (∀ s : Text, .text s ∈ tagsOf source →
      s ≠ [] ∧ '[' ∉ s ∧ '\n' ∉ s ∧ occursIn "```".toList s = false) ∧
    (∀ (language : Option Text) (fence : Text), .rawFence language fence ∈ tagsOf source →
      fence = "```".toList ++ language.getD []) ∧
    ∀ (before : List Tag) (language : Option Text) (fence : Text) (c : Char) (s : Text)
      (after : List Tag),
      tagsOf source = before ++ .rawFence language fence :: .text (c :: s) :: after →
      Slice.isInfoChar c = false := by
  have hchain := isChain_tagsOf source
  refine ⟨?_, ?_, ?_, ?_⟩
  · intro before s t after htags
    rw [htags, List.isChain_append_cons_cons] at hchain
    exact hchain.2.1
  · intro s hs
    have hne : s ≠ [] := by
      intro hnil
      exact text_nil_notMem_tagsOf source (hnil ▸ hs)
    have hnewline : '\n' ∉ s := newline_notMem_display hs (by simp)
    exact ⟨hne, bracket_notMem_of_text_mem hs, hnewline, not_occursIn_of_text_mem hs⟩
  · intro language fence hfence
    exact eq_of_rawFence_mem hfence
  · intro before language fence c s after htags
    rw [htags, List.isChain_append_cons_cons] at hchain
    exact hchain.2.1 c rfl

theorem split_fence_is_canonical :
    tagsOf "a`b```gd-x y``".toList =
      [.text "a`b".toList, .rawFence (some "gd-x".toList) "```gd-x".toList, .text " y``".toList] ∧
    ("a`b".toList ≠ [] ∧ '[' ∉ "a`b".toList ∧ '\n' ∉ "a`b".toList ∧
      occursIn "```".toList "a`b".toList = false) ∧
    "```gd-x".toList = "```".toList ++ (some "gd-x".toList).getD [] ∧
    Slice.isInfoChar ' ' = false := by
  have htags : tagsOf "a`b```gd-x y``".toList =
      [.text "a`b".toList, .rawFence (some "gd-x".toList) "```gd-x".toList,
        .text " y``".toList] := by decide +kernel
  obtain ⟨-, htext, hfence, hbehind⟩ := tag_stream_is_canonical "a`b```gd-x y``".toList
  rw [htags] at htext hfence
  exact ⟨htags, htext _ (by simp), hfence _ _ (by simp),
    hbehind [.text "a`b".toList] _ _ ' ' "y``".toList [] htags⟩

end ClassDocs
