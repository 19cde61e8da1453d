import ClassDocs.Markup.Fence
import ClassDocs.Proofs.Markup.Display
import ClassDocs.Proofs.Text.Replace

/-!
# What tags hold

The first slice of a text makes the first tag, or a part of it if it is plain text. So plain text in
front is a prefix of the text, and it holds no newline and no three backticks in a row: a newline
makes a tag of its own, and three backticks start a fence.
-/

namespace ClassDocs

open Text Unicode

/-- Tags behind one more tag, which is merged if it is plain text in front of plain text. -/
def prependTag : Tag → List Tag → List Tag
  | .text s, .text t :: tags => .text (s ++ t) :: tags
  | tag, tags => tag :: tags

theorem prependTag_of_ne_text {tag : Tag} (tags : List Tag) (h : ∀ s, tag ≠ .text s) :
    prependTag tag tags = tag :: tags := by
  cases tag with
  | text s => exact absurd rfl (h s)
  | _ => rfl

theorem mergeText_cons (tag : Tag) (rest : List Tag) :
    mergeText (tag :: rest) = prependTag tag (mergeText rest) := by
  cases tag with
  | text s =>
    rw [mergeText]
    cases mergeText rest with
    | nil => rfl
    | cons other tags => cases other <;> rfl
  | _ => rfl

theorem prependTag_cases (first : Tag) (tags : List Tag) :
    prependTag first tags = first :: tags ∨ ∃ s t rest, first = .text s ∧ tags = .text t :: rest ∧
      prependTag first tags = .text (s ++ t) :: rest := by
  rw [prependTag.eq_def]
  split
  · exact Or.inr ⟨_, _, _, rfl, rfl, rfl⟩
  · exact Or.inl rfl

theorem mem_prependTag {tag first : Tag} {tags : List Tag} (h : tag ∈ prependTag first tags) :
    tag = first ∨ tag ∈ tags ∨
      ∃ s t rest, first = .text s ∧ tags = .text t :: rest ∧ tag = .text (s ++ t) := by
  rcases prependTag_cases first tags with hcons | ⟨s, t, rest, hs, ht, hcons⟩
  · rw [hcons] at h
    rcases List.mem_cons.mp h with h | h
    · exact Or.inl h
    · exact Or.inr (Or.inl h)
  · rw [hcons] at h
    rcases List.mem_cons.mp h with h | h
    · exact Or.inr (Or.inr ⟨s, t, rest, hs, ht, h⟩)
    · exact Or.inr (Or.inl (ht ▸ List.mem_cons_of_mem _ h))

theorem mem_prependTag_of_mem {tag first : Tag} {tags : List Tag} (h : tag ∈ tags)
    (htext : ∀ s, tag ≠ .text s) : tag ∈ prependTag first tags := by
  rcases prependTag_cases first tags with hcons | ⟨s, t, rest, -, rfl, hcons⟩
  · rw [hcons]
    exact List.mem_cons_of_mem first h
  · rw [hcons]
    exact List.mem_cons_of_mem _ (List.mem_of_ne_of_mem (htext t) h)

theorem prependTag_append (first : Tag) (tags : List Tag) {others : List Tag}
    (h : ∀ s rest, others ≠ .text s :: rest) :
    prependTag first (tags ++ others) = prependTag first tags ++ others := by
  cases first with
  | text s =>
    cases tags with
    | nil =>
      cases others with
      | nil => rfl
      | cons other rest =>
        cases other with
        | text t => exact absurd rfl (h t rest)
        | _ => rfl
    | cons tag tags => cases tag <;> rfl
  | _ => rfl

theorem tagsOf_cons (c : Char) (rest : Text) :
    tagsOf (c :: rest) =
      prependTag (Tag.ofSlice (c :: (Slice.cut c rest).1)) (tagsOf (Slice.cut c rest).2) := by
  rw [tagsOf, slices, List.map_cons, mergeText_cons]
  rfl

/-- What holds of the tag of every slice, and of joined texts if it holds of both, holds of every tag
of a text. -/
theorem forall_mem_tagsOf {P : Tag → Prop} {source : Text}
    (hslice : ∀ slice ∈ slices source, P (Tag.ofSlice slice))
    (hmerge : ∀ s t, P (.text s) → P (.text t) → P (.text (s ++ t))) :
    ∀ tag ∈ tagsOf source, P tag := by
  fun_induction slices source with
  | case1 => simp
  | case2 c rest ih =>
    have hfirst := hslice _ List.mem_cons_self
    have hrest := ih fun slice hmem => hslice slice (List.mem_cons_of_mem _ hmem)
    intro tag htag
    rw [tagsOf_cons] at htag
    rcases mem_prependTag htag with rfl | htag | ⟨s, t, tags, hs, ht, rfl⟩
    · exact hfirst
    · exact hrest tag htag
    · exact hmerge s t (hs ▸ hfirst) (hrest _ (by simp [ht]))

theorem Slice.newline_notMem {slice : Text} (h : Form slice) (hne : slice ≠ ['\n']) :
    '\n' ∉ slice := by
  cases h with
  | newline => exact absurd rfl hne
  | bracket | backtick => decide
  | @tag body _ chars =>
    have hbody : '\n' ∉ body := fun hmem => absurd (List.all_eq_true.mp chars _ hmem) (by decide)
    simpa [Tag.bracketed] using hbody
  | @fence info chars =>
    have hinfo : '\n' ∉ info := fun hmem => absurd (List.all_eq_true.mp chars _ hmem) (by decide)
    simpa using hinfo
  | plain chars => exact fun hmem => absurd (List.all_eq_true.mp chars _ hmem) (by decide)

theorem Slice.backtick_notMem {slice : Text} (h : slice.all isPlain = true) : '`' ∉ slice :=
  fun hmem => absurd (List.all_eq_true.mp h _ hmem) (by decide)

namespace Tag

def isBracketed : Tag → Bool
  | .text _ | .newline | .rawFence _ _ => false
  | _ => true

theorem isBracketed_of_ofBody? {body : Text} {tag : Tag} (h : ofBody? body = some tag) :
    tag.isBracketed = true := by
  cases isRead_of_ofBody? h with
  | fixed listed =>
    have hfixed : ∀ entry ∈ fixedBodies, entry.2.isBracketed = true := by decide
    exact hfixed (body, tag) listed
  | _ => rfl

theorem sublist_bracketed {s t : Text} (h : s.Sublist t) : (bracketed s).Sublist (bracketed t) :=
  (h.append (List.Sublist.refl [']'])).cons_cons '['

theorem trim_sublist (p : Char → Bool) (s : Text) : (trim p s).Sublist s := by
  obtain ⟨before, after, hs, -, -⟩ := exists_trim_append p s
  conv_rhs => rw [hs]
  exact (List.sublist_append_right before _).trans (List.sublist_append_left _ after)

theorem display_link_sublist (target : Text) :
    (Tag.spanOpen (.link (nonEmpty? target))).display.Sublist
      (bracketed ("url=".toList ++ target)) := by
  cases target with
  | nil => exact sublist_bracketed (List.sublist_append_left "url".toList ['='])
  | cons c rest => exact List.Sublist.refl _

theorem display_sublist_of_ofBody? {body : Text} {tag : Tag} (h : ofBody? body = some tag) :
    tag.display.Sublist (bracketed body) := by
  by_cases hpadded : IsPadded body
  -- A padded name loses the white space at its ends, and every other tag is displayed as it is written.
  · rcases hpadded with ⟨target, rfl, htrim⟩ | ⟨kind, name, rfl, htrim⟩
    · cases target with
      | nil => exact absurd rfl htrim
      | cons c rest =>
        obtain rfl := Option.some.inj (h.symm.trans (ofBody?_link c rest))
        have htarget := trim_sublist isWhiteSpace (c :: rest)
        exact (display_link_sublist _).trans
          (sublist_bracketed ((List.Sublist.refl "url=".toList).append htarget))
    · cases name with
      | nil => exact absurd rfl htrim
      | cons c rest =>
        obtain rfl := Option.some.inj (h.symm.trans (ofBody?_reference kind c rest))
        have hname := trim_sublist isWhiteSpace (c :: rest)
        exact sublist_bracketed ((List.Sublist.refl kind.keyword).append (hname.cons_cons ' '))
  · rw [display_of_not_isPadded h hpadded]

theorem display_ofSlice_sublist {slice : Text} (h : Slice.Form slice) :
    (ofSlice slice).display.Sublist slice := by
  cases h with
  | newline | bracket | backtick => exact List.Sublist.refl _
  | tag _ reads =>
    rw [ofSlice_bracketed, reads, Option.getD_some]
    exact display_sublist_of_ofBody? reads
  | fence => exact List.Sublist.refl _
  | plain chars =>
    rw [ofSlice_plain chars]
    exact List.Sublist.refl _

theorem ofSlice_bracket : ofSlice ['['] = .bracket := rfl

theorem ofSlice_eq_text {slice s : Text} (h : Slice.Form slice) (htext : ofSlice slice = .text s) :
    s = slice ∧ (slice = ['`'] ∨ slice.all Slice.isPlain = true) := by
  cases h with
  | newline | fence => exact absurd htext (by simp [ofSlice])
  | bracket => exact absurd htext (by simp [ofSlice_bracket])
  | @tag body tag _ reads =>
    rw [ofSlice_bracketed, reads, Option.getD_some] at htext
    exact absurd (isBracketed_of_ofBody? reads) (by simp [htext, isBracketed])
  | backtick => exact ⟨(Tag.text.inj htext).symm, Or.inl rfl⟩
  | plain chars =>
    rw [ofSlice_plain chars] at htext
    exact ⟨(Tag.text.inj htext).symm, Or.inr chars⟩

theorem ofSlice_eq_rawFence {slice fence : Text} {language : Option Text} (h : Slice.Form slice)
    (hfence : ofSlice slice = .rawFence language fence) :
    fence = slice ∧ ∃ info, slice = "```".toList ++ info ∧ info.all Slice.isInfoChar = true ∧
      language = nonEmpty? info := by
  cases h with
  | newline | backtick => exact absurd hfence (by simp [ofSlice])
  | bracket => exact absurd hfence (by simp [ofSlice_bracket])
  | @tag body tag _ reads =>
    rw [ofSlice_bracketed, reads, Option.getD_some] at hfence
    exact absurd (isBracketed_of_ofBody? reads) (by simp [hfence, isBracketed])
  | @fence info chars =>
    obtain ⟨hlanguage, hslice⟩ := Tag.rawFence.inj hfence
    exact ⟨hslice.symm, info, rfl, chars, hlanguage.symm⟩
  | plain chars => exact absurd hfence (by simp [ofSlice_plain chars])

end Tag

theorem tagsOf_bracketed_append (body : Text) {tag : Tag} (tail : Text)
    (hbody : body.all Slice.isBodyChar = true) (htag : Tag.ofBody? body = some tag) :
    tagsOf (Tag.bracketed body ++ tail) = tag :: tagsOf tail := by
  have hsource : Tag.bracketed body ++ tail = '[' :: (body ++ ']' :: tail) := by
    rw [Tag.bracketed, List.cons_append, List.append_assoc, List.singleton_append]
  have hne : ∀ s, tag ≠ .text s := by
    rintro s rfl
    exact absurd (Tag.isBracketed_of_ofBody? htag) Bool.false_ne_true
  rw [hsource, tagsOf_cons, Slice.cut_bracketed tail hbody htag]
  dsimp only
  rw [← Tag.bracketed, Tag.ofSlice_bracketed, htag, Option.getD_some, prependTag_of_ne_text _ hne]

theorem newline_notMem_display {source : Text} {tag : Tag} (h : tag ∈ tagsOf source)
    (hne : tag ≠ .newline) : '\n' ∉ tag.display := by
  refine forall_mem_tagsOf (P := fun tag => tag ≠ .newline → '\n' ∉ tag.display) ?_ ?_ tag h hne
  · intro slice hslice hne hmem
    have hform := Slice.form_of_mem_slices hslice
    apply Slice.newline_notMem hform
    · rintro rfl
      exact hne rfl
    · exact (Tag.display_ofSlice_sublist hform).subset hmem
  · intro s t hs ht _
    simpa [Tag.display] using And.intro (hs (by simp)) (ht (by simp))

theorem mem_of_mem_display {source : Text} {tag : Tag} (h : tag ∈ tagsOf source) {c : Char}
    (hc : c ∈ tag.display) : c ∈ source := by
  refine forall_mem_tagsOf (P := fun tag => c ∈ tag.display → c ∈ source) ?_ ?_ tag h hc
  · intro slice hslice hmem
    have hdisplay := (Tag.display_ofSlice_sublist (Slice.form_of_mem_slices hslice)).subset hmem
    rw [← flatten_slices source]
    exact List.mem_flatten_of_mem hslice hdisplay
  · intro s t hs ht hmem
    exact (List.mem_append.mp hmem).elim hs ht

theorem text_nil_notMem_tagsOf (source : Text) : .text [] ∉ tagsOf source := by
  intro h
  refine forall_mem_tagsOf (P := fun tag => tag ≠ .text []) ?_ ?_ _ h rfl
  · intro slice hslice htext
    obtain ⟨rfl, -⟩ := Tag.ofSlice_eq_text (Slice.form_of_mem_slices hslice) htext
    have hform := Slice.form_of_mem_slices hslice
    generalize hnil : ([] : Text) = slice at hform
    cases hform <;> simp [Tag.bracketed] at hnil
  · intro s t hs _ hjoined
    apply hs
    rw [(List.append_eq_nil_iff.mp (Tag.text.inj hjoined)).1]

theorem prefix_of_tagsOf_eq {source s : Text} {tags : List Tag}
    (h : tagsOf source = .text s :: tags) : s <+: source := by
  fun_induction slices source generalizing s tags with
  | case1 => exact absurd h (by simp)
  | case2 c rest ih =>
    have hform := Slice.form_cut c rest
    have hsource : (c :: (Slice.cut c rest).1) ++ (Slice.cut c rest).2 = c :: rest := by
      rw [List.cons_append, Slice.cut_append]
    rw [tagsOf_cons] at h
    rcases prependTag_cases (Tag.ofSlice (c :: (Slice.cut c rest).1)) (tagsOf (Slice.cut c rest).2) with
      hcons | ⟨first, t, more, hfirst, ht, hcons⟩
    · rw [hcons] at h
      obtain ⟨rfl, -⟩ := Tag.ofSlice_eq_text hform (List.cons.inj h).1
      exact ⟨_, hsource⟩
    · obtain ⟨rfl, -⟩ := Tag.ofSlice_eq_text hform hfirst
      rw [hcons] at h
      obtain rfl := Tag.text.inj (List.cons.inj h).1
      rw [← hsource]
      exact (List.prefix_append_right_inj _).mpr (ih ht)

/-- The tags of a line stand between newlines as if the line were a text of its own, whatever stands on
the other lines, and neither a slice nor a tag goes on past the end of its line. -/
theorem lines_are_read_on_their_own :
    (∀ a b : Text, tagsOf (a ++ ['\n'] ++ b) = tagsOf a ++ [.newline] ++ tagsOf b) ∧
    (∀ (before : List Text) (line : Text) (after : List Text),
      tagsOf (unlines (before ++ line :: after)) =
        before.flatMap (fun other => tagsOf other ++ [.newline]) ++ tagsOf line ++
          after.flatMap fun other => .newline :: tagsOf other) ∧
    ∀ source : Text, (∀ slice ∈ slices source, slice = ['\n'] ∨ '\n' ∉ slice) ∧
      ∀ tag ∈ tagsOf source, tag = .newline ∨ '\n' ∉ tag.display := by
  refine ⟨fun a b => ?_, fun before line after => ?_, fun source => ⟨?_, ?_⟩⟩
  · rw [List.append_assoc, List.append_assoc, List.singleton_append, List.singleton_append,
      tagsOf_append_newline]
  · rw [tagsOf_unlines_append_cons, tagsOf_unlines_cons, List.append_assoc]
  · intro slice hslice
    rw [Classical.or_iff_not_imp_left]
    exact Slice.newline_notMem (Slice.form_of_mem_slices hslice)
  · intro tag htag
    rw [Classical.or_iff_not_imp_left]
    exact newline_notMem_display htag

theorem unfinished_link_stays_on_its_line :
    tagsOf (unlines ["``[url=x".toList, "]y".toList]) =
      [.text "``".toList, .bracket, .text "url=x".toList, .newline, .text "]y".toList] ∧
    "[url=x\n]".toList ∉ slices (unlines ["``[url=x".toList, "]y".toList]) := by
  obtain ⟨-, hlines, hwithin⟩ := lines_are_read_on_their_own
  have hfirst : tagsOf "``[url=x".toList = [.text "``".toList, .bracket, .text "url=x".toList] := by
    decide +kernel
  have hsecond : tagsOf "]y".toList = [.text "]y".toList] := by decide +kernel
  refine ⟨?_, fun hslice => ?_⟩
  · have hread := hlines [] "``[url=x".toList ["]y".toList]
    rwa [List.flatMap_nil, List.flatMap_singleton, hfirst, hsecond] at hread
  · rcases (hwithin _).1 _ hslice with hnewline | hnewline
    · exact absurd hnewline (by decide)
    · exact absurd hnewline (by decide)

namespace Tag

def namedLanguage? : Tag → Option Text
  | .fenceOpen named _ | .rawFence named _ => named
  | _ => none

theorem exists_word_of_attributeLanguage? {attributes language : Text}
    (h : attributeLanguage? attributes = some language) :
    language ≠ [] ∧ ∃ word ∈ words attributes, ∀ c ∈ language, c ∈ word := by
  obtain ⟨value, hvalue, hlanguage⟩ := Option.bind_eq_some_iff.mp h
  obtain ⟨word, hword, hstrip⟩ := List.exists_of_findSome?_eq_some hvalue
  obtain rfl := stripPrefix?_eq_some_iff.mp hstrip
  obtain ⟨htrim, hne⟩ := nonEmpty?_eq_some_iff.mp hlanguage
  refine ⟨hne, _, hword, fun c hc => ?_⟩
  rw [← htrim] at hc
  exact List.mem_append_right _ (mem_of_mem_trim hc)

theorem mem_of_attributeLanguage? {attributes language : Text} {c : Char}
    (h : attributeLanguage? attributes = some language) (hc : c ∈ language) :
    c ∈ attributes ∧ isWhiteSpace c = false := by
  obtain ⟨-, word, hword, hchars⟩ := exists_word_of_attributeLanguage? h
  exact mem_of_mem_splitOnP (List.mem_filter.mp hword).1 (hchars c hc)

theorem not_whiteSpace_of_ofBody? {body language : Text} {tag : Tag} {c : Char}
    (h : ofBody? body = some tag) (hnamed : tag.namedLanguage? = some language) (hc : c ∈ language) :
    isWhiteSpace c = false := by
  cases isRead_of_ofBody? h with
  | fixed listed =>
    have hfixed : ∀ entry ∈ fixedBodies, entry.2.namedLanguage? = none := by decide
    exact absurd ((hfixed (body, tag) listed).symm.trans hnamed) (by simp)
  | fence => exact (mem_of_attributeLanguage? hnamed hc).2
  | plainFence | link | reference | type => exact absurd hnamed (by simp [namedLanguage?])

end Tag

theorem not_whiteSpace_of_namedLanguage {source language : Text} {tag : Tag} {c : Char}
    (h : tag ∈ tagsOf source) (hnamed : tag.namedLanguage? = some language) (hc : c ∈ language) :
    isWhiteSpace c = false := by
  refine forall_mem_tagsOf
    (P := fun tag => tag.namedLanguage? = some language → isWhiteSpace c = false) ?_ ?_ tag h hnamed
  · intro slice hslice hnamed
    have hform := Slice.form_of_mem_slices hslice
    cases hform with
    | newline | bracket | backtick =>
      exact absurd (show (none : Option Text) = some language from hnamed) (by simp)
    | @tag body tag _ reads =>
      rw [Tag.ofSlice_bracketed, reads, Option.getD_some] at hnamed
      exact Tag.not_whiteSpace_of_ofBody? reads hnamed hc
    | @fence info chars =>
      obtain ⟨rfl, -⟩ := nonEmpty?_eq_some_iff.mp hnamed
      exact Slice.not_whiteSpace_of_isInfoChar (List.all_eq_true.mp chars _ hc)
    | plain chars =>
      rw [Tag.ofSlice_plain chars] at hnamed
      exact absurd hnamed (by simp [Tag.namedLanguage?])
  · exact fun _ _ _ _ htext => absurd htext (by simp [Tag.namedLanguage?])

theorem return_notMem_namedLanguage {source language : Text} {tag : Tag} (h : tag ∈ tagsOf source)
    (hnamed : tag.namedLanguage? = some language) : '\r' ∉ language :=
  fun hmem => absurd (not_whiteSpace_of_namedLanguage h hnamed hmem) (by decide)

namespace Fence

theorem occursIn_append_of_notMem {s : Text} (t : Text) (h : '`' ∉ s) :
    occursIn shortest (s ++ t) = occursIn shortest t := by
  induction s with
  | nil => rfl
  | cons c s ih =>
    obtain ⟨hc, hs⟩ := List.ne_and_not_mem_of_not_mem_cons h
    have hstarts : shortest.isPrefixOf (c :: (s ++ t)) = false := by
      rw [Bool.eq_false_iff, Ne, List.isPrefixOf_iff_prefix]
      exact fun hrun => hc (List.cons_prefix_cons.mp hrun).1
    rw [List.cons_append, occursIn, hstarts, Bool.false_or, ih hs]

theorem occursIn_backtick_cons {t : Text} (hpair : ¬"``".toList <+: t) :
    occursIn shortest ('`' :: t) = occursIn shortest t := by
  have hstarts : shortest.isPrefixOf ('`' :: t) = false := by
    rw [Bool.eq_false_iff, Ne, List.isPrefixOf_iff_prefix]
    exact fun hrun => hpair ((List.cons_prefix_cons.mp hrun).2)
  rw [occursIn, hstarts, Bool.false_or]

end Fence

theorem Slice.not_prefix_of_cut {rest : Text} (h : (cut '`' rest).1 = []) :
    ¬"``".toList <+: rest := by
  rintro ⟨info, rfl⟩
  rw [cut, if_neg (by decide), if_neg (by decide), if_pos rfl,
    stripPrefix?_eq_some_iff.mpr rfl] at h
  exact absurd h (by simp)

/-- Three backticks in a row are never plain text. -/
theorem not_occursIn_of_text_mem {source s : Text} (h : .text s ∈ tagsOf source) :
    occursIn Fence.shortest s = false := by
  fun_induction slices source generalizing s with
  | case1 => exact absurd h (by simp)
  | case2 c rest ih =>
    have hform := Slice.form_cut c rest
    rw [tagsOf_cons] at h
    rcases mem_prependTag h with hs | h | ⟨first, t, tags, hfirst, ht, hs⟩
    · obtain ⟨rfl, hslice | hslice⟩ := Tag.ofSlice_eq_text hform hs.symm
      · rw [hslice]
        decide
      · have hocc := Fence.occursIn_append_of_notMem [] (Slice.backtick_notMem hslice)
        rwa [List.append_nil] at hocc
    · exact ih h
    · obtain rfl := Tag.text.inj hs
      have hrest := ih (s := t) (by simp [ht])
      obtain ⟨rfl, hslice | hslice⟩ := Tag.ofSlice_eq_text hform hfirst
      · obtain ⟨rfl, hcut⟩ := List.cons.inj hslice
        have hafter := Slice.cut_append '`' rest
        rw [hcut, List.nil_append] at hafter
        have hpair : ¬"``".toList <+: t := fun hstarts =>
          Slice.not_prefix_of_cut hcut (hafter ▸ hstarts.trans (prefix_of_tagsOf_eq ht))
        rw [hslice, List.singleton_append, Fence.occursIn_backtick_cons hpair, hrest]
      · rw [Fence.occursIn_append_of_notMem t (Slice.backtick_notMem hslice), hrest]

end ClassDocs
