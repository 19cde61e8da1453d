import ClassDocs.Proofs.Markup.TagStream
import Mathlib.Data.Option.Basic

/-!
# Tags are written as they are read

A tag is written as the slice that it is read from, with one exception: the white space around a
link's target and around a referenced name is not kept. So the tags of a text join to the text exactly
if no slice has such white space.
-/

namespace ClassDocs

open Text Unicode

theorem Text.nonEmpty?_eq_some_iff {s t : Text} : nonEmpty? s = some t ↔ s = t ∧ t ≠ [] := by
  cases s with
  | nil => simp [nonEmpty?, eq_comm]
  | cons c rest =>
    have hkept : nonEmpty? (c :: rest) = some (c :: rest) := rfl
    rw [hkept, Option.some.injEq, iff_self_and]
    intro h
    simp [← h]

namespace Tag

/-- Whether a link's target or a referenced name has white space at an end. -/
def IsPadded (body : Text) : Prop :=
  (∃ target, body = "url=".toList ++ target ∧ trim isWhiteSpace target ≠ target) ∨
    ∃ (kind : ReferenceKind) (name : Text), body = kind.keyword ++ ' ' :: name ∧
      trim isWhiteSpace name ≠ name

section Readers

variable {body : Text} {tag : Tag}

theorem fenceOfBody?_eq_some_iff :
    fenceOfBody? body = some tag ↔
      body = "codeblock".toList ∧ tag = .fenceOpen none (bracketed body) ∨
      ∃ attributes, body = "codeblock".toList ++ ' ' :: attributes ∧
        tag = .fenceOpen (attributeLanguage? attributes) (bracketed body) := by
  rw [fenceOfBody?]
  constructor
  · intro h
    split at h
    next hstrip =>
      have hbody := stripPrefix?_eq_some_iff.mp hstrip
      rw [List.append_nil] at hbody
      exact Or.inl ⟨hbody, (Option.some.inj h).symm⟩
    next attributes hstrip =>
      exact Or.inr ⟨attributes, stripPrefix?_eq_some_iff.mp hstrip, (Option.some.inj h).symm⟩
    next => exact absurd h (by simp)
  · rintro (⟨rfl, rfl⟩ | ⟨attributes, rfl, rfl⟩) <;> rfl

theorem linkOfBody?_eq_some_iff :
    linkOfBody? body = some tag ↔ ∃ c rest, body = "url=".toList ++ c :: rest ∧
      tag = .spanOpen (.link (nonEmpty? (trim isWhiteSpace (c :: rest)))) := by
  rw [linkOfBody?]
  constructor
  · intro h
    split at h
    next c rest hstrip =>
      exact ⟨c, rest, stripPrefix?_eq_some_iff.mp hstrip, (Option.some.inj h).symm⟩
    · exact absurd h (by simp)
  · rintro ⟨c, rest, rfl, rfl⟩
    rfl

theorem referenceOfBody?_eq_some_iff :
    referenceOfBody? body = some tag ↔ ∃ (kind : ReferenceKind) (c : Char) (rest : Text),
      body = kind.keyword ++ ' ' :: c :: rest ∧
        tag = .reference kind (trim isWhiteSpace (c :: rest)) := by
  constructor
  · intro h
    rw [referenceOfBody?] at h
    split at h
    next c rest hname =>
      obtain ⟨kind, hkind, rfl⟩ := Option.map_eq_some_iff.mp h
      refine ⟨kind, c, rest, ?_, rfl⟩
      rw [ReferenceKind.keyword_of_ofKeyword? hkind, ← hname, List.takeWhile_append_dropWhile]
    · exact absurd h (by simp)
  · rintro ⟨kind, c, rest, rfl, rfl⟩
    cases kind <;> rfl

/-- What a text between brackets is read as, one case for each way to write a tag. -/
inductive IsRead : Text → Tag → Prop where
  | fixed {body : Text} {tag : Tag} (listed : (body, tag) ∈ fixedBodies) : IsRead body tag
  | plainFence : IsRead "codeblock".toList (.fenceOpen none (bracketed "codeblock".toList))
  | fence (attributes : Text) :
      IsRead ("codeblock".toList ++ ' ' :: attributes)
        (.fenceOpen (attributeLanguage? attributes)
          (bracketed ("codeblock".toList ++ ' ' :: attributes)))
  | link (c : Char) (rest : Text) :
      IsRead ("url=".toList ++ c :: rest)
        (.spanOpen (.link (nonEmpty? (trim isWhiteSpace (c :: rest)))))
  | reference (kind : ReferenceKind) (c : Char) (rest : Text) :
      IsRead (kind.keyword ++ ' ' :: c :: rest) (.reference kind (trim isWhiteSpace (c :: rest)))
  | type {name : Text} (named : isTypeName name = true) : IsRead name (.typeReference name)

theorem isRead_of_ofBody? (h : ofBody? body = some tag) : IsRead body tag := by
  simp only [ofBody?, Option.orElse_eq_some] at h
  rcases h with h | ⟨-, h | ⟨-, h | ⟨-, h | ⟨-, h⟩⟩⟩⟩
  · obtain ⟨before, after, hbodies, -⟩ := List.lookup_eq_some_iff.mp h
    exact .fixed (by simp [hbodies])
  · rcases fenceOfBody?_eq_some_iff.mp h with ⟨rfl, rfl⟩ | ⟨attributes, rfl, rfl⟩
    · exact .plainFence
    · exact .fence attributes
  · obtain ⟨c, rest, rfl, rfl⟩ := linkOfBody?_eq_some_iff.mp h
    exact .link c rest
  · obtain ⟨kind, c, rest, rfl, rfl⟩ := referenceOfBody?_eq_some_iff.mp h
    exact .reference kind c rest
  · rw [typeOfBody?] at h
    split at h
    next hname =>
      obtain rfl := Option.some.inj h
      exact .type hname
    next => exact absurd h (by simp)

end Readers

section Padding

variable {body : Text} {tag : Tag}

theorem ofBody?_link (c : Char) (rest : Text) :
    ofBody? ("url=".toList ++ c :: rest) =
      some (.spanOpen (.link (nonEmpty? (trim isWhiteSpace (c :: rest))))) := by
  rfl

theorem ofBody?_reference (kind : ReferenceKind) (c : Char) (rest : Text) :
    ofBody? (kind.keyword ++ ' ' :: c :: rest) =
      some (.reference kind (trim isWhiteSpace (c :: rest))) := by
  cases kind <;> rfl

theorem length_display_link_le (target : Text) :
    (Tag.spanOpen (.link (nonEmpty? target))).display.length ≤
      (bracketed ("url=".toList ++ target)).length := by
  cases target with
  | nil => decide
  | cons c rest => exact Nat.le_refl _

theorem exists_ofBody?_of_isPadded (h : IsPadded body) :
    ∃ tag, ofBody? body = some tag ∧ tag.display.length < (bracketed body).length := by
  rcases h with ⟨target, rfl, htrim⟩ | ⟨kind, name, rfl, htrim⟩
  · cases target with
    | nil => exact absurd rfl htrim
    | cons c rest =>
      refine ⟨_, ofBody?_link c rest, ?_⟩
      have hdisplay := length_display_link_le (trim isWhiteSpace (c :: rest))
      have hshorter := length_trim_lt htrim
      simp only [bracketed, List.length_cons, List.length_append] at hdisplay hshorter ⊢
      omega
  · cases name with
    | nil => exact absurd rfl htrim
    | cons c rest =>
      refine ⟨_, ofBody?_reference kind c rest, ?_⟩
      have hshorter := length_trim_lt htrim
      simp only [display, bracketed, List.length_cons, List.length_append] at hshorter ⊢
      omega

theorem display_of_not_isPadded (h : ofBody? body = some tag) (hbody : ¬IsPadded body) :
    tag.display = bracketed body := by
  cases isRead_of_ofBody? h with
  | fixed listed =>
    have hfixed : ∀ entry ∈ fixedBodies, entry.2.display = bracketed entry.1 := by decide
    exact hfixed (body, tag) listed
  | plainFence | fence | type => rfl
  | link c rest =>
    have htrim : trim isWhiteSpace (c :: rest) = c :: rest := by
      by_contra htrim
      exact hbody (.inl ⟨c :: rest, rfl, htrim⟩)
    rw [htrim]
    rfl
  | reference kind c rest =>
    have htrim : trim isWhiteSpace (c :: rest) = c :: rest := by
      by_contra htrim
      exact hbody (.inr ⟨kind, c :: rest, rfl, htrim⟩)
    rw [htrim]
    rfl

end Padding

theorem length_display_ofSlice_le {slice : Text} (h : Slice.Form slice) :
    (ofSlice slice).display.length ≤ slice.length := by
  cases h with
  | newline | bracket | backtick => decide
  | @tag body tag _ hreads =>
    rw [ofSlice_bracketed, hreads, Option.getD_some]
    by_cases hpadded : IsPadded body
    · obtain ⟨found, hfound, hshorter⟩ := exists_ofBody?_of_isPadded hpadded
      obtain rfl := Option.some.inj (hreads.symm.trans hfound)
      exact Nat.le_of_lt hshorter
    · rw [display_of_not_isPadded hreads hpadded]
  | fence => exact Nat.le_refl _
  | plain chars => rw [ofSlice_plain chars, display]

theorem display_ofSlice {slice : Text} (h : Slice.Form slice)
    (hbody : ∀ body, slice = bracketed body → ¬IsPadded body) : (ofSlice slice).display = slice := by
  cases h with
  | newline | bracket | backtick => rfl
  | tag _ hreads =>
    rw [ofSlice_bracketed, hreads, Option.getD_some]
    exact display_of_not_isPadded hreads (hbody _ rfl)
  | fence => rfl
  | plain chars => rw [ofSlice_plain chars, display]

theorem flatMap_display_mergeText (tags : List Tag) :
    (mergeText tags).flatMap display = tags.flatMap display := by
  fun_induction mergeText tags with
  | case1 => rfl
  | case2 s rest t tags hrest ih =>
    rw [hrest, List.flatMap_cons, display] at ih
    rw [List.flatMap_cons, List.flatMap_cons, display, display, ← ih, List.append_assoc]
  | case3 s rest _ ih => rw [List.flatMap_cons, ih, List.flatMap_cons]
  | case4 tag rest _ ih => rw [List.flatMap_cons, ih, List.flatMap_cons]

end Tag

theorem flatMap_display_tagsOf (source : Text) :
    (tagsOf source).flatMap Tag.display =
      (slices source).flatMap fun slice => (Tag.ofSlice slice).display := by
  rw [tagsOf, Tag.flatMap_display_mergeText, List.flatMap_map]

/-- If no part of a text gets longer, the text stays as it is only if every part does. -/
theorem flatMap_eq_flatten_iff {parts : List Text} {f : Text → Text}
    (h : ∀ part ∈ parts, (f part).length ≤ part.length) :
    parts.flatMap f = parts.flatten ↔ ∀ part ∈ parts, f part = part := by
  have hlength : ∀ {more : List Text}, (∀ part ∈ more, (f part).length ≤ part.length) →
      (more.flatMap f).length ≤ more.flatten.length := by
    intro more hmore
    induction more with
    | nil => exact Nat.le_refl _
    | cons part more ih =>
      have hpart := hmore part List.mem_cons_self
      have hrest := ih fun other hother => hmore other (List.mem_cons_of_mem part hother)
      rw [List.flatMap_cons, List.flatten_cons, List.length_append, List.length_append]
      omega
  induction parts with
  | nil => simp
  | cons part parts ih =>
    have hpart := h part List.mem_cons_self
    have hparts : ∀ other ∈ parts, (f other).length ≤ other.length :=
      fun other hother => h other (List.mem_cons_of_mem part hother)
    have hrest := hlength hparts
    rw [List.flatMap_cons, List.flatten_cons, List.forall_mem_cons]
    constructor
    · intro heq
      have htotal := congrArg List.length heq
      rw [List.length_append, List.length_append] at htotal
      obtain ⟨hsame, hothers⟩ := List.append_inj heq (by omega)
      exact ⟨hsame, (ih hparts).mp hothers⟩
    · rintro ⟨hsame, hothers⟩
      rw [hsame, (ih hparts).mpr hothers]

/-- The tags of a text join to the text exactly if no link's target and no referenced name in it has
white space at an end. -/
theorem tags_display_as_source_iff (source : Text) :
    (tagsOf source).flatMap Tag.display = source ↔
      ∀ body, Tag.bracketed body ∈ slices source → ¬Tag.IsPadded body := by
  have hform : ∀ slice ∈ slices source, Slice.Form slice := fun _ => Slice.form_of_mem_slices
  have hshort : ∀ slice ∈ slices source, (Tag.ofSlice slice).display.length ≤ slice.length :=
    fun slice hslice => Tag.length_display_ofSlice_le (hform slice hslice)
  have hsource := flatMap_eq_flatten_iff hshort
  rw [flatten_slices, ← flatMap_display_tagsOf] at hsource
  rw [hsource]
  constructor
  · intro hsame body hbody hpadded
    obtain ⟨tag, hreads, hshorter⟩ := Tag.exists_ofBody?_of_isPadded hpadded
    have hdisplay := hsame _ hbody
    rw [Tag.ofSlice_bracketed, hreads, Option.getD_some] at hdisplay
    rw [hdisplay] at hshorter
    exact Nat.lt_irrefl _ hshorter
  · intro hbodies slice hslice
    apply Tag.display_ofSlice (hform slice hslice)
    rintro body rfl
    exact hbodies body hslice

theorem padded_reference_displays_trimmed :
    (tagsOf "[method  foo]".toList).flatMap Tag.display = "[method foo]".toList ∧
    (tagsOf "[method  foo]".toList).flatMap Tag.display ≠ "[method  foo]".toList := by
  decide +kernel

end ClassDocs
