import ClassDocs.DocComment
import ClassDocs.Proofs.Markup.Lexeme
import ClassDocs.Proofs.Markup.Piece
import ClassDocs.Proofs.Markup.TagContent

/-!
# What tags carry

The names, targets and languages that tags carry stand between brackets on one line and have no white
space at their ends. They are not empty either, with one exception: a reference whose name is white space
is read as one without a name, and it is shown as code without content.
-/

namespace ClassDocs

open Text Unicode

namespace Tag

/-- The name, target or language that a tag carries. -/
def payload? : Tag → Option Text
  | .reference _ name | .typeReference name => some name
  | .spanOpen (.link target) => target
  | .fenceOpen language _ | .rawFence language _ => language
  | _ => none

structure IsPayload (s : Text) : Prop where
  newline : '\n' ∉ s
  bracket : ']' ∉ s
  head : ∀ c, s.head? = some c → isWhiteSpace c = false
  last : ∀ c, s.getLast? = some c → isWhiteSpace c = false

/-- Whether a text is a reference between its brackets in which white space stands for the name. -/
def IsNameless (body : Text) : Prop :=
  ∃ (kind : ReferenceKind) (gap : Text),
    body = kind.keyword ++ ' ' :: gap ∧ gap ≠ [] ∧ Text.isBlank gap = true

section Payloads

variable {s body payload slice : Text} {tag : Tag}

theorem newline_bracket_notMem (h : ∀ c ∈ s, Slice.isBodyChar c = true) : '\n' ∉ s ∧ ']' ∉ s := by
  constructor
  · intro hmem
    exact absurd (h _ hmem) (by decide)
  · intro hmem
    exact absurd (h _ hmem) (by decide)

theorem isPayload_trim (h : s.all Slice.isBodyChar = true) : IsPayload (trim isWhiteSpace s) := by
  obtain ⟨hnewline, hbracket⟩ := newline_bracket_notMem fun c hc =>
    List.all_eq_true.mp h c (mem_of_mem_trim hc)
  exact ⟨hnewline, hbracket, fun _ => head?_trim, fun _ => getLast?_trim⟩

theorem isPayload_of_forall
    (h : ∀ c ∈ s, Slice.isBodyChar c = true ∧ isWhiteSpace c = false) : IsPayload s := by
  obtain ⟨hnewline, hbracket⟩ := newline_bracket_notMem fun c hc => (h c hc).1
  refine ⟨hnewline, hbracket, ?_, ?_⟩
  · intro c hc
    exact (h c (List.mem_of_mem_head? hc)).2
  · intro c hc
    exact (h c (List.mem_of_mem_getLast? hc)).2

theorem isPayload_of_isTypeName (h : isTypeName s = true) : IsPayload s := by
  have hbody := Token.isTypeName_iff.mp h
  have hspace : ∀ c, isWordChar c = true → (!isWhiteSpace c) = true := by
    intro c hc
    rw [Slice.not_whiteSpace_of_isInfoChar (Slice.isInfoChar_of_isWordChar hc)]
    rfl
  have hspaces := Token.all_of_mem_typeReference_bodies hspace (by decide) (by decide) hbody
  apply isPayload_of_forall
  intro c hc
  refine ⟨List.all_eq_true.mp (Token.startsType_of_mem_bodies hbody).1 c hc, ?_⟩
  simpa using List.all_eq_true.mp hspaces c hc

theorem isPayload_of_ofBody? (hchars : body.all Slice.isBodyChar = true)
    (h : ofBody? body = some tag) (hpayload : tag.payload? = some payload) :
    IsPayload payload ∧ (payload = [] → ∃ kind, tag = .reference kind []) := by
  cases isRead_of_ofBody? h with
  | fixed listed =>
    have hfixed : ∀ entry ∈ fixedBodies, entry.2.payload? = none := by decide
    exact absurd ((hfixed (body, tag) listed).symm.trans hpayload) (by simp)
  | plainFence => exact absurd hpayload (by simp [payload?])
  | fence attributes =>
    rw [List.all_append, List.all_cons, Bool.and_eq_true, Bool.and_eq_true] at hchars
    obtain ⟨hne, -⟩ := exists_word_of_attributeLanguage? hpayload
    refine ⟨isPayload_of_forall fun c hc => ?_, fun hnil => absurd hnil hne⟩
    obtain ⟨hmem, hspace⟩ := mem_of_attributeLanguage? hpayload hc
    exact ⟨List.all_eq_true.mp hchars.2.2 c hmem, hspace⟩
  | link c rest =>
    rw [List.all_append, Bool.and_eq_true] at hchars
    obtain ⟨rfl, hne⟩ := nonEmpty?_eq_some_iff.mp hpayload
    exact ⟨isPayload_trim hchars.2, fun hnil => absurd hnil hne⟩
  | reference kind c rest =>
    rw [List.all_append, List.all_cons, Bool.and_eq_true, Bool.and_eq_true] at hchars
    obtain rfl := Option.some.inj hpayload
    refine ⟨isPayload_trim hchars.2.2, fun hnil => ⟨kind, ?_⟩⟩
    rw [hnil]
  | type named =>
    obtain rfl := Option.some.inj hpayload
    refine ⟨isPayload_of_isTypeName named, ?_⟩
    rintro rfl
    exact absurd named (by decide)

theorem isPayload_of_ofSlice (h : Slice.Form slice) (hpayload : (ofSlice slice).payload? = some payload) :
    IsPayload payload ∧ (payload = [] → ∃ kind, ofSlice slice = .reference kind []) := by
  cases h with
  | newline | backtick => exact absurd hpayload (by simp [ofSlice, payload?])
  | bracket => exact absurd hpayload (by simp [ofSlice_bracket, payload?])
  | tag chars reads =>
    rw [ofSlice_bracketed, reads, Option.getD_some] at hpayload ⊢
    exact isPayload_of_ofBody? chars reads hpayload
  | @fence info chars =>
    obtain ⟨rfl, hne⟩ := nonEmpty?_eq_some_iff.mp hpayload
    refine ⟨isPayload_of_forall fun c hc => ?_, fun hnil => absurd hnil hne⟩
    have hinfo := List.all_eq_true.mp chars c hc
    exact ⟨Slice.isBodyChar_of_isInfoChar hinfo, Slice.not_whiteSpace_of_isInfoChar hinfo⟩
  | plain chars => exact absurd hpayload (by simp [ofSlice_plain chars, payload?])

end Payloads

def isReference : Tag → Bool
  | .reference _ _ | .typeReference _ => true
  | _ => false

theorem ofBody?_of_isNameless {body : Text} (h : IsNameless body) :
    ∃ kind, ofBody? body = some (.reference kind []) := by
  obtain ⟨kind, gap, rfl, hne, hblank⟩ := h
  obtain ⟨c, rest, rfl⟩ := List.exists_cons_of_ne_nil hne
  refine ⟨kind, ?_⟩
  rw [ofBody?_reference, trim_eq_nil_iff.mpr hblank]

theorem isNameless_of_ofBody? {body : Text} {kind : ReferenceKind}
    (h : ofBody? body = some (.reference kind [])) : IsNameless body := by
  generalize htag : Tag.reference kind [] = tag at h
  cases isRead_of_ofBody? h with
  | fixed listed =>
    have hfixed : ∀ entry ∈ fixedBodies, entry.2.payload? = none := by decide
    have hnone := hfixed (body, tag) listed
    rw [← htag] at hnone
    exact absurd hnone (by simp [payload?])
  | reference other c rest =>
    obtain ⟨-, hname⟩ := Tag.reference.inj htag
    exact ⟨other, c :: rest, rfl, by simp, trim_eq_nil_iff.mp hname.symm⟩
  | plainFence | fence | link | type => exact absurd htag (by simp)

theorem ofSlice_eq_nameless_iff {slice : Text} (h : Slice.Form slice) :
    (∃ kind, ofSlice slice = .reference kind []) ↔
      ∃ body, slice = bracketed body ∧ IsNameless body := by
  constructor
  · intro hnameless
    obtain ⟨kind, hkind⟩ := hnameless
    cases h with
    | newline | backtick => exact absurd hkind (by simp [ofSlice])
    | bracket => exact absurd hkind (by simp [ofSlice_bracket])
    | @tag body tag _ reads =>
      rw [ofSlice_bracketed, reads, Option.getD_some] at hkind
      exact ⟨body, rfl, isNameless_of_ofBody? (reads.trans (congrArg some hkind))⟩
    | fence => exact absurd hkind (by simp [ofSlice])
    | plain chars => exact absurd hkind (by simp [ofSlice_plain chars])
  · intro hbody
    obtain ⟨body, rfl, hbody⟩ := hbody
    obtain ⟨kind, hkind⟩ := ofBody?_of_isNameless hbody
    exact ⟨kind, by rw [ofSlice_bracketed, hkind, Option.getD_some]⟩

theorem inlineCode_eq_iff {content : Text} : inlineCode content = "``".toList ↔ content = [] := by
  cases content with
  | nil => simp [inlineCode]
  | cons c rest => by_cases hc : c = '`' <;> simp [inlineCode, hc]

/-- A reference is shown as inline code, and it is empty only without a name. -/
theorem rendered_reference_eq_iff {tag : Tag} (language : Text) (stack : List Span)
    (h : tag.isReference = true) :
    rendered (pieces language stack [tag]) = "``".toList ↔ tag.payload? = some [] := by
  have hpage : ∀ name, rendered [.code name] = inlineCode name := fun name => rfl
  cases tag with
  | reference kind name | typeReference name =>
    rw [pieces_alone rfl fun _ => rfl, pieces_nil, lonePiece, hpage, inlineCode_eq_iff, payload?,
      Option.some.injEq]
  | _ => exact absurd h (by simp [isReference])

end Tag

variable {source slice : Text} {tag : Tag}

theorem mem_tagsOf_of_mem_slices (h : slice ∈ slices source)
    (hne : ∀ s, Tag.ofSlice slice ≠ .text s) : Tag.ofSlice slice ∈ tagsOf source := by
  fun_induction slices source with
  | case1 => simp at h
  | case2 c rest ih =>
    rw [tagsOf_cons]
    rcases List.mem_cons.mp h with rfl | h
    · rw [prependTag_of_ne_text _ hne]
      exact List.mem_cons_self
    · exact mem_prependTag_of_mem (ih h) hne

theorem exists_slice_of_mem_tagsOf (h : tag ∈ tagsOf source) :
    (∃ s, tag = .text s) ∨ ∃ slice ∈ slices source, Tag.ofSlice slice = tag := by
  refine forall_mem_tagsOf
    (P := fun tag => (∃ s, tag = .text s) ∨ ∃ slice ∈ slices source, Tag.ofSlice slice = tag)
    ?_ ?_ tag h
  · intro slice hslice
    exact Or.inr ⟨slice, hslice, rfl⟩
  · intro s t _ _
    exact Or.inl ⟨s ++ t, rfl⟩

theorem isPayload_of_mem_tagsOf {payload : Text} (h : tag ∈ tagsOf source)
    (hpayload : tag.payload? = some payload) :
    Tag.IsPayload payload ∧ (payload = [] → ∃ kind, tag = .reference kind []) := by
  rcases exists_slice_of_mem_tagsOf h with ⟨s, rfl⟩ | ⟨slice, hslice, rfl⟩
  · exact absurd hpayload (by simp [Tag.payload?])
  · exact Tag.isPayload_of_ofSlice (Slice.form_of_mem_slices hslice) hpayload

theorem nameless_mem_tagsOf_iff :
    (∃ kind, .reference kind [] ∈ tagsOf source) ↔
      ∃ body, Tag.bracketed body ∈ slices source ∧ Tag.IsNameless body := by
  constructor
  · intro h
    obtain ⟨kind, hkind⟩ := h
    rcases exists_slice_of_mem_tagsOf hkind with ⟨s, hs⟩ | ⟨slice, hslice, hof⟩
    · exact absurd hs (by simp)
    · obtain ⟨body, rfl, hbody⟩ :=
        (Tag.ofSlice_eq_nameless_iff (Slice.form_of_mem_slices hslice)).mp ⟨kind, hof⟩
      exact ⟨body, hslice, hbody⟩
  · intro h
    obtain ⟨body, hslice, hbody⟩ := h
    obtain ⟨kind, hkind⟩ :=
      (Tag.ofSlice_eq_nameless_iff (Slice.form_of_mem_slices hslice)).mpr ⟨body, rfl, hbody⟩
    have hmem := mem_tagsOf_of_mem_slices hslice (by simp [hkind])
    exact ⟨kind, hkind ▸ hmem⟩

/-- What a tag carries holds no newline and no closing bracket and has no white space at its ends, and it
is empty only if it is the name of a reference. There is such a reference exactly if white space stands
for the name in a slice, and exactly then a reference is shown as code without content. -/
theorem payloads_are_well_formed_iff (source : Text) :
    ((∀ tag ∈ tagsOf source, ∀ payload, tag.payload? = some payload →
        payload ≠ [] ∧ Tag.IsPayload payload) ↔
      ¬∃ body, Tag.bracketed body ∈ slices source ∧ Tag.IsNameless body) ∧
    (∀ tag ∈ tagsOf source, ∀ payload, tag.payload? = some payload →
      Tag.IsPayload payload ∧ (payload = [] → ∃ kind, tag = .reference kind [])) ∧
    ∀ (language : Text) (stack : List Span),
      (∃ tag ∈ tagsOf source, tag.isReference = true ∧
        rendered (pieces language stack [tag]) = "``".toList) ↔
      ∃ body, Tag.bracketed body ∈ slices source ∧ Tag.IsNameless body := by
  have hpayloads : ∀ tag ∈ tagsOf source, ∀ payload, tag.payload? = some payload →
      Tag.IsPayload payload ∧ (payload = [] → ∃ kind, tag = .reference kind []) :=
    fun tag htag payload hpayload => isPayload_of_mem_tagsOf htag hpayload
  rw [← nameless_mem_tagsOf_iff]
  refine ⟨⟨?_, ?_⟩, hpayloads, fun language stack => ⟨?_, ?_⟩⟩
  · rintro hsound ⟨kind, hkind⟩
    exact (hsound _ hkind [] rfl).1 rfl
  · intro hnone tag htag payload hpayload
    obtain ⟨hsound, hempty⟩ := hpayloads tag htag payload hpayload
    refine ⟨?_, hsound⟩
    intro hnil
    obtain ⟨kind, rfl⟩ := hempty hnil
    exact hnone ⟨kind, htag⟩
  · rintro ⟨tag, htag, hreference, hrendered⟩
    have hpayload := (Tag.rendered_reference_eq_iff language stack hreference).mp hrendered
    obtain ⟨kind, rfl⟩ := (hpayloads tag htag [] hpayload).2 rfl
    exact ⟨kind, htag⟩
  · rintro ⟨kind, hkind⟩
    exact ⟨_, hkind, rfl, (Tag.rendered_reference_eq_iff language stack rfl).mpr rfl⟩

theorem padded_payloads_are_well_formed :
    tagsOf "[method \t a ][url= b ][url= ][codeblock lang=\"c\"]".toList =
      [.reference .method "a".toList, .spanOpen (.link (some "b".toList)), .spanOpen (.link none),
        .fenceOpen (some "c".toList) "[codeblock lang=\"c\"]".toList] ∧
    Tag.IsPayload "a".toList ∧ Tag.IsPayload "b".toList ∧ Tag.IsPayload "c".toList := by
  have htags : tagsOf "[method \t a ][url= b ][url= ][codeblock lang=\"c\"]".toList =
      [.reference .method "a".toList, .spanOpen (.link (some "b".toList)), .spanOpen (.link none),
        .fenceOpen (some "c".toList) "[codeblock lang=\"c\"]".toList] := by decide +kernel
  obtain ⟨-, hpayloads, -⟩ :=
    payloads_are_well_formed_iff "[method \t a ][url= b ][url= ][codeblock lang=\"c\"]".toList
  rw [htags] at hpayloads
  exact ⟨htags, (hpayloads (.reference .method "a".toList) (by simp) _ rfl).1,
    (hpayloads (.spanOpen (.link (some "b".toList))) (by simp) _ rfl).1,
    (hpayloads (.fenceOpen (some "c".toList) "[codeblock lang=\"c\"]".toList) (by simp) _ rfl).1⟩

theorem nameless_reference_is_shown_as_empty_code :
    (¬∀ tag ∈ tagsOf "[method  ]".toList, ∀ payload, tag.payload? = some payload →
      payload ≠ [] ∧ Tag.IsPayload payload) ∧
    DocComment.contentLines .default ["[method  ]".toList] = ["``".toList] := by
  have htags : tagsOf "[method  ]".toList = [.reference .method []] := by decide +kernel
  refine ⟨?_, by decide +kernel⟩
  rw [htags]
  intro hsound
  exact (hsound (.reference .method []) (by simp) [] rfl).1 rfl

end ClassDocs
