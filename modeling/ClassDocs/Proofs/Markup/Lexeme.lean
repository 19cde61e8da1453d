import ClassDocs.Proofs.Markup.Token

/-!
# Lexemes

The texts of a token are the slices that are read as the token, and such a slice has all the parts that
the token's tag is made of.
-/

namespace ClassDocs

open Text Unicode

namespace Token

def startsType (s : Text) : Bool :=
  s.head?.any fun c => c == '@' || c.isUpper

/-- The rest of a type's name behind its first capital letter. -/
def typeRests : Language Char :=
  manyOf isWordChar * (1 + {".".toList} * someOf isWordChar)

theorem mem_typeRests {rest : Text} :
    rest ∈ typeRests ↔ (match rest.dropWhile isWordChar with
      | [] => true
      | '.' :: d :: member => (d :: member).all isWordChar
      | _ => false) = true := by
  constructor
  · intro h
    obtain ⟨word, hword, tail, htail, rfl⟩ := Language.mem_mul.mp h
    rw [List.dropWhile_append_of_pos hword]
    rcases mem_optional.mp htail with rfl | ⟨member, hmember, rfl⟩
    · rfl
    · obtain ⟨d, more, rfl, hchars⟩ := mem_someOf.mp hmember
      exact hchars
  · intro h
    refine Language.mem_mul.mpr ⟨rest.takeWhile isWordChar, mem_manyOf.mpr List.all_takeWhile,
      rest.dropWhile isWordChar, mem_optional.mpr ?_, List.takeWhile_append_dropWhile⟩
    split at h
    next hrest => exact Or.inl hrest
    next d member hrest => exact Or.inr ⟨_, mem_someOf.mpr ⟨d, member, rfl, h⟩, hrest⟩
    next => exact absurd h Bool.false_ne_true

theorem mem_upper_mul {s : Text} {language : Language Char} :
    s ∈ oneOf Char.isUpper * language ↔ ∃ c rest, s = c :: rest ∧ c.isUpper = true ∧ rest ∈ language := by
  rw [Language.mem_mul]
  constructor
  · rintro ⟨first, ⟨c, hc, rfl⟩, rest, hrest, rfl⟩
    exact ⟨c, rest, rfl, hc, hrest⟩
  · rintro ⟨c, rest, rfl, hc, hrest⟩
    exact ⟨[c], ⟨c, hc, rfl⟩, rest, hrest, rfl⟩

theorem isTypeName_iff_getD {body : Text} :
    Tag.isTypeName body = true ↔
      (stripPrefix? "@".toList body).getD body ∈ oneOf Char.isUpper * typeRests := by
  rw [Tag.isTypeName, mem_upper_mul]
  cases (stripPrefix? "@".toList body).getD body with
  | nil => simp
  | cons c rest =>
    simp only [Bool.and_eq_true, List.cons.injEq, mem_typeRests]
    constructor
    · rintro ⟨hc, hrest⟩
      exact ⟨c, rest, ⟨rfl, rfl⟩, hc, hrest⟩
    · rintro ⟨d, more, ⟨rfl, rfl⟩, hc, hrest⟩
      exact ⟨hc, hrest⟩

theorem mem_typeReference_bodies {body : Text} : body ∈ typeReference.bodies ↔
    body ∈ oneOf Char.isUpper * typeRests ∨
      ∃ name ∈ oneOf Char.isUpper * typeRests, body = "@".toList ++ name := by
  rw [bodies, add_mul, one_mul, Language.mem_add, mem_word_mul]
  rfl

theorem isTypeName_iff {body : Text} : Tag.isTypeName body = true ↔ body ∈ typeReference.bodies := by
  rw [isTypeName_iff_getD, mem_typeReference_bodies]
  cases hstrip : stripPrefix? "@".toList body with
  | none =>
    rw [Option.getD_none]
    refine ⟨Or.inl, fun h => h.resolve_right ?_⟩
    rintro ⟨name, -, hbody⟩
    exact absurd (hstrip.symm.trans (stripPrefix?_eq_some_iff.mpr hbody)) (by simp)
  | some name =>
    have hbody := stripPrefix?_eq_some_iff.mp hstrip
    rw [Option.getD_some]
    constructor
    · exact fun hname => Or.inr ⟨name, hname, hbody⟩
    · rintro (hupper | ⟨other, hother, heq⟩)
      · obtain ⟨c, rest, hcons, hc, -⟩ := mem_upper_mul.mp hupper
        obtain ⟨rfl, -⟩ := List.cons.inj (hcons.symm.trans hbody)
        exact absurd hc (by decide)
      · rwa [List.append_cancel_left (hbody.symm.trans heq)]

section TypeChars

variable {p : Char → Bool}

theorem all_of_mem_typeRests (hword : ∀ c, isWordChar c = true → p c = true) (hpoint : p '.' = true)
    {rest : Text} (h : rest ∈ typeRests) : rest.all p = true := by
  have hall : ∀ {s : Text}, s.all isWordChar = true → s.all p = true := fun hs =>
    List.all_eq_true.mpr fun c hc => hword c (List.all_eq_true.mp hs c hc)
  obtain ⟨word, hchars, tail, htail, rfl⟩ := Language.mem_mul.mp h
  rw [List.all_append, hall (mem_manyOf.mp hchars), Bool.true_and]
  rcases mem_optional.mp htail with rfl | ⟨member, hmember, rfl⟩
  · rfl
  · obtain ⟨d, more, rfl, hmore⟩ := mem_someOf.mp hmember
    rw [List.all_append, hall hmore, Bool.and_true]
    simpa using hpoint

theorem all_of_mem_upper_mul (hword : ∀ c, isWordChar c = true → p c = true) (hpoint : p '.' = true)
    {name : Text} (h : name ∈ oneOf Char.isUpper * typeRests) : name.all p = true := by
  obtain ⟨c, rest, rfl, hc, hrest⟩ := mem_upper_mul.mp h
  have halpha : c.isAlpha = (c.isUpper || c.isLower) := rfl
  have hfirst : isWordChar c = true := by simp [isWordChar, Char.isAlphanum, halpha, hc]
  rw [List.all_cons, hword c hfirst, all_of_mem_typeRests hword hpoint hrest]
  rfl

theorem all_of_mem_typeReference_bodies (hword : ∀ c, isWordChar c = true → p c = true)
    (hpoint : p '.' = true) (hat : p '@' = true) {body : Text} (h : body ∈ typeReference.bodies) :
    body.all p = true := by
  rcases mem_typeReference_bodies.mp h with hname | ⟨name, hname, rfl⟩
  · exact all_of_mem_upper_mul hword hpoint hname
  · rw [List.all_append, all_of_mem_upper_mul hword hpoint hname, Bool.and_true]
    simpa using hat

end TypeChars

theorem startsType_of_mem_bodies {body : Text} (h : body ∈ typeReference.bodies) :
    body.all Slice.isBodyChar = true ∧ startsType body = true := by
  have hword : ∀ c, isWordChar c = true → Slice.isBodyChar c = true := fun _ hc =>
    Slice.isBodyChar_of_isInfoChar (Slice.isInfoChar_of_isWordChar hc)
  refine ⟨all_of_mem_typeReference_bodies hword rfl rfl h, ?_⟩
  rcases mem_typeReference_bodies.mp h with hname | ⟨name, -, rfl⟩
  · obtain ⟨c, rest, rfl, hc, -⟩ := mem_upper_mul.mp hname
    simp [startsType, hc]
  · rfl

/-- A type's name starts as no other body does. -/
theorem ofBody?_of_startsType {body : Text} (h : startsType body = true) :
    Tag.ofBody? body = Tag.typeOfBody? body := by
  have hlookup : Tag.fixedBodies.lookup body = none := by
    have hfixed : ∀ entry ∈ Tag.fixedBodies, startsType entry.1 = false := by decide
    rw [List.lookup_eq_none_iff]
    intro entry hentry
    rw [bne_iff_ne]
    rintro rfl
    exact absurd h (by simp [hfixed entry hentry])
  have hfence : Tag.fenceOfBody? body = none := by
    rw [Option.eq_none_iff_forall_ne_some]
    intro tag htag
    rcases Tag.fenceOfBody?_eq_some_iff.mp htag with ⟨rfl, -⟩ | ⟨attributes, rfl, -⟩
    · exact absurd h (by decide)
    · exact absurd h Bool.false_ne_true
  have hlink : Tag.linkOfBody? body = none := by
    rw [Option.eq_none_iff_forall_ne_some]
    intro tag htag
    obtain ⟨c, rest, rfl, -⟩ := Tag.linkOfBody?_eq_some_iff.mp htag
    exact absurd h Bool.false_ne_true
  have hreference : Tag.referenceOfBody? body = none := by
    rw [Option.eq_none_iff_forall_ne_some]
    intro tag htag
    obtain ⟨kind, c, rest, rfl, -⟩ := Tag.referenceOfBody?_eq_some_iff.mp htag
    cases kind <;> exact absurd h Bool.false_ne_true
  rw [Tag.ofBody?, hlookup, hfence, hlink, hreference]
  rfl

theorem exists_ofBody?_of_mem_bodies {token : Token} {body : Text} (h : body ∈ token.bodies) :
    body.all Slice.isBodyChar = true ∧ ∃ tag, Tag.ofBody? body = some tag ∧ tag.token = token := by
  cases token with
  | newline | text | bracket | backtick | rawFence => exact absurd h (Language.notMem_zero body)
  | spanOpen kind =>
    cases kind with
    | link =>
      obtain ⟨rest, hrest, rfl⟩ := mem_word_mul.mp h
      rcases mem_optional.mp hrest with rfl | ⟨target, htarget, rfl⟩
      · exact ⟨rfl, _, rfl, rfl⟩
      · obtain ⟨c, more, rfl, hchars⟩ := mem_someOf.mp htarget
        exact ⟨hchars, _, Tag.ofBody?_link c more, rfl⟩
    | _ =>
      obtain rfl := Set.mem_singleton_iff.mp h
      exact ⟨rfl, _, rfl, rfl⟩
  | spanClose kind =>
    obtain rfl := Set.mem_singleton_iff.mp h
    cases kind <;> exact ⟨rfl, _, rfl, rfl⟩
  | codeOpen style | codeClose style =>
    obtain rfl := Set.mem_singleton_iff.mp h
    cases style <;> exact ⟨rfl, _, rfl, rfl⟩
  | fenceOpen =>
    obtain ⟨rest, hrest, rfl⟩ := mem_word_mul.mp h
    rcases mem_optional.mp hrest with rfl | ⟨attributes, hchars, rfl⟩
    · exact ⟨rfl, _, rfl, rfl⟩
    · have hall := mem_manyOf.mp hchars
      exact ⟨hall, _, rfl, rfl⟩
  | fenceClose | lineBreak | leftBracket | rightBracket =>
    obtain rfl := Set.mem_singleton_iff.mp h
    exact ⟨rfl, _, rfl, rfl⟩
  | languageOpen =>
    have hread : ∀ word ∈ sampleLanguages, word.all Slice.isBodyChar = true ∧
        Tag.ofBody? word = some (.languageOpen word) := by decide
    exact ⟨(hread body h).1, _, (hread body h).2, rfl⟩
  | languageClose =>
    have hread : ∀ word ∈ sampleLanguages, ("/".toList ++ word).all Slice.isBodyChar = true ∧
        Tag.ofBody? ("/".toList ++ word) = some (.languageClose word) := by decide
    obtain ⟨word, hword, rfl⟩ := mem_word_mul.mp h
    exact ⟨(hread word hword).1, _, (hread word hword).2, rfl⟩
  | reference =>
    obtain ⟨keyword, hkeyword, rest, hrest, rfl⟩ := Language.mem_mul.mp h
    obtain ⟨name, hname, rfl⟩ := mem_word_mul.mp hrest
    obtain ⟨c, more, rfl, hchars⟩ := mem_someOf.mp hname
    obtain ⟨kind, rfl⟩ := mem_keywords.mp hkeyword
    have hall : (kind.keyword ++ ' ' :: c :: more).all Slice.isBodyChar = true := by
      cases kind <;> exact hchars
    exact ⟨hall, _, Tag.ofBody?_reference kind c more, rfl⟩
  | typeReference =>
    obtain ⟨hall, hstarts⟩ := startsType_of_mem_bodies h
    refine ⟨hall, .typeReference body, ?_, rfl⟩
    rw [ofBody?_of_startsType hstarts, Tag.typeOfBody?, if_pos (isTypeName_iff.mpr h)]

theorem mem_bodies_of_ofBody? {body : Text} {tag : Tag} (hchars : body.all Slice.isBodyChar = true)
    (h : Tag.ofBody? body = some tag) : body ∈ tag.token.bodies := by
  cases Tag.isRead_of_ofBody? h with
  | fixed listed =>
    have hfixed : ∀ entry ∈ Tag.fixedBodies, entry.1 ∈ entry.2.token.bodies := by
      have hlink : "url".toList ∈ (Token.spanOpen .link).bodies :=
        mem_word_mul.mpr ⟨[], mem_optional.mpr (Or.inl rfl), rfl⟩
      have hopen : ∀ word ∈ sampleLanguages, word ∈ languageOpen.bodies := fun _ hword => hword
      have hclose : ∀ word ∈ sampleLanguages, '/' :: word ∈ languageClose.bodies :=
        fun word hword => mem_word_mul.mpr ⟨word, hword, rfl⟩
      simp only [Tag.fixedBodies, List.forall_mem_cons, Tag.token, Span.kind]
      exact ⟨rfl, rfl, rfl, rfl, hlink, rfl, rfl, rfl, rfl, rfl, rfl, rfl, rfl, hopen _ (by decide),
        hclose _ (by decide), hopen _ (by decide), hclose _ (by decide), rfl, rfl, rfl, by simp⟩
    exact hfixed (body, tag) listed
  | plainFence => exact mem_word_mul.mpr ⟨[], mem_optional.mpr (Or.inl rfl), rfl⟩
  | fence attributes =>
    have hattributes : attributes.all Slice.isBodyChar = true := hchars
    refine mem_word_mul.mpr ⟨' ' :: attributes, mem_optional.mpr (Or.inr ⟨attributes, ?_, rfl⟩), rfl⟩
    exact mem_manyOf.mpr hattributes
  | link c rest =>
    refine mem_word_mul.mpr ⟨'=' :: c :: rest, mem_optional.mpr (Or.inr ⟨c :: rest, ?_, rfl⟩), rfl⟩
    exact mem_someOf.mpr ⟨c, rest, rfl, hchars⟩
  | reference kind c rest =>
    rw [List.all_append, Bool.and_eq_true] at hchars
    refine Language.mem_mul.mpr ⟨kind.keyword, mem_keywords.mpr ⟨kind, rfl⟩, ' ' :: c :: rest, ?_, rfl⟩
    exact mem_word_mul.mpr ⟨c :: rest, mem_someOf.mpr ⟨c, rest, rfl, hchars.2⟩, rfl⟩
  | type named => exact isTypeName_iff.mp named

theorem mem_bodies_iff {token : Token} {body : Text} :
    body ∈ token.bodies ↔ body.all Slice.isBodyChar = true ∧
      ∃ tag, Tag.ofBody? body = some tag ∧ tag.token = token := by
  constructor
  · exact exists_ofBody?_of_mem_bodies
  · rintro ⟨hchars, tag, htag, rfl⟩
    exact mem_bodies_of_ofBody? hchars htag

theorem mem_bracketed_iff {slice : Text} {language : Language Char} :
    slice ∈ {"[".toList} * language * {"]".toList} ↔ ∃ body ∈ language, slice = Tag.bracketed body := by
  rw [mul_assoc, mem_word_mul]
  constructor
  · rintro ⟨rest, hrest, rfl⟩
    obtain ⟨body, hbody, last, rfl, rfl⟩ := Language.mem_mul.mp hrest
    exact ⟨body, hbody, rfl⟩
  · rintro ⟨body, hbody, rfl⟩
    exact ⟨body ++ "]".toList, Language.mem_mul.mpr ⟨body, hbody, _, rfl, rfl⟩, rfl⟩

theorem bracketed_mem_lexemes {token : Token} {body : Text} (h : body ∈ token.bodies) :
    Tag.bracketed body ∈ token.lexemes := by
  have hbracketed := mem_bracketed_iff.mpr ⟨body, h, rfl⟩
  cases token with
  | newline | text | bracket | backtick | rawFence => exact absurd h (Language.notMem_zero body)
  | _ => exact hbracketed

theorem ofSlice_of_ne {slice : Text} (h : slice ≠ ['`']) :
    ofSlice slice = (Tag.ofSlice slice).token := by
  rw [ofSlice]
  exact h

theorem ofSlice_tag {body : Text} {tag : Tag} (h : Tag.ofBody? body = some tag) :
    ofSlice (Tag.bracketed body) = tag.token := by
  have hne : Tag.bracketed body ≠ ['`'] := by simp [Tag.bracketed]
  rw [ofSlice_of_ne hne, Tag.ofSlice_bracketed, h, Option.getD_some]

theorem ofSlice_plain {c : Char} {rest : Text} (h : (c :: rest).all Slice.isPlain = true) :
    ofSlice (c :: rest) = .text := by
  have hne : c :: rest ≠ ['`'] := by
    intro heq
    rw [heq] at h
    exact absurd h (by decide)
  rw [ofSlice_of_ne hne, Tag.ofSlice_plain h, Tag.token]

/-- The texts of a token are the slices that are read as the token. -/
theorem mem_lexemes_iff {token : Token} {slice : Text} :
    slice ∈ token.lexemes ↔ Slice.Form slice ∧ ofSlice slice = token := by
  constructor
  · intro h
    have hbracketed : slice ∈ {"[".toList} * token.bodies * {"]".toList} →
        Slice.Form slice ∧ ofSlice slice = token := by
      intro h
      obtain ⟨body, hbody, rfl⟩ := mem_bracketed_iff.mp h
      obtain ⟨hchars, tag, htag, rfl⟩ := mem_bodies_iff.mp hbody
      exact ⟨.tag hchars htag, ofSlice_tag htag⟩
    cases token with
    | newline =>
      obtain rfl := Set.mem_singleton_iff.mp h
      exact ⟨.newline, rfl⟩
    | text =>
      obtain ⟨c, rest, rfl, hchars⟩ := mem_someOf.mp h
      exact ⟨.plain hchars, ofSlice_plain hchars⟩
    | bracket =>
      obtain rfl := Set.mem_singleton_iff.mp h
      exact ⟨.bracket, rfl⟩
    | backtick =>
      obtain rfl := Set.mem_singleton_iff.mp h
      exact ⟨.backtick, rfl⟩
    | rawFence =>
      obtain ⟨info, hinfo, rfl⟩ := mem_word_mul.mp h
      exact ⟨.fence (mem_manyOf.mp hinfo), rfl⟩
    | _ => exact hbracketed h
  · rintro ⟨hform, rfl⟩
    cases hform with
    | newline | bracket | backtick => exact rfl
    | tag hchars htag =>
      rw [ofSlice_tag htag]
      exact bracketed_mem_lexemes (mem_bodies_iff.mpr ⟨hchars, _, htag, rfl⟩)
    | @fence info hchars => exact mem_word_mul.mpr ⟨info, mem_manyOf.mpr hchars, rfl⟩
    | @plain c rest hchars =>
      rw [ofSlice_plain hchars]
      exact mem_someOf.mpr ⟨c, rest, rfl, hchars⟩

@[simp] theorem inner?_bracketed (body : Text) : inner? (Tag.bracketed body) = some body := by
  simp [inner?, Tag.bracketed, stripPrefix?]

theorem words_append_space {word : Text} (rest : Text) (hne : word ≠ [])
    (h : word.all (fun c => !isWhiteSpace c) = true) :
    words (word ++ ' ' :: rest) = word :: words rest := by
  have hword : ∀ c ∈ word, isWhiteSpace c = false := by simpa using h
  rw [words, List.splitOnP_append_cons_of_forall_mem hword ' ' rfl rest, List.filter_cons,
    if_pos (by simpa using hne), ← words]

theorem tag?_of_ofBody? {body : Text} {tag : Tag} (h : Tag.ofBody? body = some tag) :
    tag? tag.token (Tag.bracketed body) = some tag := by
  cases Tag.isRead_of_ofBody? h with
  | fixed listed =>
    have hfixed : ∀ entry ∈ Tag.fixedBodies,
        tag? entry.2.token (Tag.bracketed entry.1) = some entry.2 := by decide
    exact hfixed (body, tag) listed
  | plainFence => decide
  | fence attributes =>
    rw [Tag.token, tag?, inner?_bracketed, Option.map_some,
      words_append_space attributes (by decide) rfl]
    rfl
  | link c rest =>
    rw [Tag.token, Span.kind, tag?, inner?_bracketed, Option.map_some,
      stripPrefix?_eq_some_iff.mpr rfl]
    rfl
  | reference kind c rest =>
    rw [Tag.token, tag?, inner?_bracketed, Option.bind_some]
    cases kind <;> rfl
  | type => rw [Tag.token, tag?, inner?_bracketed, Option.map_some]

theorem tag?_ofSlice {slice : Text} (h : Slice.Form slice) :
    tag? (ofSlice slice) slice = some (Tag.ofSlice slice) := by
  cases h with
  | newline | bracket | backtick => rfl
  | tag _ htag => rw [ofSlice_tag htag, tag?_of_ofBody? htag, Tag.ofSlice_bracketed, htag, Option.getD_some]
  | @fence info hchars =>
    have hinfo : trimStart (· == '`') info = info := by
      cases info with
      | nil => rfl
      | cons c rest =>
        refine trimStart_cons_of_neg rest (beq_eq_false_iff_ne.mpr ?_)
        rintro rfl
        exact absurd (List.all_eq_true.mp hchars '`' List.mem_cons_self) (by decide)
    have hbackticks : ∀ c ∈ "```".toList, (c == '`') = true := List.all_eq_true.mp rfl
    change tag? .rawFence _ = _
    rw [tag?, trimStart_append_of_forall info hbackticks, hinfo]
    rfl
  | plain hchars => rw [ofSlice_plain hchars, tag?, Tag.ofSlice_plain hchars]

end Token

end ClassDocs
