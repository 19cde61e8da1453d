import ClassDocs.Proofs.Markup.Display
import Mathlib.Computability.Language

/-!
# Tokens

What a slice can be, said without cutting: each token is a language of texts, most often a word between
brackets, and each slice of a token makes a tag. The languages of the tokens are disjoint, and together
they hold the texts that have the form of a slice.
-/

namespace ClassDocs

open Text Unicode

inductive Token where
  | newline
  | text
  | bracket
  | backtick
  | rawFence
  | spanOpen (kind : SpanKind)
  | spanClose (kind : SpanKind)
  | codeOpen (style : CodeStyle)
  | codeClose (style : CodeStyle)
  | fenceOpen
  | fenceClose
  | languageOpen
  | languageClose
  | reference
  | typeReference
  | lineBreak
  | leftBracket
  | rightBracket
  deriving DecidableEq, Repr

namespace Token

def anyOf (words : List Text) : Language Char :=
  {s | s ∈ words}

def oneOf (p : Char → Bool) : Language Char :=
  {s | ∃ c, p c = true ∧ s = [c]}

def manyOf (p : Char → Bool) : Language Char :=
  {s | ∀ c ∈ s, p c = true}

def someOf (p : Char → Bool) : Language Char :=
  {s | s ≠ [] ∧ ∀ c ∈ s, p c = true}

def keywords : List Text :=
  ["method".toList, "member".toList, "signal".toList, "constant".toList, "param".toList,
    "enum".toList, "annotation".toList, "theme_item".toList, "constructor".toList,
    "operator".toList]

def sampleLanguages : List Text :=
  ["gdscript".toList, "csharp".toList]

/-- What can stand between the brackets of a token, which is nothing if it has none. -/
def bodies : Token → Language Char
  | .newline | .text | .bracket | .backtick | .rawFence => 0
  | .spanOpen .link => {"url".toList} * (1 + {"=".toList} * someOf Slice.isBodyChar)
  | .spanOpen kind => {kind.word}
  | .spanClose kind => {'/' :: kind.word}
  | .codeOpen style => {style.word}
  | .codeClose style => {'/' :: style.word}
  | .fenceOpen => {"codeblock".toList} * (1 + {" ".toList} * manyOf Slice.isBodyChar)
  | .fenceClose => {"/codeblock".toList}
  | .languageOpen => anyOf sampleLanguages
  | .languageClose => {"/".toList} * anyOf sampleLanguages
  | .reference => anyOf keywords * ({" ".toList} * someOf Slice.isBodyChar)
  | .typeReference =>
    (1 + {"@".toList}) * (oneOf Char.isUpper *
      (manyOf isWordChar * (1 + {".".toList} * someOf isWordChar)))
  | .lineBreak => {"br".toList}
  | .leftBracket => {"lb".toList}
  | .rightBracket => {"rb".toList}

/-- The texts that are read as a token. -/
def lexemes : Token → Language Char
  | .newline => {"\n".toList}
  | .text => someOf Slice.isPlain
  | .bracket => {"[".toList}
  | .backtick => {"`".toList}
  | .rawFence => {"```".toList} * manyOf Slice.isInfoChar
  | token => {"[".toList} * token.bodies * {"]".toList}

def inner? (slice : Text) : Option Text :=
  (stripPrefix? ['['] slice).bind fun rest =>
    (stripPrefix? [']'] rest.reverse).map List.reverse

def splitAtSpace? (s : Text) : Option (Text × Text) :=
  match s.dropWhile (· != ' ') with
  | [] => none
  | _ :: behind => some (s.takeWhile (· != ' '), behind)

/-- The tag that is made of a slice read as a token, unless the slice lacks a part that the tag is made
of: its brackets, the space in it, or a known keyword before the space. -/
def tag? : Token → Text → Option Tag
  | .newline, _ => some .newline
  | .text, slice | .backtick, slice => some (.text slice)
  | .bracket, _ => some .bracket
  | .rawFence, slice => some (.rawFence (nonEmpty? (trimStart (· == '`') slice)) slice)
  | .spanOpen .bold, _ => some (.spanOpen .bold)
  | .spanOpen .italic, _ => some (.spanOpen .italic)
  | .spanOpen .container, _ => some (.spanOpen .container)
  | .spanOpen .link, slice =>
    (inner? slice).map fun body =>
      .spanOpen (.link ((stripPrefix? "url=".toList body).bind fun target =>
        nonEmpty? (trim isWhiteSpace target)))
  | .spanClose kind, _ => some (.spanClose kind)
  | .codeOpen style, _ => some (.codeOpen style)
  | .codeClose style, _ => some (.codeClose style)
  | .fenceOpen, slice =>
    (inner? slice).map fun body =>
      let attribute? := ((words body).drop 1).findSome? (stripPrefix? "lang=".toList)
      .fenceOpen (attribute?.bind fun value => nonEmpty? (trim (· == '"') value)) slice
  | .fenceClose, _ => some .fenceClose
  | .languageOpen, slice => (inner? slice).map .languageOpen
  | .languageClose, slice =>
    (inner? slice).map fun body => .languageClose (trimStart (· == '/') body)
  | .reference, slice =>
    ((inner? slice).bind splitAtSpace?).bind fun (keyword, name) =>
      (ReferenceKind.ofKeyword? keyword).map fun kind =>
        .reference kind (trim isWhiteSpace name)
  | .typeReference, slice => (inner? slice).map .typeReference
  | .lineBreak, _ => some .lineBreak
  | .leftBracket, _ => some .leftBracket
  | .rightBracket, _ => some .rightBracket

end Token

def Tag.token : Tag → Token
  | .text _ => .text
  | .newline => .newline
  | .bracket => .bracket
  | .lineBreak => .lineBreak
  | .leftBracket => .leftBracket
  | .rightBracket => .rightBracket
  | .spanOpen span => .spanOpen span.kind
  | .spanClose kind => .spanClose kind
  | .codeOpen style => .codeOpen style
  | .codeClose style => .codeClose style
  | .fenceOpen _ _ => .fenceOpen
  | .fenceClose => .fenceClose
  | .rawFence _ _ => .rawFence
  | .languageOpen _ => .languageOpen
  | .languageClose _ => .languageClose
  | .reference _ _ => .reference
  | .typeReference _ => .typeReference

def Token.ofSlice : Text → Token
  | ['`'] => .backtick
  | slice => (Tag.ofSlice slice).token

namespace Token

section Languages

variable {p : Char → Bool} {s word : Text}

theorem mem_manyOf : s ∈ manyOf p ↔ s.all p = true :=
  List.all_eq_true.symm

theorem mem_someOf : s ∈ someOf p ↔ ∃ c rest, s = c :: rest ∧ (c :: rest).all p = true := by
  constructor
  · rintro ⟨hne, hall⟩
    obtain ⟨c, rest, rfl⟩ := List.exists_cons_of_ne_nil hne
    exact ⟨c, rest, rfl, List.all_eq_true.mpr hall⟩
  · rintro ⟨c, rest, rfl, hall⟩
    exact ⟨by simp, List.all_eq_true.mp hall⟩

theorem mem_optional {language : Language Char} :
    s ∈ 1 + {word} * language ↔ s = [] ∨ ∃ rest ∈ language, s = word ++ rest := by
  rw [Language.mem_add, Language.mem_one, Language.mem_mul]
  constructor
  · rintro (rfl | ⟨first, rfl, rest, hrest, rfl⟩)
    · exact Or.inl rfl
    · exact Or.inr ⟨rest, hrest, rfl⟩
  · rintro (rfl | ⟨rest, hrest, rfl⟩)
    · exact Or.inl rfl
    · exact Or.inr ⟨word, rfl, rest, hrest, rfl⟩

theorem mem_word_mul {language : Language Char} :
    s ∈ {word} * language ↔ ∃ rest ∈ language, s = word ++ rest := by
  rw [Language.mem_mul]
  constructor
  · rintro ⟨first, rfl, rest, hrest, rfl⟩
    exact ⟨rest, hrest, rfl⟩
  · rintro ⟨rest, hrest, rfl⟩
    exact ⟨word, rfl, rest, hrest, rfl⟩

end Languages

theorem mem_keywords {word : Text} : word ∈ keywords ↔ ∃ kind : ReferenceKind, kind.keyword = word := by
  constructor
  · intro h
    have hknown : ∀ other ∈ keywords, (ReferenceKind.ofKeyword? other).isSome = true := by decide
    obtain ⟨kind, hkind⟩ := Option.isSome_iff_exists.mp (hknown word h)
    exact ⟨kind, ReferenceKind.keyword_of_ofKeyword? hkind⟩
  · rintro ⟨kind, rfl⟩
    cases kind <;> decide

end Token

end ClassDocs
