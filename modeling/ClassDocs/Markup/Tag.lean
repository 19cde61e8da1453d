import ClassDocs.Unicode.WhiteSpace

/-!
# Tags

The constructs of the documentation markup, each with the text it is written as. Paired constructs
are two tags, one that opens and one that closes, so that pairing is decided later.
-/

namespace ClassDocs

inductive ReferenceKind where
  | method
  | member
  | signal
  | constant
  | param
  | enum
  | annotationMark
  | themeItem
  | constructor
  | operator
  deriving DecidableEq, Repr

namespace ReferenceKind

def all : List ReferenceKind :=
  [.method, .member, .signal, .constant, .param, .enum, .annotationMark, .themeItem, .constructor,
    .operator]

def keyword : ReferenceKind → Text
  | .method => "method".toList
  | .member => "member".toList
  | .signal => "signal".toList
  | .constant => "constant".toList
  | .param => "param".toList
  | .enum => "enum".toList
  | .annotationMark => "annotation".toList
  | .themeItem => "theme_item".toList
  | .constructor => "constructor".toList
  | .operator => "operator".toList

def ofKeyword? (word : Text) : Option ReferenceKind :=
  all.find? fun kind => kind.keyword == word

theorem keyword_of_ofKeyword? {word : Text} {kind : ReferenceKind}
    (h : ofKeyword? word = some kind) : kind.keyword = word := by
  have hfound := List.find?_some h
  exact beq_iff_eq.mp hfound

end ReferenceKind

/-- The constructs that nest: emphasis, links and groups of code samples. -/
inductive SpanKind where
  | bold
  | italic
  | link
  | container
  deriving DecidableEq, Repr

def SpanKind.word : SpanKind → Text
  | .bold => "b".toList
  | .italic => "i".toList
  | .link => "url".toList
  | .container => "codeblocks".toList

inductive Span where
  | bold
  | italic
  | link (target : Option Text)
  | container
  deriving DecidableEq, Repr

def Span.kind : Span → SpanKind
  | .bold => .bold
  | .italic => .italic
  | .link _ => .link
  | .container => .container

/-- Inline code and key combinations, which are both set as code. -/
inductive CodeStyle where
  | code
  | key
  deriving DecidableEq, Repr

def CodeStyle.word : CodeStyle → Text
  | .code => "code".toList
  | .key => "kbd".toList

inductive Tag where
  | text (content : Text)
  | newline
  | bracket
  | lineBreak
  | leftBracket
  | rightBracket
  | spanOpen (span : Span)
  | spanClose (kind : SpanKind)
  | codeOpen (style : CodeStyle)
  | codeClose (style : CodeStyle)
  /-- The start of a code block, with the attributes as they were written in `source`. -/
  | fenceOpen (language : Option Text) (source : Text)
  | fenceClose
  /-- A run of three backticks, which both starts and ends a code block. -/
  | rawFence (language : Option Text) (source : Text)
  | languageOpen (language : Text)
  | languageClose (language : Text)
  | reference (kind : ReferenceKind) (name : Text)
  | typeReference (name : Text)
  deriving DecidableEq, Repr

namespace Tag

def bracketed (body : Text) : Text :=
  '[' :: (body ++ [']'])

def display : Tag → Text
  | .text content => content
  | .newline => ['\n']
  | .bracket => ['[']
  | .lineBreak => bracketed "br".toList
  | .leftBracket => bracketed "lb".toList
  | .rightBracket => bracketed "rb".toList
  | .spanOpen (.link (some target)) => bracketed ("url=".toList ++ target)
  | .spanOpen span => bracketed span.kind.word
  | .spanClose kind => bracketed ('/' :: kind.word)
  | .codeOpen style => bracketed style.word
  | .codeClose style => bracketed ('/' :: style.word)
  | .fenceOpen _ source => source
  | .fenceClose => bracketed "/codeblock".toList
  | .rawFence _ source => source
  | .languageOpen language => bracketed language
  | .languageClose language => bracketed ('/' :: language)
  | .reference kind name => bracketed (kind.keyword ++ ' ' :: name)
  | .typeReference name => bracketed name

/-- The text that a tag stands for inside code: bracket escapes are resolved and all else is kept
as written. -/
def literal : Tag → Text
  | .leftBracket => ['[']
  | .rightBracket => [']']
  | tag => tag.display

def isBlank : Tag → Bool
  | .newline => true
  | .text content => Text.isBlank content
  | _ => false

end Tag

end ClassDocs
