import ClassDocs.Markup.Tag

/-!
# Bracketed tags

Which texts between brackets make a tag, and which tag they make.
-/

namespace ClassDocs

def Text.nonEmpty? (s : Text) : Option Text :=
  if s.isEmpty then none else some s

namespace Tag

def fixedBodies : List (Text × Tag) :=
  [("b".toList, .spanOpen .bold), ("/b".toList, .spanClose .bold),
    ("i".toList, .spanOpen .italic), ("/i".toList, .spanClose .italic),
    ("url".toList, .spanOpen (.link none)), ("/url".toList, .spanClose .link),
    ("codeblocks".toList, .spanOpen .container), ("/codeblocks".toList, .spanClose .container),
    ("code".toList, .codeOpen .code), ("/code".toList, .codeClose .code),
    ("kbd".toList, .codeOpen .key), ("/kbd".toList, .codeClose .key),
    ("/codeblock".toList, .fenceClose),
    ("gdscript".toList, .languageOpen "gdscript".toList),
    ("/gdscript".toList, .languageClose "gdscript".toList),
    ("csharp".toList, .languageOpen "csharp".toList),
    ("/csharp".toList, .languageClose "csharp".toList),
    ("br".toList, .lineBreak), ("lb".toList, .leftBracket), ("rb".toList, .rightBracket)]

/-- The language that the attributes of a code block name: the first `lang=` attribute decides, and
quotation marks around its value are dropped. -/
def attributeLanguage? (attributes : Text) : Option Text :=
  ((Text.words attributes).findSome? (Text.stripPrefix? "lang=".toList)).bind fun value =>
    Text.nonEmpty? (Text.trim (· == '"') value)

def fenceOfBody? (body : Text) : Option Tag :=
  match Text.stripPrefix? "codeblock".toList body with
  | some [] => some (.fenceOpen none (bracketed body))
  | some (' ' :: attributes) =>
    some (.fenceOpen (attributeLanguage? attributes) (bracketed body))
  | _ => none

/-- A link with a target, written `url=target`. A target of white space only leads nowhere. -/
def linkOfBody? (body : Text) : Option Tag :=
  match Text.stripPrefix? "url=".toList body with
  | some (c :: rest) =>
    some (.spanOpen (.link (Text.nonEmpty? (Text.trim Unicode.isWhiteSpace (c :: rest)))))
  | _ => none

def referenceOfBody? (body : Text) : Option Tag :=
  match body.dropWhile (· != ' ') with
  | ' ' :: c :: rest =>
    (ReferenceKind.ofKeyword? (body.takeWhile (· != ' '))).map fun kind =>
      .reference kind (Text.trim Unicode.isWhiteSpace (c :: rest))
  | _ => none

/-- Whether a text names a type: an optional `@`, a capital letter, word characters and at most one
member after a point. -/
def isTypeName (name : Text) : Bool :=
  match (Text.stripPrefix? "@".toList name).getD name with
  | c :: rest =>
    c.isUpper &&
      match rest.dropWhile Text.isWordChar with
      | [] => true
      | '.' :: d :: member => (d :: member).all Text.isWordChar
      | _ => false
  | [] => false

def typeOfBody? (body : Text) : Option Tag :=
  if isTypeName body then some (.typeReference body) else none

/-- The tag written as a text between brackets. The text is taken to hold no closing bracket and no
newline. -/
def ofBody? (body : Text) : Option Tag :=
  fixedBodies.lookup body <|> fenceOfBody? body <|> linkOfBody? body <|> referenceOfBody? body <|>
    typeOfBody? body

end Tag

end ClassDocs
