import ClassDocs.Markup.Fence
import ClassDocs.Markup.Piece

/-!
# Pages

Pieces are written one after another onto a page. A code block takes whole lines: it starts on a
line of its own, and what follows it starts on a new line.
-/

namespace ClassDocs

/-- A text that is being written, and whether it has just ended with a code block. -/
structure Page where
  text : Text
  afterBlock : Bool
  deriving DecidableEq, Repr

namespace Page

def blank : Page :=
  ⟨[], false⟩

/-- The page with more text, on a new line if a code block comes before it. -/
def write (page : Page) (content : Text) : Page :=
  if content.isEmpty then page
  else if page.afterBlock && content.head? != some '\n' then
    ⟨page.text ++ '\n' :: content, false⟩
  else ⟨page.text ++ content, false⟩

def endLine (page : Page) : Page :=
  ⟨page.text ++ ['\n'], false⟩

/-- The page with a code block. White space before it on its line is dropped. -/
def writeBlock (page : Page) (language code : Text) : Page :=
  let before :=
    if Text.isBlank (Text.lastLine page.text) then Text.completeLines page.text
    else page.text ++ ['\n']
  ⟨before ++ Fence.block language (Fence.body code), true⟩

end Page

/-- Inline code between backticks, with a backslash before each backtick of its own. -/
def inlineCode (content : Text) : Text :=
  '`' :: (content.flatMap fun c => if c = '`' then ['\\', '`'] else [c]) ++ ['`']

def Span.startMark : Span → Text
  | .bold => "**".toList
  | .italic => "*".toList
  | .link _ => []
  | .container => []

def Span.endMark : Span → Text
  | .bold => "**".toList
  | .italic => "*".toList
  | .link none => []
  | .link (some target) => " (".toList ++ target ++ [')']
  | .container => []

def Page.add (page : Page) : Piece → Page
  | .text content => page.write content
  | .newline => page.endLine
  | .code content => page.write (inlineCode content)
  | .spanStart span => page.write span.startMark
  | .spanEnd span => page.write span.endMark
  | .block language code => page.writeBlock language code
  | .unpaired tag => page.write tag.display
  | .omitted _ => page

def rendered (document : List Piece) : Text :=
  (document.foldl Page.add Page.blank).text

end ClassDocs
