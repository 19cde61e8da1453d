import ClassDocs.Comment
import ClassDocs.DocSettings
import ClassDocs.Markup.Layout
import ClassDocs.Markup.Page
import ClassDocs.Markup.TagStream

/-!
# Documentation comments

From the lines of a documentation entry to its comment block: the lines become one text, the text
becomes tags, the tags become the pieces of a document, and the rendered document is tidied and
framed.
-/

namespace ClassDocs.DocComment

def urlPlaceholder : Text :=
  "$DOCS_URL".toList

/-- The text of an entry with the address of the documentation put in. -/
def source (settings : DocSettings) (entry : List Text) : Text :=
  Text.replaceAll urlPlaceholder settings.baseUrl (Text.unlines entry)

def document (settings : DocSettings) (text : Text) : List Piece :=
  pieces settings.language [] (tagsOf text)

def contentLines (settings : DocSettings) (entry : List Text) : List Text :=
  Layout.tidyLines (rendered (document settings (source settings entry)))

def block (settings : DocSettings) (entry : List Text) : Text :=
  Comment.frame (contentLines settings entry)

end ClassDocs.DocComment
