import ClassDocs.Config.Load
import ClassDocs.DocComment

/-!
# Projects

Documentation comments and identifiers made with a project's own settings, together with the events
of their making.
-/

namespace ClassDocs

def DocComment.loggedLines (settings : DocSettings) (entry : List Text) : Logged (List Text) :=
  ⟨contentLines settings entry,
    (document settings (source settings entry)).filterMap (Event.ofPiece? settings.language)⟩

def DocComment.loggedBlock (settings : DocSettings) (entry : List Text) : Logged Text := do
  return Comment.frame (← loggedLines settings entry)

def Identifier.loggedNormalize (publicNames : NameSet) (raw : Text) : Logged Identifier := do
  let identifier := normalize publicNames raw
  Logged.report (.normalized raw identifier)
  return identifier

/-- What is made of a project's names and of one entry of its documentation. There are no identifiers
where the list of public names cannot be used. -/
structure ProjectReport where
  settings : DocSettings
  naming : Except LoadError (NameSet × List Identifier)
  comment : Text

def ProjectReport.make (decoders : Decoders) (tree : FileTree) (root : Text) (names : List Text)
    (entry : List Text) : Logged ProjectReport := do
  let config ← Config.loadOrDefault decoders tree root
  let naming ←
    match ← config.naming.publicNameSet decoders tree root with
    | .error error => pure (.error error)
    | .ok publicNames => do
      let identifiers ← names.mapM (Identifier.loggedNormalize publicNames)
      pure (.ok (publicNames, identifiers))
  return ⟨config.docs, naming, ← DocComment.loggedBlock config.docs entry⟩

end ClassDocs
