import ClassDocs.Config.Basic
import ClassDocs.Event
import ClassDocs.Files.Tree

/-!
# Loading settings and lists of names

Where a project keeps its settings and its list of public names, and what becomes of files that are
missing or cannot be used.
-/

namespace ClassDocs

variable (decoders : Decoders)

namespace NameSet

/-- The set of names that a text lists; `path` says where the text comes from. -/
def ofJson (path content : Text) : Except LoadError NameSet :=
  match decoders.names content with
  | .ok names => .ok (ofList names)
  | .error reason => .error (.badNameList path reason)

/-- The set of names that the file at a path lists. A missing file lists none. -/
def load (tree : FileTree) (path : Text) : Logged (Except LoadError NameSet) := do
  match tree.readText path with
  | .error .missing =>
    Logged.report (.nameListMissing path)
    return .ok empty
  | .error failure => return .error (.badNameList path failure.message)
  | .ok content =>
    match ofJson decoders path content with
    | .error error => return .error error
    | .ok names =>
      Logged.report (.nameListLoaded path names.size)
      return .ok names

end NameSet

def NamingSettings.publicNameSet (settings : NamingSettings) (tree : FileTree) (root : Text) :
    Logged (Except LoadError NameSet) := do
  let listed := NameSet.ofList settings.publicNames
  match settings.nameListPath? with
  | none => return .ok listed
  | some file =>
    match ← NameSet.load decoders tree (Path.join root file) with
    | .error error => return .error error
    | .ok names => return .ok (listed.union names)

namespace Config

/-- Where a project can keep its configuration, in order of precedence. -/
def candidates : List Text :=
  ["gdts.toml".toList, ".gdts.toml".toList, ".config/gdts.toml".toList]

def path? (tree : FileTree) (root : Text) : Option Text :=
  (candidates.map (Path.join root)).find? tree.isFile

def parse (content : Text) : Except LoadError Config :=
  match decoders.config content with
  | .ok fields => .ok (ofFields fields)
  | .error reason => .error (.badConfig reason)

def read (tree : FileTree) (path : Text) : Except LoadError Config :=
  match tree.readText path with
  | .ok content => parse decoders content
  | .error failure => .error (.unreadable failure.message)

def load (tree : FileTree) (root : Text) : Logged (Except LoadError (Option Config)) := do
  match path? tree root with
  | none =>
    Logged.report (.configMissing root)
    return .ok none
  | some path =>
    Logged.report (.configLoading path)
    return (read decoders tree path).map some

/-- The configuration of a project, or the default where it is missing or cannot be used. -/
def loadOrDefault (tree : FileTree) (root : Text) : Logged Config := do
  match ← load decoders tree root with
  | .ok config? => return config?.getD default
  | .error error =>
    Logged.report (.configIgnored error)
    return default

end Config

end ClassDocs
