import ClassDocs.Config.LoadError
import ClassDocs.Markup.Piece
import ClassDocs.Naming.Identifier

/-!
# Events

What is worth reporting while documentation, names and settings are worked on, and results that
carry the events of their making.
-/

namespace ClassDocs

inductive Severity where
  | trace
  | debug
  | warn
  deriving DecidableEq, Repr

inductive FieldValue where
  | text (content : Text)
  | count (number : Nat)
  deriving DecidableEq, Repr

inductive Event where
  | unpairedTag (tag : Tag)
  | omittedSample (language wanted : Text)
  | normalized (raw : Text) (identifier : Identifier)
  | nameListMissing (path : Text)
  | nameListLoaded (path : Text) (count : Nat)
  | configMissing (root : Text)
  | configLoading (path : Text)
  | configIgnored (error : LoadError)
  deriving DecidableEq, Repr

namespace Event

def severity : Event → Severity
  | .unpairedTag _ | .normalized _ _ => .trace
  | .omittedSample _ _ | .nameListMissing _ | .nameListLoaded _ _ | .configMissing _
  | .configLoading _ => .debug
  | .configIgnored _ => .warn

def message : Event → Text
  | .unpairedTag _ => "unbalanced tag kept as literal text".toList
  | .omittedSample _ _ => "dropping code sample".toList
  | .normalized _ _ => "normalized identifier".toList
  | .nameListMissing _ => "public name list not found, treating as empty".toList
  | .nameListLoaded _ _ => "loaded public name list".toList
  | .configMissing _ => "no config file found".toList
  | .configLoading _ => "loading config".toList
  | .configIgnored _ => "ignoring unusable config, using defaults".toList

def fields : Event → List (Text × FieldValue)
  | .unpairedTag tag => [("tag".toList, .text tag.display)]
  | .omittedSample language wanted =>
    [("language".toList, .text language), ("target".toList, .text wanted)]
  | .normalized raw identifier =>
    [("raw".toList, .text raw), ("name".toList, .text identifier.name),
      ("rule".toList, .text identifier.rule.label)]
  | .nameListMissing path => [("path".toList, .text path)]
  | .nameListLoaded path count => [("path".toList, .text path), ("count".toList, .count count)]
  | .configMissing root => [("root".toList, .text root)]
  | .configLoading path => [("path".toList, .text path)]
  | .configIgnored error => [("error".toList, .text error.message)]

/-- The event that a piece of a document gives rise to. -/
def ofPiece? (language : Text) : Piece → Option Event
  | .unpaired tag => some (.unpairedTag tag)
  | .omitted sample => some (.omittedSample sample language)
  | _ => none

end Event

/-- A result with the events of its making, in order. -/
structure Logged (α : Type) where
  value : α
  events : List Event

namespace Logged

def silent {α : Type} (value : α) : Logged α :=
  ⟨value, []⟩

def report (event : Event) : Logged Unit :=
  ⟨(), [event]⟩

instance : Monad Logged where
  pure := silent
  bind first next := ⟨(next first.value).value, first.events ++ (next first.value).events⟩

end Logged

end ClassDocs
