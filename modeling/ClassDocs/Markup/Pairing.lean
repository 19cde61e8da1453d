import ClassDocs.Markup.Region

/-!
# Pairing

A tag opens a span only if a later tag closes it. Spans of the same kind nest, and closed literal
regions are passed over, so a closing tag inside code never pairs with an opening tag outside it.
-/

namespace ClassDocs

def Tag.opensSpan (kind : SpanKind) : Tag → Bool
  | .spanOpen span => decide (span.kind = kind)
  | _ => false

/-- Whether the tags close a span of a kind in which `depth` further spans of the kind are open. -/
def closesSpan (kind : SpanKind) (depth : Nat) : List Tag → Bool
  | [] => false
  | tag :: rest =>
    if tag = .spanClose kind then
      match depth with
      | 0 => true
      | depth + 1 => closesSpan kind depth rest
    else if tag.opensSpan kind then closesSpan kind (depth + 1) rest
    else
      match h : afterRegion? tag rest with
      | some after =>
        have := length_lt_of_afterRegion? h
        closesSpan kind depth after
      | none => closesSpan kind depth rest
termination_by tags => tags.length

end ClassDocs
