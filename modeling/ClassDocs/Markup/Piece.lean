import ClassDocs.Markup.Pairing

/-!
# Pieces

What a document is made of once its tags are paired: plain text, code, marks around spans, and code
blocks. A tag that pairs with nothing is kept as a piece of its own, and so is a code sample that is
left out, because both are reported.
-/

namespace ClassDocs

inductive Piece where
  | text (content : Text)
  | newline
  | code (content : Text)
  | spanStart (span : Span)
  | spanEnd (span : Span)
  | block (language code : Text)
  | unpaired (tag : Tag)
  /-- The place of a code sample in a language that is not wanted. -/
  | omitted (language : Text)
  deriving DecidableEq, Repr

/-- The pieces that tags make inside the spans of `stack`, the innermost first. Samples in
containers are kept for `language` only, which is also the language of blocks that name none. -/
def pieces (language : Text) : List Span → List Tag → List Piece
  | _, [] => []
  | stack, tag :: rest =>
    if stack.contains .container && tag.isBlank then pieces language stack rest
    else
      match tag with
      | .text content => .text content :: pieces language stack rest
      | .newline | .lineBreak => .newline :: pieces language stack rest
      | .bracket | .leftBracket => .text ['['] :: pieces language stack rest
      | .rightBracket => .text [']'] :: pieces language stack rest
      | .spanOpen span =>
        if closesSpan span.kind 0 rest then
          .spanStart span :: pieces language (span :: stack) rest
        else .unpaired (.spanOpen span) :: pieces language stack rest
      | .spanClose kind =>
        match stack.find? fun span => span.kind == kind with
        | some span =>
          .spanEnd span :: pieces language (stack.eraseP fun span => span.kind == kind) rest
        | none => .unpaired (.spanClose kind) :: pieces language stack rest
      | .codeOpen style =>
        match h : Region.split? (.code style) rest with
        | some (inside, after) =>
          have := Region.length_lt_of_split? h
          .code (literalText inside) :: pieces language stack after
        | none => .unpaired (.codeOpen style) :: pieces language stack rest
      | .fenceOpen named source =>
        match h : Region.split? .fence rest with
        | some (inside, after) =>
          have := Region.length_lt_of_split? h
          .block (named.getD language) (literalText inside) :: pieces language stack after
        | none => .unpaired (.fenceOpen named source) :: pieces language stack rest
      | .rawFence named source =>
        match h : Region.split? .rawFence rest with
        | some (inside, after) =>
          have := Region.length_lt_of_split? h
          .block (named.getD language) (literalText inside) :: pieces language stack after
        | none => .unpaired (.rawFence named source) :: pieces language stack rest
      | .languageOpen sample =>
        if stack.contains .container then
          match h : Region.split? (.sample sample) rest with
          | some (inside, after) =>
            have := Region.length_lt_of_split? h
            (if sample = language then .block sample (literalText inside) else .omitted sample) ::
              pieces language stack after
          | none => .unpaired (.languageOpen sample) :: pieces language stack rest
        else .text (Tag.languageOpen sample).display :: pieces language stack rest
      | .reference _ name | .typeReference name => .code name :: pieces language stack rest
      | .fenceClose => .text Tag.fenceClose.display :: pieces language stack rest
      | .codeClose style => .text (Tag.codeClose style).display :: pieces language stack rest
      | .languageClose sample =>
        .text (Tag.languageClose sample).display :: pieces language stack rest
termination_by _ tags => tags.length

end ClassDocs
