import ClassDocs.DocComment
import ClassDocs.Proofs.Markup.Tracking
import ClassDocs.Proofs.Markup.Walk

/-!
# Opened spans are closed

The starts and ends of spans in a document are replayed on a stack: an end has to take away the
innermost open span of its kind. The walk never makes any other end. It leaves no span open either
where code samples stand inside containers: outside them the search for a closing tag passes over a
sample as a whole, but the walk reads the tags in it, and those may take closing tags for themselves.
-/

namespace ClassDocs

/-- The open spans after a piece. An end that is not that of the innermost open span of its kind has
no place there. -/
def Piece.openAfter? (stack : List Span) : Piece → Option (List Span)
  | .spanStart span => some (span :: stack)
  | .spanEnd span =>
    if (stack.find? fun other => other.kind == span.kind) = some span then
      some (stack.eraseP fun other => other.kind == span.kind)
    else none
  | _ => some stack

def openAfter? (stack : List Span) (document : List Piece) : Option (List Span) :=
  document.foldlM Piece.openAfter? stack

@[simp] theorem openAfter?_nil (stack : List Span) : openAfter? stack [] = some stack := rfl

theorem openAfter?_cons (stack : List Span) (piece : Piece) (document : List Piece) :
    openAfter? stack (piece :: document) =
      (piece.openAfter? stack).bind fun opened => openAfter? opened document :=
  List.foldlM_cons

theorem openAfter?_append (stack : List Span) (first second : List Piece) :
    openAfter? stack (first ++ second) =
      (openAfter? stack first).bind fun opened => openAfter? opened second :=
  List.foldlM_append

theorem count_eraseP_of_find? {stack : List Span} {p : Span → Bool} {span : Span}
    (h : stack.find? p = some span) (other : Span) :
    stack.count other = [span].count other + (stack.eraseP p).count other := by
  obtain ⟨hspan, before, after, rfl, hbefore⟩ := List.find?_eq_some_iff_append.mp h
  have herase : (before ++ span :: after).eraseP p = before ++ after := by
    rw [List.eraseP_append_right _ (by simpa using hbefore), List.eraseP_cons_of_pos hspan]
  rw [herase, List.count_append, List.count_append, ← List.singleton_append, List.count_append]
  omega

theorem Piece.count_of_openAfter? {stack opened : List Span} {piece : Piece}
    (h : piece.openAfter? stack = some opened) (span : Span) :
    stack.count span + [piece].count (.spanStart span) =
      [piece].count (.spanEnd span) + opened.count span := by
  cases piece with
  | spanStart started =>
    obtain rfl := Option.some.inj h
    simp [List.count_cons]
  | spanEnd ended =>
    rw [openAfter?] at h
    split at h
    next hfind =>
      obtain rfl := Option.some.inj h
      rw [count_eraseP_of_find? hfind span]
      simp [List.count_singleton]
    next => exact absurd h (by simp)
  | _ =>
    obtain rfl := Option.some.inj h
    simp

/-- Spans that are open before a document or start in it end in it or are open after it. -/
theorem count_of_openAfter? {stack opened : List Span} {document : List Piece}
    (h : openAfter? stack document = some opened) (span : Span) :
    stack.count span + document.count (.spanStart span) =
      document.count (.spanEnd span) + opened.count span := by
  induction document generalizing stack with
  | nil =>
    obtain rfl := Option.some.inj h
    simp
  | cons piece document ih =>
    rw [openAfter?_cons] at h
    obtain ⟨next, hpiece, hdocument⟩ := Option.bind_eq_some_iff.mp h
    have hfirst := Piece.count_of_openAfter? hpiece span
    have hrest := ih hdocument
    rw [← List.singleton_append, List.count_append, List.count_append]
    omega

theorem Piece.openAfter?_lonePiece (tag : Tag) (stack : List Span) :
    tag.lonePiece.openAfter? stack = some stack := by
  cases tag <;> rfl

theorem Piece.openAfter?_regionPiece (tag : Tag) (language content : Text) (stack : List Span) :
    (tag.regionPiece language content).openAfter? stack = some stack := by
  cases tag <;> rfl

namespace WalkStep

variable {language : Text} {stack stack' : List Span} {tags rest : List Tag} {made : List Piece}

theorem openAfter?_made (h : WalkStep language stack tags made stack' rest) :
    openAfter? stack made = some stack' := by
  cases h with
  | alone => rw [openAfter?_cons, Piece.openAfter?_lonePiece, Option.bind_some, openAfter?_nil]
  | region => rw [openAfter?_cons, Piece.openAfter?_regionPiece, Option.bind_some, openAfter?_nil]
  | sample inContainer split => split <;> rfl
  | closed innermost =>
    have hkind := List.find?_some innermost
    rw [beq_iff_eq] at hkind
    rw [openAfter?_cons, Piece.openAfter?, hkind, if_pos innermost]
    rfl
  | _ => rfl

theorem openAfter?_pieces (h : WalkStep language stack tags made stack' rest) :
    openAfter? stack (pieces language stack tags) =
      openAfter? stack' (pieces language stack' rest) := by
  rw [h.pieces_eq, openAfter?_append, h.openAfter?_made, Option.bind_some]

end WalkStep

def SpanKind.all : List SpanKind :=
  [.bold, .italic, .link, .container]

theorem SpanKind.mem_all (kind : SpanKind) : kind ∈ all := by
  cases kind <;> decide

/-- Whether some tags leave as many closing tags of each kind as those of them after a region. -/
def keepsClosings (rest after : List Tag) : Bool :=
  SpanKind.all.all fun kind =>
    decide (closingsLeft kind (segments after) ≤ closingsLeft kind (segments rest))

theorem le_of_keepsClosings {rest after : List Tag} (h : keepsClosings rest after = true)
    (kind : SpanKind) : closingsLeft kind (segments after) ≤ closingsLeft kind (segments rest) :=
  of_decide_eq_true (List.all_eq_true.mp h kind kind.mem_all)

def Tag.opensSample : Tag → Bool
  | .languageOpen _ => true
  | _ => false

theorem Tag.exists_of_opensSample {tag : Tag} (h : tag.opensSample = true) :
    ∃ sample, tag = .languageOpen sample := by
  cases tag with
  | languageOpen sample => exact ⟨sample, rfl⟩
  | _ => exact absurd h Bool.false_ne_true

def containersAfter (depth : Nat) (rest : List Tag) : Tag → Nat
  | .spanOpen .container => if closesSpan .container 0 rest then depth + 1 else depth
  | .spanClose .container => depth - 1
  | _ => depth

/-- Whether every complete sample outside containers leaves as many closing tags when the tags in it
are read as when it is passed over. Inside `depth` containers samples are regions like any other. -/
def samplesFit (depth : Nat) : List Tag → Bool
  | [] => true
  | tag :: rest =>
    match h : regionAt? tag rest with
    | some (_, after) =>
      have := length_lt_of_regionAt? h
      if tag.opensSample && depth == 0 then keepsClosings rest after && samplesFit depth rest
      else samplesFit depth after
    | none => samplesFit (containersAfter depth rest tag) rest
termination_by tags => tags.length

theorem containersAfter_of_no_span {tag : Tag} (depth : Nat) (rest : List Tag)
    (h : tag.standsAlone = true ∨ ∃ region, tag.opensRegion? = some region) :
    containersAfter depth rest tag = depth := by
  cases tag with
  | spanOpen | spanClose => simp [Tag.standsAlone, Tag.opensRegion?] at h
  | _ => rfl

theorem length_openSpans_spanOpen (stack : List Span) (span : Span) (rest : List Tag) :
    (openSpans .container
        (if closesSpan span.kind 0 rest then span :: stack else stack)).length =
      containersAfter (openSpans .container stack).length rest (.spanOpen span) := by
  cases span with
  | container =>
    rw [containersAfter, Span.kind]
    split
    · exact congrArg List.length (openSpans_cons_self .container stack)
    · rfl
  | bold | italic | link =>
    split
    · exact congrArg List.length (openSpans_cons_of_ne stack (by simp [Span.kind]))
    · rfl

theorem length_openSpans_spanClose (stack : List Span) (kind : SpanKind) (rest : List Tag) :
    (openSpans .container (stack.eraseP fun span => span.kind == kind)).length =
      containersAfter (openSpans .container stack).length rest (.spanClose kind) := by
  cases kind with
  | container =>
    rw [openSpans_eraseP_self, List.length_tail]
    rfl
  | bold | italic | link =>
    exact congrArg List.length (openSpans_eraseP_of_ne stack (by simp))

/-- The open spans can all be closed: no more of a kind are open than closing tags are left for. -/
def Closable (stack : List Span) (tags : List Tag) : Prop :=
  ∀ kind, (openSpans kind stack).length ≤ closingsLeft kind (segments tags)

namespace Closable

variable {stack : List Span} {tag : Tag} {rest inside after : List Tag}

theorem initial (tags : List Tag) : Closable [] tags :=
  fun _ => Nat.zero_le _

theorem eq_nil (h : Closable stack []) : stack = [] := by
  rw [List.eq_nil_iff_forall_not_mem]
  intro span hspan
  have hopen : span ∈ openSpans span.kind stack := List.mem_filter.mpr ⟨hspan, beq_self_eq_true _⟩
  have hlength := List.length_pos_of_mem hopen
  have hnone := h span.kind
  rw [segments, closingsLeft] at hnone
  omega

theorem region (h : Closable stack (tag :: rest))
    (hregion : regionAt? tag rest = some (inside, after)) : Closable stack after := by
  intro kind
  have hclosable := h kind
  rwa [segments_of_region hregion, closingsLeft_other rfl rfl] at hclosable

theorem keepsClosings (h : Closable stack (tag :: rest))
    (hregion : regionAt? tag rest = some (inside, after))
    (hkeeps : keepsClosings rest after = true) : Closable stack rest :=
  fun kind => Nat.le_trans (h.region hregion kind) (le_of_keepsClosings hkeeps kind)

theorem other (h : Closable stack (tag :: rest)) (hregion : regionAt? tag rest = none)
    (htag : tag.standsAlone = true ∨ ∃ region, tag.opensRegion? = some region) :
    Closable stack rest := by
  intro kind
  have hclosable := h kind
  have hspan : (Segment.tag tag).opened? kind = none ∧ (Segment.tag tag).closes kind = false := by
    cases tag with
    | spanOpen | spanClose => simp [Tag.standsAlone, Tag.opensRegion?] at htag
    | _ => exact ⟨rfl, rfl⟩
  rwa [segments_of_no_region hregion, closingsLeft_other hspan.1 hspan.2] at hclosable

theorem spanOpen {span : Span} (h : Closable stack (.spanOpen span :: rest))
    (hregion : regionAt? (.spanOpen span) rest = none) :
    Closable (if closesSpan span.kind 0 rest then span :: stack else stack) rest := by
  intro kind
  have hclosable := h kind
  rw [segments_of_no_region hregion] at hclosable
  rw [closesSpan_eq]
  by_cases hkind : span.kind = kind
  · subst hkind
    rw [closingsLeft_opened (Segment.opened?_self span)] at hclosable
    split
    next hreached =>
      have hleft := of_decide_eq_true hreached
      rw [openSpans_cons_self, List.length_cons]
      omega
    next => omega
  · rw [closingsLeft_other (Segment.opened?_of_ne hkind) rfl] at hclosable
    split
    next => rwa [openSpans_cons_of_ne stack hkind]
    next => exact hclosable

theorem spanClose {closed : SpanKind} (h : Closable stack (.spanClose closed :: rest))
    (hregion : regionAt? (.spanClose closed) rest = none) :
    Closable (stack.eraseP fun span => span.kind == closed) rest := by
  intro kind
  have hclosable := h kind
  rw [segments_of_no_region hregion] at hclosable
  by_cases hkind : closed = kind
  · subst hkind
    rw [closingsLeft_closes rfl (Segment.closes_self closed)] at hclosable
    rw [openSpans_eraseP_self, List.length_tail]
    omega
  · rw [closingsLeft_other rfl (Segment.closes_of_ne hkind)] at hclosable
    rwa [openSpans_eraseP_of_ne stack hkind]

end Closable

theorem openAfter?_pieces_of_closable (language : Text) {depth : Nat} {stack : List Span}
    {tags : List Tag} (hdepth : (openSpans .container stack).length = depth)
    (hfit : samplesFit depth tags = true) (h : Closable stack tags) :
    openAfter? stack (pieces language stack tags) = some [] := by
  fun_induction samplesFit depth tags generalizing stack with
  | case1 => rw [pieces_nil, openAfter?_nil, h.eq_nil]
  | case2 depth tag rest inside after hregion _ hstray ih =>
    rw [Bool.and_eq_true] at hfit
    rw [Bool.and_eq_true, beq_iff_eq] at hstray
    obtain ⟨hsample, rfl⟩ := hstray
    obtain ⟨sample, rfl⟩ := Tag.exists_of_opensSample hsample
    have houtside : Span.container ∉ stack := by
      rw [container_mem_iff, Classical.not_not]
      exact List.length_eq_zero_iff.mp hdepth
    have hstep : WalkStep language stack (.languageOpen sample :: rest) _ stack rest :=
      .sampleOutside houtside
    rw [hstep.openAfter?_pieces]
    exact ih hdepth hfit.2 (h.keepsClosings hregion hfit.1)
  | case3 depth tag rest inside after hregion _ hpassed ih =>
    obtain ⟨region, hopens, hsplit⟩ := exists_split?_of_regionAt? hregion
    have hinside : ∀ sample, tag = .languageOpen sample → Span.container ∈ stack := by
      rintro sample rfl
      rw [container_mem_iff]
      intro hnone
      rw [hnone] at hdepth
      subst hdepth
      exact hpassed rfl
    obtain ⟨made, hstep⟩ := WalkStep.exists_of_split language hopens hsplit hinside
    rw [hstep.openAfter?_pieces]
    exact ih hdepth hfit (h.region hregion)
  | case4 depth tag rest hregion ih =>
    rcases tag.standsAlone_or_paired with halone | ⟨region, hopens⟩ | ⟨span, rfl⟩ | ⟨kind, rfl⟩
    · obtain ⟨made, hstep⟩ := WalkStep.exists_of_alone language stack rest halone
      rw [containersAfter_of_no_span depth rest (.inl halone)] at hfit ih
      rw [hstep.openAfter?_pieces]
      exact ih hdepth hfit (h.other hregion (.inl halone))
    · have hsplit : region.split? rest = none := by
        rwa [regionAt?_eq, hopens] at hregion
      obtain ⟨made, hstep⟩ := WalkStep.exists_of_unclosed language stack hopens hsplit
      rw [containersAfter_of_no_span depth rest (.inr ⟨region, hopens⟩)] at hfit ih
      rw [hstep.openAfter?_pieces]
      exact ih hdepth hfit (h.other hregion (.inr ⟨region, hopens⟩))
    · obtain ⟨made, hstep⟩ := WalkStep.exists_of_spanOpen language stack span rest
      rw [hstep.openAfter?_pieces]
      have hcontainers := length_openSpans_spanOpen stack span rest
      rw [hdepth] at hcontainers
      exact ih hcontainers hfit (h.spanOpen hregion)
    · obtain ⟨made, hstep⟩ := WalkStep.exists_of_spanClose language stack kind rest
      rw [hstep.openAfter?_pieces]
      have hcontainers := length_openSpans_spanClose stack kind rest
      rw [hdepth] at hcontainers
      exact ih hcontainers hfit (h.spanClose hregion)

/-- Where no sample outside containers takes closing tags from the tags around it, each span of a
document that starts is ended by a later piece, and no other one is ended, so the document has as many
starts of a span as ends. -/
theorem opened_spans_are_closed (settings : DocSettings) (source : Text)
    (hfit : samplesFit 0 (tagsOf source) = true) :
    openAfter? [] (DocComment.document settings source) = some [] ∧
    ∀ span, (DocComment.document settings source).count (.spanStart span) =
      (DocComment.document settings source).count (.spanEnd span) := by
  have hopen : openAfter? [] (DocComment.document settings source) = some [] :=
    openAfter?_pieces_of_closable settings.language rfl hfit (Closable.initial _)
  refine ⟨hopen, fun span => ?_⟩
  have hcount := count_of_openAfter? hopen span
  rw [List.count_nil, Nat.zero_add, Nat.add_zero] at hcount
  exact hcount

def sampledSource : Text :=
  ("[b][gdscript][i]x[/i][/b][/gdscript]" ++
    "[codeblocks] [csharp][i]y[/csharp][i]z[/i][/codeblocks][/b]").toList

theorem sampledSource_is_balanced :
    samplesFit 0 (tagsOf sampledSource) = true ∧
    openAfter? [] (DocComment.document .default sampledSource) = some [] := by
  have hfit : samplesFit 0 (tagsOf sampledSource) = true := by decide +kernel
  exact ⟨hfit, (opened_spans_are_closed .default sampledSource hfit).1⟩

/-- A closing tag in code in a sample outside containers: the search for the end of the bold span
passes over the sample and finds the tag behind it, which the walk takes for a part of the code. -/
def strayedSource : Text :=
  "[b]x[gdscript][code][/gdscript][/b][/code]".toList

theorem strayedSource_leaves_bold_open :
    openAfter? [] (DocComment.document .default strayedSource) = some [.bold] ∧
    (DocComment.document .default strayedSource).count (.spanStart .bold) = 1 ∧
    (DocComment.document .default strayedSource).count (.spanEnd .bold) = 0 := by
  decide +kernel

end ClassDocs
