import ClassDocs.Project
import ClassDocs.Proofs.Markup.Page
import ClassDocs.Proofs.Markup.Walk
import ClassDocs.Proofs.Text.Ink

/-!
# Plain text is not lost

From the tags of an entry to the lines of its comment, plain text loses and gains white space only,
unless a code sample is left out. Each stage is followed by the ink of what it makes.
-/

namespace ClassDocs

open Text Unicode

namespace Layout

theorem ink_trimSides (line : Text) : ink (trimSides line) = ink line :=
  ink_trim (fun _ => isWhiteSpace_of_isSide) line

theorem ink_emitted (fence : Option Nat) (line : Text) : ink (emitted fence line) = ink line := by
  rw [emitted]
  split
  · rfl
  all_goals exact ink_trimSides line

theorem flatMap_ink_spaced (fence : Option Nat) (afterBlank : Bool) (ls : List Text) :
    (spaced fence afterBlank ls).flatMap ink = ls.flatMap ink := by
  induction ls generalizing fence afterBlank with
  | nil => rfl
  | cons line rest ih =>
    have hgap : (if startsParagraph fence line && !afterBlank then [[]] else []).flatMap ink = [] := by
      split <;> rfl
    rw [spaced, List.flatMap_append, hgap, List.nil_append, List.flatMap_cons, ink_emitted, ih,
      List.flatMap_cons]

theorem ink_flatten_tidyLines (s : Text) : ink (tidyLines s).flatten = ink s := by
  rw [ink_flatten, tidyLines, dropBlankEnds, flatMap_ink_dropWhile]
  calc
    ((spaced none true (lines s)).rdropWhile isBlank).flatMap ink =
        (spaced none true (lines s)).flatMap ink := flatMap_ink_rdropWhile _
    _ = (lines s).flatMap ink := flatMap_ink_spaced none true (lines s)
    _ = ink s := flatMap_ink_lines s

end Layout

theorem Fence.ink_body (code : Text) : ink (body code) = ink code := by
  rw [body, ink_trimEnd]
  cases hreturn : stripPrefix? ['\r', '\n'] code with
  | some rest =>
    obtain rfl := stripPrefix?_eq_some_iff.mp hreturn
    rfl
  | none =>
    cases hnewline : stripPrefix? ['\n'] code with
    | some rest =>
      obtain rfl := stripPrefix?_eq_some_iff.mp hnewline
      rfl
    | none => rfl

theorem Fence.sublist_block (language code : Text) : code.Sublist (block language code) := by
  have hcode : code.Sublist (if code.isEmpty then [] else code ++ ['\n']) := by
    split
    next hempty => exact (List.isEmpty_iff.mp hempty) ▸ List.Sublist.refl []
    next => exact List.sublist_append_left code ['\n']
  have hopened := (hcode.cons '\n').trans (List.sublist_append_right (delimiter code ++ language) _)
  exact hopened.trans (List.sublist_append_left _ (delimiter code))

theorem sublist_inlineCode (content : Text) : content.Sublist (inlineCode content) := by
  have hescaped : content.Sublist
      (content.flatMap fun c => if c = '`' then ['\\', '`'] else [c]) := by
    induction content with
    | nil => exact List.Sublist.refl []
    | cons c content ih =>
      have hc : [c].Sublist (if c = '`' then ['\\', '`'] else [c]) := by
        split
        next hquote => exact hquote ▸ (List.Sublist.refl ['`']).cons '\\'
        next => exact List.Sublist.refl [c]
      exact hc.append ih
  exact (hescaped.trans (List.sublist_append_left _ ['`'])).cons '`'

/-- What a piece puts on a page, line ends around it aside. -/
def Piece.writes : Piece → Text
  | .text content => content
  | .newline => []
  | .code content => inlineCode content
  | .spanStart span => span.startMark
  | .spanEnd span => span.endMark
  | .block language content => Fence.block language (Fence.body content)
  | .unpaired tag => tag.display
  | .omitted _ => []

namespace Page

theorem ink_write (page : Page) (content : Text) :
    ink (page.write content).text = ink page.text ++ ink content := by
  rw [write]
  split
  next hempty => rw [List.isEmpty_iff.mp hempty, ink_nil, List.append_nil]
  next =>
    split
    · rw [ink_append, ink_newline_cons]
    · rw [ink_append]

theorem ink_writeBlock (page : Page) (language code : Text) :
    ink (page.writeBlock language code).text =
      ink page.text ++ ink (Fence.block language (Fence.body code)) := by
  rw [writeBlock]
  dsimp only
  rw [ink_append]
  split
  next hblank => rw [ink_completeLines hblank]
  next => rw [ink_append, ink_newline_cons, ink_nil, List.append_nil]

theorem ink_add (page : Page) (piece : Piece) :
    ink (page.add piece).text = ink page.text ++ ink piece.writes := by
  cases piece with
  | newline => exact ink_append page.text ['\n']
  | omitted => exact (List.append_nil _).symm
  | block language code => exact ink_writeBlock page language code
  | _ => exact ink_write page _

theorem ink_addAll (page : Page) (document : List Piece) :
    ink (page.addAll document).text = ink page.text ++ ink (document.flatMap Piece.writes) := by
  induction document generalizing page with
  | nil => exact (List.append_nil _).symm
  | cons piece document ih =>
    rw [addAll_cons, ih, ink_add, List.flatMap_cons, ink_append, List.append_assoc]

end Page

theorem ink_rendered (document : List Piece) :
    ink (rendered document) = ink (document.flatMap Piece.writes) :=
  Page.ink_addAll Page.blank document

/-- The characters of a tag of plain text, and nothing of any other tag. -/
def Tag.plainText : Tag → Text
  | .text content => content
  | _ => []

def plainText (tags : List Tag) : Text :=
  tags.flatMap Tag.plainText

theorem plainText_append (as bs : List Tag) : plainText (as ++ bs) = plainText as ++ plainText bs :=
  List.flatMap_append

theorem plainText_singleton (tag : Tag) : plainText [tag] = tag.plainText :=
  List.append_nil _

namespace Tag

theorem plainText_of_opensRegion? {tag : Tag} {region : Region}
    (h : tag.opensRegion? = some region) : tag.plainText = [] := by
  cases tag with
  | text => simp [opensRegion?] at h
  | _ => rfl

theorem plainText_of_closesRegion? {tag : Tag} {region : Region}
    (h : tag.closesRegion? = some region) : tag.plainText = [] := by
  cases tag with
  | text => simp [closesRegion?] at h
  | _ => rfl

theorem ink_plainText_of_isBlank {tag : Tag} (h : tag.isBlank = true) : ink tag.plainText = [] := by
  cases tag with
  | text content => exact ink_eq_nil_iff.mpr h
  | _ => rfl

theorem plainText_sublist_literal (tag : Tag) : tag.plainText.Sublist tag.literal := by
  cases tag with
  | text content => exact List.Sublist.refl content
  | _ => exact List.nil_sublist _

theorem plainText_sublist_lonePiece (tag : Tag) : tag.plainText.Sublist tag.lonePiece.writes := by
  cases tag with
  | text content => exact List.Sublist.refl content
  | _ => exact List.nil_sublist _

theorem ink_sublist_regionPiece (tag : Tag) (language content : Text) :
    (ink content).Sublist (ink (tag.regionPiece language content).writes) := by
  have hcode : (ink content).Sublist (ink (inlineCode content)) :=
    ink_mono (sublist_inlineCode content)
  have hblock : ∀ named : Text,
      (ink content).Sublist (ink (Fence.block named (Fence.body content))) := by
    intro named
    have hbody := ink_mono (Fence.sublist_block named (Fence.body content))
    rwa [Fence.ink_body] at hbody
  cases tag with
  | fenceOpen named _ | rawFence named _ => exact hblock _
  | _ => exact hcode

end Tag

theorem plainText_sublist_literalText (tags : List Tag) :
    (plainText tags).Sublist (literalText tags) := by
  induction tags with
  | nil => exact List.nil_sublist _
  | cons tag tags ih => exact tag.plainText_sublist_literal.append ih

theorem exists_region_append (tag : Tag) {region : Region} {rest inside after : List Tag}
    (opens : tag.opensRegion? = some region) (split : region.split? rest = some (inside, after)) :
    ∃ taken, tag :: rest = taken ++ after ∧ (plainText taken).Sublist (literalText inside) := by
  obtain ⟨close, hrest, hcloses, -⟩ := Region.split?_eq_some split
  refine ⟨tag :: (inside ++ [close]), by simp [hrest], ?_⟩
  have htaken : plainText (tag :: (inside ++ [close])) = plainText inside := by
    rw [← List.singleton_append, plainText_append, plainText_append, plainText_singleton,
      plainText_singleton, Tag.plainText_of_opensRegion? opens,
      Tag.plainText_of_closesRegion? hcloses, List.nil_append, List.append_nil]
  rw [htaken]
  exact plainText_sublist_literalText inside

/-- A step that leaves no sample out writes the plain text of the tags it takes. -/
theorem WalkStep.ink_sublist {language : Text} {stack stack' : List Span} {tags rest : List Tag}
    {made : List Piece} (h : WalkStep language stack tags made stack' rest)
    (kept : ∀ sample, Piece.omitted sample ∉ made) :
    ∃ taken, tags = taken ++ rest ∧
      (ink (plainText taken)).Sublist (ink (made.flatMap Piece.writes)) := by
  cases h with
  | dropped _ blank =>
    refine ⟨[_], rfl, ?_⟩
    rw [plainText_singleton, Tag.ink_plainText_of_isBlank blank]
    exact List.nil_sublist _
  | alone =>
    refine ⟨[_], rfl, ink_mono ?_⟩
    rw [plainText_singleton, List.flatMap_singleton]
    exact Tag.plainText_sublist_lonePiece _
  | region opens _ split =>
    obtain ⟨taken, htags, htaken⟩ := exists_region_append _ opens split
    refine ⟨taken, htags, (ink_mono htaken).trans ?_⟩
    rw [List.flatMap_singleton]
    exact Tag.ink_sublist_regionPiece _ language _
  | sample _ split =>
    obtain ⟨taken, htags, htaken⟩ := exists_region_append (.languageOpen _) rfl split
    refine ⟨taken, htags, (ink_mono htaken).trans ?_⟩
    rw [List.flatMap_singleton]
    split
    next => exact Tag.ink_sublist_regionPiece (.fenceOpen (some _) []) language _
    next hother =>
      rw [if_neg hother] at kept
      exact absurd List.mem_cons_self (kept _)
  | unclosed opens =>
    refine ⟨[_], rfl, ?_⟩
    rw [plainText_singleton, Tag.plainText_of_opensRegion? opens]
    exact List.nil_sublist _
  | sampleUnclosed | sampleOutside | opened | unopened | closed | notClosed =>
    exact ⟨[_], rfl, List.nil_sublist _⟩

theorem ink_sublist_pieces (language : Text) (stack : List Span) (tags : List Tag)
    (kept : ∀ sample, Piece.omitted sample ∉ pieces language stack tags) :
    (ink (plainText tags)).Sublist (ink ((pieces language stack tags).flatMap Piece.writes)) := by
  induction stack, tags using walk_induction language with
  | nil stack => exact List.nil_sublist _
  | step hstep ih =>
    rw [hstep.pieces_eq] at kept ⊢
    obtain ⟨taken, htags, htaken⟩ := hstep.ink_sublist fun sample hmem =>
      kept sample (List.mem_append_left _ hmem)
    have hrest := ih fun sample hmem => kept sample (List.mem_append_right _ hmem)
    rw [htags, plainText_append, ink_append, List.flatMap_append, ink_append]
    exact htaken.append hrest

theorem mem_events_of_omitted {settings : DocSettings} {entry : List Text} {sample : Text}
    (h : Piece.omitted sample ∈
      DocComment.document settings (DocComment.source settings entry)) :
    Event.omittedSample sample settings.language ∈ (DocComment.loggedLines settings entry).events :=
  List.mem_filterMap.mpr ⟨.omitted sample, h, rfl⟩

/-- Whatever an entry and its settings hold, either a code sample is reported as left out, or every
character of the entry's plain text that is not white space stands in its lines, in order. -/
theorem plain_text_kept_or_sample_dropped (settings : DocSettings) (entry : List Text) :
    (∃ event ∈ (DocComment.loggedLines settings entry).events,
      event.message = "dropping code sample".toList) ∨
    (ink (plainText (tagsOf (DocComment.source settings entry)))).Sublist
      (DocComment.loggedLines settings entry).value.flatten := by
  by_cases homitted : ∃ sample, Piece.omitted sample ∈
      DocComment.document settings (DocComment.source settings entry)
  · obtain ⟨sample, hsample⟩ := homitted
    exact Or.inl ⟨_, mem_events_of_omitted hsample, rfl⟩
  · right
    have hkept := ink_sublist_pieces settings.language []
      (tagsOf (DocComment.source settings entry)) (not_exists.mp homitted)
    have hlines := (Layout.ink_flatten_tidyLines _).trans
      (ink_rendered (DocComment.document settings (DocComment.source settings entry)))
    exact (hlines ▸ hkept).trans (ink_sublist _)

end ClassDocs
