import ClassDocs.Markup.Page
import ClassDocs.Proofs.Markup.Fence
import ClassDocs.Proofs.Markup.Piece
import ClassDocs.Proofs.Markup.TagStream

/-!
# Writing pieces

Pieces are written one after another, so a document is written as its parts are. Lines of plain
characters are written as they stand, and a block of code takes lines of its own.
-/

namespace ClassDocs

open Text

namespace Page

def addAll (page : Page) (document : List Piece) : Page :=
  document.foldl Page.add page

@[simp] theorem addAll_nil (page : Page) : page.addAll [] = page := rfl

@[simp] theorem addAll_cons (page : Page) (piece : Piece) (document : List Piece) :
    page.addAll (piece :: document) = (page.add piece).addAll document := rfl

@[simp] theorem addAll_append (page : Page) (first second : List Piece) :
    page.addAll (first ++ second) = (page.addAll first).addAll second :=
  List.foldl_append

@[simp] theorem write_nil (page : Page) : page.write [] = page := rfl

theorem write_of_ne_nil (page : Page) {content : Text} (h : content ≠ []) :
    page.write content =
      if page.afterBlock && content.head? != some '\n' then ⟨page.text ++ '\n' :: content, false⟩
      else ⟨page.text ++ content, false⟩ :=
  if_neg (by simpa using h)

theorem write_of_not_afterBlock {page : Page} (content : Text) (h : page.afterBlock = false) :
    page.write content = ⟨page.text ++ content, false⟩ := by
  obtain ⟨text, afterBlock⟩ := page
  subst h
  by_cases hempty : content = []
  · simp [write, hempty]
  · simp [write, hempty]

theorem writeBlock_of_line_start (page : Page) (language code : Text)
    (h : lastLine page.text = []) :
    page.writeBlock language code =
      ⟨page.text ++ Fence.block language (Fence.body code), true⟩ := by
  rw [writeBlock, h, completeLines_eq_self h]
  rfl

theorem writeBlock_of_not_blank {page : Page} (language code : Text)
    (h : isBlank (lastLine page.text) = false) :
    page.writeBlock language code =
      ⟨page.text ++ '\n' :: Fence.block language (Fence.body code), true⟩ := by
  rw [writeBlock, h]
  simp

end Page

theorem lastLine_block (s language code : Text) :
    lastLine (s ++ Fence.block language code) = Fence.delimiter code := by
  obtain ⟨before, hblock⟩ : ∃ before,
      s ++ Fence.block language code = before ++ '\n' :: Fence.delimiter code := by
    by_cases hcode : code = []
    · exact ⟨s ++ (Fence.delimiter code ++ language), by simp [Fence.block, hcode]⟩
    · exact ⟨s ++ (Fence.delimiter code ++ language ++ '\n' :: code), by simp [Fence.block, hcode]⟩
  rw [hblock, lastLine_append_newline before (Fence.newline_notMem_delimiter code)]

theorem isBlank_lastLine_block (s language code : Text) :
    isBlank (lastLine (s ++ Fence.block language code)) = false := by
  have hrun := Fence.isBlank_delimiter_append code []
  rwa [List.append_nil, ← lastLine_block s language code] at hrun

theorem rendered_eq_addAll (document : List Piece) :
    rendered document = (Page.blank.addAll document).text := rfl

namespace Page

/-- The page under a text that ends with a newline. -/
def under (above : Text) (page : Page) : Page :=
  ⟨above ++ '\n' :: page.text, page.afterBlock⟩

theorem write_under (above : Text) (page : Page) (content : Text) :
    (page.under above).write content = (page.write content).under above := by
  rw [write, write, under]
  split
  · rfl
  · split <;> simp [under]

theorem writeBlock_under (above : Text) (page : Page) (language code : Text) :
    (page.under above).writeBlock language code = (page.writeBlock language code).under above := by
  rw [writeBlock, writeBlock, under, lastLine_newline_append, completeLines_newline_append]
  dsimp only
  split <;> simp [under]

theorem add_under (above : Text) (page : Page) (piece : Piece) :
    (page.under above).add piece = (page.add piece).under above := by
  cases piece with
  | newline => simp [add, endLine, under]
  | block => exact writeBlock_under above page _ _
  | omitted => rfl
  | _ => exact write_under above page _

theorem addAll_under (above : Text) (page : Page) (document : List Piece) :
    (page.under above).addAll document = (page.addAll document).under above := by
  induction document generalizing page with
  | nil => rfl
  | cons piece document ih => rw [addAll_cons, add_under, ih, addAll_cons]

end Page

/-- What is written behind a newline is written as a page of its own. -/
theorem text_addAll_newline (page : Page) (document : List Piece) :
    (page.addAll (.newline :: document)).text = page.text ++ '\n' :: rendered document := by
  have hunder : page.add .newline = Page.blank.under page.text := rfl
  rw [Page.addAll_cons, hunder, Page.addAll_under]
  rfl

theorem rendered_append_newline (first second : List Piece) :
    rendered (first ++ .newline :: second) = rendered first ++ '\n' :: rendered second := by
  rw [rendered_eq_addAll, Page.addAll_append, text_addAll_newline]
  rfl

namespace Page

variable {page : Page}

theorem add_behind_block (piece : Piece) (hblock : page.afterBlock = true)
    (hlast : isBlank (lastLine page.text) = false) :
    page.add piece = page ∨ ∃ next : Page, page.add piece = next.under page.text := by
  have hwrite : ∀ content, page.write content = page ∨
      ∃ next : Page, page.write content = next.under page.text := by
    intro content
    cases content with
    | nil => exact Or.inl rfl
    | cons c content =>
      right
      by_cases hnewline : c = '\n'
      · exact ⟨⟨content, false⟩, by simp [write, under, hnewline]⟩
      · exact ⟨⟨c :: content, false⟩, by simp [write, under, hnewline, hblock]⟩
  cases piece with
  | newline => exact Or.inr ⟨⟨[], false⟩, rfl⟩
  | block language code =>
    exact Or.inr ⟨⟨Fence.block language (Fence.body code), true⟩, writeBlock_of_not_blank language code hlast⟩
  | omitted => exact Or.inl rfl
  | _ => exact hwrite _

/-- What is written behind a block starts on a new line. -/
theorem text_addAll_behind_block (document : List Piece) (hblock : page.afterBlock = true)
    (hlast : isBlank (lastLine page.text) = false) :
    (page.addAll document).text = page.text ∨
      ∃ more, (page.addAll document).text = page.text ++ '\n' :: more := by
  induction document with
  | nil => exact Or.inl rfl
  | cons piece document ih =>
    rcases add_behind_block piece hblock hlast with hsame | ⟨next, hnext⟩
    · rw [addAll_cons, hsame]
      exact ih
    · refine Or.inr ⟨(next.addAll document).text, ?_⟩
      rw [addAll_cons, hnext, addAll_under]
      rfl

end Page

def IsPlainLine (line : Text) : Prop :=
  ∀ c ∈ line, Slice.isPlain c = true

section PlainLines

variable {language : Text} {stack : List Span} {page : Page}

theorem addAll_pieces_plain {line : Text} (rest : List Tag) (hplain : IsPlainLine line)
    (hclosed : Span.container ∉ stack) (hpage : page.afterBlock = false) :
    page.addAll (pieces language stack (tagsOf line ++ rest)) =
      Page.addAll ⟨page.text ++ line, false⟩ (pieces language stack rest) := by
  by_cases hne : line = []
  · obtain ⟨text, afterBlock⟩ := page
    subst hne hpage
    simp
  · rw [tagsOf_plain hplain hne, List.singleton_append,
      pieces_alone rfl fun hopen => absurd hopen hclosed, Page.addAll_cons]
    congr 1
    exact Page.write_of_not_afterBlock line hpage

theorem addAll_pieces_newline (rest : List Tag) (hclosed : Span.container ∉ stack) :
    page.addAll (pieces language stack (.newline :: rest)) =
      Page.addAll ⟨page.text ++ ['\n'], false⟩ (pieces language stack rest) := by
  rw [pieces_alone rfl fun hopen => absurd hopen hclosed, Page.addAll_cons]
  rfl

theorem addAll_pieces_ended_lines {ls : List Text} (rest : List Tag)
    (hplain : ∀ line ∈ ls, IsPlainLine line) (hclosed : Span.container ∉ stack)
    (hpage : page.afterBlock = false) :
    page.addAll (pieces language stack (ls.flatMap (fun line => tagsOf line ++ [.newline]) ++ rest)) =
      Page.addAll ⟨page.text ++ ls.flatMap (fun line => line ++ ['\n']), false⟩
        (pieces language stack rest) := by
  induction ls generalizing page with
  | nil =>
    obtain ⟨text, afterBlock⟩ := page
    subst hpage
    simp
  | cons line ls ih =>
    have hline := hplain line List.mem_cons_self
    have hrest : ∀ other ∈ ls, IsPlainLine other := fun other hother =>
      hplain other (List.mem_cons_of_mem line hother)
    rw [List.flatMap_cons, List.append_assoc, List.append_assoc,
      addAll_pieces_plain _ hline hclosed hpage, List.singleton_append,
      addAll_pieces_newline _ hclosed, ih hrest rfl, List.flatMap_cons]
    simp only [List.append_assoc]

theorem text_addAll_pieces_started_lines {ls : List Text}
    (hplain : ∀ line ∈ ls, IsPlainLine line) (hclosed : Span.container ∉ stack) :
    (page.addAll (pieces language stack (ls.flatMap fun line => .newline :: tagsOf line))).text =
      page.text ++ ls.flatMap fun line => '\n' :: line := by
  induction ls generalizing page with
  | nil => simp
  | cons line ls ih =>
    have hline := hplain line List.mem_cons_self
    have hrest : ∀ other ∈ ls, IsPlainLine other := fun other hother =>
      hplain other (List.mem_cons_of_mem line hother)
    rw [List.flatMap_cons, List.cons_append, addAll_pieces_newline _ hclosed,
      addAll_pieces_plain _ hline hclosed rfl, ih hrest, List.flatMap_cons]
    simp only [List.append_assoc, List.cons_append, List.nil_append]

end PlainLines

end ClassDocs
