import ClassDocs.Proofs.Markup.Pairing
import ClassDocs.Proofs.Markup.TagContent
import ClassDocs.Proofs.Text.Returns

/-!
# Tags of lines that end in carriage returns

A carriage return at the end of a line is plain text: it goes into the last tag of the line if that is
plain text, and else it makes a tag of its own. Without them, the tags are those of the lines without
carriage returns, and regions and spans end at the same tags.
-/

namespace ClassDocs

open Text

def Tag.withoutReturns? : Tag → Option Tag
  | .text s => if dropReturns s = [] then none else some (.text (dropReturns s))
  | tag => some tag

def withoutReturns (tags : List Tag) : List Tag :=
  tags.filterMap Tag.withoutReturns?

@[simp] theorem withoutReturns_nil : withoutReturns [] = [] := rfl

@[simp] theorem withoutReturns_append (as bs : List Tag) :
    withoutReturns (as ++ bs) = withoutReturns as ++ withoutReturns bs :=
  List.filterMap_append

theorem withoutReturns_cons_of_ne_text {tag : Tag} (rest : List Tag) (h : ∀ s, tag ≠ .text s) :
    withoutReturns (tag :: rest) = tag :: withoutReturns rest := by
  cases tag with
  | text s => exact absurd rfl (h s)
  | _ => rfl

theorem withoutReturns_text_cons (s : Text) (rest : List Tag) :
    withoutReturns (.text s :: rest) =
      if dropReturns s = [] then withoutReturns rest
      else .text (dropReturns s) :: withoutReturns rest := by
  split
  next h => exact List.filterMap_cons_none (if_pos h)
  next h => exact List.filterMap_cons_some (if_neg h)

theorem withoutReturns_cons_of_notMem {tag : Tag} (rest : List Tag) (h : '\r' ∉ tag.display)
    (hnil : tag ≠ .text []) : withoutReturns (tag :: rest) = tag :: withoutReturns rest := by
  cases tag with
  | text s =>
    have hs : dropReturns s = s := dropReturns_eq_self h
    rw [withoutReturns_text_cons, hs, if_neg]
    rintro rfl
    exact hnil rfl
  | _ => rfl

theorem Tag.text_or_ne_text (tag : Tag) : (∃ s, tag = .text s) ∨ ∀ s, tag ≠ .text s := by
  cases tag with
  | text s => exact Or.inl ⟨s, rfl⟩
  | _ => exact Or.inr (by simp)

theorem Tag.ne_text_of_opensRegion? {tag : Tag} {region : Region}
    (h : tag.opensRegion? = some region) (s : Text) : tag ≠ .text s := by
  rintro rfl
  exact absurd h (by simp [opensRegion?])

theorem Region.split?_text_cons (region : Region) (s : Text) (rest : List Tag) :
    region.split? (.text s :: rest) =
      (region.split? rest).map fun (inside, after) => (.text s :: inside, after) := by
  rw [split?, if_neg (by simp [Tag.closesRegion?])]

theorem Region.split?_withoutReturns (region : Region) (tags : List Tag) :
    region.split? (withoutReturns tags) =
      (region.split? tags).map fun (inside, after) => (withoutReturns inside, withoutReturns after) := by
  induction tags with
  | nil => rfl
  | cons tag rest ih =>
    rcases tag.text_or_ne_text with ⟨s, rfl⟩ | htext
    · rw [withoutReturns_text_cons, split?_text_cons, Option.map_map]
      split
      next hs =>
        rw [ih]
        congr 1
        funext found
        simp [withoutReturns_text_cons, hs]
      next hs =>
        rw [split?_text_cons, ih, Option.map_map]
        congr 1
        funext found
        simp [withoutReturns_text_cons, hs]
    · rw [withoutReturns_cons_of_ne_text rest htext, split?, split?]
      split
      · rfl
      · rw [ih, Option.map_map, Option.map_map]
        congr 1
        funext found
        simp [withoutReturns_cons_of_ne_text _ htext]

theorem afterRegion?_withoutReturns (tag : Tag) (rest : List Tag) :
    afterRegion? tag (withoutReturns rest) = (afterRegion? tag rest).map withoutReturns := by
  rw [afterRegion?, afterRegion?, Option.map_bind]
  congr 1
  funext region
  rw [Function.comp_apply, Region.split?_withoutReturns, Option.map_map, Option.map_map]
  rfl

theorem closesSpan_text_cons (kind : SpanKind) (depth : Nat) (s : Text) (rest : List Tag) :
    closesSpan kind depth (.text s :: rest) = closesSpan kind depth rest :=
  closesSpan_other (by simp) rfl rfl

theorem closesSpan_withoutReturns (kind : SpanKind) (depth : Nat) (tags : List Tag) :
    closesSpan kind depth (withoutReturns tags) = closesSpan kind depth tags := by
  fun_induction closesSpan kind depth tags with
  | case1 => simp
  | case2 => exact closesSpan_close_zero kind _
  | case3 rest depth ih =>
    rw [withoutReturns_cons_of_ne_text _ (by simp), closesSpan_close_succ, ih]
  | case4 depth tag rest hclose hopen ih =>
    have htext : ∀ s, tag ≠ .text s := by
      rintro s rfl
      exact absurd hopen (by simp [Tag.opensSpan])
    rw [withoutReturns_cons_of_ne_text rest htext, closesSpan_open hopen, ih]
  | case5 depth tag rest hclose hopen after hafter _ ih =>
    obtain ⟨region, hopens, -⟩ := Option.bind_eq_some_iff.mp hafter
    have htext := Tag.ne_text_of_opensRegion? hopens
    have hkept : afterRegion? tag (withoutReturns rest) = some (withoutReturns after) := by
      rw [afterRegion?_withoutReturns, hafter]
      rfl
    rw [withoutReturns_cons_of_ne_text rest htext,
      closesSpan_region hclose (by simpa using hopen) hkept, ih]
  | case6 depth tag rest hclose hopen hafter ih =>
    rcases tag.text_or_ne_text with ⟨s, rfl⟩ | htext
    · rw [withoutReturns_text_cons]
      split
      · exact ih
      · rw [closesSpan_text_cons, ih]
    · have hkept : afterRegion? tag (withoutReturns rest) = none := by
        rw [afterRegion?_withoutReturns, hafter]
        rfl
      rw [withoutReturns_cons_of_ne_text rest htext,
        closesSpan_other hclose (by simpa using hopen) hkept, ih]

/-- Tags of a line with a carriage return behind them. -/
def endWithReturn : List Tag → List Tag
  | [] => [.text ['\r']]
  | [.text s] => [.text (s ++ ['\r'])]
  | tag :: rest => tag :: endWithReturn rest

theorem endWithReturn_cons_of_ne_text {tag : Tag} (rest : List Tag) (h : ∀ s, tag ≠ .text s) :
    endWithReturn (tag :: rest) = tag :: endWithReturn rest := by
  cases tag with
  | text s => exact absurd rfl (h s)
  | _ => cases rest <;> rfl

theorem endWithReturn_cons_cons (tag next : Tag) (rest : List Tag) :
    endWithReturn (tag :: next :: rest) = tag :: endWithReturn (next :: rest) := by
  cases tag <;> rfl

theorem prependTag_endWithReturn (first : Tag) (tags : List Tag) :
    prependTag first (endWithReturn tags) = endWithReturn (prependTag first tags) := by
  rcases first.text_or_ne_text with ⟨s, rfl⟩ | hfirst
  · cases tags with
    | nil => rfl
    | cons tag rest =>
      rcases tag.text_or_ne_text with ⟨t, rfl⟩ | htag
      · cases rest with
        | nil => simp [endWithReturn, prependTag]
        | cons next rest =>
          rw [endWithReturn_cons_cons, prependTag, prependTag, endWithReturn_cons_cons]
      · rw [endWithReturn_cons_of_ne_text rest htag]
        cases tag with
        | text t => exact absurd rfl (htag t)
        | _ =>
          rw [prependTag, prependTag, endWithReturn_cons_cons, endWithReturn_cons_of_ne_text]
          all_goals simp
  · rw [prependTag_of_ne_text _ hfirst, prependTag_of_ne_text _ hfirst,
      endWithReturn_cons_of_ne_text tags hfirst]

theorem Slice.cut_append_return {c : Char} {rest : Text} (h : (c :: rest).all isPlain = false) :
    cut c (rest ++ ['\r']) = ((cut c rest).1, (cut c rest).2 ++ ['\r']) := by
  unfold cut
  split
  · rfl
  next hnewline =>
    split
    · cases hrest : rest.dropWhile isBodyChar with
      | nil =>
        have hreturn : (rest ++ ['\r']).dropWhile isBodyChar = [] := by
          rw [List.dropWhile_append, hrest]
          rfl
        rw [hreturn]
      | cons d after =>
        have hne : rest.dropWhile isBodyChar ≠ [] := by simp [hrest]
        rw [dropWhile_append_of_ne_nil _ hne, takeWhile_append_of_ne_nil _ hne, hrest]
        by_cases hd : d = ']'
        · subst hd
          simp only [List.cons_append]
          split <;> rfl
        · simp [hd]
    next hbracket =>
      split
      · rw [stripPrefix?_append_cons rest [] (by decide)]
        cases stripPrefix? "``".toList rest with
        | none => rfl
        | some info =>
          have hinfo : isInfoChar '\r' = false := rfl
          simp only [Option.map_some]
          rw [dropWhile_append_cons_of_neg info [] hinfo, takeWhile_append_cons_of_neg info [] hinfo]
      next hbacktick =>
        have hne : rest.dropWhile isPlain ≠ [] := by
          intro hnil
          have hc : isPlain c = true := isPlain_iff.mpr ⟨hnewline, hbracket, hbacktick⟩
          have hrest := List.all_eq_true.mpr (List.dropWhile_eq_nil_iff.mp hnil)
          rw [List.all_cons, hc, hrest] at h
          exact absurd h (by decide)
        rw [dropWhile_append_of_ne_nil _ hne, takeWhile_append_of_ne_nil _ hne]

theorem tagsOf_append_return (line : Text) :
    tagsOf (line ++ ['\r']) = endWithReturn (tagsOf line) := by
  fun_induction slices line with
  | case1 =>
    have hreturn : ∀ d ∈ ['\r'], Slice.isPlain d = true := List.forall_mem_singleton.mpr rfl
    rw [List.nil_append, tagsOf_plain hreturn (by simp), tagsOf_nil]
    rfl
  | case2 c rest ih =>
    cases hplain : (c :: rest).all Slice.isPlain with
    | true =>
      have hchars := List.all_eq_true.mp hplain
      have hreturn : ∀ d ∈ c :: rest ++ ['\r'], Slice.isPlain d = true := by
        intro d hd
        rcases List.mem_append.mp hd with hd | hd
        · exact hchars d hd
        · rw [List.mem_singleton.mp hd]
          rfl
      rw [tagsOf_plain hreturn (by simp), tagsOf_plain hchars (by simp)]
      rfl
    | false =>
      rw [List.cons_append, tagsOf_cons, tagsOf_cons, Slice.cut_append_return hplain, ih,
        prependTag_endWithReturn]

/-- Tags in which a carriage return stands only at the end of a line, as the last character of plain
text. -/
inductive ReturnsEndTags : List Tag → Prop where
  | nil : ReturnsEndTags []
  | other {tag : Tag} {rest : List Tag} (kept : '\r' ∉ tag.display) (more : ReturnsEndTags rest) :
      ReturnsEndTags (tag :: rest)
  | last {s : Text} (kept : '\r' ∉ s) : ReturnsEndTags [.text (s ++ ['\r'])]
  | line {s : Text} {rest : List Tag} (kept : '\r' ∉ s) (more : ReturnsEndTags (.newline :: rest)) :
      ReturnsEndTags (.text (s ++ ['\r']) :: .newline :: rest)

theorem ReturnsEndTags.cons_cases {tag : Tag} {rest : List Tag} (h : ReturnsEndTags (tag :: rest)) :
    ReturnsEndTags rest ∧ ('\r' ∉ tag.display ∨ ∃ s, tag = .text (s ++ ['\r']) ∧ '\r' ∉ s ∧
      (rest = [] ∨ ∃ more, rest = .newline :: more)) := by
  cases h with
  | other kept more => exact ⟨more, Or.inl kept⟩
  | last kept => exact ⟨.nil, Or.inr ⟨_, rfl, kept, Or.inl rfl⟩⟩
  | line kept more => exact ⟨more, Or.inr ⟨_, rfl, kept, Or.inr ⟨_, rfl⟩⟩⟩

theorem ReturnsEndTags.of_suffix {tags rest : List Tag} (h : ReturnsEndTags tags)
    (hsuffix : rest <:+ tags) : ReturnsEndTags rest := by
  induction tags with
  | nil => rwa [List.suffix_nil.mp hsuffix]
  | cons tag tags ih =>
    rcases List.suffix_cons_iff.mp hsuffix with rfl | hsuffix
    · exact h
    · exact ih h.cons_cases.1 hsuffix

theorem returnsEndTags_endWithReturn {tags more : List Tag} (h : ∀ tag ∈ tags, '\r' ∉ tag.display)
    (hmore : ReturnsEndTags more) (hline : more = [] ∨ ∃ rest, more = .newline :: rest) :
    ReturnsEndTags (endWithReturn tags ++ more) := by
  have hend : ∀ s : Text, '\r' ∉ s → ReturnsEndTags (.text (s ++ ['\r']) :: more) := by
    intro s hs
    rcases hline with rfl | ⟨rest, rfl⟩
    · exact .last hs
    · exact .line hs hmore
  fun_induction endWithReturn tags with
  | case1 => exact hend [] List.not_mem_nil
  | case2 s => exact hend s (h _ List.mem_cons_self)
  | case3 tag rest _ ih =>
    exact .other (h tag List.mem_cons_self) (ih fun other hmem => h other (List.mem_cons_of_mem tag hmem))

theorem withoutReturns_endWithReturn {tags : List Tag} (h : ∀ tag ∈ tags, '\r' ∉ tag.display)
    (hnil : .text [] ∉ tags) : withoutReturns (endWithReturn tags) = tags := by
  fun_induction endWithReturn tags with
  | case1 => rfl
  | case2 s =>
    have hs : dropReturns (s ++ ['\r']) = s := by
      have hkept : '\r' ∉ s := h _ List.mem_cons_self
      rw [dropReturns_append, dropReturns_eq_self hkept]
      exact List.append_nil s
    rw [withoutReturns_text_cons, hs, if_neg, withoutReturns_nil]
    rintro rfl
    exact hnil List.mem_cons_self
  | case3 tag rest _ ih =>
    obtain ⟨htag, hrest⟩ := List.ne_and_not_mem_of_not_mem_cons hnil
    rw [withoutReturns_cons_of_notMem _ (h tag List.mem_cons_self) (Ne.symm htag),
      ih (fun other hmem => h other (List.mem_cons_of_mem tag hmem)) hrest]

section Lines

variable {ls : List Text}

theorem tagsOf_unlines_returns (line : Text) (ls : List Text) :
    tagsOf (unlines ((line :: ls).map (· ++ ['\r']))) =
      endWithReturn (tagsOf line) ++
        ls.flatMap fun other => .newline :: endWithReturn (tagsOf other) := by
  rw [List.map_cons, tagsOf_unlines_cons, tagsOf_append_return, List.flatMap_map]
  simp only [tagsOf_append_return]

private theorem return_notMem_display {line : Text} (h : '\r' ∉ line) :
    ∀ tag ∈ tagsOf line, '\r' ∉ tag.display :=
  fun _ htag hmem => h (mem_of_mem_display htag hmem)

theorem returnsEndTags_tagsOf (h : ∀ line ∈ ls, '\r' ∉ line) :
    ReturnsEndTags (tagsOf (unlines (ls.map (· ++ ['\r'])))) := by
  have hmore : ∀ others : List Text, (∀ line ∈ others, '\r' ∉ line) →
      ReturnsEndTags (others.flatMap fun other => .newline :: endWithReturn (tagsOf other)) ∧
      ((others.flatMap fun other => Tag.newline :: endWithReturn (tagsOf other)) = [] ∨
        ∃ rest, (others.flatMap fun other => .newline :: endWithReturn (tagsOf other)) =
          .newline :: rest) := by
    intro others hothers
    induction others with
    | nil => exact ⟨.nil, Or.inl rfl⟩
    | cons other others ih =>
      obtain ⟨hrest, hline⟩ := ih fun line hmem => hothers line (List.mem_cons_of_mem other hmem)
      have hother := return_notMem_display (hothers other List.mem_cons_self)
      rw [List.flatMap_cons, List.cons_append]
      refine ⟨?_, Or.inr ⟨_, rfl⟩⟩
      exact .other (by decide) (returnsEndTags_endWithReturn hother hrest hline)
  cases ls with
  | nil =>
    rw [List.map_nil, unlines_nil, tagsOf_nil]
    exact .nil
  | cons line ls =>
    obtain ⟨hrest, hline⟩ := hmore ls fun other hmem => h other (List.mem_cons_of_mem line hmem)
    rw [tagsOf_unlines_returns]
    exact returnsEndTags_endWithReturn (return_notMem_display (h line List.mem_cons_self)) hrest hline

theorem withoutReturns_tagsOf (h : ∀ line ∈ ls, '\r' ∉ line) :
    withoutReturns (tagsOf (unlines (ls.map (· ++ ['\r'])))) = tagsOf (unlines ls) := by
  have hline : ∀ line ∈ ls, withoutReturns (endWithReturn (tagsOf line)) = tagsOf line := by
    intro line hmem
    exact withoutReturns_endWithReturn (return_notMem_display (h line hmem))
      (text_nil_notMem_tagsOf line)
  cases ls with
  | nil => simp
  | cons line ls =>
    rw [tagsOf_unlines_returns, tagsOf_unlines_cons, withoutReturns_append,
      hline line List.mem_cons_self]
    congr 1
    rw [withoutReturns, List.filterMap_flatMap]
    apply List.flatMap_congr
    intro other hmem
    exact congrArg (Tag.newline :: ·) (hline other (List.mem_cons_of_mem line hmem))

end Lines

theorem ReturnsEndTags.return_notMem {tags : List Tag} (h : ReturnsEndTags tags) {tag : Tag}
    (hmem : tag ∈ tags) (htext : ∀ s, tag ≠ .text s) : '\r' ∉ tag.display := by
  induction tags with
  | nil => exact absurd hmem List.not_mem_nil
  | cons first rest ih =>
    obtain ⟨hrest, hfirst⟩ := h.cons_cases
    rcases List.mem_cons.mp hmem with rfl | hmem
    · rcases hfirst with hkept | ⟨s, hs, -⟩
      · exact hkept
      · exact absurd hs (htext _)
    · exact ih hrest hmem

theorem Tag.return_notMem_literal {tag : Tag} (h : '\r' ∉ tag.display) : '\r' ∉ tag.literal := by
  cases tag with
  | leftBracket | rightBracket => decide
  | _ => exact h

theorem dropReturns_literalText {tags : List Tag}
    (h : ∀ tag ∈ tags, (∀ s, tag ≠ .text s) → '\r' ∉ tag.display) :
    dropReturns (literalText tags) = literalText (withoutReturns tags) := by
  induction tags with
  | nil => rfl
  | cons tag rest ih =>
    have hrest := ih fun other hmem => h other (List.mem_cons_of_mem tag hmem)
    rw [literalText, List.flatMap_cons, dropReturns_append, ← literalText, hrest]
    rcases tag.text_or_ne_text with ⟨s, rfl⟩ | htext
    · change dropReturns s ++ _ = _
      rw [withoutReturns_text_cons]
      split
      next hs => rw [hs, List.nil_append]
      next => rfl
    · have htag := Tag.return_notMem_literal (h tag List.mem_cons_self htext)
      rw [withoutReturns_cons_of_ne_text rest htext, dropReturns_eq_self htag]
      rfl

theorem returnsEndLines_literalText {inside after : List Tag} {close : Tag}
    (h : ReturnsEndTags (inside ++ close :: after)) (hclose : close ≠ .newline) :
    ReturnsEndLines (literalText inside) ∧ (literalText inside).getLast? ≠ some '\r' := by
  induction inside with
  | nil => exact ⟨List.isChain_nil, by simp [literalText]⟩
  | cons tag inside ih =>
    obtain ⟨hrest, htag⟩ := h.cons_cases
    obtain ⟨hreturns, hlast⟩ := ih hrest
    rw [literalText, List.flatMap_cons, ← literalText]
    rcases htag with hkept | ⟨s, rfl, hs, hempty | ⟨more, hline⟩⟩
    · have hliteral := Tag.return_notMem_literal hkept
      refine ⟨hreturns.append hliteral, ?_⟩
      intro hreturn
      rw [List.getLast?_append] at hreturn
      rcases Option.or_eq_some_iff.mp hreturn with hreturn | ⟨-, hreturn⟩
      · exact hlast hreturn
      · exact hliteral (List.mem_of_getLast? hreturn)
    · exact absurd hempty (by simp)
    · -- The tag that closes a region is no newline, so the newline behind a carriage return is inside.
      cases inside with
      | nil => exact absurd (List.cons.inj hline).1 hclose
      | cons next inside =>
        obtain ⟨rfl, -⟩ := List.cons.inj hline
        constructor
        · have htext : (Tag.text (s ++ ['\r'])).literal ++ literalText (.newline :: inside) =
              s ++ '\r' :: '\n' :: literalText inside := List.append_assoc s ['\r'] _
          rw [htext]
          exact hreturns.append_return hs
        · have hne : literalText (.newline :: inside) ≠ [] :=
            List.cons_ne_nil '\n' (literalText inside)
          rwa [List.getLast?_append_of_ne_nil _ hne]

end ClassDocs
