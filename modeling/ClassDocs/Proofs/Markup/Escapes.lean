import ClassDocs.Event
import ClassDocs.Proofs.Markup.RawFences

/-!
# Escaped brackets

A text whose brackets are written as escapes holds no markup but fences: its tags stand, one after
another, for the text itself. So any text can be shown, inside inline code even one with fences.
-/

namespace ClassDocs

open Text

/-- The text with escapes in place of its brackets. -/
def escapeBrackets (s : Text) : Text :=
  s.flatMap fun c => if c = '[' then "[lb]".toList else if c = ']' then "[rb]".toList else [c]

section Escaped

variable {tail : Text}

theorem escapeBrackets_cons_cases (c : Char) (s : Text) :
    ((c = '[' ∨ c = ']') ∧ ∃ word, escapeBrackets (c :: s) = '[' :: word) ∨
      c ≠ '[' ∧ escapeBrackets (c :: s) = c :: escapeBrackets s := by
  by_cases hopening : c = '['
  · subst hopening
    exact Or.inl ⟨Or.inl rfl, "lb]".toList ++ escapeBrackets s, rfl⟩
  · by_cases hclosing : c = ']'
    · subst hclosing
      exact Or.inl ⟨Or.inr rfl, "rb]".toList ++ escapeBrackets s, rfl⟩
    · refine Or.inr ⟨hopening, ?_⟩
      rw [escapeBrackets, List.flatMap_cons, if_neg hopening, if_neg hclosing]
      rfl

/-- A run that no bracket belongs to ends in front of the first escape. -/
theorem exists_run_escapeBrackets {p : Char → Bool} (s : Text) (hp : p '[' = false)
    (htail : ∀ d ∈ tail.head?, d = '[') :
    ∃ run rest, s = run ++ rest ∧ (escapeBrackets s ++ tail).takeWhile p = run ∧
      (escapeBrackets s ++ tail).dropWhile p = escapeBrackets rest ++ tail := by
  have hstop : ∀ {s : Text}, (∀ d ∈ s.head?, d = '[') → s.takeWhile p = [] ∧ s.dropWhile p = s := by
    intro s hs
    cases s with
    | nil => exact ⟨rfl, rfl⟩
    | cons d s =>
      obtain rfl : d = '[' := hs d rfl
      exact ⟨List.takeWhile_cons_of_neg (by simp [hp]), List.dropWhile_cons_of_neg (by simp [hp])⟩
  induction s with
  | nil => exact ⟨[], [], rfl, hstop htail⟩
  | cons c s ih =>
    rcases escapeBrackets_cons_cases c s with ⟨-, word, hescape⟩ | ⟨-, hescape⟩
    · refine ⟨[], c :: s, rfl, hstop ?_⟩
      rw [hescape]
      exact fun d hd => (Option.some.inj hd).symm
    · by_cases hc : p c = true
      · obtain ⟨run, rest, rfl, htake, hdrop⟩ := ih
        refine ⟨c :: run, rest, rfl, ?_, ?_⟩
        · rw [hescape, List.cons_append, List.takeWhile_cons_of_pos hc, htake]
        · rw [hescape, List.cons_append, List.dropWhile_cons_of_pos hc, hdrop]
      · refine ⟨[], c :: s, rfl, ?_, ?_⟩
        · rw [hescape, List.cons_append, List.takeWhile_cons_of_neg hc]
        · rw [hescape, List.cons_append, List.dropWhile_cons_of_neg hc]

theorem stripPrefix?_escapeBrackets {pre : Text} (s : Text) (hopening : '[' ∉ pre)
    (hclosing : ']' ∉ pre) (htail : ∀ d ∈ tail.head?, d = '[') :
    stripPrefix? pre (escapeBrackets s ++ tail) =
      (stripPrefix? pre s).map fun rest => escapeBrackets rest ++ tail := by
  induction pre generalizing s with
  | nil => rfl
  | cons p pre ih =>
    obtain ⟨hp, hopening⟩ := List.ne_and_not_mem_of_not_mem_cons hopening
    obtain ⟨hp', hclosing⟩ := List.ne_and_not_mem_of_not_mem_cons hclosing
    cases s with
    | nil =>
      cases tail with
      | nil => rfl
      | cons d tail =>
        obtain rfl : d = '[' := htail d rfl
        exact if_neg (Ne.symm hp)
    | cons c s =>
      rcases escapeBrackets_cons_cases c s with ⟨hbracket, word, hescape⟩ | ⟨-, hescape⟩
      · have hne : p ≠ c := by
          rintro rfl
          exact hbracket.elim (Ne.symm hp) (Ne.symm hp')
        rw [hescape, List.cons_append, stripPrefix?, stripPrefix?, if_neg (Ne.symm hp), if_neg hne]
        rfl
      · rw [hescape, List.cons_append, stripPrefix?, stripPrefix?, ih s hopening hclosing]
        split <;> rfl

end Escaped

def Tag.isProse : Tag → Bool
  | .text _ | .newline | .leftBracket | .rightBracket => true
  | _ => false

theorem literalText_prependTag (first : Tag) (tags : List Tag) :
    literalText (prependTag first tags) = first.literal ++ literalText tags := by
  rcases prependTag_cases first tags with hcons | ⟨s, t, rest, rfl, rfl, hcons⟩
  · rw [hcons]
    rfl
  · rw [hcons]
    exact List.append_assoc s t _

theorem tagsOf_escapeBrackets_cons (c : Char) (s : Text) {tail : Text}
    (htail : ∀ d ∈ tail.head?, d = '[') :
    ∃ first rest, (first.isProse = true ∨ first.closesRegion? = some .rawFence) ∧
      tagsOf (escapeBrackets (c :: s) ++ tail) =
        prependTag first (tagsOf (escapeBrackets rest ++ tail)) ∧
      c :: s = first.literal ++ rest ∧ rest.length ≤ s.length := by
  rcases escapeBrackets_cons_cases c s with ⟨rfl | rfl, -⟩ | ⟨hopening, hescape⟩
  · refine ⟨.leftBracket, s, Or.inl rfl, ?_, rfl, le_rfl⟩
    exact tagsOf_bracketed_append "lb".toList (escapeBrackets s ++ tail) rfl rfl
  · refine ⟨.rightBracket, s, Or.inl rfl, ?_, rfl, le_rfl⟩
    exact tagsOf_bracketed_append "rb".toList (escapeBrackets s ++ tail) rfl rfl
  · rw [hescape, List.cons_append, tagsOf_cons]
    by_cases hnewline : c = '\n'
    · subst hnewline
      exact ⟨.newline, s, Or.inl rfl, rfl, rfl, le_rfl⟩
    · by_cases hbacktick : c = '`'
      · subst hbacktick
        rw [Slice.cut, if_neg hnewline, if_neg hopening, if_pos rfl,
          stripPrefix?_escapeBrackets s (by decide) (by decide) htail]
        cases hstrip : stripPrefix? "``".toList s with
        | none => exact ⟨.text ['`'], s, Or.inl rfl, rfl, rfl, le_rfl⟩
        | some more =>
          obtain rfl := stripPrefix?_eq_some_iff.mp hstrip
          obtain ⟨info, rest, rfl, htake, hdrop⟩ :=
            exists_run_escapeBrackets (p := Slice.isInfoChar) more rfl htail
          refine ⟨.rawFence (nonEmpty? info) ("```".toList ++ info), rest, Or.inr rfl, ?_, rfl, ?_⟩
          · rw [Option.map_some]
            dsimp only
            rw [htake, hdrop]
            rfl
          · simp only [List.length_append]
            omega
      · obtain ⟨run, rest, rfl, htake, hdrop⟩ :=
          exists_run_escapeBrackets (p := Slice.isPlain) s rfl htail
        have hcut : Slice.cut c (escapeBrackets (run ++ rest) ++ tail) =
            (run, escapeBrackets rest ++ tail) := by
          rw [Slice.cut, if_neg hnewline, if_neg hopening, if_neg hbacktick, htake, hdrop]
        have hplain : (c :: run).all Slice.isPlain = true := by
          rw [List.all_cons, Slice.isPlain_iff.mpr ⟨hnewline, hopening, hbacktick⟩, ← htake,
            List.all_takeWhile]
          rfl
        refine ⟨.text (c :: run), rest, Or.inl rfl, ?_, rfl, ?_⟩
        · rw [hcut, Tag.ofSlice_plain hplain]
        · rw [List.length_append]
          omega

/-- The tags of an escaped text are prose and fences that stand for the text, also in front of a tag
in brackets. -/
theorem exists_tagsOf_escapeBrackets_append (s tail : Text) (htail : ∀ d ∈ tail.head?, d = '[')
    (htext : ∀ t rest, tagsOf tail ≠ .text t :: rest) :
    ∃ tags, tagsOf (escapeBrackets s ++ tail) = tags ++ tagsOf tail ∧ literalText tags = s ∧
      ∀ tag ∈ tags, tag.isProse = true ∨ tag.closesRegion? = some .rawFence := by
  induction hlength : s.length using Nat.strong_induction_on generalizing s with
  | _ n ih =>
    cases s with
    | nil => exact ⟨[], rfl, rfl, by simp⟩
    | cons c s =>
      obtain ⟨first, rest, hfirst, htags, hs, hshorter⟩ := tagsOf_escapeBrackets_cons c s htail
      have hlt : rest.length < n := hlength ▸ Nat.lt_succ_of_le hshorter
      obtain ⟨tags, hrest, hliteral, hprose⟩ := ih rest.length hlt rest rfl
      refine ⟨prependTag first tags, ?_, ?_, ?_⟩
      · rw [htags, hrest, prependTag_append first tags htext]
      · rw [literalText_prependTag, hliteral, hs]
      · intro tag htag
        rcases mem_prependTag htag with rfl | htag | ⟨_, _, _, -, -, rfl⟩
        · exact hfirst
        · exact hprose tag htag
        · exact Or.inl rfl

theorem Page.add_lonePiece_of_isProse {page : Page} {tag : Tag} (htag : tag.isProse = true)
    (hpage : page.afterBlock = false) :
    page.add tag.lonePiece = ⟨page.text ++ tag.literal, false⟩ := by
  cases tag with
  | newline => rfl
  | text | leftBracket | rightBracket => exact write_of_not_afterBlock _ hpage
  | _ => exact absurd htag Bool.false_ne_true

theorem addAll_pieces_of_isProse {language : Text} {tags : List Tag} {page : Page}
    (htags : ∀ tag ∈ tags, tag.isProse = true) (hpage : page.afterBlock = false) :
    page.addAll (pieces language [] tags) = ⟨page.text ++ literalText tags, false⟩ := by
  induction tags generalizing page with
  | nil =>
    obtain ⟨text, afterBlock⟩ := page
    subst hpage
    simp [literalText]
  | cons tag tags ih =>
    have htag := htags tag List.mem_cons_self
    have hrest := fun other hother => htags other (List.mem_cons_of_mem tag hother)
    have halone : tag.standsAlone = true := by
      cases tag with
      | text | newline | leftBracket | rightBracket => rfl
      | _ => exact absurd htag Bool.false_ne_true
    rw [pieces_alone halone (by simp), Page.addAll_cons, Page.add_lonePiece_of_isProse htag hpage,
      ih hrest rfl, List.append_assoc]
    rfl

theorem occursIn_literalText {tags : List Tag} {tag : Tag} (h : tag ∈ tags) {info : Text}
    (hliteral : tag.literal = "```".toList ++ info) :
    occursIn "```".toList (literalText tags) = true := by
  obtain ⟨before, after, rfl⟩ := List.append_of_mem h
  refine occursIn_iff.mpr ⟨literalText before, info ++ literalText after, ?_⟩
  rw [literalText, List.flatMap_append, List.flatMap_cons, hliteral]
  simp only [List.append_assoc]
  rfl

theorem closesRegion?_of_isProse {tag : Tag} (h : tag.isProse = true) : tag.closesRegion? = none := by
  cases tag with
  | text | newline | leftBracket | rightBracket => rfl
  | _ => exact absurd h Bool.false_ne_true

theorem rendered_escapeBrackets (language : Text) {s : Text} (h : occursIn "```".toList s = false) :
    rendered (pieces language [] (tagsOf (escapeBrackets s))) = s := by
  obtain ⟨tags, htags, hliteral, hprose⟩ :=
    exists_tagsOf_escapeBrackets_append s [] (by simp) (by simp)
  rw [List.append_nil, tagsOf_nil, List.append_nil] at htags
  have hall : ∀ tag ∈ tags, tag.isProse = true := by
    intro tag htag
    refine (hprose tag htag).resolve_right fun hfence => ?_
    obtain ⟨info, hinfo, -⟩ := exists_info_of_closesRegion? (htags ▸ htag) hfence
    have hruns := occursIn_literalText htag hinfo
    rw [hliteral, h] at hruns
    exact Bool.false_ne_true hruns
  rw [htags, rendered_eq_addAll, addAll_pieces_of_isProse hall rfl, hliteral]
  rfl

theorem pieces_code_escapeBrackets (language s : Text) :
    pieces language [] (tagsOf ("[code]".toList ++ escapeBrackets s ++ "[/code]".toList)) =
      [.code s] := by
  have hclosing : tagsOf "[/code]".toList = [.codeClose .code] :=
    tagsOf_bracketed "/code".toList rfl rfl
  obtain ⟨tags, htags, hliteral, hprose⟩ :=
    exists_tagsOf_escapeBrackets_append s "[/code]".toList
      (fun d hd => (Option.some.inj hd).symm) (by rw [hclosing]; simp)
  have hinside : ∀ tag ∈ tags, tag.closesRegion? ≠ some (.code .code) := by
    intro tag htag
    rcases hprose tag htag with hprose | hfence
    · simp [closesRegion?_of_isProse hprose]
    · simp [hfence]
  have hopening := tagsOf_bracketed_append "code".toList (escapeBrackets s ++ "[/code]".toList) rfl rfl
  change tagsOf ("[code]".toList ++ _) = _ at hopening
  rw [List.append_assoc, hopening, htags, hclosing,
    pieces_region rfl (by simp) (Region.split?_append [] hinside rfl), hliteral, pieces_nil]
  rfl

/-- Escaped text is rendered as the text itself, and inside inline code, where a text can even hold
fences, as its code, with nothing left unpaired. -/
theorem escaped_text_is_shown (settings : DocSettings) (s : Text) :
    (occursIn "```".toList s = false →
      rendered (DocComment.document settings (escapeBrackets s)) = s) ∧
    rendered (DocComment.document settings ("[code]".toList ++ escapeBrackets s ++ "[/code]".toList)) =
      ['`'] ++ replaceAll ['`'] ['\\', '`'] s ++ ['`'] ∧
    (DocComment.document settings
      ("[code]".toList ++ escapeBrackets s ++ "[/code]".toList)).filterMap
        (Event.ofPiece? settings.language) = [] := by
  rw [DocComment.document, DocComment.document, pieces_code_escapeBrackets]
  refine ⟨rendered_escapeBrackets settings.language, ?_, rfl⟩
  rw [replaceAll_singleton]
  rfl

theorem escaped_markup_is_shown :
    occursIn "```".toList "``[b]`\n]".toList = false ∧
    escapeBrackets "``[b]`\n]".toList = "``[lb]b[rb]`\n[rb]".toList ∧
    rendered (DocComment.document .default "``[lb]b[rb]`\n[rb]".toList) = "``[b]`\n]".toList := by
  have hescaped : escapeBrackets "``[b]`\n]".toList = "``[lb]b[rb]`\n[rb]".toList := rfl
  obtain ⟨hshown, -⟩ := escaped_text_is_shown .default "``[b]`\n]".toList
  exact ⟨by decide, hescaped, hescaped ▸ hshown (by decide)⟩

end ClassDocs
