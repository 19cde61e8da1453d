import ClassDocs.Proofs.Markup.Slice
import ClassDocs.Proofs.Text.Lines
import ClassDocs.Proofs.Text.Trim

/-!
# Reading markup line by line

No slice reaches over a newline and a newline makes a tag of its own, so the tags of a text are those
of its lines with newline tags between them.
-/

namespace ClassDocs

open Text

theorem stripPrefix?_append_cons {pre : Text} {c : Char} (s b : Text) (hpre : c ∉ pre) :
    stripPrefix? pre (s ++ c :: b) = (stripPrefix? pre s).map fun rest => rest ++ c :: b := by
  induction pre generalizing s with
  | nil => rfl
  | cons p pre ih =>
    obtain ⟨hp, hpre⟩ := List.ne_and_not_mem_of_not_mem_cons hpre
    cases s with
    | nil => simp [stripPrefix?, Ne.symm hp]
    | cons d s =>
      by_cases hd : p = d
      · simp [stripPrefix?, hd, ih s hpre]
      · simp [stripPrefix?, hd]

theorem Slice.cut_append_newline (c : Char) (rest b : Text) :
    cut c (rest ++ '\n' :: b) = ((cut c rest).1, (cut c rest).2 ++ '\n' :: b) := by
  have hbody : isBodyChar '\n' = false := rfl
  have hplain : isPlain '\n' = false := rfl
  have hinfo : isInfoChar '\n' = false := rfl
  unfold cut
  split
  · rfl
  · split
    · rw [dropWhile_append_cons_of_neg rest b hbody, takeWhile_append_cons_of_neg rest b hbody]
      cases hrest : rest.dropWhile isBodyChar with
      | nil => rfl
      | cons d after =>
        by_cases hd : d = ']'
        · subst hd
          simp only [List.cons_append]
          split <;> rfl
        · simp [hd]
    · split
      · rw [stripPrefix?_append_cons rest b (by decide)]
        cases stripPrefix? "``".toList rest with
        | none => rfl
        | some info =>
          simp only [Option.map_some]
          rw [dropWhile_append_cons_of_neg info b hinfo, takeWhile_append_cons_of_neg info b hinfo]
      · rw [dropWhile_append_cons_of_neg rest b hplain, takeWhile_append_cons_of_neg rest b hplain]

theorem slices_append_newline (a b : Text) :
    slices (a ++ '\n' :: b) = slices a ++ ['\n'] :: slices b := by
  fun_induction slices a with
  | case1 =>
    rw [List.nil_append, slices]
    rfl
  | case2 c rest ih =>
    rw [List.cons_append, slices, Slice.cut_append_newline, ih]
    rfl

theorem mergeText_cons_of_ne_text {tag : Tag} (rest : List Tag) (h : ∀ s, tag ≠ .text s) :
    mergeText (tag :: rest) = tag :: mergeText rest := by
  rw [mergeText]
  exact h

@[simp] theorem mergeText_singleton (tag : Tag) : mergeText [tag] = [tag] := by
  cases tag <;> rfl

/-- Text on the two sides of a newline is not merged. -/
theorem mergeText_append_newline (as bs : List Tag) :
    mergeText (as ++ .newline :: bs) = mergeText as ++ .newline :: mergeText bs := by
  fun_induction mergeText as with
  | case1 => rfl
  | case2 s rest t tags hrest ih =>
    rw [List.cons_append, mergeText, ih, hrest]
    rfl
  | case3 s rest hrest ih =>
    rw [List.cons_append, mergeText, ih]
    cases hmerged : mergeText rest with
    | nil => rfl
    | cons tag tags =>
      have htag : ∀ t, tag ≠ .text t := fun t ht => hrest t tags (by rw [hmerged, ht])
      cases tag with
      | text t => exact absurd rfl (htag t)
      | _ => rfl
  | case4 tag rest htag ih =>
    rw [List.cons_append, mergeText_cons_of_ne_text _ htag, ih]
    rfl

theorem tagsOf_append_newline (a b : Text) :
    tagsOf (a ++ '\n' :: b) = tagsOf a ++ .newline :: tagsOf b := by
  rw [tagsOf, slices_append_newline, List.map_append, List.map_cons, Tag.ofSlice,
    mergeText_append_newline]
  rfl

@[simp] theorem tagsOf_nil : tagsOf [] = [] := by
  rw [tagsOf, slices]
  rfl

theorem tagsOf_append_flatMap (s : Text) (ls : List Text) :
    tagsOf (s ++ ls.flatMap fun line => '\n' :: line) =
      tagsOf s ++ ls.flatMap fun line => .newline :: tagsOf line := by
  induction ls generalizing s with
  | nil => simp
  | cons line ls ih =>
    rw [List.flatMap_cons, List.cons_append, tagsOf_append_newline, ih, List.flatMap_cons,
      List.cons_append]

theorem tagsOf_unlines_cons (line : Text) (ls : List Text) :
    tagsOf (unlines (line :: ls)) = tagsOf line ++ ls.flatMap fun other => .newline :: tagsOf other := by
  rw [unlines_cons_eq_flatMap, tagsOf_append_flatMap]

theorem tagsOf_unlines_append_cons (as : List Text) (line : Text) (bs : List Text) :
    tagsOf (unlines (as ++ line :: bs)) =
      as.flatMap (fun a => tagsOf a ++ [.newline]) ++ tagsOf (unlines (line :: bs)) := by
  induction as with
  | nil => rfl
  | cons a as ih =>
    rw [List.cons_append, unlines_cons (by simp), tagsOf_append_newline, ih, List.flatMap_cons]
    simp only [List.append_assoc, List.cons_append, List.nil_append]

theorem tagsOf_plain {line : Text} (h : ∀ c ∈ line, Slice.isPlain c = true) (hne : line ≠ []) :
    tagsOf line = [.text line] := by
  obtain ⟨c, rest, rfl⟩ := List.exists_cons_of_ne_nil hne
  obtain ⟨hnewline, hbracket, hbacktick⟩ := Slice.isPlain_iff.mp (h c List.mem_cons_self)
  have hrest : ∀ d ∈ rest, Slice.isPlain d = true := fun d hd => h d (List.mem_cons_of_mem c hd)
  have hcut : Slice.cut c rest = (rest, []) := by
    rw [Slice.cut, if_neg hnewline, if_neg hbracket, if_neg hbacktick,
      List.takeWhile_eq_self_iff.mpr hrest, List.dropWhile_eq_nil_iff.mpr hrest]
  have hslices : slices (c :: rest) = [c :: rest] := by
    rw [slices, hcut, slices]
  rw [tagsOf, hslices, List.map_singleton, Tag.ofSlice_plain (List.all_eq_true.mpr h),
    mergeText_singleton]

theorem Slice.cut_bracketed {body : Text} {tag : Tag} (tail : Text)
    (hchars : body.all isBodyChar = true) (htag : Tag.ofBody? body = some tag) :
    cut '[' (body ++ ']' :: tail) = (body ++ [']'], tail) := by
  have hclose : isBodyChar ']' = false := rfl
  have hall := List.all_eq_true.mp hchars
  have hdrop : (body ++ ']' :: tail).dropWhile isBodyChar = ']' :: tail := by
    rw [dropWhile_append_cons_of_neg body tail hclose, List.dropWhile_eq_nil_iff.mpr hall,
      List.nil_append]
  have htake : (body ++ ']' :: tail).takeWhile isBodyChar = body := by
    rw [takeWhile_append_cons_of_neg body tail hclose, List.takeWhile_eq_self_iff.mpr hall]
  rw [cut, if_neg (by decide), if_pos rfl, hdrop, htake, htag]
  rfl

theorem tagsOf_bracketed (body : Text) {tag : Tag} (hbody : body.all Slice.isBodyChar = true)
    (htag : Tag.ofBody? body = some tag) : tagsOf (Tag.bracketed body) = [tag] := by
  have hslices : slices (Tag.bracketed body) = [Tag.bracketed body] := by
    rw [Tag.bracketed, slices, Slice.cut_bracketed [] hbody htag, slices]
  rw [tagsOf, hslices, List.map_singleton, Tag.ofSlice_bracketed, htag, Option.getD_some,
    mergeText_singleton]

end ClassDocs
