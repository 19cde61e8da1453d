import ClassDocs.Unicode.WhiteSpace
import Mathlib.Data.List.DropRight
import Mathlib.Data.List.TakeWhile

/-!
# Trimmed texts

What trimming leaves, what it takes away, and that it does not decide whether a text is blank.
-/

namespace ClassDocs.Text

open Unicode

section Runs

variable {α : Type} {p : α → Bool} {x : α}

theorem dropWhile_append_cons_of_neg (as bs : List α) (h : p x = false) :
    (as ++ x :: bs).dropWhile p = as.dropWhile p ++ x :: bs := by
  induction as with
  | nil =>
    rw [List.nil_append, List.dropWhile_cons_of_neg (by simp [h])]
    rfl
  | cons a as ih =>
    cases ha : p a with
    | true => rw [List.cons_append, List.dropWhile_cons_of_pos ha, ih, List.dropWhile_cons_of_pos ha]
    | false =>
      rw [List.cons_append, List.dropWhile_cons_of_neg (by simp [ha]),
        List.dropWhile_cons_of_neg (by simp [ha])]
      rfl

theorem takeWhile_append_cons_of_neg (as bs : List α) (h : p x = false) :
    (as ++ x :: bs).takeWhile p = as.takeWhile p := by
  induction as with
  | nil => rw [List.nil_append, List.takeWhile_cons_of_neg (by simp [h]), List.takeWhile_nil]
  | cons a as ih =>
    cases ha : p a with
    | true => rw [List.cons_append, List.takeWhile_cons_of_pos ha, ih, List.takeWhile_cons_of_pos ha]
    | false => rw [List.cons_append, List.takeWhile_cons_of_neg (by simp [ha]),
        List.takeWhile_cons_of_neg (by simp [ha])]

theorem dropWhile_append_of_ne_nil {as : List α} (bs : List α) (h : as.dropWhile p ≠ []) :
    (as ++ bs).dropWhile p = as.dropWhile p ++ bs := by
  rw [List.dropWhile_append, if_neg (by simpa using h)]

theorem takeWhile_append_of_ne_nil {as : List α} (bs : List α) (h : as.dropWhile p ≠ []) :
    (as ++ bs).takeWhile p = as.takeWhile p := by
  have hlength : (as.takeWhile p).length ≠ as.length := by
    intro heq
    have hsplit := congrArg List.length (List.takeWhile_append_dropWhile (p := p) (l := as))
    rw [List.length_append] at hsplit
    exact h (List.length_eq_zero_iff.mp (by omega))
  rw [List.takeWhile_append, if_neg hlength]

theorem rdropWhile_append_cons_of_neg (as bs : List α) (h : p x = false) :
    (as ++ x :: bs).rdropWhile p = as ++ x :: bs.rdropWhile p := by
  rw [List.rdropWhile, List.reverse_append, List.reverse_cons, List.append_assoc,
    List.singleton_append, dropWhile_append_cons_of_neg _ _ h, List.reverse_append,
    List.reverse_cons, List.reverse_reverse, List.append_assoc]
  rfl

end Runs

theorem trimStart_append_of_forall {p : Char → Bool} {s : Text} (t : Text)
    (h : ∀ c ∈ s, p c = true) : trimStart p (s ++ t) = trimStart p t := by
  rw [trimStart, List.dropWhile_append_of_pos h, ← trimStart]

theorem trimStart_eq_nil_iff {s : Text} : trimStart isWhiteSpace s = [] ↔ isBlank s = true := by
  rw [trimStart, List.dropWhile_eq_nil_iff, isBlank, List.all_eq_true]

theorem trimStart_append_of_not_blank {s : Text} (t : Text) (h : isBlank s = false) :
    trimStart isWhiteSpace (s ++ t) = trimStart isWhiteSpace s ++ t := by
  apply dropWhile_append_of_ne_nil
  rw [← trimStart, Ne, trimStart_eq_nil_iff, h]
  decide

theorem trimStart_cons_of_neg {p : Char → Bool} {c : Char} (s : Text) (h : p c = false) :
    trimStart p (c :: s) = c :: s := by
  rw [trimStart, List.dropWhile_cons_of_neg (by simp [h])]

theorem trimEnd_append_of_forall {p : Char → Bool} {t : Text} (s : Text)
    (h : ∀ c ∈ t, p c = true) : trimEnd p (s ++ t) = trimEnd p s := by
  rw [trimEnd, List.reverse_append, List.dropWhile_append_of_pos fun c hc => h c (List.mem_reverse.mp hc),
    ← trimEnd]

theorem trimEnd_concat_of_neg {p : Char → Bool} {c : Char} (s : Text) (h : p c = false) :
    trimEnd p (s ++ [c]) = s ++ [c] :=
  List.rdropWhile_concat_neg p s c (by simp [h])

/-- A text is its trimmed form between two stretches of what is trimmed. -/
theorem exists_trim_append (p : Char → Bool) (s : Text) :
    ∃ before after, s = before ++ trim p s ++ after ∧ (∀ c ∈ before, p c = true) ∧
      ∀ c ∈ after, p c = true := by
  refine ⟨s.takeWhile p, ((trimStart p s).reverse.takeWhile p).reverse, ?_, ?_, ?_⟩
  · rw [List.append_assoc, trim, trimEnd_append_takeWhile, takeWhile_append_trimStart]
  · exact fun c hc => List.mem_takeWhile_imp hc
  · exact fun c hc => List.mem_takeWhile_imp (List.mem_reverse.mp hc)

/-- A text whose first and last characters stay keeps everything. -/
theorem trim_eq_self {p : Char → Bool} {s : Text} (hhead : ∀ c, s.head? = some c → p c = false)
    (hlast : ∀ c, s.getLast? = some c → p c = false) : trim p s = s := by
  rcases List.eq_nil_or_concat s with rfl | ⟨body, c, rfl⟩
  · rfl
  · have hstart : trimStart p (body.concat c) = body.concat c := by
      cases hs : body.concat c with
      | nil => rfl
      | cons d rest => exact trimStart_cons_of_neg rest (hhead d (by rw [hs]; rfl))
    rw [trim, hstart, List.concat_eq_append]
    exact trimEnd_concat_of_neg body (hlast c (by rw [List.concat_eq_append, List.getLast?_concat]))

theorem head?_trim {p : Char → Bool} {s : Text} {c : Char} (h : (trim p s).head? = some c) :
    p c = false := by
  have hsplit := trimEnd_append_takeWhile p (trimStart p s)
  rw [← trim] at hsplit
  apply head?_trimStart p s c
  rw [← hsplit, List.head?_append, h, Option.some_or]

theorem getLast?_trimEnd {p : Char → Bool} {s : Text} {c : Char}
    (h : (trimEnd p s).getLast? = some c) : p c = false := by
  apply head?_trimStart p s.reverse c
  rwa [trimEnd, List.getLast?_reverse] at h

theorem getLast?_trim {p : Char → Bool} {s : Text} {c : Char}
    (h : (trim p s).getLast? = some c) : p c = false :=
  getLast?_trimEnd h

theorem length_trimEnd_le (p : Char → Bool) (s : Text) : (trimEnd p s).length ≤ s.length :=
  (List.rdropWhile_prefix p s).length_le

theorem trim_trim (p : Char → Bool) (s : Text) : trim p (trim p s) = trim p s :=
  trim_eq_self (fun _ => head?_trim) (fun _ => getLast?_trim)

theorem length_trim_lt {p : Char → Bool} {s : Text} (h : trim p s ≠ s) :
    (trim p s).length < s.length := by
  obtain ⟨before, after, hs, -, -⟩ := exists_trim_append p s
  have hlength := congrArg List.length hs
  rw [List.length_append, List.length_append] at hlength
  by_contra hle
  have hbefore : before = [] := List.length_eq_zero_iff.mp (by omega)
  have hafter : after = [] := List.length_eq_zero_iff.mp (by omega)
  apply h
  rw [hbefore, hafter, List.nil_append, List.append_nil] at hs
  exact hs.symm

theorem mem_of_mem_trim {p : Char → Bool} {s : Text} {c : Char} (h : c ∈ trim p s) : c ∈ s := by
  obtain ⟨before, after, hs, -, -⟩ := exists_trim_append p s
  rw [hs]
  exact List.mem_append_left after (List.mem_append_right before h)

@[simp] theorem isBlank_append (s t : Text) : isBlank (s ++ t) = (isBlank s && isBlank t) :=
  List.all_append

theorem isBlank_iff {s : Text} : isBlank s = true ↔ ∀ c ∈ s, isWhiteSpace c = true :=
  List.all_eq_true

theorem isBlank_trim {p : Char → Bool} (hp : ∀ c, p c = true → isWhiteSpace c = true) (s : Text) :
    isBlank (trim p s) = isBlank s := by
  obtain ⟨before, after, hs, hbefore, hafter⟩ := exists_trim_append p s
  have hb : isBlank before = true := isBlank_iff.mpr fun c hc => hp c (hbefore c hc)
  have ha : isBlank after = true := isBlank_iff.mpr fun c hc => hp c (hafter c hc)
  calc
    isBlank (trim p s) = isBlank (before ++ trim p s ++ after) := by simp [hb, ha]
    _ = isBlank s := by rw [← hs]

theorem trim_eq_nil_iff {s : Text} : trim isWhiteSpace s = [] ↔ isBlank s = true := by
  constructor
  · intro h
    rw [← isBlank_trim (fun _ hc => hc) s, h, isBlank_nil]
  · intro h
    rw [trim, trimStart_eq_nil_iff.mpr h, trimEnd_nil]

end ClassDocs.Text
