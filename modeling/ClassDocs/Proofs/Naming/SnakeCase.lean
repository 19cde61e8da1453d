import ClassDocs.Proofs.Naming.Camel
import ClassDocs.Proofs.Naming.Legal
import Mathlib.Data.List.Chain

/-!
# Collisions of snake-case names

Camel case marks the start of a word by its capital, and a digit has none. An underscore before a digit
is lost for that reason, and every other one can be read back from the capital after it. Names that
differ in nothing but underscores before digits become one identifier, and no others do: the
underscore that is put after a reserved word stands in no name in camel case.
-/

namespace ClassDocs.Naming

open Text Unicode

/-- Words of small letters and digits, joined by single underscores and starting with a letter. -/
structure IsSnakeCase (name : Text) : Prop where
  starts : ∃ c ∈ name.head?, c.isLower = true
  chars : ∀ c ∈ name, c.isLower = true ∨ c.isDigit = true ∨ c = '_'
  words : [] ∉ name.splitOn '_'

theorem isSnakeCase_iff {name : Text} :
    IsSnakeCase name ↔
      (name.head?.any Char.isLower && (name.all fun c => c.isLower || c.isDigit || c == '_') &&
        (name.splitOn '_').all fun word => !word.isEmpty) = true := by
  have hchars : (name.all fun c => c.isLower || c.isDigit || c == '_') = true ↔
      ∀ c ∈ name, c.isLower = true ∨ c.isDigit = true ∨ c = '_' := by
    simp [or_assoc]
  have hwords : ((name.splitOn '_').all fun word => !word.isEmpty) = true ↔
      [] ∉ name.splitOn '_' := by
    simp only [List.all_eq_true, Bool.not_eq_true', List.isEmpty_eq_false_iff]
    exact List.forall_mem_ne'
  rw [Bool.and_eq_true, Bool.and_eq_true, hchars, hwords, Option.any_eq_true]
  constructor
  · intro h
    exact ⟨⟨h.starts, h.chars⟩, h.words⟩
  · rintro ⟨⟨hstarts, hchars⟩, hwords⟩
    exact ⟨hstarts, hchars, hwords⟩

instance (name : Text) : Decidable (IsSnakeCase name) :=
  decidable_of_iff' _ isSnakeCase_iff

/-- A name without its underscores right before a digit. -/
def dropDigitBreaks : Text → Text
  | [] => []
  | c :: rest =>
    if isUnderscore c && rest.head?.any Char.isDigit then dropDigitBreaks rest
    else c :: dropDigitBreaks rest

def NoDigitBreaks (name : Text) : Prop :=
  name.IsChain fun c d => c = '_' → d.isDigit = false

instance (name : Text) : Decidable (NoDigitBreaks name) :=
  inferInstanceAs (Decidable (name.IsChain fun c d => c = '_' → d.isDigit = false))

theorem toNat_lt_of_isLower {c : Char} (h : c.isLower = true) : c.toNat < 0x80 := by
  have hrange : c.isLower = (decide ('a'.val ≤ c.val) && decide (c.val ≤ 'z'.val)) := rfl
  simp only [hrange, Bool.and_eq_true, decide_eq_true_eq, UInt32.le_iff_toNat_le] at h
  exact Nat.lt_of_le_of_lt h.2 (by decide)

theorem toNat_lt_of_isDigit {c : Char} (h : c.isDigit = true) : c.toNat < 0x80 := by
  simp only [Char.isDigit, Bool.and_eq_true, decide_eq_true_eq, UInt32.le_iff_toNat_le] at h
  exact Nat.lt_of_le_of_lt h.2 (by decide)

theorem uppercase_of_isDigit {c : Char} (h : c.isDigit = true) : uppercase c = [c] := by
  have hsame : c.isDigit = true → c.toUpper = c :=
    forall_ascii (P := fun c => c.isDigit = true → c.toUpper = c) (by decide +kernel)
      (toNat_lt_of_isDigit h)
  rw [uppercase, if_pos (toNat_lt_of_isDigit h), hsame h]

theorem exists_uppercase_of_isLower {c : Char} (h : c.isLower = true) :
    ∃ capital, uppercase c = [capital] ∧ capital.isUpper = true ∧ capital.toLower = c := by
  have hcapital : c.isLower = true → c.toUpper.isUpper = true ∧ c.toUpper.toLower = c :=
    forall_ascii
      (P := fun c => c.isLower = true → c.toUpper.isUpper = true ∧ c.toUpper.toLower = c)
      (by decide +kernel) (toNat_lt_of_isLower h)
  exact ⟨c.toUpper, by rw [uppercase, if_pos (toNat_lt_of_isLower h)], hcapital h⟩

theorem isUpper_eq_false_of_isLower {c : Char} (h : c.isLower = true) : c.isUpper = false :=
  forall_ascii (P := fun c => c.isLower = true → c.isUpper = false) (by decide +kernel)
    (toNat_lt_of_isLower h) h

theorem isUpper_eq_false_of_isDigit {c : Char} (h : c.isDigit = true) : c.isUpper = false :=
  forall_ascii (P := fun c => c.isDigit = true → c.isUpper = false) (by decide +kernel)
    (toNat_lt_of_isDigit h) h

theorem isAlpha_of_isLower {c : Char} (h : c.isLower = true) : c.isAlpha = true :=
  (Bool.or_eq_true _ _).mpr (Or.inr h)

theorem isAlpha_of_isUpper {c : Char} (h : c.isUpper = true) : c.isAlpha = true :=
  (Bool.or_eq_true _ _).mpr (Or.inl h)

theorem isStartChar_of_isLower {c : Char} (h : c.isLower = true) : isStartChar c = true := by
  simp [isStartChar, isAlpha_of_isLower h]

theorem isDigit_eq_false_of_isLower {c : Char} (h : c.isLower = true) : c.isDigit = false :=
  isDigit_of_isStartChar (isStartChar_of_isLower h)

theorem isLowercase_of_isLower {c : Char} (h : c.isLower = true) : isLowercase c = true :=
  forall_ascii (P := fun c => c.isLower = true → isLowercase c = true) (by decide +kernel)
    (toNat_lt_of_isLower h) h

theorem not_isSeparator_of_isAlphanum {c : Char} (hc : c.toNat < 0x80)
    (h : c.isAlphanum = true) : ¬isSeparator c = true :=
  forall_ascii (P := fun c => c.isAlphanum = true → ¬isSeparator c = true) (by decide +kernel) hc h

/-- A name in camel case with an underscore and a small letter for each capital. -/
def readBack (name : Text) : Text :=
  name.flatMap fun c => if c.isUpper then ['_', c.toLower] else [c]

theorem readBack_cons_of_not_upper {c : Char} (s : Text) (hc : c.isUpper = false) :
    readBack (c :: s) = c :: readBack s := by
  rw [readBack, List.flatMap_cons, hc]
  rfl

theorem readBack_cons_of_upper {c : Char} (s : Text) (hc : c.isUpper = true) :
    readBack (c :: s) = '_' :: c.toLower :: readBack s := by
  rw [readBack, List.flatMap_cons, hc]
  rfl

theorem dropDigitBreaks_cons_of_ne {c : Char} (s : Text) (hc : c ≠ '_') :
    dropDigitBreaks (c :: s) = c :: dropDigitBreaks s := by
  simp [dropDigitBreaks, isUnderscore, hc]

theorem dropDigitBreaks_underscore_cons (d : Char) (s : Text) :
    dropDigitBreaks ('_' :: d :: s) =
      if d.isDigit then dropDigitBreaks (d :: s) else '_' :: dropDigitBreaks (d :: s) :=
  rfl

theorem joinWords_underscore_cons (capital : Bool) (s : Text) :
    joinWords capital ('_' :: s) = joinWords true s :=
  rfl

theorem joinWords_cons_of_ne {c : Char} (capital : Bool) (s : Text) (hc : c ≠ '_') :
    joinWords capital (c :: s) = (if capital then uppercase c else [c]) ++ joinWords false s := by
  rw [joinWords, if_neg (mt isUnderscore_iff.mp hc)]

theorem ne_underscore_of_isDigit {c : Char} (h : c.isDigit = true) : c ≠ '_' := by
  rintro rfl
  exact absurd h (by decide)

theorem ne_underscore_of_isLower {c : Char} (h : c.isLower = true) : c ≠ '_' := by
  rintro rfl
  exact absurd h (by decide)

/-- Words joined in camel case are read back but for the underscores before digits. -/
theorem readBack_joinWords {s first : Text} {rest : List Text}
    (hsplit : s.splitOn '_' = first :: rest) (hwords : [] ∉ rest)
    (hchars : ∀ c ∈ s, c.isLower = true ∨ c.isDigit = true ∨ c = '_') :
    readBack (joinWords false s) = dropDigitBreaks s := by
  -- The first word may be empty, so that what is behind any character can be taken on its own.
  induction s generalizing first rest with
  | nil => rfl
  | cons c s ih =>
    obtain ⟨word, words, hs⟩ := List.exists_cons_of_ne_nil (List.splitOn_ne_nil '_' s)
    have hrest := fun d hd => hchars d (List.mem_cons_of_mem c hd)
    by_cases hc : c = '_'
    · subst hc
      rw [splitOn_underscore_cons, hs] at hsplit
      obtain ⟨rfl, rfl⟩ := List.cons.inj hsplit
      have hback := ih hs (fun hmem => hwords (List.mem_cons_of_mem word hmem)) hrest
      cases s with
      | nil => exact absurd (List.cons.inj hs).1 fun hword => hwords (by simp [← hword])
      | cons d t =>
        have hd : d ≠ '_' := by
          -- The word behind the underscore is not empty.
          rintro rfl
          rw [splitOn_underscore_cons] at hs
          exact hwords (by simp [(List.cons.inj hs).1])
        rw [joinWords_cons_of_ne false t hd] at hback
        rw [joinWords_underscore_cons, joinWords_cons_of_ne true t hd,
          dropDigitBreaks_underscore_cons, ← hback]
        rcases hrest d List.mem_cons_self with hlower | hdigit | hunderscore
        · obtain ⟨capital, huppercase, hcapital, hletter⟩ := exists_uppercase_of_isLower hlower
          have hdigit : d.isDigit = false := isDigit_eq_false_of_isLower hlower
          simp only [huppercase, hdigit, Bool.false_eq_true, if_true, if_false,
            List.singleton_append]
          rw [readBack_cons_of_upper _ hcapital, hletter,
            readBack_cons_of_not_upper _ (isUpper_eq_false_of_isLower hlower)]
        · rw [uppercase_of_isDigit hdigit, if_pos hdigit]
          rfl
        · exact absurd hunderscore hd
    · rw [splitOn_cons_of_ne hc hs] at hsplit
      obtain ⟨rfl, rfl⟩ := List.cons.inj hsplit
      have hupper : c.isUpper = false := by
        rcases hchars c List.mem_cons_self with hlower | hdigit | hunderscore
        · exact isUpper_eq_false_of_isLower hlower
        · exact isUpper_eq_false_of_isDigit hdigit
        · exact absurd hunderscore hc
      rw [joinWords_cons_of_ne false s hc, dropDigitBreaks_cons_of_ne s hc, ← ih hs hwords hrest]
      exact readBack_cons_of_not_upper _ hupper

theorem joinWords_of_isDigit {d : Char} (hd : d.isDigit = true) (capital : Bool) (s : Text) :
    joinWords capital (d :: s) = d :: joinWords false s := by
  rw [joinWords_cons_of_ne capital s (ne_underscore_of_isDigit hd), uppercase_of_isDigit hd, ite_self]
  rfl

theorem joinWords_dropDigitBreaks (capital : Bool) (s : Text) :
    joinWords capital (dropDigitBreaks s) = joinWords capital s := by
  induction s generalizing capital with
  | nil => rfl
  | cons c s ih =>
    by_cases hc : c = '_'
    · subst hc
      cases s with
      | nil => rfl
      | cons d t =>
        rw [dropDigitBreaks_underscore_cons, joinWords_underscore_cons]
        split
        next hd => rw [ih, joinWords_of_isDigit hd, joinWords_of_isDigit hd]
        · rw [joinWords_underscore_cons, ih]
    · rw [dropDigitBreaks_cons_of_ne s hc, joinWords_cons_of_ne _ _ hc, joinWords_cons_of_ne _ _ hc, ih]

theorem dropDigitBreaks_of_noDigitBreaks {name : Text} (h : NoDigitBreaks name) :
    dropDigitBreaks name = name := by
  induction name with
  | nil => rfl
  | cons c rest ih =>
    rw [NoDigitBreaks, List.isChain_cons] at h
    have hkept : (isUnderscore c && rest.head?.any Char.isDigit) = false := by
      rw [Bool.and_eq_false_imp]
      intro hc
      rw [Option.any_eq_false]
      exact fun d hd => by simp [h.1 d hd (isUnderscore_iff.mp hc)]
    rw [dropDigitBreaks, if_neg (by simp [hkept]), ih h.2]

theorem IsSnakeCase.readBack {name : Text} (h : IsSnakeCase name) :
    readBack (joinWords false name) = dropDigitBreaks name := by
  obtain ⟨first, rest, hsplit⟩ := List.exists_cons_of_ne_nil (List.splitOn_ne_nil '_' name)
  have hwords := h.words
  rw [hsplit, List.mem_cons, not_or] at hwords
  exact readBack_joinWords hsplit hwords.2 h.chars

theorem IsSnakeCase.joinWords_eq_iff {x y : Text} (hx : IsSnakeCase x) (hy : IsSnakeCase y) :
    joinWords false x = joinWords false y ↔ dropDigitBreaks x = dropDigitBreaks y := by
  constructor
  · intro h
    rw [← hx.readBack, h, hy.readBack]
  · intro h
    rw [← joinWords_dropDigitBreaks false x, h, joinWords_dropDigitBreaks]

theorem joinWords_of_notMem {s : Text} (h : '_' ∉ s) : joinWords false s = s := by
  induction s with
  | nil => rfl
  | cons c s ih =>
    rw [List.mem_cons, not_or] at h
    rw [joinWords_cons_of_ne false s (Ne.symm h.1), ih h.2]
    rfl

theorem IsSnakeCase.head?_ne {name : Text} (h : IsSnakeCase name) : name.head? ≠ some '_' := by
  obtain ⟨c, hhead, hlower⟩ := h.starts
  rw [Option.mem_def.mp hhead, Ne, Option.some.injEq]
  exact ne_underscore_of_isLower hlower

theorem IsSnakeCase.getLast?_ne {name : Text} (h : IsSnakeCase name) :
    name.getLast? ≠ some '_' := by
  intro hlast
  obtain ⟨body, rfl⟩ := List.getLast?_eq_some_iff.mp hlast
  apply h.words
  rw [List.splitOn_append_cons_self]
  simp

theorem IsSnakeCase.toCamel_eq {name : Text} (h : IsSnakeCase name) :
    toCamel name = joinWords false name := by
  obtain ⟨c, hhead, hlower⟩ := h.starts
  have hframe : UnderscoreFrame name [] name [] :=
    ⟨by simp, by simp, by simp, h.head?_ne, h.getLast?_ne, fun _ => rfl⟩
  have hcore := hframe.core_eq
  have hjoined := (underscoreFrame name).joined
  rw [hcore] at hjoined
  have hlength := congrArg List.length hjoined
  rw [List.length_append, List.length_append] at hlength
  have hlead := List.eq_nil_of_length_eq_zero (l := leadingUnderscores name) (by omega)
  have htrail := List.eq_nil_of_length_eq_zero (l := trailingUnderscores name) (by omega)
  have hany : name.any isLowercase = true :=
    List.any_eq_true.mpr ⟨c, List.mem_of_mem_head? hhead, isLowercase_of_isLower hlower⟩
  rw [Naming.toCamel_eq, hcore, hlead, htrail, List.nil_append, List.append_nil]
  split
  · rfl
  next hcase => exact (joinWords_of_notMem fun hmem => hcase ⟨hmem, hany⟩).symm

theorem all_isWordChar_joinWords {s : Text}
    (hchars : ∀ c ∈ s, c.isLower = true ∨ c.isDigit = true ∨ c = '_') (capital : Bool) :
    (joinWords capital s).all isWordChar = true := by
  induction s generalizing capital with
  | nil => rfl
  | cons c s ih =>
    have hrest := ih fun d hd => hchars d (List.mem_cons_of_mem c hd)
    rcases hchars c List.mem_cons_self with hlower | hdigit | rfl
    · rw [joinWords_cons_of_ne capital s (ne_underscore_of_isLower hlower), List.all_append, hrest]
      cases capital with
      | false => simp [isWordChar, Char.isAlphanum, isAlpha_of_isLower hlower]
      | true =>
        obtain ⟨upper, huppercase, hupper, -⟩ := exists_uppercase_of_isLower hlower
        simp [huppercase, isWordChar, Char.isAlphanum, isAlpha_of_isUpper hupper]
    · rw [joinWords_of_isDigit hdigit, List.all_cons, hrest]
      simp [isWordChar, Char.isAlphanum, hdigit]
    · exact hrest true

theorem IsSnakeCase.not_separated {name : Text} (h : IsSnakeCase name) :
    name.any isSeparator = false := by
  rw [List.any_eq_false]
  intro c hc
  rcases h.chars c hc with hlower | hdigit | rfl
  · exact not_isSeparator_of_isAlphanum (toNat_lt_of_isLower hlower)
      (by simp [Char.isAlphanum, isAlpha_of_isLower hlower])
  · exact not_isSeparator_of_isAlphanum (toNat_lt_of_isDigit hdigit)
      (by simp [Char.isAlphanum, hdigit])
  · decide

theorem IsSnakeCase.sanitize_eq {name : Text} (h : IsSnakeCase name) :
    sanitize name = guardReserved (joinWords false name) := by
  obtain ⟨c, hhead, hlower⟩ := h.starts
  obtain ⟨rest, rfl⟩ := List.head?_eq_some_iff.mp hhead
  have hrest : (joinWords false rest).all isWordChar = true :=
    all_isWordChar_joinWords (fun d hd => h.chars d (List.mem_cons_of_mem c hd)) false
  rw [sanitize, cased, if_neg (by simp [h.not_separated]), h.toCamel_eq,
    joinWords_cons_of_ne false rest (ne_underscore_of_isLower hlower)]
  exact legalize_cons_of_isStartChar (isStartChar_of_isLower hlower) hrest

/-- The underscore after a reserved word makes no two names equal that have none. -/
theorem guardReserved_inj {x y : Text} (hx : '_' ∉ x) (hy : '_' ∉ y) :
    guardReserved x = guardReserved y ↔ x = y := by
  constructor
  · intro h
    rw [guardReserved, guardReserved] at h
    split at h
    · split at h
      · exact List.append_cancel_right h
      · exact absurd (h ▸ List.mem_append_right x List.mem_cons_self) hy
    · split at h
      · exact absurd (h ▸ List.mem_append_right y List.mem_cons_self) hx
      · exact h
  · exact congrArg guardReserved

theorem IsSnakeCase.sanitize_eq_iff {x y : Text} (hx : IsSnakeCase x) (hy : IsSnakeCase y) :
    sanitize x = sanitize y ↔ dropDigitBreaks x = dropDigitBreaks y := by
  rw [hx.sanitize_eq, hy.sanitize_eq, guardReserved_inj (underscore_notMem_joinWords false x)
    (underscore_notMem_joinWords false y), hx.joinWords_eq_iff hy]

theorem IsSnakeCase.name_normalize {name : Text} (h : IsSnakeCase name) {publicNames : NameSet}
    (hname : name ∉ publicNames) :
    (Identifier.normalize publicNames name).name = sanitize name := by
  have hhead := h.head?_ne
  have hhook : isMagicHook name = false := by
    have hhooks : ∀ hook ∈ magicHooks, hook.head? = some '_' := by decide +kernel
    rw [Bool.eq_false_iff]
    exact fun hmem => hhead (hhooks name (List.contains_iff_mem.mp hmem))
  have hclass : Identifier.classify publicNames name = ⟨name, .unchanged⟩ := by
    rw [Identifier.classify, if_neg (by simp [hhook]), if_neg hname, if_neg hhead]
  rw [Identifier.normalize, hclass]

/-- Two snake-case names become the same identifier if and only if they differ in nothing but
underscores before digits. Names without such underscores never do, reserved or not. -/
theorem snake_case_collisions {x y : Text} (hx : IsSnakeCase x) (hy : IsSnakeCase y) :
    (sanitize x = sanitize y ↔ dropDigitBreaks x = dropDigitBreaks y) ∧
    (∀ publicNames : NameSet, x ∉ publicNames → y ∉ publicNames →
      ((Identifier.normalize publicNames x).name = (Identifier.normalize publicNames y).name ↔
        dropDigitBreaks x = dropDigitBreaks y)) ∧
    (NoDigitBreaks x → NoDigitBreaks y →
      (sanitize x = sanitize y → x = y) ∧
      ∀ publicNames : NameSet, x ∉ publicNames → y ∉ publicNames →
        (Identifier.normalize publicNames x).name = (Identifier.normalize publicNames y).name →
          x = y) := by
  have hsanitize := hx.sanitize_eq_iff hy
  have hnormalize : ∀ publicNames : NameSet, x ∉ publicNames → y ∉ publicNames →
      ((Identifier.normalize publicNames x).name = (Identifier.normalize publicNames y).name ↔
        dropDigitBreaks x = dropDigitBreaks y) := by
    intro publicNames hx' hy'
    rw [hx.name_normalize hx', hy.name_normalize hy', hsanitize]
  refine ⟨hsanitize, hnormalize, fun hbreaks hbreaks' => ?_⟩
  rw [dropDigitBreaks_of_noDigitBreaks hbreaks, dropDigitBreaks_of_noDigitBreaks hbreaks']
    at hsanitize hnormalize
  exact ⟨hsanitize.mp, fun publicNames hx' hy' => (hnormalize publicNames hx' hy').mp⟩

theorem numbered_names_collide_and_reserved_names_do_not :
    sanitize "get_2d_vector".toList = sanitize "get2d_vector".toList ∧
    sanitize "instanceof".toList ≠ sanitize "instance_of".toList ∧
    (Identifier.normalize .empty "instanceof".toList).name ≠
      (Identifier.normalize .empty "instance_of".toList).name := by
  have hnumbered : IsSnakeCase "get_2d_vector".toList ∧ IsSnakeCase "get2d_vector".toList := by
    decide +kernel
  have hreserved : IsSnakeCase "instanceof".toList ∧ IsSnakeCase "instance_of".toList := by
    decide +kernel
  obtain ⟨hcollide, -, -⟩ := snake_case_collisions hnumbered.1 hnumbered.2
  obtain ⟨-, -, hapart⟩ := snake_case_collisions hreserved.1 hreserved.2
  obtain ⟨hsanitize, hnormalize⟩ := hapart (by decide) (by decide)
  refine ⟨hcollide.mpr rfl, fun hsame => ?_, fun hsame => ?_⟩
  · exact absurd (hsanitize hsame) (by decide)
  · exact absurd (hnormalize .empty (by simp) (by simp) hsame) (by decide)

end ClassDocs.Naming
