import ClassDocs.Naming.Identifier
import Mathlib.Data.List.Basic

/-!
# Repaired names are legal

What an identifier cannot hold is replaced character by character. A name can still be empty, start
with a digit or be a reserved word after that; one underscore mends each of the three, and no name
needs two of them.
-/

namespace ClassDocs.Naming

open Text

/-- Whether a character can stand at a position of an identifier. A digit at the start counts: it is
kept and an underscore is put before it. -/
def isLegalAt (position : Nat) (c : Char) : Bool :=
  isWordChar c || (position == 0 && c == '$')

def withoutIllegal (name : Text) : Text :=
  name.mapIdx fun position c => if isLegalAt position c then c else '_'

theorem replaceIllegal_eq (name : Text) : replaceIllegal name = withoutIllegal name := by
  cases name with
  | nil => rfl
  | cons c rest =>
    have hrest : rest.mapIdx (fun position d => if isLegalAt (position + 1) d then d else '_') =
        rest.map fun d => if isWordChar d then d else '_' := by
      apply List.ext_getElem?
      intro position
      simp [isLegalAt]
    rw [withoutIllegal, List.mapIdx_cons, hrest, replaceIllegal]
    simp [isLegalAt]

theorem isWordChar_of_isStartChar {c : Char} (h : isStartChar c = true) (hc : c ≠ '$') :
    isWordChar c = true := by
  simp only [isStartChar, Bool.or_eq_true, beq_iff_eq] at h
  rcases h with (halpha | hunderscore) | hdollar
  · simp [isWordChar, Char.isAlphanum, halpha]
  · simp [isWordChar, hunderscore]
  · exact absurd hdollar hc

theorem isStartChar_of_isWordChar {c : Char} (h : isWordChar c = true) (hc : c.isDigit = false) :
    isStartChar c = true := by
  simp only [isWordChar, Char.isAlphanum, hc, Bool.or_false, Bool.or_eq_true, beq_iff_eq] at h
  rcases h with halpha | hunderscore
  · simp [isStartChar, halpha]
  · simp [isStartChar, hunderscore]

theorem isDigit_of_isStartChar {c : Char} (h : isStartChar c = true) : c.isDigit = false := by
  have hletter : c.isAlpha = (decide ('A'.val ≤ c.val ∧ c.val ≤ 'Z'.val) ||
      (decide ('a'.val ≤ c.val) && decide (c.val ≤ 'z'.val))) := rfl
  rw [Bool.eq_false_iff]
  intro hdigit
  simp only [Char.isDigit, Bool.and_eq_true, decide_eq_true_eq, UInt32.le_iff_toNat_le] at hdigit
  simp only [isStartChar, hletter, Bool.or_eq_true, Bool.and_eq_true, decide_eq_true_eq,
    beq_iff_eq, UInt32.le_iff_toNat_le] at h
  rcases h with ((hupper | hlower) | rfl) | rfl
  · simp at hupper hdigit
    omega
  · simp at hlower hdigit
    omega
  · simp at hdigit
  · simp at hdigit

theorem isReserved_iff_mem {name : Text} : isReserved name = true ↔ name ∈ reservedWords :=
  List.contains_iff_mem

theorem isReserved_underscore_cons (name : Text) : isReserved ('_' :: name) = false := by
  rw [Bool.eq_false_iff]
  intro hreserved
  have hstart : ∀ word ∈ reservedWords, word.head? ≠ some '_' := by decide +kernel
  exact hstart _ (isReserved_iff_mem.mp hreserved) rfl

theorem isReserved_concat_underscore (name : Text) : isReserved (name ++ ['_']) = false := by
  rw [Bool.eq_false_iff]
  intro hreserved
  have hend : ∀ word ∈ reservedWords, word.getLast? ≠ some '_' := by decide +kernel
  exact hend _ (isReserved_iff_mem.mp hreserved) List.getLast?_concat

theorem isLegal_cons_iff {c : Char} {rest : Text} :
    isLegal (c :: rest) = true ↔
      isStartChar c = true ∧ rest.all isWordChar = true ∧ isReserved (c :: rest) = false := by
  simp [isLegal, and_assoc]

theorem isLegal_guardReserved {c : Char} {rest : Text} (hstart : isStartChar c = true)
    (hrest : rest.all isWordChar = true) : isLegal (guardReserved (c :: rest)) = true := by
  rw [guardReserved]
  split
  · have hmore : (rest ++ ['_']).all isWordChar = true := by
      rw [List.all_append, hrest]
      rfl
    exact isLegal_cons_iff.mpr ⟨hstart, hmore, isReserved_concat_underscore (c :: rest)⟩
  next hfree => exact isLegal_cons_iff.mpr ⟨hstart, hrest, eq_false_of_ne_true hfree⟩

/-- Before reserved words are looked at, a name starts as an identifier and goes on as one. -/
theorem exists_guardStart_eq_cons (name : Text) :
    ∃ c rest, guardStart (replaceIllegal name) = c :: rest ∧ isStartChar c = true ∧
      rest.all isWordChar = true := by
  cases name with
  | nil => exact ⟨'_', [], rfl, rfl, rfl⟩
  | cons c rest =>
    obtain ⟨d, hd⟩ : ∃ d, d = if isWordChar c || c == '$' then c else '_' := ⟨_, rfl⟩
    obtain ⟨more, hmore⟩ : ∃ more, more = rest.map fun e => if isWordChar e then e else '_' :=
      ⟨_, rfl⟩
    have hstart : isWordChar d = true ∨ d = '$' := by
      rw [hd]
      split
      next hkept => simpa using hkept
      · exact .inl rfl
    have hword : more.all isWordChar = true := by
      rw [hmore, List.all_map, List.all_eq_true]
      intro e _
      rw [Function.comp_apply]
      split
      · assumption
      · rfl
    rw [replaceIllegal, ← hd, ← hmore, guardStart]
    split
    next hdigit =>
      refine ⟨'_', d :: more, rfl, rfl, ?_⟩
      rw [List.all_cons, hword, Bool.and_true]
      simp [isWordChar, Char.isAlphanum, hdigit]
    next hdigit =>
      refine ⟨d, more, rfl, ?_, hword⟩
      rcases hstart with hd | rfl
      · exact isStartChar_of_isWordChar hd (eq_false_of_ne_true hdigit)
      · rfl

theorem isLegal_legalize (name : Text) : isLegal (legalize name) = true := by
  obtain ⟨c, rest, hname, hstart, hrest⟩ := exists_guardStart_eq_cons name
  rw [legalize, hname]
  exact isLegal_guardReserved hstart hrest

theorem legalize_cons_of_isStartChar {c : Char} {rest : Text} (hstart : isStartChar c = true)
    (hrest : rest.all isWordChar = true) : legalize (c :: rest) = guardReserved (c :: rest) := by
  have hfirst : (isWordChar c || c == '$') = true := by
    by_cases hc : c = '$'
    · simp [hc]
    · simp [isWordChar_of_isStartChar hstart hc]
  have hothers : (rest.map fun d => if isWordChar d then d else '_') = rest := by
    rw [List.map_congr_left (g := id), List.map_id]
    intro d hd
    exact if_pos (List.all_eq_true.mp hrest d hd)
  rw [legalize, replaceIllegal, if_pos hfirst, hothers, guardStart,
    if_neg (by simp [isDigit_of_isStartChar hstart])]

theorem legalize_of_isLegal {name : Text} (h : isLegal name = true) : legalize name = name := by
  cases name with
  | nil => exact absurd h Bool.false_ne_true
  | cons c rest =>
    obtain ⟨hstart, hrest, hfree⟩ := isLegal_cons_iff.mp h
    rw [legalize_cons_of_isStartChar hstart hrest, guardReserved, if_neg (by simp [hfree])]

theorem legalize_eq_self_iff {name : Text} : legalize name = name ↔ isLegal name = true := by
  constructor
  · intro h
    rw [← h]
    exact isLegal_legalize name
  · exact legalize_of_isLegal

/-- At most one underscore is put in: before an empty name or a digit, or else after a reserved
word. -/
theorem legalize_eq (name : Text) :
    legalize name =
      if (withoutIllegal name).head?.all Char.isDigit then '_' :: withoutIllegal name
      else if isReserved (withoutIllegal name) then withoutIllegal name ++ ['_']
      else withoutIllegal name := by
  rw [legalize, replaceIllegal_eq]
  cases hname : withoutIllegal name with
  | nil =>
    have hfree := isReserved_underscore_cons []
    simp [guardStart, guardReserved, hfree]
  | cons c rest =>
    by_cases hdigit : c.isDigit = true
    · -- With an underscore at its start the name is no reserved word.
      have hfree := isReserved_underscore_cons (c :: rest)
      simp [guardStart, guardReserved, hdigit, hfree]
    · simp [guardStart, guardReserved, hdigit]

theorem isLegal_of_isMagicHook {name : Text} (h : isMagicHook name = true) :
    isLegal name = true := by
  have hhooks : ∀ hook ∈ magicHooks, hook.head? = some '_' ∧ hook.all isWordChar = true := by
    decide +kernel
  obtain ⟨hhead, hchars⟩ := hhooks name (List.contains_iff_mem.mp h)
  obtain ⟨rest, rfl⟩ := List.head?_eq_some_iff.mp hhead
  rw [List.all_cons, Bool.and_eq_true] at hchars
  exact isLegal_cons_iff.mpr ⟨rfl, hchars.2, isReserved_underscore_cons rest⟩

theorem classify_of_isMagicHook (publicNames : NameSet) {raw : Text}
    (h : isMagicHook raw = true) : Identifier.classify publicNames raw = ⟨raw, .magicHook⟩ := by
  rw [Identifier.classify, if_pos h]

theorem classify_of_mem {publicNames : NameSet} {raw : Text} (hhook : isMagicHook raw = false)
    (h : raw ∈ publicNames) : Identifier.classify publicNames raw = ⟨raw, .allowListed⟩ := by
  rw [Identifier.classify, if_neg (by simp [hhook]), if_pos h]

theorem name_normalize_of_isMagicHook (publicNames : NameSet) {raw : Text}
    (h : isMagicHook raw = true) : (Identifier.normalize publicNames raw).name = legalize raw := by
  rw [Identifier.normalize, classify_of_isMagicHook publicNames h]

theorem name_normalize_of_mem {publicNames : NameSet} {raw : Text}
    (hhook : isMagicHook raw = false) (h : raw ∈ publicNames) :
    (Identifier.normalize publicNames raw).name = legalize raw := by
  rw [Identifier.normalize, classify_of_mem hhook h]

theorem isLegal_name_normalize (publicNames : NameSet) (raw : Text) :
    isLegal (Identifier.normalize publicNames raw).name = true := by
  rw [Identifier.normalize]
  split
  · exact isLegal_legalize _
  · exact isLegal_legalize _
  · exact isLegal_legalize _
  · exact isLegal_legalize _

/-- Every text is made into a legal identifier, on each path. Legal names are kept and no others are,
so callbacks are kept, and listed names exactly if they are legal. What is not legal has each of its
illegal characters replaced and at most one underscore put before or after it. -/
theorem identifiers_are_legal (publicNames : NameSet) (raw : Text) :
    isLegal (sanitize raw) = true ∧
    isLegal (Identifier.normalize publicNames raw).name = true ∧
    (legalize raw = raw ↔ isLegal raw = true) ∧
    legalize (legalize raw) = legalize raw ∧
    (isMagicHook raw = true → (Identifier.normalize publicNames raw).name = raw) ∧
    (isMagicHook raw = false → raw ∈ publicNames →
      ((Identifier.normalize publicNames raw).name = raw ↔ isLegal raw = true)) ∧
    legalize raw =
      if (withoutIllegal raw).head?.all Char.isDigit then '_' :: withoutIllegal raw
      else if isReserved (withoutIllegal raw) then withoutIllegal raw ++ ['_']
      else withoutIllegal raw := by
  refine ⟨isLegal_legalize _, isLegal_name_normalize publicNames raw, legalize_eq_self_iff, ?_, ?_, ?_,
    legalize_eq raw⟩
  · exact legalize_of_isLegal (isLegal_legalize raw)
  · intro hhook
    rw [name_normalize_of_isMagicHook publicNames hhook]
    exact legalize_of_isLegal (isLegal_of_isMagicHook hhook)
  · intro hhook hmem
    rw [name_normalize_of_mem hhook hmem]
    exact legalize_eq_self_iff

theorem listed_identifiers_are_legal :
    isMagicHook "_ready".toList = true ∧
    (Identifier.normalize (.ofList ["class".toList]) "_ready".toList).name = "_ready".toList ∧
    isMagicHook "class".toList = false ∧
    "class".toList ∈ NameSet.ofList ["class".toList] ∧
    (Identifier.normalize (.ofList ["class".toList]) "class".toList).name ≠ "class".toList ∧
    legalize "$1-é".toList = "$1__".toList := by
  obtain ⟨-, -, -, -, hhook, -, -⟩ :=
    identifiers_are_legal (.ofList ["class".toList]) "_ready".toList
  obtain ⟨-, -, -, -, -, hlisted, -⟩ :=
    identifiers_are_legal (.ofList ["class".toList]) "class".toList
  obtain ⟨-, -, -, -, -, -, hrepaired⟩ :=
    identifiers_are_legal (.ofList ["class".toList]) "$1-é".toList
  have hmem : "class".toList ∈ NameSet.ofList ["class".toList] := by simp
  have hkept := hlisted (by decide) hmem
  refine ⟨by decide, hhook (by decide), by decide, hmem, ?_, hrepaired.trans (by decide +kernel)⟩
  intro hsame
  exact absurd (hkept.mp hsame) (by decide +kernel)

end ClassDocs.Naming
