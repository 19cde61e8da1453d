import ClassDocs.Naming.Camel
import ClassDocs.Proofs.Text.Trim
import Mathlib.Data.List.Basic

/-!
# Camel case by words

Camel case is said word by word: the underscores around a name stay, the first word between them stays
as it is, and every further word follows it with its first character in upper case. What is written
so has no underscores left inside, so that a second time changes nothing.
-/

namespace ClassDocs.Naming

open Text Unicode

theorem isUnderscore_iff {c : Char} : isUnderscore c = true ↔ c = '_' :=
  beq_iff_eq

theorem forall_ascii {P : Char → Prop} (h : ∀ code < 0x80, P (Char.ofNat code)) {c : Char}
    (hc : c.toNat < 0x80) : P c := by
  have hcode := h c.toNat hc
  rwa [Char.ofNat_toNat] at hcode

theorem eq_of_ofNat_eq_underscore {code : Nat} (h : Char.ofNat code = '_') : code = '_'.toNat := by
  by_cases hvalid : code.isValidChar
  · rw [Char.ofNat, dif_pos hvalid] at h
    exact congrArg Char.toNat h
  · rw [Char.ofNat, dif_neg hvalid] at h
    exact absurd h (by decide)

theorem underscore_notMem_uppercase {c : Char} (hc : c ≠ '_') : '_' ∉ uppercase c := by
  rw [uppercase]
  split
  next hascii =>
    have hupper : c ≠ '_' → c.toUpper ≠ '_' :=
      forall_ascii (P := fun c => c ≠ '_' → c.toUpper ≠ '_') (by decide +kernel) hascii
    simpa using (hupper hc).symm
  next hascii =>
    intro hmem
    obtain ⟨code, hcode, hunderscore⟩ := List.mem_map.mp hmem
    obtain rfl := eq_of_ofNat_eq_underscore hunderscore
    rw [mapCase] at hcode
    split at hcode
    next codes hlookup =>
      have hexpansions : ∀ entry ∈ uppercaseExpansions, '_'.toNat ∉ entry.2 := by decide +kernel
      obtain ⟨before, after, htable, -⟩ := List.lookup_eq_some_iff.mp hlookup
      have hentry : (c.toNat, codes) ∈ uppercaseExpansions := by simp [htable]
      exact hexpansions _ hentry hcode
    next =>
      split at hcode
      next shift hfind =>
        have hshifts : ∀ shift ∈ uppercaseShifts, '_'.toNat < shift.target ∨
            shift.target + (shift.source.last - shift.source.first) < '_'.toNat := by
          decide +kernel
        have hcontains := List.find?_some hfind
        simp only [Progression.contains, Bool.and_eq_true, decide_eq_true_eq] at hcontains
        have htarget := List.mem_singleton.mp hcode
        rcases hshifts shift (List.mem_of_find?_eq_some hfind) with h | h
        · omega
        · omega
      next =>
        have hsame := List.mem_singleton.mp hcode
        rw [← hsame] at hascii
        exact hascii (by decide)

def nameWords (name : Text) : List Text :=
  (name.splitOn '_').filter fun word => !word.isEmpty

/-- Words joined to one name, each but the first with a capital. -/
def joinCapitalized : List Text → Text
  | [] => []
  | first :: rest => first ++ rest.flatMap upperFirst

theorem splitOn_underscore_cons (s : Text) : ('_' :: s).splitOn '_' = [] :: s.splitOn '_' :=
  List.splitOn_append_cons_self [] s

theorem splitOn_cons_of_ne {c : Char} {s first : Text} {rest : List Text} (hc : c ≠ '_')
    (h : s.splitOn '_' = first :: rest) : (c :: s).splitOn '_' = (c :: first) :: rest := by
  rw [List.splitOn] at h ⊢
  rw [List.splitOnP_cons_eq_if_modifyHead, if_neg (by simpa using hc), h, List.modifyHead_cons]

theorem flatMap_upperFirst_filter (parts : List Text) :
    (parts.filter fun word => !word.isEmpty).flatMap upperFirst = parts.flatMap upperFirst := by
  induction parts with
  | nil => rfl
  | cons word parts ih =>
    cases word with
    | nil => exact ih
    | cons c word =>
      rw [List.filter_cons_of_pos rfl, List.flatMap_cons, List.flatMap_cons, ih]

/-- The part behind each underscore is joined with a capital, unless it is empty. -/
theorem joinWords_of_splitOn {s first : Text} {rest : List Text}
    (h : s.splitOn '_' = first :: rest) :
    joinWords false s = first ++ rest.flatMap upperFirst ∧
      joinWords true s = upperFirst first ++ rest.flatMap upperFirst := by
  induction s generalizing first rest with
  | nil =>
    obtain ⟨rfl, rfl⟩ := List.cons.inj h
    exact ⟨rfl, rfl⟩
  | cons c s ih =>
    obtain ⟨word, words, hs⟩ := List.exists_cons_of_ne_nil (List.splitOn_ne_nil '_' s)
    obtain ⟨hplain, hcapital⟩ := ih hs
    by_cases hc : c = '_'
    · subst hc
      rw [splitOn_underscore_cons, hs] at h
      obtain ⟨rfl, rfl⟩ := List.cons.inj h
      exact ⟨hcapital, hcapital⟩
    · rw [splitOn_cons_of_ne hc hs] at h
      obtain ⟨rfl, rfl⟩ := List.cons.inj h
      have hword : isUnderscore c = false := beq_eq_false_iff_ne.mpr hc
      rw [joinWords, joinWords, hplain, hword]
      exact ⟨rfl, (List.append_assoc (uppercase c) word _).symm⟩

theorem joinWords_eq_joinCapitalized {s : Text} (h : s.head? ≠ some '_') :
    joinWords false s = joinCapitalized (nameWords s) := by
  cases s with
  | nil => rfl
  | cons c s =>
    obtain ⟨word, words, hs⟩ := List.exists_cons_of_ne_nil (List.splitOn_ne_nil '_' s)
    have hc : c ≠ '_' := fun heq => h (by rw [heq]; rfl)
    have hsplit := splitOn_cons_of_ne hc hs
    rw [(joinWords_of_splitOn hsplit).1, nameWords, hsplit, List.filter_cons_of_pos rfl,
      joinCapitalized, flatMap_upperFirst_filter]

theorem underscore_notMem_joinWords (capital : Bool) (s : Text) : '_' ∉ joinWords capital s := by
  induction s generalizing capital with
  | nil => exact List.not_mem_nil
  | cons c s ih =>
    rw [joinWords]
    split
    · exact ih true
    next hc =>
      have hne : c ≠ '_' := fun h => hc (isUnderscore_iff.mpr h)
      rw [List.mem_append, not_or]
      refine ⟨?_, ih false⟩
      split
      · exact underscore_notMem_uppercase hne
      · simpa using hne.symm

/-- A name comes apart into a run of underscores, a core that neither starts nor ends with one, and
another run. A name of underscores only is all lead. -/
structure UnderscoreFrame (name lead core trail : Text) : Prop where
  joined : name = lead ++ core ++ trail
  leading : ∀ c ∈ lead, c = '_'
  trailing : ∀ c ∈ trail, c = '_'
  starts : core.head? ≠ some '_'
  ends : core.getLast? ≠ some '_'
  alone : core = [] → trail = []

theorem underscoreFrame (name : Text) :
    UnderscoreFrame name (leadingUnderscores name) (core name) (trailingUnderscores name) := by
  have hbody : core name ++ trailingUnderscores name = trimStart isUnderscore name :=
    trimEnd_append_takeWhile isUnderscore (trimStart isUnderscore name)
  constructor
  case joined =>
    rw [List.append_assoc, hbody]
    exact (takeWhile_append_trimStart isUnderscore name).symm
  case leading => exact fun c hc => isUnderscore_iff.mp (List.mem_takeWhile_imp hc)
  case trailing =>
    exact fun c hc => isUnderscore_iff.mp (List.mem_takeWhile_imp (List.mem_reverse.mp hc))
  case starts => exact fun h => absurd (head?_trim h) (by decide)
  case ends => exact fun h => absurd (getLast?_trim h) (by decide)
  case alone =>
    intro hcore
    rw [hcore, List.nil_append] at hbody
    cases htrail : trailingUnderscores name with
    | nil => rfl
    | cons c rest =>
      -- What is left of the start does not start with an underscore.
      have hmem : c ∈ trailingUnderscores name := by rw [htrail]; exact List.mem_cons_self
      have hunderscore := List.mem_takeWhile_imp (List.mem_reverse.mp hmem)
      have hhead := head?_trimStart isUnderscore name c (by rw [← hbody, htrail]; rfl)
      rw [hunderscore] at hhead
      exact absurd hhead (by decide)

theorem UnderscoreFrame.core_eq {name lead core trail : Text}
    (h : UnderscoreFrame name lead core trail) : Naming.core name = core := by
  have htrail : ∀ c ∈ trail, isUnderscore c = true := fun c hc => isUnderscore_iff.mpr (h.trailing c hc)
  have hlead : ∀ c ∈ lead, isUnderscore c = true := fun c hc => isUnderscore_iff.mpr (h.leading c hc)
  rw [Naming.core, trim, h.joined, List.append_assoc, trimStart_append_of_forall _ hlead]
  have hstart : trimStart isUnderscore (core ++ trail) = core ++ trail := by
    cases hcore : core with
    | nil => rw [h.alone hcore]; rfl
    | cons c rest =>
      refine trimStart_cons_of_neg _ (Bool.eq_false_iff.mpr fun hc => h.starts ?_)
      rw [hcore, isUnderscore_iff.mp hc]
      rfl
  rw [hstart, trimEnd_append_of_forall _ htrail]
  rcases List.eq_nil_or_concat core with hcore | ⟨body, c, hcore⟩
  · rw [hcore]
    rfl
  · rw [hcore, List.concat_eq_append]
    refine trimEnd_concat_of_neg _ (Bool.eq_false_iff.mpr fun hc => h.ends ?_)
    rw [hcore, List.concat_eq_append, List.getLast?_concat, isUnderscore_iff.mp hc]

theorem toCamel_eq (name : Text) :
    toCamel name =
      if '_' ∈ core name ∧ (core name).any isLowercase = true then
        leadingUnderscores name ++ joinWords false (core name) ++ trailingUnderscores name
      else name := by
  have hany : (core name).any isUnderscore = true ↔ '_' ∈ core name := by
    simp [isUnderscore]
  simp only [toCamel, Bool.and_eq_true, hany]

theorem toCamel_of_notMem {name : Text} (h : '_' ∉ core name) : toCamel name = name := by
  rw [toCamel_eq, if_neg fun hcase => h hcase.1]

theorem toCamel_toCamel (name : Text) : toCamel (toCamel name) = toCamel name := by
  by_cases hcase : '_' ∈ core name ∧ (core name).any isLowercase = true
  · obtain ⟨-, hlead, htrail, hstarts, -, -⟩ := underscoreFrame name
    have hinside := underscore_notMem_joinWords false (core name)
    have hframe : UnderscoreFrame (toCamel name) (leadingUnderscores name)
        (joinWords false (core name)) (trailingUnderscores name) := by
      refine ⟨?_, hlead, htrail, fun h => hinside (List.mem_of_mem_head? h),
        fun h => hinside (List.mem_of_mem_getLast? h), fun hempty => ?_⟩
      · rw [toCamel_eq, if_pos hcase]
      · cases hcore : core name with
        | nil => exact absurd (hcore ▸ hcase.1) List.not_mem_nil
        | cons c rest =>
          have hc : isUnderscore c = false := by
            refine Bool.eq_false_iff.mpr fun hc => hstarts ?_
            rw [hcore, isUnderscore_iff.mp hc]
            rfl
          rw [hcore, joinWords, hc] at hempty
          exact absurd hempty (List.cons_ne_nil c _)
    apply toCamel_of_notMem
    rw [hframe.core_eq]
    exact hinside
  · have hsame : toCamel name = name := by rw [toCamel_eq, if_neg hcase]
    rw [hsame, hsame]

/-- A name in camel case is its underscores around its words, joined with a capital each; a name with
no word to join, or without small letters, is left as it is. A second time changes nothing. -/
theorem camel_case_by_words (name : Text) :
    ∃ lead core trail, UnderscoreFrame name lead core trail ∧
      toCamel name =
        (if '_' ∈ core ∧ core.any isLowercase = true then
          lead ++ joinCapitalized (nameWords core) ++ trail
        else name) ∧
      '_' ∉ joinCapitalized (nameWords core) ∧
      toCamel (toCamel name) = toCamel name := by
  have hframe := underscoreFrame name
  refine ⟨_, _, _, hframe, ?_, ?_, toCamel_toCamel name⟩
  · rw [toCamel_eq, joinWords_eq_joinCapitalized hframe.starts]
  · rw [← joinWords_eq_joinCapitalized hframe.starts]
    exact underscore_notMem_joinWords false (core name)

example : toCamel "__get__2d_ßtext_".toList = "__get2dSStext_".toList := by decide +kernel

end ClassDocs.Naming
