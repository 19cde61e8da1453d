import ClassDocs.Proofs.Naming.Legal

/-!
# Visibility is settled at once

A public name is kept as it is, and a private one loses the underscores that made it private. So a name
that has been classified is public from then on and is not changed again, whichever names are listed.
-/

namespace ClassDocs.Identifier

open Naming

variable {publicNames : NameSet} {raw : Text}

theorem head?_of_isMagicHook (h : isMagicHook raw = true) : raw.head? = some '_' := by
  have hhooks : ∀ hook ∈ magicHooks, hook.head? = some '_' := by decide +kernel
  exact hhooks raw (List.contains_iff_mem.mp h)

theorem classify_of_underscore (hhook : isMagicHook raw = false) (hmem : raw ∉ publicNames)
    (hhead : raw.head? = some '_') :
    classify publicNames raw = ⟨raw.dropWhile isUnderscore, .stripped⟩ := by
  rw [classify, if_neg (by simp [hhook]), if_neg hmem, if_pos hhead]

theorem classify_of_no_underscore (hhead : raw.head? ≠ some '_') :
    classify publicNames raw =
      ⟨raw, if raw ∈ publicNames then .allowListed else .unchanged⟩ := by
  have hhook : isMagicHook raw = false := by
    apply eq_false_of_ne_true
    intro hhook
    exact hhead (head?_of_isMagicHook hhook)
  by_cases hmem : raw ∈ publicNames
  · rw [classify_of_mem hhook hmem, if_pos hmem]
  · rw [classify, if_neg (by simp [hhook]), if_neg hmem, if_neg hhead, if_neg hmem]

/-- A name is kept and public, or it is private and loses every underscore in front. -/
theorem classify_cases (publicNames : NameSet) (raw : Text) :
    ((classify publicNames raw).name = raw ∧ (classify publicNames raw).rule ≠ .stripped) ∨
      classify publicNames raw = ⟨raw.dropWhile isUnderscore, .stripped⟩ := by
  cases hhook : isMagicHook raw with
  | true =>
    left
    simp [classify_of_isMagicHook publicNames hhook]
  | false =>
    by_cases hmem : raw ∈ publicNames
    · left
      simp [classify_of_mem hhook hmem]
    · by_cases hhead : raw.head? = some '_'
      · right
        exact classify_of_underscore hhook hmem hhead
      · left
        simp [classify_of_no_underscore hhead, hmem]

theorem head?_dropWhile_isUnderscore (raw : Text) :
    (raw.dropWhile isUnderscore).head? ≠ some '_' := by
  intro hhead
  have hdropped := Text.head?_trimStart isUnderscore raw '_' hhead
  simp [isUnderscore] at hdropped

/-- Only the name of a private identifier can be decided anew, by whether it is listed. -/
theorem classify_name_classify (publicNames : NameSet) (raw : Text) :
    classify publicNames (classify publicNames raw).name =
      if (classify publicNames raw).rule = .stripped then
        ⟨(classify publicNames raw).name,
          if (classify publicNames raw).name ∈ publicNames then .allowListed else .unchanged⟩
      else classify publicNames raw := by
  rcases classify_cases publicNames raw with ⟨hname, hrule⟩ | hstripped
  · rw [if_neg hrule, hname]
  · rw [hstripped, if_pos rfl]
    exact classify_of_no_underscore (head?_dropWhile_isUnderscore raw)

theorem rule_normalize (publicNames : NameSet) (raw : Text) :
    (normalize publicNames raw).rule = (classify publicNames raw).rule := by
  rw [normalize]
  split <;> rfl

/-- Classifying the name that a name is classified as changes it no more and never makes it private,
whichever names are listed. What was private is now public, listed or not, and everything else keeps its
rule. Normalizing a name decides its visibility in the same way. -/
theorem visibility_is_settled_at_once (publicNames : NameSet) (raw : Text) :
    let first := classify publicNames raw
    let second := classify publicNames first.name
    second.name = first.name ∧ second.isPrivate = false ∧ second.rule ≠ .stripped ∧
    second.rule =
      (if first.rule = .stripped then
        if first.name ∈ publicNames then .allowListed else .unchanged
      else first.rule) ∧
    (normalize publicNames raw).rule = first.rule ∧
    (normalize publicNames raw).isPrivate = first.isPrivate := by
  intro first second
  have hsecond : second = if first.rule = .stripped then
      ⟨first.name, if first.name ∈ publicNames then .allowListed else .unchanged⟩ else first :=
    classify_name_classify publicNames raw
  have hname : second.name = first.name := by
    rw [hsecond]
    split <;> rfl
  have hrule : second.rule = if first.rule = .stripped then
      if first.name ∈ publicNames then .allowListed else .unchanged else first.rule := by
    rw [hsecond]
    split <;> rfl
  have hpublic : second.rule ≠ .stripped := by
    intro hstripped
    rw [hrule] at hstripped
    split at hstripped
    · split at hstripped <;> simp at hstripped
    · contradiction
  have hnormalize : (normalize publicNames raw).rule = first.rule := rule_normalize publicNames raw
  refine ⟨hname, ?_, hpublic, hrule, hnormalize, ?_⟩
  · simp [isPrivate, hpublic]
  · rw [isPrivate, isPrivate, hnormalize]

end ClassDocs.Identifier
