import ClassDocs.Proofs.Config.Isolation
import ClassDocs.Proofs.Naming.Legal

/-!
# Public names

A project's public names are those in its configuration and those in the file that it points to; a
missing file lists none. What is made of a name depends on them in one respect, whether they
have that very name, and only if the name is no callback.
-/

namespace ClassDocs

open Naming

/-- The names that a configuration's file adds: none if no file is chosen or it is missing, and else
those of the array that its text is decoded to. A file that cannot be read so is related to no names
at all, not even to none. -/
inductive NamingSettings.FileLists (decoders : Decoders) (settings : NamingSettings)
    (tree : FileTree) (root : Text) : List Text → Prop where
  | unset (hunset : settings.nameListPath? = none) : FileLists decoders settings tree root []
  | missing {file : Text} (hfile : settings.nameListPath? = some file)
      (hmissing : tree.entryAt (Path.join root file) = .missing) :
      FileLists decoders settings tree root []
  | array {file : Text} {bytes : ByteArray} {text : String} {names : List Text}
      (hfile : settings.nameListPath? = some file)
      (hreadable : (tree.entryAt (Path.join root file)).content? = some (.ok bytes))
      (htext : String.fromUTF8? bytes = some text)
      (hnames : decoders.names text.toList = .ok names) : FileLists decoders settings tree root names

variable {decoders : Decoders} {tree : FileTree} {root path : Text}

namespace FileTree

theorem readText_eq_missing_iff :
    tree.readText path = .error .missing ↔ tree.entryAt path = .missing := by
  rw [readText]
  cases tree.entryAt path with
  | missing => simp [Entry.content?]
  | file content | other content =>
    cases content with
    | error reason => simp [Entry.content?]
    | ok bytes =>
      cases htext : String.fromUTF8? bytes <;>
        simp [Entry.content?, htext, ReadFailure.notText]

theorem readText_eq_ok_iff {content : Text} :
    tree.readText path = .ok content ↔ ∃ bytes text,
      (tree.entryAt path).content? = some (.ok bytes) ∧ String.fromUTF8? bytes = some text ∧
        text.toList = content := by
  rw [readText]
  split
  next hnone => simp [hnone]
  next hfailed => simp [hfailed]
  next bytes hbytes => cases htext : String.fromUTF8? bytes <;> simp [hbytes, htext]

end FileTree

namespace NameSet

theorem value_load_of_missing (h : tree.readText path = .error .missing) :
    (load decoders tree path).value = .ok empty := by
  rw [load, h]
  rfl

theorem value_load_of_names {content : Text} {names : List Text}
    (h : tree.readText path = .ok content) (hnames : decoders.names content = .ok names) :
    (load decoders tree path).value = .ok (ofList names) := by
  rw [load, h]
  simp only [ofJson, hnames]
  rfl

theorem cases_of_load {set : NameSet} (h : (load decoders tree path).value = .ok set) :
    tree.readText path = .error .missing ∨
      ∃ content names, tree.readText path = .ok content ∧ decoders.names content = .ok names := by
  rw [load] at h
  split at h
  next hmissing => exact Or.inl hmissing
  next failure _ hfailure => cases h
  next content hcontent =>
    cases hnames : decoders.names content with
    | ok names => exact Or.inr ⟨content, names, hcontent, hnames⟩
    | error reason =>
      simp only [ofJson, hnames] at h
      cases h

end NameSet

namespace NamingSettings

variable {settings : NamingSettings}

theorem value_publicNameSet_of_unset (h : settings.nameListPath? = none) :
    (settings.publicNameSet decoders tree root).value = .ok (.ofList settings.publicNames) := by
  rw [publicNameSet, h]
  rfl

theorem value_publicNameSet_of_file {file : Text} (h : settings.nameListPath? = some file) :
    (settings.publicNameSet decoders tree root).value =
      (NameSet.load decoders tree (Path.join root file)).value.map
        (NameSet.ofList settings.publicNames).union := by
  rw [publicNameSet, h]
  simp only
  rw [Logged.value_bind]
  cases (NameSet.load decoders tree (Path.join root file)).value <;> rfl

/-- The public names are those in the configuration and those in the file. -/
theorem FileLists.publicNameSet {names : List Text} (h : settings.FileLists decoders tree root names) :
    ∃ set, (settings.publicNameSet decoders tree root).value = .ok set ∧
      ∀ name, name ∈ set ↔ name ∈ settings.publicNames ∨ name ∈ names := by
  cases h with
  | unset hunset =>
    exact ⟨_, value_publicNameSet_of_unset hunset, fun name => by simp⟩
  | missing hfile hmissing =>
    have hload : (NameSet.load decoders tree _).value = _ :=
      NameSet.value_load_of_missing (FileTree.readText_eq_missing_iff.mpr hmissing)
    refine ⟨_, by rw [value_publicNameSet_of_file hfile, hload]; rfl, fun name => ?_⟩
    rw [NameSet.mem_union, NameSet.mem_ofList]
    simp
  | array hfile hreadable htext hnames =>
    have hread := FileTree.readText_eq_ok_iff.mpr ⟨_, _, hreadable, htext, rfl⟩
    have hload := NameSet.value_load_of_names hread hnames
    refine ⟨_, by rw [value_publicNameSet_of_file hfile, hload]; rfl, fun name => ?_⟩
    rw [NameSet.mem_union, NameSet.mem_ofList, NameSet.mem_ofList]

theorem exists_fileLists {set : NameSet}
    (h : (settings.publicNameSet decoders tree root).value = .ok set) :
    ∃ names, settings.FileLists decoders tree root names := by
  cases hfile : settings.nameListPath? with
  | none => exact ⟨[], .unset hfile⟩
  | some file =>
    rw [value_publicNameSet_of_file hfile] at h
    cases hload : (NameSet.load decoders tree (Path.join root file)).value with
    | error error => rw [hload] at h; cases h
    | ok loaded =>
      rcases NameSet.cases_of_load hload with hmissing | ⟨content, names, hcontent, hnames⟩
      · exact ⟨[], .missing hfile (FileTree.readText_eq_missing_iff.mp hmissing)⟩
      · obtain ⟨bytes, text, hreadable, htext, rfl⟩ := FileTree.readText_eq_ok_iff.mp hcontent
        exact ⟨names, .array hfile hreadable htext hnames⟩

end NamingSettings

namespace Identifier

variable {names more : NameSet} {raw : Text}

theorem classify_congr (h : raw ∈ names ↔ raw ∈ more) : classify names raw = classify more raw := by
  simp only [classify, h]

theorem normalize_congr (h : classify names raw = classify more raw) :
    normalize names raw = normalize more raw := by
  rw [normalize, normalize, h]

theorem classify_insert_of_ne {name : Text} (h : raw ≠ name) :
    classify (names.insert name) raw = classify names raw := by
  apply classify_congr
  rw [NameSet.mem_insert, or_iff_right h]

theorem classify_insert_of_isMagicHook {name : Text} (h : isMagicHook name = true) :
    classify (names.insert name) raw = classify names raw := by
  by_cases hraw : raw = name
  · rw [hraw, classify_of_isMagicHook _ h, classify_of_isMagicHook _ h]
  · exact classify_insert_of_ne hraw

theorem classify_insert_self {name : Text} (h : isMagicHook name = false) :
    classify (names.insert name) name = ⟨name, .allowListed⟩ :=
  classify_of_mem h (NameSet.mem_insert.mpr (Or.inl rfl))

end Identifier

/-- The public names of a project can be told exactly where the file that lists more of them is not
chosen, missing or readable as such a list, and they are the names of both sources. Sources
with the same names between them decide the same of every name. One more name in a list makes itself
public, unless it is a callback, and makes no difference to any other. -/
theorem public_names_act_by_membership (decoders : Decoders) (settings : NamingSettings)
    (tree : FileTree) (root : Text) :
    ((∃ set, (settings.publicNameSet decoders tree root).value = .ok set) ↔
      ∃ names, settings.FileLists decoders tree root names) ∧
    (∀ set names, (settings.publicNameSet decoders tree root).value = .ok set →
      settings.FileLists decoders tree root names →
      ∀ name, name ∈ set ↔ name ∈ settings.publicNames ∨ name ∈ names) ∧
    (∀ (other : NamingSettings) (otherTree : FileTree) (otherRoot : Text)
        (names otherNames : List Text),
      settings.FileLists decoders tree root names →
      other.FileLists decoders otherTree otherRoot otherNames →
      (∀ name, name ∈ settings.publicNames ++ names ↔ name ∈ other.publicNames ++ otherNames) →
      ∃ set otherSet, (settings.publicNameSet decoders tree root).value = .ok set ∧
        (other.publicNameSet decoders otherTree otherRoot).value = .ok otherSet ∧
        ∀ raw, Identifier.classify set raw = Identifier.classify otherSet raw ∧
          Identifier.normalize set raw = Identifier.normalize otherSet raw) ∧
    ∀ (set : NameSet) (name raw : Text),
      (raw ≠ name ∨ isMagicHook name = true →
        Identifier.classify (set.insert name) raw = Identifier.classify set raw ∧
        Identifier.normalize (set.insert name) raw = Identifier.normalize set raw) ∧
      (raw = name ∧ isMagicHook name = false →
        Identifier.classify (set.insert name) raw = ⟨raw, .allowListed⟩ ∧
        Identifier.normalize (set.insert name) raw = ⟨legalize raw, .allowListed⟩ ∧
        (Identifier.classify (set.insert name) raw).isPrivate = false ∧
        (Identifier.normalize (set.insert name) raw).isPrivate = false) := by
  refine ⟨⟨?_, ?_⟩, ?_, ?_, fun set name raw => ⟨?_, ?_⟩⟩
  · rintro ⟨set, hset⟩
    exact NamingSettings.exists_fileLists hset
  · rintro ⟨names, hnames⟩
    obtain ⟨set, hset, -⟩ := hnames.publicNameSet
    exact ⟨set, hset⟩
  · intro set names hset hnames
    obtain ⟨found, hfound, hmem⟩ := hnames.publicNameSet
    obtain rfl : found = set := Except.ok.inj (hfound.symm.trans hset)
    exact hmem
  · intro other otherTree otherRoot names otherNames hnames hother hsame
    obtain ⟨set, hset, hmem⟩ := hnames.publicNameSet
    obtain ⟨otherSet, hotherSet, hotherMem⟩ := hother.publicNameSet
    refine ⟨set, otherSet, hset, hotherSet, fun raw => ?_⟩
    have hclass : Identifier.classify set raw = Identifier.classify otherSet raw := by
      apply Identifier.classify_congr
      rw [hmem, hotherMem, ← List.mem_append, ← List.mem_append]
      exact hsame raw
    exact ⟨hclass, Identifier.normalize_congr hclass⟩
  · intro h
    have hclass : Identifier.classify (set.insert name) raw = Identifier.classify set raw := by
      rcases h with hne | hhook
      · exact Identifier.classify_insert_of_ne hne
      · exact Identifier.classify_insert_of_isMagicHook hhook
    exact ⟨hclass, Identifier.normalize_congr hclass⟩
  · rintro ⟨rfl, hhook⟩
    have hclass : Identifier.classify (set.insert raw) raw = ⟨raw, .allowListed⟩ :=
      Identifier.classify_insert_self hhook
    have hnormalize : Identifier.normalize (set.insert raw) raw = ⟨legalize raw, .allowListed⟩ := by
      rw [Identifier.normalize, hclass]
    exact ⟨hclass, hnormalize, by rw [hclass]; rfl, by rw [hnormalize]; rfl⟩

/-- The list of `plainProject` with one name more in the configuration, and all of its names in a
configuration with a file that is missing. -/
theorem moved_names_act_the_same :
    (∃ set otherSet,
      (NamingSettings.publicNameSet sampleDecoders ⟨["_b".toList], some "names.json".toList⟩
        plainProject "p".toList).value = .ok set ∧
      (NamingSettings.publicNameSet sampleDecoders
        ⟨["_a".toList, "_b".toList, "_a".toList], some "none".toList⟩ plainProject
        "p".toList).value = .ok otherSet ∧
      ∀ raw, Identifier.classify set raw = Identifier.classify otherSet raw ∧
        Identifier.normalize set raw = Identifier.normalize otherSet raw) ∧
    Identifier.normalize (NameSet.empty.insert "_a".toList) "_a".toList =
      ⟨"_a".toList, .allowListed⟩ ∧
    Identifier.classify (NameSet.empty.insert "_ready".toList) "_ready".toList =
      Identifier.classify .empty "_ready".toList := by
  have htext : String.fromUTF8? namesText.toUTF8 = some namesText := rfl
  have hlisted : NamingSettings.FileLists sampleDecoders ⟨["_b".toList], some "names.json".toList⟩
      plainProject "p".toList ["_a".toList] :=
    .array rfl rfl htext rfl
  have hmissing : NamingSettings.FileLists sampleDecoders
      ⟨["_a".toList, "_b".toList, "_a".toList], some "none".toList⟩ plainProject "p".toList [] :=
    .missing rfl rfl
  obtain ⟨-, -, hmoved, -⟩ := public_names_act_by_membership sampleDecoders
    ⟨["_b".toList], some "names.json".toList⟩ plainProject "p".toList
  obtain ⟨-, -, -, hinsert⟩ :=
    public_names_act_by_membership sampleDecoders .default plainProject "p".toList
  have hlisted_self := (hinsert .empty "_a".toList "_a".toList).2 ⟨rfl, by decide⟩
  have hcallback := (hinsert .empty "_ready".toList "_ready".toList).1 (Or.inr (by decide))
  refine ⟨hmoved _ _ _ _ _ hlisted hmissing fun name => ?_, ?_, hcallback.1⟩
  · simp [or_comm]
  · exact hlisted_self.2.1.trans (by decide)

end ClassDocs
