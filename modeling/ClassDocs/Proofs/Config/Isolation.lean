import ClassDocs.Project

/-!
# What a project is made from

The settings of a project are those of the first of its candidates that is a file, whatever the later
ones hold, or else all of them are the defaults. So what is made of a project depends on two files:
this one, and the list of names that it points to.
-/

namespace ClassDocs

namespace Logged

variable {α β : Type}

theorem value_bind (first : Logged α) (next : α → Logged β) :
    (first >>= next).value = (next first.value).value :=
  rfl

theorem bind_congr {first : Logged α} {next other : α → Logged β}
    (h : next first.value = other first.value) : (first >>= next) = first >>= other := by
  change Logged.mk (next first.value).value (first.events ++ (next first.value).events) =
    Logged.mk (other first.value).value (first.events ++ (other first.value).events)
  rw [h]

end Logged

namespace FileTree

variable {tree other : FileTree} {path : Text}

theorem isFile_iff : tree.isFile path = true ↔ ∃ content, tree.entryAt path = .file content := by
  rw [isFile]
  split
  next content hentry => simp [hentry]
  next hnone =>
    simp only [Bool.false_eq_true, false_iff, not_exists]
    exact hnone

theorem readText_congr (h : tree.entryAt path = other.entryAt path) :
    tree.readText path = other.readText path := by
  rw [readText, readText, h]

end FileTree

variable {decoders : Decoders} {tree other : FileTree} {root path : Text}

namespace Config

/-- The configuration that the content of a file makes, where the content may be a failure to read
it. -/
def ofContent (decoders : Decoders) : Except Text ByteArray → Except LoadError Config
  | .error reason => .error (.unreadable reason)
  | .ok bytes =>
    match String.fromUTF8? bytes with
    | none => .error (.unreadable ReadFailure.notText.message)
    | some text =>
      match decoders.config text.toList with
      | .error reason => .error (.badConfig reason)
      | .ok fields => .ok (ofFields fields)

theorem path?_eq_some_iff :
    path? tree root = some path ↔ tree.isFile path = true ∧
      ∃ before after, candidates.map (Path.join root) = before ++ path :: after ∧
        ∀ earlier ∈ before, tree.isFile earlier = false := by
  simp only [path?, List.find?_eq_some_iff_append, Bool.not_eq_true']

theorem exists_file_of_path? (h : path? tree root = some path) :
    ∃ content, tree.entryAt path = .file content :=
  FileTree.isFile_iff.mp (path?_eq_some_iff.mp h).1

theorem read_of_file {content : Except Text ByteArray} (h : tree.entryAt path = .file content) :
    read decoders tree path = ofContent decoders content := by
  simp only [read, FileTree.readText, h, Entry.content?]
  cases content with
  | error reason => rfl
  | ok bytes =>
    cases htext : String.fromUTF8? bytes with
    | none => simp only [ofContent, htext]
    | some text =>
      simp only [ofContent, parse, htext]
      cases decoders.config text.toList <;> rfl

theorem read_congr (h : tree.entryAt path = other.entryAt path) :
    read decoders tree path = read decoders other path := by
  rw [read, read, FileTree.readText_congr h]

theorem load_of_path? (h : path? tree root = some path) :
    load decoders tree root = ⟨(read decoders tree path).map some, [.configLoading path]⟩ := by
  rw [load, h]
  rfl

theorem load_of_no_path (h : path? tree root = none) :
    load decoders tree root = ⟨.ok none, [.configMissing root]⟩ := by
  rw [load, h]
  rfl

theorem path?_eq_none_iff :
    path? tree root = none ↔ ∀ name ∈ candidates, tree.isFile (Path.join root name) = false := by
  simp only [path?, List.find?_eq_none, List.forall_mem_map, Bool.not_eq_true]

theorem load_eq_none_iff :
    (load decoders tree root).value = .ok none ↔ path? tree root = none := by
  cases hpath : path? tree root with
  | none => simp [load_of_no_path hpath]
  | some path =>
    rw [load_of_path? hpath]
    cases read decoders tree path <;> simp [Except.map]

theorem value_loadOrDefault (decoders : Decoders) (tree : FileTree) (root : Text) :
    (loadOrDefault decoders tree root).value =
      (load decoders tree root).value.toOption.join.getD default := by
  rw [loadOrDefault, Logged.value_bind]
  cases (load decoders tree root).value with
  | error error => rfl
  | ok config? => cases config? <;> rfl

theorem load_congr (hpath : path? tree root = path? other root)
    (hentry : ∀ path, path? tree root = some path → tree.entryAt path = other.entryAt path) :
    load decoders tree root = load decoders other root := by
  cases hfirst : path? tree root with
  | none => rw [load_of_no_path hfirst, load_of_no_path (hpath ▸ hfirst)]
  | some path =>
    rw [load_of_path? hfirst, load_of_path? (hpath ▸ hfirst), read_congr (hentry path hfirst)]

theorem loadOrDefault_congr (h : load decoders tree root = load decoders other root) :
    loadOrDefault decoders tree root = loadOrDefault decoders other root := by
  rw [loadOrDefault, loadOrDefault, h]

end Config

theorem NameSet.load_congr (h : tree.entryAt path = other.entryAt path) :
    load decoders tree path = load decoders other path := by
  rw [load, load, FileTree.readText_congr h]

theorem NamingSettings.publicNameSet_congr {settings : NamingSettings}
    (h : ∀ file, settings.nameListPath? = some file →
      tree.entryAt (Path.join root file) = other.entryAt (Path.join root file)) :
    settings.publicNameSet decoders tree root = settings.publicNameSet decoders other root := by
  rw [publicNameSet, publicNameSet]
  cases hpath : settings.nameListPath? with
  | none => rfl
  | some file => simp only [NameSet.load_congr (h file hpath)]

/-- The configuration of a project is the first of three files. Loading finds nothing exactly where
none of the three is there, and otherwise makes of this file what its content says; a configuration
that cannot be loaded is replaced as a whole. Projects with the same such file and the same list of
names behind it come out the same, events and all. -/
theorem project_depends_on_two_files (decoders : Decoders) (root : Text) :
    (∀ tree path, Config.path? tree root = some path ↔ tree.isFile path = true ∧
      ∃ before after, [Path.join root "gdts.toml".toList, Path.join root ".gdts.toml".toList,
          Path.join root ".config/gdts.toml".toList] = before ++ path :: after ∧
        ∀ earlier ∈ before, tree.isFile earlier = false) ∧
    (∀ tree, (Config.load decoders tree root).value = .ok none ↔
      tree.isFile (Path.join root "gdts.toml".toList) = false ∧
      tree.isFile (Path.join root ".gdts.toml".toList) = false ∧
      tree.isFile (Path.join root ".config/gdts.toml".toList) = false) ∧
    (∀ tree path, Config.path? tree root = some path →
      ∃ content, tree.entryAt path = .file content ∧
        (Config.load decoders tree root).value = (Config.ofContent decoders content).map some) ∧
    (∀ tree, (Config.loadOrDefault decoders tree root).value =
      (Config.load decoders tree root).value.toOption.join.getD .default) ∧
    ∀ tree other, Config.path? tree root = Config.path? other root →
      (∀ path, Config.path? tree root = some path → tree.entryAt path = other.entryAt path) →
      (∀ file, (Config.loadOrDefault decoders tree root).value.naming.nameListPath? = some file →
        tree.entryAt (Path.join root file) = other.entryAt (Path.join root file)) →
      Config.load decoders tree root = Config.load decoders other root ∧
      ∀ names entry, ProjectReport.make decoders tree root names entry =
        ProjectReport.make decoders other root names entry := by
  refine ⟨?_, ?_, ?_, fun _ => Config.value_loadOrDefault decoders _ root, ?_⟩
  · intro tree path
    rw [Config.path?_eq_some_iff]
    simp only [Config.candidates, List.map_cons, List.map_nil]
  · intro tree
    rw [Config.load_eq_none_iff, Config.path?_eq_none_iff]
    simp [Config.candidates]
  · intro tree path hpath
    obtain ⟨content, hfile⟩ := Config.exists_file_of_path? hpath
    exact ⟨content, hfile, by rw [Config.load_of_path? hpath, Config.read_of_file hfile]⟩
  · intro tree other hpath hentry hnames
    have hload : Config.load decoders tree root = Config.load decoders other root :=
      Config.load_congr hpath hentry
    refine ⟨hload, fun names entry => ?_⟩
    rw [ProjectReport.make, ProjectReport.make, ← Config.loadOrDefault_congr hload]
    apply Logged.bind_congr
    rw [NamingSettings.publicNameSet_congr hnames]

def FileTree.ofEntries (entries : List (Text × Entry)) : FileTree :=
  ⟨fun path => (entries.lookup path).getD .missing⟩

def settingsText : String :=
  "[naming]\npublic_underscore_file = \"names.json\"\n[docs]\nlanguage = \"csharp\"\n"

def namesText : String :=
  "[\"_a\"]"

/-- Decoders that know the texts of the projects below and refuse any other. -/
def sampleDecoders : Decoders where
  config content :=
    if content = settingsText.toList then
      .ok ⟨some ⟨none, some "names.json".toList⟩, some ⟨some "csharp".toList, none⟩⟩
    else .error ("unexpected content: ".toList ++ content)
  names content :=
    if content = namesText.toList then .ok ["_a".toList]
    else .error ("expected an array of strings: ".toList ++ content)

def plainProject : FileTree :=
  .ofEntries
    [("p/.gdts.toml".toList, .file (.ok settingsText.toUTF8)),
      ("p/names.json".toList, .file (.ok namesText.toUTF8))]

/-- The same project with a directory at the first candidate, a configuration that may not be read at
the last one, and a file besides. -/
def clutteredProject : FileTree :=
  .ofEntries
    [("p/gdts.toml".toList, .other (.error "Is a directory (os error 21)".toList)),
      ("p/_a".toList, .file (.ok ⟨#[255]⟩)),
      ("p/names.json".toList, .file (.ok namesText.toUTF8)),
      ("p/.config/gdts.toml".toList, .file (.error "Permission denied (os error 13)".toList)),
      ("p/.gdts.toml".toList, .file (.ok settingsText.toUTF8))]

theorem clutteredProject_comes_out_the_same :
    Config.path? plainProject "p".toList = some "p/.gdts.toml".toList ∧
    (∃ content, plainProject.entryAt "p/.gdts.toml".toList = .file content ∧
      (Config.load sampleDecoders plainProject "p".toList).value =
        (Config.ofContent sampleDecoders content).map some) ∧
    Config.path? plainProject "p".toList = Config.path? clutteredProject "p".toList ∧
    plainProject.entryAt "p/.gdts.toml".toList = clutteredProject.entryAt "p/.gdts.toml".toList ∧
    (Config.loadOrDefault sampleDecoders plainProject "p".toList).value.naming.nameListPath? =
      some "names.json".toList ∧
    plainProject.entryAt "p/names.json".toList = clutteredProject.entryAt "p/names.json".toList ∧
    ∀ names entry, ProjectReport.make sampleDecoders plainProject "p".toList names entry =
      ProjectReport.make sampleDecoders clutteredProject "p".toList names entry := by
  have hpath : Config.path? plainProject "p".toList = some "p/.gdts.toml".toList := by
    decide +kernel
  have hother : Config.path? clutteredProject "p".toList = some "p/.gdts.toml".toList := by
    decide +kernel
  have hentry : plainProject.entryAt "p/.gdts.toml".toList =
      clutteredProject.entryAt "p/.gdts.toml".toList := rfl
  have hfile : (Config.loadOrDefault sampleDecoders plainProject "p".toList).value.naming.nameListPath? =
      some "names.json".toList := by
    decide +kernel
  have hnames : plainProject.entryAt "p/names.json".toList =
      clutteredProject.entryAt "p/names.json".toList := rfl
  obtain ⟨-, -, hload, -, hmake⟩ := project_depends_on_two_files sampleDecoders "p".toList
  refine ⟨hpath, hload _ _ hpath, hpath.trans hother.symm, hentry, hfile, hnames, ?_⟩
  refine (hmake _ _ (hpath.trans hother.symm) (fun path hfirst => ?_) fun file hchosen => ?_).2
  · obtain rfl : "p/.gdts.toml".toList = path := Option.some.inj (hpath.symm.trans hfirst)
    exact hentry
  · obtain rfl : "names.json".toList = file := Option.some.inj (hfile.symm.trans hchosen)
    exact hnames

/-- A configuration that may not be read hides the one behind it. -/
def lockedProject : FileTree :=
  .ofEntries
    [("p/gdts.toml".toList, .file (.error "Permission denied (os error 13)".toList)),
      ("p/.gdts.toml".toList, .file (.ok settingsText.toUTF8))]

example :
    (Config.load sampleDecoders lockedProject "p".toList).value =
      .error (.unreadable "Permission denied (os error 13)".toList) ∧
    (Config.loadOrDefault sampleDecoders lockedProject "p".toList).value = .default :=
  ⟨rfl, rfl⟩

end ClassDocs
