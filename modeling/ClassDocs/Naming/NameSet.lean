import ClassDocs.Text.Basic

/-!
# Sets of names

A finite set of names, kept as their list in strictly increasing order of code points. Two sets are
equal when their lists are, so a set is determined by its members.
-/

namespace ClassDocs

structure NameSet where
  toList : List Text
  increasing : toList.Pairwise (· < ·)

namespace NameSet

/-- The list with a name put in its place, unless it is there. -/
def insertName (name : Text) : List Text → List Text
  | [] => [name]
  | first :: rest =>
    if name < first then name :: first :: rest
    else if name = first then first :: rest
    else first :: insertName name rest

theorem mem_insertName {name other : Text} {names : List Text} :
    other ∈ insertName name names ↔ other = name ∨ other ∈ names := by
  induction names with
  | nil => simp [insertName]
  | cons first rest ih =>
    rw [insertName]
    split
    · simp
    · split
      next h => simp [h]
      · rw [List.mem_cons, ih, List.mem_cons]
        exact or_left_comm

theorem pairwise_insertName (name : Text) {names : List Text} (h : names.Pairwise (· < ·)) :
    (insertName name names).Pairwise (· < ·) := by
  induction names with
  | nil => simp [insertName]
  | cons first rest ih =>
    rw [List.pairwise_cons] at h
    rw [insertName]
    split
    next hlt =>
      refine List.pairwise_cons.mpr ⟨?_, List.pairwise_cons.mpr h⟩
      intro other hother
      rcases List.mem_cons.mp hother with rfl | hrest
      · exact hlt
      · exact List.lt_trans hlt (h.1 other hrest)
    next hnlt =>
      split
      · exact List.pairwise_cons.mpr h
      next hne =>
        refine List.pairwise_cons.mpr ⟨?_, ih h.2⟩
        intro other hother
        rcases mem_insertName.mp hother with rfl | hrest
        · exact Std.lt_of_le_of_ne (Std.not_lt.mp hnlt) (Ne.symm hne)
        · exact h.1 other hrest

instance : Membership Text NameSet where
  mem names name := name ∈ names.toList

instance (name : Text) (names : NameSet) : Decidable (name ∈ names) :=
  inferInstanceAs (Decidable (name ∈ names.toList))

def empty : NameSet :=
  ⟨[], List.Pairwise.nil⟩

def insert (names : NameSet) (name : Text) : NameSet :=
  ⟨insertName name names.toList, pairwise_insertName name names.increasing⟩

def insertAll (names : NameSet) (more : List Text) : NameSet :=
  more.foldl insert names

def ofList (names : List Text) : NameSet :=
  empty.insertAll names

def union (names more : NameSet) : NameSet :=
  names.insertAll more.toList

def size (names : NameSet) : Nat :=
  names.toList.length

instance : DecidableEq NameSet := fun a b =>
  if h : a.toList = b.toList then
    isTrue (by cases a; cases b; cases h; rfl)
  else isFalse fun hab => h (congrArg toList hab)

@[simp] theorem notMem_empty (name : Text) : name ∉ empty :=
  List.not_mem_nil

@[simp] theorem mem_insert {names : NameSet} {name other : Text} :
    other ∈ names.insert name ↔ other = name ∨ other ∈ names :=
  mem_insertName

@[simp] theorem mem_insertAll {names : NameSet} {more : List Text} {other : Text} :
    other ∈ names.insertAll more ↔ other ∈ names ∨ other ∈ more := by
  unfold insertAll
  induction more generalizing names with
  | nil => simp
  | cons name more ih =>
    rw [List.foldl_cons, ih, mem_insert, List.mem_cons, or_comm (a := other = name), or_assoc]

@[simp] theorem mem_ofList {names : List Text} {other : Text} :
    other ∈ ofList names ↔ other ∈ names := by
  simp [ofList]

@[simp] theorem mem_union {names more : NameSet} {other : Text} :
    other ∈ names.union more ↔ other ∈ names ∨ other ∈ more :=
  mem_insertAll

end NameSet

end ClassDocs
