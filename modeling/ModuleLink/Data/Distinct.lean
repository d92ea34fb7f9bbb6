/-!
This module contains operations on lists that stand for sets: lists in order of first insertion,
and lists of names in increasing order.
-/

namespace ModuleLink

variable {α : Type u}

def addDistinct [BEq α] (as : List α) (a : α) : List α :=
  if as.contains a then as else as ++ [a]

/--
Add the elements of `bs` in order, each unless an equal one is already there.
-/
def addAllDistinct [BEq α] (as bs : List α) : List α :=
  bs.foldl addDistinct as

def distinct [BEq α] (as : List α) : List α :=
  addAllDistinct [] as

/--
Insert a name into an increasing list of names, unless it is already there.
-/
def insertName (name : String) : List String → List String
  | [] => [name]
  | n :: ns =>
    if name < n then name :: n :: ns
    else if name = n then n :: ns
    else n :: insertName name ns

def increasing (names : List String) : List String :=
  names.foldr insertName []

theorem mem_insertName {m name : String} {ns : List String} :
    m ∈ insertName name ns ↔ m = name ∨ m ∈ ns := by
  induction ns with
  | nil => simp [insertName]
  | cons n ns ih =>
    simp only [insertName]
    split
    · simp
    · split
      · simp_all
      · simp [ih, or_left_comm]

theorem pairwise_insertName {name : String} {ns : List String} (h : ns.Pairwise (· < ·)) :
    (insertName name ns).Pairwise (· < ·) := by
  induction ns with
  | nil => simp [insertName]
  | cons n ns ih =>
    have ⟨hn, hns⟩ := List.pairwise_cons.1 h
    simp only [insertName]
    split
    next hlt =>
      refine List.pairwise_cons.2 ⟨fun m hm => ?_, h⟩
      rcases List.mem_cons.1 hm with rfl | hm
      · exact hlt
      · exact String.lt_trans hlt (hn m hm)
    next hge =>
      split
      · exact h
      next hne =>
        refine List.pairwise_cons.2 ⟨fun m hm => ?_, ih hns⟩
        rcases mem_insertName.1 hm with rfl | hm
        · refine Classical.byContradiction fun hnlt => hne ?_
          exact String.le_antisymm (String.not_lt.1 hnlt) (String.not_lt.1 hge)
        · exact hn m hm

@[simp]
theorem mem_increasing {m : String} {names : List String} : m ∈ increasing names ↔ m ∈ names := by
  induction names with
  | nil => simp [increasing]
  | cons n ns ih => simp_all [increasing, mem_insertName]

theorem pairwise_increasing (names : List String) : (increasing names).Pairwise (· < ·) := by
  induction names with
  | nil => simp [increasing]
  | cons n ns ih => exact pairwise_insertName ih

end ModuleLink
