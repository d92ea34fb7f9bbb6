import Mathlib.Data.Finset.Card
import Mathlib.Data.Nat.Find
import ModuleLink.Proofs.Identifier
import ModuleLink.Proofs.Path
import ModuleLink.Proofs.Rename.FreshName

/-!
This module contains the order in which candidates for a new name are tried, as one sequence without an end. The search
gives the first of them that is free.
-/

namespace ModuleLink

namespace Candidate

def pieces (readable : String) : List String :=
  ((Readable.clean readable).toList.splitOn '/').reverse.map String.ofList

/--
A name with the first `n` of the pieces before it. What is empty is left out as long as nothing follows it.
-/
def lengthened (base : String) (pieces : List String) (n : Nat) : String :=
  String.intercalate "_" ((base :: pieces.take n).dropWhile String.isEmpty).reverse

/--
The candidates in order: first with more and more of the pieces, then with numbers.
-/
def candidate (base : String) (pieces : List String) (i : Nat) : String :=
  if i < pieces.length then Identifier.ofText (lengthened base pieces (i + 1))
  else Identifier.ofText (lengthened base pieces pieces.length ++ "_" ++ toString (i - pieces.length))

def candidates (namespaceName old readable : String) (i : Nat) : String :=
  candidate (baseName namespaceName old) (pieces readable) i

theorem segments_eq_pieces (readable : String) : segments readable = pieces readable := by
  unfold segments pieces
  rw [Path.segments_eq_splitOn, List.map_reverse]

theorem lengthened_zero (base : String) (pieces : List String) : lengthened base pieces 0 = base := by
  unfold lengthened
  rw [List.take_zero]
  by_cases hbase : base.isEmpty
  · rw [List.dropWhile_cons_of_pos hbase, String.isEmpty_iff.1 hbase]
    rfl
  · rw [List.dropWhile_cons_of_neg hbase]
    rfl

theorem intercalate_concat_pair (sep a b : String) (before : List String)
    : String.intercalate sep (before ++ [a, b]) = String.intercalate sep (before ++ [a ++ sep ++ b]) := by
  cases before with
  | nil => simp
  | cons s before =>
    rw [String.intercalate_append_of_ne_nil (List.cons_ne_nil s before) (List.cons_ne_nil a [b]),
      String.intercalate_append_of_ne_nil (List.cons_ne_nil s before) (List.cons_ne_nil _ [])]
    simp

theorem lengthened_succ (base piece : String) (pieces : List String) (n : Nat)
    : lengthened base (piece :: pieces) (n + 1) = lengthened (prepend piece base) pieces n := by
  unfold lengthened prepend
  rw [List.take_succ_cons]
  by_cases hbase : base.isEmpty
  · rw [List.dropWhile_cons_of_pos hbase, if_pos hbase]
  · have hjoined : ¬(piece ++ "_" ++ base).isEmpty := by simp
    rw [if_neg hbase, List.dropWhile_cons_of_neg hbase, List.dropWhile_cons_of_neg hjoined]
    simp only [List.reverse_cons, List.append_assoc, List.cons_append, List.nil_append]
    exact intercalate_concat_pair ..

theorem prepended_eq_map (base : String) (pieces : List String)
    : prepended base pieces = (List.range pieces.length).map fun i => lengthened base pieces (i + 1) := by
  induction pieces generalizing base with
  | nil => rfl
  | cons piece pieces ih =>
    rw [prepended, ih, List.length_cons, List.range_succ_eq_map, List.map_cons, List.map_map, lengthened_succ,
      lengthened_zero]
    apply congrArg
    apply List.map_congr_left
    intro i _
    exact (lengthened_succ base piece pieces (i + 1)).symm

theorem getLastD_prepended (base : String) (pieces : List String)
    : (prepended base pieces).getLastD base = lengthened base pieces pieces.length := by
  induction pieces generalizing base with
  | nil => exact (lengthened_zero base []).symm
  | cons piece pieces ih => rw [prepended, List.getLastD_cons, ih, List.length_cons, lengthened_succ]

theorem candidate_of_lt {base : String} {pieces : List String} {i : Nat} (h : i < pieces.length)
    : candidate base pieces i = Identifier.ofText (lengthened base pieces (i + 1)) :=
  if_pos h

theorem candidate_add (base : String) (pieces : List String) (i : Nat)
    : candidate base pieces (pieces.length + i) = numbered (lengthened base pieces pieces.length) i := by
  unfold candidate numbered
  rw [if_neg (by omega), Nat.add_sub_cancel_left]

theorem hasForm_candidate {base : String} {pieces : List String} {i : Nat} (h : candidate base pieces i ≠ "")
    : Identifier.hasForm (candidate base pieces i) := by
  obtain ⟨text, htext⟩ : ∃ text, candidate base pieces i = Identifier.ofText text := by
    unfold candidate
    split
    · exact ⟨_, rfl⟩
    · exact ⟨_, rfl⟩
  rw [htext] at h ⊢
  apply Identifier.hasForm_ofText
  rintro rfl
  exact h rfl

theorem map_candidate_range (base : String) (pieces : List String) (n : Nat)
    : (List.range (pieces.length + n)).map (candidate base pieces)
        =
      (prepended base pieces).map Identifier.ofText
        ++
      (List.range n).map (numbered ((prepended base pieces).getLastD base)) := by
  have hpieces : (List.range pieces.length).map (candidate base pieces)
      = (prepended base pieces).map Identifier.ofText := by
    rw [prepended_eq_map, List.map_map]
    apply List.map_congr_left
    intro i hi
    exact candidate_of_lt (List.mem_range.1 hi)
  have hnumbers : (List.range n).map (candidate base pieces ∘ (pieces.length + ·))
      = (List.range n).map (numbered ((prepended base pieces).getLastD base)) := by
    rw [getLastD_prepended]
    apply List.map_congr_left
    intro i _
    exact candidate_add base pieces i
  rw [List.range_add, List.map_append, List.map_map, hpieces, hnumbers]

end Candidate

open Candidate in
theorem findNewName_eq_find? (namespaceName old : String) (taken : TakenNames) (readable : String)
    : findNewName namespaceName old taken readable
        =
      (((List.range ((pieces readable).length + (taken.allocated.length + taken.visible.length))).map
        (candidate (baseName namespaceName old) (pieces readable))).find? taken.isFree).getD
          (candidate (baseName namespaceName old) (pieces readable)
            ((pieces readable).length + (taken.allocated.length + taken.visible.length))) := by
  rw [map_candidate_range, List.find?_append, candidate_add, ← getLastD_prepended, ← segments_eq_pieces]
  unfold findNewName
  dsimp only
  split
  · next name hname =>
    rw [hname]
    rfl
  · next hnone =>
    rw [hnone]
    rfl

theorem exists_eq_candidate (namespaceName old : String) (taken : TakenNames) (readable : String)
    : ∃ i, findNewName namespaceName old taken readable = Candidate.candidates namespaceName old readable i := by
  rw [findNewName_eq_find?]
  generalize hf : Candidate.candidate (Candidate.baseName namespaceName old) (Candidate.pieces readable) = f
  unfold Candidate.candidates
  rw [hf]
  cases hfound : List.find? _ _ with
  | none => exact ⟨_, rfl⟩
  | some name =>
    obtain ⟨i, -, hi⟩ := List.mem_map.1 (List.mem_of_find?_eq_some hfound)
    exact ⟨i, hi.symm⟩

theorem hasForm_findNewName (namespaceName old : String) (taken : TakenNames) (readable : String)
    : Identifier.hasForm (findNewName namespaceName old taken readable) := by
  have hne := (TakenNames.isFree_iff.1 (isFree_findNewName namespaceName old taken readable)).1
  obtain ⟨i, hi⟩ := exists_eq_candidate namespaceName old taken readable
  rw [hi] at hne ⊢
  exact Candidate.hasForm_candidate hne

theorem find?_range_getD {α : Type u} {f : Nat → α} {p : α → Bool} {n i : Nat} (hi : i ≤ n) (h : p (f i))
    : ∃ k ≤ i, (((List.range n).map f).find? p).getD (f n) = f k ∧ p (f k) ∧ ∀ j < k, ¬p (f j) := by
  have hex : ∃ k, p (f k) := ⟨i, h⟩
  have hfirst : ∀ j < Nat.find hex, ¬p (f j) := fun j hj => Nat.find_min hex hj
  have hle : Nat.find hex ≤ i := Nat.find_min' hex h
  refine ⟨Nat.find hex, hle, ?_, Nat.find_spec hex, hfirst⟩
  rw [List.find?_map]
  rcases Nat.lt_or_eq_of_le (Nat.le_trans hle hi) with hlt | heq
  · have hfound : (List.range n).find? (p ∘ f) = some (Nat.find hex) := by
      rw [List.find?_range_eq_some]
      exact ⟨Nat.find_spec hex, List.mem_range.2 hlt, fun j hj => by simpa using hfirst j hj⟩
    rw [hfound]
    rfl
  · have hnone : (List.range n).find? (p ∘ f) = none := by
      rw [List.find?_range_eq_none]
      intro j hj
      simpa using hfirst j (heq ▸ hj)
    rw [hnone, heq]
    rfl

namespace TakenNames

theorem not_isFree_iff {t : TakenNames} {candidate : String}
    : ¬t.isFree candidate ↔ candidate = "" ∨ candidate ∈ t.allocated ∨ candidate ∈ t.visible := by
  rw [isFree_iff]
  simp only [ne_eq, not_and_or, not_not]

theorem exists_isFree_numbered_le_card (t : TakenNames) (name : String)
    : ∃ i ≤ t.allocated.toFinset.card + t.visible.toFinset.card, t.isFree (Candidate.numbered name i) := by
  -- Names that are listed more than once count once.
  obtain ⟨i, hi, hfree⟩ := exists_isFree_numbered ⟨t.allocated.dedup, t.visible.dedup⟩ name
  refine ⟨i, ?_, ?_⟩
  · rw [List.card_toFinset, List.card_toFinset]
    exact hi
  · rw [isFree_iff, List.mem_dedup, List.mem_dedup] at hfree
    rw [isFree_iff]
    exact hfree

theorem card_le_length (t : TakenNames)
    : t.allocated.toFinset.card + t.visible.toFinset.card ≤ t.allocated.length + t.visible.length :=
  Nat.add_le_add (List.toFinset_card_le _) (List.toFinset_card_le _)

end TakenNames

theorem propertyWords_subset_reservedNames : propertyWords ⊆ reservedNames := by
  have hkeywords : propertyWords ⊆ keywordNames := by decide
  intro word hword
  simp [reservedNames, hkeywords hword]

open Candidate in
/--
The search gives the first name of the sequence that is not empty and not taken. There is one, since no two of the
numbered names are equal. If the reserved names are taken, it is an identifier.
-/
theorem findNewName_first (namespaceName old : String) (taken : TakenNames) (readable : String)
    : (∃ i, findNewName namespaceName old taken readable = candidates namespaceName old readable i ∧
        candidates namespaceName old readable i ≠ "" ∧
        candidates namespaceName old readable i ∉ taken.allocated ∧
        candidates namespaceName old readable i ∉ taken.visible ∧
        (∀ j < i, candidates namespaceName old readable j = "" ∨
          candidates namespaceName old readable j ∈ taken.allocated ∨
          candidates namespaceName old readable j ∈ taken.visible) ∧
        i ≤ (pieces readable).length + (taken.allocated.toFinset.card + taken.visible.toFinset.card))
        ∧
      (Function.Injective fun i => candidates namespaceName old readable ((pieces readable).length + i))
        ∧
      (reservedNames ⊆ taken.allocated →
        Identifier.isIdentifier (findNewName namespaceName old taken readable)) := by
  obtain ⟨n, hn, hfree⟩ := taken.exists_isFree_numbered_le_card
    (lengthened (baseName namespaceName old) (pieces readable) (pieces readable).length)
  rw [← candidate_add] at hfree
  have hbound := Nat.add_le_add_left (Nat.le_trans hn taken.card_le_length) (pieces readable).length
  obtain ⟨i, hi, hname, hi_free, hfirst⟩ := find?_range_getD hbound hfree
  rw [← findNewName_eq_find?] at hname
  obtain ⟨hne, hallocated, hvisible⟩ := TakenNames.isFree_iff.1 hi_free
  refine ⟨⟨i, hname, hne, hallocated, hvisible, ?_, ?_⟩, ?_, ?_⟩
  · intro j hj
    exact TakenNames.not_isFree_iff.1 (hfirst j hj)
  · omega
  · intro j k hjk
    simp only [candidates, candidate_add] at hjk
    exact numbered_injective _ hjk
  · intro hreserved
    have hword : candidate (baseName namespaceName old) (pieces readable) i ∉ propertyWords :=
      fun hmem => hallocated (hreserved (propertyWords_subset_reservedNames hmem))
    rw [hname, Identifier.isIdentifier, hasForm_candidate hne]
    simpa using hword

namespace Sample

def crowded : TakenNames := ⟨["value_value", "src_b_value_value"], ["b_value_value"]⟩

def guarded : TakenNames := { crowded with allocated := reservedNames ++ crowded.allocated }

end Sample

theorem findNewName_first_sample
    : findNewName "namespaceObject" "value" Sample.crowded "./src/b/value.mod" = "src_b_value_value_0" ∧
      Candidate.candidates "namespaceObject" "value" "./src/b/value.mod" 3 = "src_b_value_value_0" ∧
      reservedNames ⊆ Sample.guarded.allocated ∧
      Identifier.isIdentifier (findNewName "namespaceObject" "value" Sample.guarded "./src/b/value.mod") := by
  have hreserved : reservedNames ⊆ Sample.guarded.allocated := List.subset_append_left ..
  refine ⟨by decide +kernel, by decide +kernel, hreserved, ?_⟩
  exact (findNewName_first "namespaceObject" "value" Sample.guarded "./src/b/value.mod").2.2 hreserved

end ModuleLink
