import Mathlib.Data.List.Nodup
import ModuleLink.Rename.Candidate

/-!
This module contains the proof that the search for a new name ends with a free one. The candidates that are
made of segments may all be taken, but the numbered ones are pairwise different, also after they were turned
into identifiers, so that one more of them than there are taken names is enough.
-/

namespace ModuleLink
namespace Identifier

theorem collapse_of_kept (ds : List Char) (h : ∀ c ∈ ds, isKept c) (inRun : Bool)
    : collapse inRun ds = ds := by
  induction ds generalizing inRun with
  | nil => rfl
  | cons d ds ih =>
    unfold collapse
    rw [if_pos (h d List.mem_cons_self)]
    rw [ih]
    intro c hc
    apply h
    exact List.mem_cons_of_mem _ hc

theorem collapse_append_of_kept (cs ds : List Char) (h : ∀ c ∈ ds, isKept c) (inRun : Bool)
    : collapse inRun (cs ++ ds) = collapse inRun cs ++ ds := by
  induction cs generalizing inRun with
  | nil =>
    rw [List.nil_append, collapse_of_kept ds h]
    rfl
  | cons c cs ih =>
    simp only [List.cons_append, collapse]
    split
    · rw [ih, List.cons_append]
    · split
      · rw [ih]
      · rw [ih, List.cons_append]

theorem guardStart_append {cs : List Char} (hcs : cs ≠ []) (ds : List Char)
    : guardStart (cs ++ ds) = guardStart cs ++ ds := by
  cases cs with
  | nil => contradiction
  | cons c cs =>
    simp only [List.cons_append, guardStart]
    split
    · rfl
    · rfl

theorem toList_ofText_append_repr {text : String} (htext : text.toList ≠ []) (i : Nat)
    : (ofText (text ++ toString i)).toList = (ofText text).toList ++ Nat.toDigits 10 i := by
  unfold ofText
  rw [String.toList_ofList, String.toList_ofList, String.toList_append, Nat.toString_eq_repr,
    Nat.toList_repr, guardStart_append htext, collapse_append_of_kept]
  intro c hc
  have : c.isDigit := Nat.isDigit_of_mem_toDigits (by decide) (by decide) hc
  simp [isKept, Char.isAlphanum, this]

end Identifier

namespace Candidate

theorem toList_numbered (name : String) (i : Nat)
    : (numbered name i).toList = (Identifier.ofText (name ++ "_")).toList ++ Nat.toDigits 10 i := by
  unfold numbered
  apply Identifier.toList_ofText_append_repr
  simp

theorem numbered_injective (name : String) : Function.Injective (numbered name) := by
  intro i j h
  have h := congrArg String.toList h
  rw [toList_numbered, toList_numbered, List.append_cancel_left_eq] at h
  have h := congrArg (Nat.ofDigitChars 10 · 0) h
  simpa using h

theorem numbered_ne_empty (name : String) (i : Nat) : numbered name i ≠ "" := by
  intro h
  have h := congrArg String.toList h
  rw [toList_numbered] at h
  have := Nat.toDigits_ne_nil (n := i) (b := 10)
  simp_all

end Candidate

namespace TakenNames

theorem isFree_iff {t : TakenNames} {candidate : String}
    : t.isFree candidate
        ↔
      candidate ≠ "" ∧ candidate ∉ t.allocated ∧ candidate ∉ t.visible := by
  unfold isFree
  simp [and_assoc]

open Candidate in
theorem exists_isFree_numbered (t : TakenNames) (name : String)
    : ∃ i ≤ t.allocated.length + t.visible.length, t.isFree (numbered name i) := by
  -- Taken names are fewer than the numbered candidates up to their number, hence they are not all of them.
  by_contra hnone
  have hsubset : (List.range (t.allocated.length + t.visible.length + 1)).map (numbered name)
      ⊆ t.allocated ++ t.visible := by
    intro c hc
    obtain ⟨i, hi, rfl⟩ := List.mem_map.1 hc
    by_contra hfree
    apply hnone
    refine ⟨i, ?_, ?_⟩
    · have := List.mem_range.1 hi
      omega
    · rw [isFree_iff]
      refine ⟨numbered_ne_empty name i, ?_⟩
      simpa using hfree
  have hnodup := List.nodup_range (n := t.allocated.length + t.visible.length + 1)
    |>.map (numbered_injective name)
  have := hnodup.length_le_of_subset hsubset
  simp only [List.length_map, List.length_range, List.length_append] at this
  omega

end TakenNames

theorem isFree_findNewName (namespaceName old : String) (taken : TakenNames) (readable : String)
    : taken.isFree (findNewName namespaceName old taken readable) := by
  unfold findNewName
  dsimp only
  split
  next name hname => exact List.find?_some hname
  · generalize hlast : List.getLastD _ _ = last
    cases hsearch : List.find? taken.isFree
        ((List.range (taken.allocated.length + taken.visible.length)).map (Candidate.numbered last)) with
    | some name => exact List.find?_some hsearch
    | none =>
      obtain ⟨i, hi, hfree⟩ := taken.exists_isFree_numbered last
      -- all numbers below the bound were tried, so the free one is the bound
      have hbound : i = taken.allocated.length + taken.visible.length := by
        by_contra hne
        rw [List.find?_eq_none] at hsearch
        apply hsearch _ _ hfree
        apply List.mem_map_of_mem
        rw [List.mem_range]
        omega
      rw [Option.getD_none, ← hbound]
      exact hfree

end ModuleLink
