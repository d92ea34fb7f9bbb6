import ModuleLink.Proofs.Exports.Trail

/-!
This module contains the comparison of the two answers to whether an export is consumed. The question for its usage goes
along a path as far as there are properties; the path in the output goes on only behind exports of which nothing but
properties is used. The answers agree where the path passes no other exports, and where it does they agree by chance.
-/

namespace ModuleLink
namespace Arena

variable {a : Arena} {d e : DescriptorId} {r : RecordId} {first name : String} {rest : List String}

/--
The records that a path passes which goes on behind `r`, and the one that it comes to where properties end.
-/
def walk (a : Arena) (r : RecordId) : List String → List RecordId × RecordId
  | [] => ([], r)
  | name :: rest =>
    match (a.record r).nested with
    | none => ([], r)
    | some e =>
      let w := a.walk (a.lookup e name) rest
      (r :: w.1, w.2)

def passed (a : Arena) (d : DescriptorId) (first : String) (rest : List String) : List RecordId :=
  (a.walk (a.lookup d first) rest).1

def reached (a : Arena) (d : DescriptorId) (first : String) (rest : List String) : RecordId :=
  (a.walk (a.lookup d first) rest).2

def barrier? (a : Arena) (d : DescriptorId) (first : String) (rest : List String) : Option RecordId :=
  (a.passed d first rest).find? fun r => (a.record r).used ≠ .propertiesUsed

section Walk

theorem walk_last (h : rest = [] ∨ (a.record r).nested = none) : a.walk r rest = ([], r) := by
  cases rest with
  | nil => rfl
  | cons name rest => rw [walk, h.resolve_left (List.cons_ne_nil name rest)]

theorem reached_last (h : rest = [] ∨ (a.record (a.lookup d first)).nested = none)
    : a.reached d first rest = a.lookup d first := by
  rw [reached, walk_last h]

theorem barrier?_last (h : rest = [] ∨ (a.record (a.lookup d first)).nested = none)
    : a.barrier? d first rest = none := by
  rw [barrier?, passed, walk_last h]
  rfl

variable (h : (a.record (a.lookup d first)).nested = some e)

include h

theorem passed_next : a.passed d first (name :: rest) = a.lookup d first :: a.passed e name rest := by
  rw [passed, walk, h]
  rfl

theorem reached_next : a.reached d first (name :: rest) = a.reached e name rest := by
  rw [reached, walk, h]
  rfl

theorem barrier?_next (hused : (a.record (a.lookup d first)).used = .propertiesUsed)
    : a.barrier? d first (name :: rest) = a.barrier? e name rest := by
  rw [barrier?, passed_next h, List.find?_cons_of_neg]
  · rfl
  · simp [hused]

theorem barrier?_here (hused : (a.record (a.lookup d first)).used ≠ .propertiesUsed)
    : a.barrier? d first (name :: rest) = some (a.lookup d first) := by
  rw [barrier?, passed_next h, List.find?_cons_of_pos]
  simp [hused]

end Walk

theorem usedState_eq (a : Arena) (d : DescriptorId) (first : String) (rest : List String)
    : a.usedState d (first :: rest) = (a.record (a.reached d first rest)).used := by
  induction rest generalizing d first with
  | nil => rfl
  | cons name rest ih =>
    rw [usedState]
    cases hnested : (a.record (a.lookup d first)).nested with
    | none =>
      rw [reached_last (.inr hnested)]
      rfl
    | some e =>
      rw [reached_next hnested, ← ih]
      rfl

theorem outputPath?_whole_eq_none (h : rest = [] ∨ a.followed? (a.lookup d first) = none)
    : a.outputPath? d (first :: rest) = none ↔ (a.record (a.lookup d first)).used = .unused := by
  have hsegment := (a.record (a.lookup d first)).isSome_outputSegment? first
  cases hresult : (a.record (a.lookup d first)).outputSegment? first with
  | none =>
    rw [hresult] at hsegment
    simpa [outputPath?_unused hresult] using hsegment
  | some segment =>
    rw [hresult] at hsegment
    simpa [outputPath?_whole hresult h] using hsegment

theorem outputPath?_eq_none (a : Arena) (d : DescriptorId) (first : String) (rest : List String)
    : a.outputPath? d (first :: rest) = none
        ↔
      (a.record ((a.barrier? d first rest).getD (a.reached d first rest))).used = .unused := by
  induction rest generalizing d first with
  | nil =>
    rw [outputPath?_whole_eq_none (.inl rfl), barrier?_last (.inl rfl), reached_last (.inl rfl), Option.getD_none]
  | cons name rest ih =>
    cases hnested : (a.record (a.lookup d first)).nested with
    | none =>
      rw [outputPath?_whole_eq_none (.inr (followed?_of_nested_eq_none hnested)), barrier?_last (.inr hnested),
        reached_last (.inr hnested), Option.getD_none]
    | some e =>
      by_cases hused : (a.record (a.lookup d first)).used = .propertiesUsed
      · have hfollowed : a.followed? (a.lookup d first) = some e := by
          rw [followed?, if_pos hused, hnested]
        have hsome := (ExportRecord.isSome_outputSegment? first).2 (hused.trans_ne (by decide))
        obtain ⟨segment, hsegment⟩ := Option.isSome_iff_exists.1 hsome
        rw [outputPath?_property hsegment hfollowed, Option.map_eq_none_iff, ih, barrier?_next hnested hused,
          reached_next hnested]
      · have hfollowed : a.followed? (a.lookup d first) = none := by
          rw [followed?, if_neg hused]
        rw [outputPath?_whole_eq_none (.inr hfollowed), barrier?_here hnested hused, Option.getD_some]

theorem isExportUsed_eq_false (a : Arena) (d : DescriptorId) (first : String) (rest : List String)
    : a.isExportUsed d (first :: rest) = false ↔ (a.record (a.reached d first rest)).used = .unused := by
  rw [isExportUsed, if_neg (by simp), usedState_eq, Usage.isUsed]
  simp

/--
That no export is consumed and that none has a path in the output is the same. An export at a path is not consumed if
the record is not that the path comes to, and has no path in the output if the record is not where the way is barred. So
the answers agree on every path that only passes exports of which nothing but properties is used, and on others if and
only if both records are unused or none is.
-/
theorem outputPath?_iff_isExportUsed (a : Arena) (d : DescriptorId)
    : (a.outputPath? d [] = none ↔ a.isExportUsed d [] = false)
        ∧
      ∀ first rest,
        (a.isExportUsed d (first :: rest) = false ↔ (a.record (a.reached d first rest)).used = .unused)
          ∧
        (a.outputPath? d (first :: rest) = none
          ↔
        (a.record ((a.barrier? d first rest).getD (a.reached d first rest))).used = .unused)
          ∧
        ((∀ r ∈ a.passed d first rest, (a.record r).used = .propertiesUsed) →
          (a.outputPath? d (first :: rest) = none ↔ a.isExportUsed d (first :: rest) = false))
          ∧
        ∀ r, a.barrier? d first rest = some r →
          ((a.outputPath? d (first :: rest) = none ↔ a.isExportUsed d (first :: rest) = false)
            ↔
          ((a.record r).used = .unused ↔ (a.record (a.reached d first rest)).used = .unused)) := by
  refine ⟨by simp [outputPath?, isExportUsed], fun first rest => ?_⟩
  have hused := a.isExportUsed_eq_false d first rest
  have houtput := a.outputPath?_eq_none d first rest
  refine ⟨hused, houtput, ?_, ?_⟩
  · intro hpassed
    have hbarrier : a.barrier? d first rest = none := by
      rw [barrier?, List.find?_eq_none]
      intro r hr
      simp [hpassed r hr]
    rw [houtput, hused, hbarrier, Option.getD_none]
  · intro r hbarrier
    rw [houtput, hused, hbarrier, Option.getD_some]

end Arena

namespace Sample

/--
A module with an export `whole` that is used but whose property `part` is not, an export `box` that is not used but is
linked to a descriptor with a property `lid` that is, and an export `kit` of which a property `tool` is used.
-/
def packing : List ArenaOp := [
  .newDescriptor, .getOrCreate ⟨0⟩ "whole", .createNested ⟨2⟩, .getOrCreate ⟨1⟩ "part", .getOrCreate ⟨0⟩ "box",
  .newDescriptor, .getOrCreate ⟨2⟩ "lid", .linkNested ⟨6⟩ ⟨2⟩, .getOrCreate ⟨0⟩ "kit", .createNested ⟨10⟩,
  .getOrCreate ⟨3⟩ "tool", .markHasUseInfo ⟨0⟩, .markExportUsed ⟨0⟩ ["whole"] .used,
  .markExportUsed ⟨2⟩ ["lid"] .used, .markExportUsed ⟨0⟩ ["kit", "tool"] .used]

def packed : Arena := packing.foldl ArenaOp.apply {}

theorem packed_reachable : packed.Reachable := by
  simp only [packed, packing, List.foldl_cons, List.foldl_nil]
  iterate 15 refine .step _ ?_ ⟨by decide, by decide⟩
  exact .empty

end Sample

namespace Arena

open Sample

theorem outputPath?_iff_isExportUsed_sample
    : packed.passed ⟨0⟩ "kit" ["tool"] = [⟨10⟩] ∧ (packed.record ⟨10⟩).used = .propertiesUsed
        ∧
      packed.isExportUsed ⟨0⟩ ["kit", "tool"] = true ∧ packed.outputPath? ⟨0⟩ ["kit", "tool"] ≠ none
        ∧
      packed.barrier? ⟨0⟩ "whole" ["part"] = some ⟨2⟩ ∧ packed.reached ⟨0⟩ "whole" ["part"] = ⟨5⟩
        ∧
      ¬(packed.outputPath? ⟨0⟩ ["whole", "part"] = none ↔ packed.isExportUsed ⟨0⟩ ["whole", "part"] = false) := by
  have ⟨_, hpaths⟩ := outputPath?_iff_isExportUsed packed ⟨0⟩
  have ⟨_, _, hkit, _⟩ := hpaths "kit" ["tool"]
  have ⟨_, _, _, hwhole⟩ := hpaths "whole" ["part"]
  have hpassed : packed.passed ⟨0⟩ "kit" ["tool"] = [⟨10⟩] := by decide
  have hused : (packed.record ⟨10⟩).used = .propertiesUsed := by decide
  have htool : packed.isExportUsed ⟨0⟩ ["kit", "tool"] = true := by decide
  have hbarrier : packed.barrier? ⟨0⟩ "whole" ["part"] = some ⟨2⟩ := by decide
  refine ⟨hpassed, hused, htool, ?_, hbarrier, by decide, ?_⟩
  · rw [hpassed, List.forall_mem_singleton] at hkit
    rw [ne_eq, hkit hused, htool]
    decide
  · rw [hwhole ⟨2⟩ hbarrier]
    decide

/--
The output has a path to a property that is not consumed, and none to one that is.
-/
theorem outputPath?_ignores_property
    : packed.Reachable
        ∧
      packed.isExportUsed ⟨0⟩ ["whole", "part"] = false
        ∧
      packed.outputPath? ⟨0⟩ ["whole", "part"] = some ["whole", "part"]
        ∧
      packed.isExportUsed ⟨0⟩ ["box", "lid"] = true ∧ packed.outputPath? ⟨0⟩ ["box", "lid"] = none := by
  refine ⟨packed_reachable, ?_, ?_, ?_, ?_⟩ <;> decide

end Arena
end ModuleLink
