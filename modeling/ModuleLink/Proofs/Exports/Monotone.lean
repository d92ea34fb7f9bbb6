import Mathlib.Data.Set.Card
import Mathlib.Data.Set.Finite.Lattice
import ModuleLink.Proofs.Exports.Provision

/-!
This module contains the proof that operations move records along the two lattices in one direction only. The replay
of a snapshot is the exception. As the lattices are finite, a record changes its place in them only finitely often.
-/

namespace ModuleLink

namespace Usage

theorem le_promote (a b : Usage) : a ≤ a.promote b := by
  unfold promote
  split
  · next hlt => exact Nat.le_of_lt hlt
  · apply Nat.le_refl

theorem rank_le (a : Usage) : a.rank ≤ 4 := by
  cases a <;> decide

theorem rank_injective : Function.Injective rank := by
  intro a b
  cases a <;> cases b <;> simp [rank]

end Usage

namespace Provision

theorem le_promote (a b : Provision) : a ≤ a.promote b := by
  unfold promote moves
  split
  · next hmoves =>
    rw [Bool.and_eq_true, decide_eq_true_eq] at hmoves
    exact Nat.le_of_lt hmoves.2
  · apply Nat.le_refl

theorem promote_of_final {a : Provision} (h : a.isOpen = false) (b : Provision) : a.promote b = a := by
  simp [promote, moves, h]

/--
How often a provision has moved up at most: the two upper states are both final.
-/
def height (a : Provision) : Nat := min a.rank 2

theorem height_le (a : Provision) : a.height ≤ 2 := Nat.min_le_right ..

theorem height_lt {a b : Provision} (hle : a ≤ b) (hfinal : a.isOpen = false → b = a) (hne : a ≠ b)
    : a.height < b.height := by
  change a.rank ≤ b.rank at hle
  cases a <;> cases b <;> simp_all [height, rank, isOpen]

end Provision

structure ExportRecord.Rises (r r' : ExportRecord) : Prop where
  used : r.used ≤ r'.used
  provided : r.provided ≤ r'.provided
  final : r.provided.isOpen = false → r'.provided = r.provided

namespace ExportRecord.Rises

theorem ofSame {r r' : ExportRecord} (hused : r'.used = r.used) (hprovided : r'.provided = r.provided)
    : r.Rises r' where
  used := by
    rw [hused]
    apply Nat.le_refl
  provided := by
    rw [hprovided]
    apply Nat.le_refl
  final _ := hprovided

theorem trans {r r' r'' : ExportRecord} (h : r.Rises r') (h' : r'.Rises r'') : r.Rises r'' where
  used := Nat.le_trans h.used h'.used
  provided := Nat.le_trans h.provided h'.provided
  final hclosed := by
    have hsame := h.final hclosed
    rw [← hsame] at hclosed ⊢
    exact h'.final hclosed

theorem promoteUsed (r : ExportRecord) (state : Usage) : r.Rises { r with used := r.used.promote state } where
  used := r.used.le_promote state
  provided := Nat.le_refl _
  final _ := rfl

theorem setProvided (r : ExportRecord) (state : Provision) : r.Rises (r.setProvided state).1 where
  used := Nat.le_refl _
  provided := r.provided.le_promote state
  final hclosed := Provision.promote_of_final hclosed state

theorem edit (r : ExportRecord) (e : RecordEdit) : r.Rises (e.apply r) := by
  cases e with
  | setUsed state => exact promoteUsed r state
  | setUsedIf condition state =>
    unfold RecordEdit.apply setUsedIf
    dsimp only
    split
    · exact promoteUsed r state
    · exact ofSame rfl rfl
  | setUsedInUnknownWay => exact (promoteUsed r .unknown).trans (ofSame rfl rfl)
  | setProvided state => exact setProvided r state
  | setTarget key target =>
    unfold RecordEdit.apply setTarget
    dsimp only
    split <;> exact ofSame rfl rfl
  | _ => exact ofSame rfl rfl

theorem completeProvision (r : ExportRecord) : r.Rises r.completeProvision := by
  unfold ExportRecord.completeProvision
  split
  · next hundetermined =>
    refine ⟨Nat.le_refl _, ?_, ?_⟩
    · rw [hundetermined]
      apply Nat.zero_le
    · rw [hundetermined]
      exact nofun
  · exact ofSame rfl rfl

theorem kept : Kept Rises where
  refl _ := ofSame rfl rfl
  trans := trans
  edit := edit
  completeProvision := completeProvision
  completeUsage r := (promoteUsed r .unused).trans (ofSame rfl rfl)

end ExportRecord.Rises

namespace Arena

variable {a a' a'' : Arena}

structure Rises (a a' : Arena) : Prop where
  size : a.records.size ≤ a'.records.size
  records : ∀ r : RecordId, r.index < a.records.size → (a.record r).Rises (a'.record r)

namespace Rises

theorem refl (a : Arena) : a.Rises a := ⟨Nat.le_refl _, fun _ _ => .ofSame rfl rfl⟩

theorem trans (h : a.Rises a') (h' : a'.Rises a'') : a.Rises a'' where
  size := Nat.le_trans h.size h'.size
  records r hr := (h.records r hr).trans (h'.records r (Nat.lt_of_lt_of_le hr h.size))

theorem modifyRecord (a : Arena) (r : RecordId) {f : ExportRecord → ExportRecord}
    (hf : ∀ record : ExportRecord, record.Rises (f record)) : a.Rises (a.modifyRecord r f) where
  size := by
    unfold Arena.modifyRecord
    rw [Array.size_modify]
  records s _ := by
    rcases record_modifyRecord a r f s with hsame | hnew
    · rw [hsame]
      exact .ofSame rfl rfl
    · rw [hnew]
      apply hf

theorem modifyDescriptor (a : Arena) (d : DescriptorId) (f : Descriptor → Descriptor)
    : a.Rises (a.modifyDescriptor d f) := ⟨Nat.le_refl _, fun _ _ => .ofSame rfl rfl⟩

theorem insertLocal (a : Arena) (d : DescriptorId) (name : String) : a.Rises (a.insertLocal d name).1 where
  size := by
    simp [Arena.insertLocal, Arena.modifyDescriptor]
  records r hr := by
    rw [record_insertLocal, if_neg (Nat.ne_of_lt hr)]
    exact .ofSame rfl rfl

theorem newDescriptorOf (a : Arena) (owner : Option RecordId) : a.Rises (a.newDescriptorOf owner).1 where
  size := by
    simp only [Arena.newDescriptorOf, Array.size_push]
    omega
  records r _ := by
    rw [record_newDescriptorOf]
    exact .ofSame rfl rfl

theorem createNested (a : Arena) (r : RecordId) : a.Rises (a.createNested r).1 := by
  unfold Arena.createNested
  split
  · exact refl a
  · dsimp only
    apply trans (newDescriptorOf a (some r))
    apply trans (modifyRecord _ _ ExportRecord.Rises.completeProvision)
    apply trans (modifyDescriptor _ _ _)
    exact modifyRecord _ r fun _ => .ofSame rfl rfl

theorem ofStep (h : StepBy ExportRecord.Rises a a') : a.Rises a' := by
  cases h with
  | modifyRecord r f hf => exact modifyRecord a r hf
  | insertLocal d name => exact insertLocal a d name
  | newDescriptor => exact newDescriptorOf a none
  | setRedirect d target =>
    rcases setRedirect_fst a d target with hsame | hnew
    · rw [hsame]
      exact refl a
    · rw [hnew]
      exact modifyDescriptor a d _
  | createNested r => exact createNested a r
  | linkNested r d =>
    unfold Arena.linkNested
    split
    · exact refl a
    · exact modifyRecord a r fun _ => .ofSame rfl rfl

theorem ofSteps (h : StepsBy ExportRecord.Rises a a') : a.Rises a' :=
  h.keep (fun hrises hstep => hrises.trans (ofStep hstep)) (refl a)

end Rises

def Advances (a a' : Arena) : Prop :=
  ∃ op : ArenaOp, op.Valid a ∧ (∀ d snapshot, op ≠ .restore d snapshot) ∧ a' = op.apply a

theorem Advances.rises (h : a.Advances a') : a.Rises a' := by
  obtain ⟨op, hvalid, hop, rfl⟩ := h
  exact .ofSteps (.ofOp ExportRecord.Rises.kept hop hvalid)

section Run

/--
A quantity that never falls and has a bound changes no more often than the bound says.
-/
theorem encard_changes_le {f : Nat → Nat} {n : Nat} (hmono : ∀ i, f i ≤ f (i + 1)) (hle : ∀ i, f i ≤ n)
    : {i | f i < f (i + 1)}.encard ≤ n := by
  have hrange : (↑(Finset.range n) : Set Nat).encard = n := by
    rw [Set.encard_coe_eq_coe_finsetCard, Finset.card_range]
  rw [← hrange]
  apply Set.encard_le_encard_of_injOn (f := f)
  · intro i hi
    rw [Finset.mem_coe, Finset.mem_range]
    exact Nat.lt_of_lt_of_le hi (hle (i + 1))
  · -- Between two changes the quantity has risen.
    have hlt {i j : Nat} (hi : f i < f (i + 1)) (hij : i < j) : f i < f j :=
      Nat.lt_of_lt_of_le hi (monotone_nat_of_le_succ hmono hij)
    intro i hi j hj heq
    rcases Nat.lt_trichotomy i j with hij | hij | hij
    · exact absurd heq (Nat.ne_of_lt (hlt hi hij))
    · exact hij
    · exact absurd heq.symm (Nat.ne_of_lt (hlt hj hij))

variable {run : Nat → Arena}

theorem rises_zero (h : ∀ i, (run i).Advances (run (i + 1))) (i : Nat) : (run 0).Rises (run i) := by
  induction i with
  | zero => exact .refl _
  | succ i ih => exact ih.trans (h i).rises

theorem rises_record (h : ∀ i, (run i).Advances (run (i + 1))) {r : RecordId} (hr : r.index < (run 0).records.size)
    (i : Nat) : ((run i).record r).Rises ((run (i + 1)).record r) :=
  (h i).rises.records r (Nat.lt_of_lt_of_le hr (rises_zero h i).size)

theorem encard_used_le (h : ∀ i, (run i).Advances (run (i + 1))) {r : RecordId}
    (hr : r.index < (run 0).records.size)
    : {i | ((run i).record r).used ≠ ((run (i + 1)).record r).used}.encard ≤ 4 := by
  have hmono (i : Nat) : ((run i).record r).used.rank ≤ ((run (i + 1)).record r).used.rank :=
    (rises_record h hr i).used
  refine (Set.encard_le_encard ?_).trans (encard_changes_le hmono fun i => Usage.rank_le _)
  intro i hi
  exact Nat.lt_of_le_of_ne (hmono i) fun heq => hi (Usage.rank_injective heq)

theorem encard_provided_le (h : ∀ i, (run i).Advances (run (i + 1))) {r : RecordId}
    (hr : r.index < (run 0).records.size)
    : {i | ((run i).record r).provided ≠ ((run (i + 1)).record r).provided}.encard ≤ 2 := by
  have hheight (i : Nat) : ((run i).record r).provided.height ≤ ((run (i + 1)).record r).provided.height :=
    Nat.le_min.2 ⟨Nat.le_trans (Nat.min_le_left ..) (rises_record h hr i).provided, Provision.height_le _⟩
  refine (Set.encard_le_encard ?_).trans (encard_changes_le hheight fun i => Provision.height_le _)
  intro i hi
  exact Provision.height_lt (rises_record h hr i).provided (rises_record h hr i).final hi

theorem finite_changes (h : ∀ i, (run i).Advances (run (i + 1)))
    : {i | ∃ r : RecordId, r.index < (run 0).records.size ∧
        (((run i).record r).used ≠ ((run (i + 1)).record r).used ∨
          ((run i).record r).provided ≠ ((run (i + 1)).record r).provided)}.Finite := by
  have hfinite : (⋃ n < (run 0).records.size,
      {i | ((run i).record ⟨n⟩).used ≠ ((run (i + 1)).record ⟨n⟩).used} ∪
        {i | ((run i).record ⟨n⟩).provided ≠ ((run (i + 1)).record ⟨n⟩).provided}).Finite := by
    apply Set.Finite.biUnion (Set.finite_lt_nat _)
    intro n hn
    exact (Set.finite_of_encard_le_coe (encard_used_le h hn)).union
      (Set.finite_of_encard_le_coe (encard_provided_le h hn))
  apply hfinite.subset
  rintro i ⟨r, hr, hchange⟩
  exact Set.mem_biUnion hr hchange

theorem exists_last_change (h : ∀ i, (run i).Advances (run (i + 1)))
    : ∃ last, ∀ i ≥ last, ∀ r : RecordId, r.index < (run 0).records.size →
        ((run i).record r).used = ((run last).record r).used ∧
        ((run i).record r).provided = ((run last).record r).provided := by
  obtain ⟨m, hm⟩ := (finite_changes h).bddAbove
  refine ⟨m + 1, ?_⟩
  intro i hi r hr
  induction i, hi using Nat.le_induction with
  | base => exact ⟨rfl, rfl⟩
  | succ i hi ih =>
    rw [← ih.1, ← ih.2]
    by_contra hchange
    have hle : i ≤ m := by
      apply hm
      refine ⟨r, hr, ?_⟩
      rw [← not_and_or, eq_comm, eq_comm (a := ((run i).record r).provided)]
      exact hchange
    omega

end Run

/--
An operation other than the replay of a snapshot does not lower the usage or the provision of a record that exists, and
leaves a provision alone that says that the export exists or may exist. In a run of such operations, however long, the
usage of a record changes at most four times and its provision at most twice; there is a last change of all records that
the run starts with.
-/
theorem lattices_monotone
    : (∀ (a : Arena) (op : ArenaOp), op.Valid a → (∀ d snapshot, op ≠ .restore d snapshot) →
        ∀ r : RecordId, r.index < a.records.size →
          (a.record r).used ≤ ((op.apply a).record r).used ∧
          (a.record r).provided ≤ ((op.apply a).record r).provided ∧
          ((a.record r).provided = .maybeProvided ∨ (a.record r).provided = .provided →
            ((op.apply a).record r).provided = (a.record r).provided)) ∧
      ∀ run : Nat → Arena, (∀ i, (run i).Advances (run (i + 1))) →
        (∀ r : RecordId, r.index < (run 0).records.size →
          {i | ((run i).record r).used ≠ ((run (i + 1)).record r).used}.encard ≤ 4 ∧
          {i | ((run i).record r).provided ≠ ((run (i + 1)).record r).provided}.encard ≤ 2) ∧
        ∃ last, ∀ i ≥ last, ∀ r : RecordId, r.index < (run 0).records.size →
          ((run i).record r).used = ((run last).record r).used ∧
          ((run i).record r).provided = ((run last).record r).provided := by
  constructor
  · intro a op hvalid hop r hr
    have hadvances : a.Advances (op.apply a) := ⟨op, hvalid, hop, rfl⟩
    have hrises := hadvances.rises.records r hr
    refine ⟨hrises.used, hrises.provided, ?_⟩
    intro hfinal
    apply hrises.final
    rcases hfinal with hfinal | hfinal <;> rw [hfinal] <;> rfl
  · intro run hrun
    refine ⟨?_, exists_last_change hrun⟩
    intro r hr
    exact ⟨encard_used_le hrun hr, encard_provided_le hrun hr⟩

end Arena

namespace Sample

def opening : ArenaOp := .markUnknownProvided ⟨0⟩ true [] none

def openings : Nat → Arena
  | 0 => existing
  | _ + 1 => opening.apply existing

theorem opening_valid : opening.Valid existing := ⟨by decide +kernel, by decide +kernel⟩

theorem openings_advances (i : Nat) : (openings i).Advances (openings (i + 1)) := by
  cases i with
  | zero => exact ⟨opening, opening_valid, nofun, rfl⟩
  | succ i =>
    change (opening.apply existing).Advances (opening.apply existing)
    exact ⟨opening, ⟨by decide +kernel, by decide +kernel⟩, nofun, by decide +kernel⟩

end Sample

theorem Arena.lattices_monotone_sample
    : Sample.opening.Valid Sample.existing ∧ (∀ d snapshot, Sample.opening ≠ .restore d snapshot) ∧
      (Sample.existing.record ⟨6⟩).provided = .notProvided ∧
      ((Sample.opening.apply Sample.existing).record ⟨6⟩).provided = .maybeProvided ∧
      (Sample.existing.record ⟨6⟩).provided ≤ ((Sample.opening.apply Sample.existing).record ⟨6⟩).provided ∧
      (Sample.existing.record ⟨5⟩).provided = .provided ∧
      ((Sample.opening.apply Sample.existing).record ⟨5⟩).provided = (Sample.existing.record ⟨5⟩).provided ∧
      (∀ i, (Sample.openings i).Advances (Sample.openings (i + 1))) ∧
      {i | ((Sample.openings i).record ⟨6⟩).provided ≠ ((Sample.openings (i + 1)).record ⟨6⟩).provided}.encard ≤ 2 := by
  have ⟨hstep, hrun⟩ := lattices_monotone
  have hc := hstep _ _ Sample.opening_valid nofun ⟨6⟩ (by decide +kernel)
  have hb := hstep _ _ Sample.opening_valid nofun ⟨5⟩ (by decide +kernel)
  have hprovided : (Sample.existing.record ⟨5⟩).provided = .provided := by decide +kernel
  have hchanges := (hrun _ Sample.openings_advances).1 ⟨6⟩ (by decide +kernel)
  exact ⟨Sample.opening_valid, nofun, by decide +kernel, by decide +kernel, hc.2.1, hprovided, hb.2.2 (.inr hprovided),
    Sample.openings_advances, hchanges.2⟩

end ModuleLink
