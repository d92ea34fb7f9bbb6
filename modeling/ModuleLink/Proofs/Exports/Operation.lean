import Mathlib.Logic.Relation
import ModuleLink.Exports.Marking
import ModuleLink.Exports.Snapshot
import ModuleLink.Proofs.Basic

/-!
This module contains the operations on an arena of exports and the steps that they are made of. What every
step keeps is kept by every operation, so that invariants of arenas are proved step by step.
-/

namespace ModuleLink

inductive RecordEdit where
  | setUsed (state : Usage)
  | setUsedIf (condition : Usage → Bool) (state : Usage)
  | setUsedInUnknownWay
  | setProvided (state : Provision)
  | setMangleProvide (value : Option Bool)
  | setMangleUse (value : Option Bool)
  | setOutputName (name : OutputName)
  | setTerminal (value : Bool)
  | setTarget (key : DependencyId) (target : ExportTarget)
  | unsetTarget (key : DependencyId)

def RecordEdit.apply (e : RecordEdit) (r : ExportRecord) : ExportRecord :=
  match e with
  | .setUsed state => (r.setUsed state).1
  | .setUsedIf condition state => (r.setUsedIf condition state).1
  | .setUsedInUnknownWay => r.setUsedInUnknownWay.1
  | .setProvided state => (r.setProvided state).1
  | .setMangleProvide value => (r.setMangleProvide value).1
  | .setMangleUse value => (r.setMangleUse value).1
  | .setOutputName name => { r with outputName := name }
  | .setTerminal value => { r with terminal := value }
  | .setTarget key target => (r.setTarget key target).1
  | .unsetTarget key => (r.unsetTarget key).1

inductive ArenaOp where
  | newDescriptor
  | getOrCreate (d : DescriptorId) (name : String)
  | edit (r : RecordId) (e : RecordEdit)
  | setRedirect (d : DescriptorId) (target : Option DescriptorId)
  | createNested (r : RecordId)
  | linkNested (r : RecordId) (d : DescriptorId)
  | markHasProvideInfo (d : DescriptorId)
  | markHasUseInfo (d : DescriptorId)
  | markUnknownProvided (d : DescriptorId) (canMangle : Bool) (exclude : List String)
      (target : Option StarTarget)
  | markUsedUnknownWay (d : DescriptorId)
  | markAllKnownUsed (d : DescriptorId)
  | markUsedForSideEffects (d : DescriptorId)
  | markExportUsed (d : DescriptorId) (path : List String) (state : Usage)
  | restore (d : DescriptorId) (snapshot : ProvisionSnapshot)

namespace ArenaOp

def apply (a : Arena) : ArenaOp → Arena
  | .newDescriptor => a.newDescriptor.1
  | .getOrCreate d name => (a.getOrCreate d name).1
  | .edit r e => a.modifyRecord r e.apply
  | .setRedirect d target => (a.setRedirect d target).1
  | .createNested r => (a.createNested r).1
  | .linkNested r d => (a.linkNested r d).1
  | .markHasProvideInfo d => a.markHasProvideInfo d
  -- A marking that goes round in a circle does not come to an end, and leads nowhere else.
  | .markHasUseInfo d => (a.markHasUseInfo? d).getD a
  | .markUnknownProvided d canMangle exclude target => (a.markUnknownProvidedWith d canMangle exclude target).1
  | .markUsedUnknownWay d => (a.markUsedUnknownWay d).1
  | .markAllKnownUsed d => (a.markAllKnownUsed d).1
  | .markUsedForSideEffects d => (a.markUsedForSideEffects d).1
  | .markExportUsed d path state => (a.markExportUsed d path state).1
  | .restore d snapshot => a.restore d snapshot

def descriptors : ArenaOp → List DescriptorId
  | .newDescriptor | .edit _ _ | .createNested _ => []
  | .setRedirect d target => d :: target.toList
  | .getOrCreate d _ | .linkNested _ d | .markHasProvideInfo d | .markHasUseInfo d
  | .markUnknownProvided d _ _ _ | .markUsedUnknownWay d | .markAllKnownUsed d | .markUsedForSideEffects d
  | .markExportUsed d _ _ | .restore d _ => [d]

def records : ArenaOp → List RecordId
  | .edit r _ | .createNested r | .linkNested r _ => [r]
  | _ => []

structure Valid (a : Arena) (op : ArenaOp) : Prop where
  descriptors : ∀ d ∈ op.descriptors, d.index < a.descriptors.size
  records : ∀ r ∈ op.records, r.index < a.records.size

structure IsGradual (op : ArenaOp) : Prop where
  setRedirect : ∀ d target, op ≠ .setRedirect d target
  restore : ∀ d snapshot, op ≠ .restore d snapshot

end ArenaOp

structure ExportRecord.SamePlace (r r' : ExportRecord) : Prop where
  name : r'.name = r.name := by rfl
  nested : r'.nested = r.nested := by rfl
  nestedOwned : r'.nestedOwned = r.nestedOwned := by rfl

namespace ExportRecord.SamePlace

variable (r : ExportRecord)

theorem trans {r r' r'' : ExportRecord} (h : r.SamePlace r') (h' : r'.SamePlace r'') : r.SamePlace r'' where
  name := h'.name.trans h.name
  nested := h'.nested.trans h.nested
  nestedOwned := h'.nestedOwned.trans h.nestedOwned

theorem setTarget (key : DependencyId) (target : ExportTarget) : r.SamePlace (r.setTarget key target).1 := by
  unfold ExportRecord.setTarget
  split
  · exact {}
  · exact {}

theorem setUsedIf (condition : Usage → Bool) (state : Usage) : r.SamePlace (r.setUsedIf condition state).1 := by
  unfold ExportRecord.setUsedIf
  split
  · exact {}
  · exact {}

theorem edit (e : RecordEdit) : r.SamePlace (e.apply r) := by
  cases e with
  | setTarget key target => apply setTarget
  | setUsedIf condition state => apply setUsedIf
  | _ => exact {}

end ExportRecord.SamePlace

/--
A relation that holds between a record and what operations make of it. The replay of a snapshot is left out, since it
assigns the provision of a record.
-/
structure ExportRecord.Kept (P : ExportRecord → ExportRecord → Prop) : Prop where
  refl : ∀ r, P r r
  trans : ∀ {r r' r''}, P r r' → P r' r'' → P r r''
  edit : ∀ r (e : RecordEdit), P r (e.apply r)
  completeProvision : ∀ r, P r r.completeProvision
  completeUsage : ∀ r, P r r.completeUsage

namespace ExportRecord.Kept

variable {P : ExportRecord → ExportRecord → Prop}

theorem samePlace : Kept SamePlace where
  refl _ := {}
  trans := SamePlace.trans
  edit := SamePlace.edit
  completeProvision _ := {}
  completeUsage _ := {}

theorem and {Q : ExportRecord → ExportRecord → Prop} (h : Kept P) (h' : Kept Q) : Kept fun r r' => P r r' ∧ Q r r' where
  refl r := ⟨h.refl r, h'.refl r⟩
  trans hr hr' := ⟨h.trans hr.1 hr'.1, h'.trans hr.2 hr'.2⟩
  edit r e := ⟨h.edit r e, h'.edit r e⟩
  completeProvision r := ⟨h.completeProvision r, h'.completeProvision r⟩
  completeUsage r := ⟨h.completeUsage r, h'.completeUsage r⟩

theorem restrictMangle (h : Kept P) (r : ExportRecord) (canMangle : Bool) : P r (r.restrictMangle canMangle).1 := by
  unfold ExportRecord.restrictMangle
  split
  · exact h.refl r
  · exact h.edit r (.setMangleProvide (some false))

theorem setStarTarget (h : Kept P) (r : ExportRecord) (target : Option StarTarget) (path : Option (List String))
    (priority : StarTarget → Int)
    : P r (match target with
        | none => r
        | some t => (r.setTarget t.key ⟨t.connection, path, priority t⟩).1) := by
  split
  · exact h.refl r
  next t => exact h.edit r (.setTarget t.key ⟨t.connection, path, priority t⟩)

theorem markUnknownProvided (h : Kept P) (r : ExportRecord) (canMangle : Bool) (exclude : List String)
    (target : Option StarTarget) : P r (r.markUnknownProvided canMangle exclude target).1 := by
  unfold ExportRecord.markUnknownProvided
  dsimp only
  split
  · exact h.restrictMangle r canMangle
  · apply h.trans (h.restrictMangle r canMangle)
    apply h.trans (h.edit _ (.setProvided .maybeProvided))
    exact h.setStarTarget _ target _ fun _ => -1

theorem markOtherProvided (h : Kept P) (r : ExportRecord) (canMangle : Bool) (target : Option StarTarget)
    : P r (r.markOtherProvided canMangle target).1 := by
  unfold ExportRecord.markOtherProvided
  dsimp only
  apply h.trans (h.edit r (.setProvided .maybeProvided))
  apply h.trans (h.restrictMangle _ canMangle)
  exact h.setStarTarget _ target _ StarTarget.priority

end ExportRecord.Kept

namespace Arena

inductive StepBy (P : ExportRecord → ExportRecord → Prop) : Arena → Arena → Prop where
  | modifyRecord (a : Arena) (r : RecordId) (f : ExportRecord → ExportRecord)
      (hf : ∀ record : ExportRecord, P record (f record)) : StepBy P a (a.modifyRecord r f)
  | insertLocal (a : Arena) (d : DescriptorId) (name : String) : StepBy P a (a.insertLocal d name).1
  | newDescriptor (a : Arena) : StepBy P a a.newDescriptor.1
  | setRedirect (a : Arena) (d : DescriptorId) (target : Option DescriptorId)
      (hd : d.index < a.descriptors.size) (htarget : ∀ t ∈ target, t.index < a.descriptors.size)
      : StepBy P a (a.setRedirect d target).1
  | createNested (a : Arena) (r : RecordId) (hr : r.index < a.records.size) : StepBy P a (a.createNested r).1
  | linkNested (a : Arena) (r : RecordId) (d : DescriptorId) (hd : d.index < a.descriptors.size)
      : StepBy P a (a.linkNested r d).1

abbrev StepsBy (P : ExportRecord → ExportRecord → Prop) : Arena → Arena → Prop := Relation.ReflTransGen (StepBy P)

abbrev Step : Arena → Arena → Prop := StepBy ExportRecord.SamePlace

abbrev Steps : Arena → Arena → Prop := StepsBy ExportRecord.SamePlace

/--
A step that leaves the redirects alone and lists a record only where a lookup for it ends. A record is changed into one
that `P` relates it to.
-/
inductive GrowBy (P : ExportRecord → ExportRecord → Prop) : Arena → Arena → Prop where
  | modifyRecord (a : Arena) (r : RecordId) (f : ExportRecord → ExportRecord)
      (hf : ∀ record : ExportRecord, P record (f record)) : GrowBy P a (a.modifyRecord r f)
  | getOrCreate (a : Arena) (d : DescriptorId) (name : String) : GrowBy P a (a.getOrCreate d name).1
  | newDescriptor (a : Arena) : GrowBy P a a.newDescriptor.1
  | createNested (a : Arena) (r : RecordId) (hr : r.index < a.records.size) : GrowBy P a (a.createNested r).1
  | linkNested (a : Arena) (r : RecordId) (d : DescriptorId) (hd : d.index < a.descriptors.size)
      : GrowBy P a (a.linkNested r d).1

theorem GrowBy.mono {P Q : ExportRecord → ExportRecord → Prop} {a a' : Arena} (hPQ : ∀ {r r'}, P r r' → Q r r')
    (h : GrowBy P a a') : GrowBy Q a a' := by
  cases h with
  | modifyRecord r f hf => exact .modifyRecord a r f fun record => hPQ (hf record)
  | getOrCreate d name => exact .getOrCreate a d name
  | newDescriptor => exact .newDescriptor a
  | createNested r hr => exact .createNested a r hr
  | linkNested r d hd => exact .linkNested a r d hd

abbrev GrowsBy (P : ExportRecord → ExportRecord → Prop) : Arena → Arena → Prop := Relation.ReflTransGen (GrowBy P)

theorem foldl_steps {R : Arena → Arena → Prop} {α β : Type} (view : β → Arena) (f : β → α → β)
    (hf : ∀ b x, Relation.ReflTransGen R (view b) (view (f b x))) (as : List α) (b : β)
    : Relation.ReflTransGen R (view b) (view (as.foldl f b)) := by
  induction as generalizing b with
  | nil => exact .refl
  | cons x xs ih => exact (hf b x).trans (ih (f b x))

section Changes

variable {R : Arena → Arena → Prop} {P : ExportRecord → ExportRecord → Prop}
  (hmodify : ∀ (a : Arena) (r : RecordId) (f : ExportRecord → ExportRecord),
    (∀ record : ExportRecord, P record (f record)) → R a (a.modifyRecord r f))
include hmodify

theorem modifyRecords_steps (a : Arena) (rs : List RecordId) (f : ExportRecord → ExportRecord)
    (hf : ∀ record : ExportRecord, P record (f record))
    : Relation.ReflTransGen R a (rs.foldl (fun a r => a.modifyRecord r f) a) := by
  apply foldl_steps id
  intro a r
  exact .single (hmodify a r f hf)

theorem updateRecords_steps (a : Arena) (rs : List RecordId) (f : ExportRecord → ExportRecord × Bool)
    (hf : ∀ record : ExportRecord, P record (f record).1) : Relation.ReflTransGen R a (a.updateRecords rs f).1 := by
  unfold Arena.updateRecords
  refine foldl_steps Prod.fst _ ?_ rs (a, false)
  intro b r
  exact .single (hmodify b.1 r _ hf)

theorem markUnknownProvidedWith_steps (hP : ExportRecord.Kept P)
    (hcreate : ∀ (a : Arena) (d : DescriptorId) (name : String), Relation.ReflTransGen R a (a.getOrCreate d name).1)
    (a : Arena) (d : DescriptorId) (canMangle : Bool) (exclude : List String) (target : Option StarTarget)
    : Relation.ReflTransGen R a (a.markUnknownProvidedWith d canMangle exclude target).1 := by
  unfold Arena.markUnknownProvidedWith
  dsimp only
  refine .trans (foldl_steps Prod.fst _ ?_ (a.chain d) (a, false)) (.single (hmodify _ _ _ ?_))
  · intro b e
    apply Relation.ReflTransGen.trans
    · exact foldl_steps id _ (fun a name => hcreate a e name) exclude b.1
    · apply updateRecords_steps hmodify
      intro record
      exact hP.markUnknownProvided record canMangle exclude target
  · intro record
    exact hP.markOtherProvided record canMangle target

end Changes

namespace GrowsBy

variable {P : ExportRecord → ExportRecord → Prop} {a a' : Arena}

theorem one (h : GrowBy P a a') : GrowsBy P a a' := Relation.ReflTransGen.single h

theorem modifyRecords (a : Arena) (rs : List RecordId) (f : ExportRecord → ExportRecord)
    (hf : ∀ record : ExportRecord, P record (f record))
    : GrowsBy P a (rs.foldl (fun a r => a.modifyRecord r f) a) := modifyRecords_steps .modifyRecord a rs f hf

theorem updateRecord (a : Arena) (r : RecordId) (f : ExportRecord → ExportRecord × Bool)
    (hf : ∀ record : ExportRecord, P record (f record).1) : GrowsBy P a (a.updateRecord r f).1 :=
  one (.modifyRecord a r _ hf)

theorem updateRecords (a : Arena) (rs : List RecordId) (f : ExportRecord → ExportRecord × Bool)
    (hf : ∀ record : ExportRecord, P record (f record).1) : GrowsBy P a (a.updateRecords rs f).1 :=
  updateRecords_steps .modifyRecord a rs f hf

theorem markHasUseInfo (hP : ExportRecord.Kept P) (a : Arena) (d : DescriptorId)
    : GrowsBy P a ((a.markHasUseInfo? d).getD a) := by
  unfold markHasUseInfo?
  cases a.usageScope? d with
  | none => exact .refl
  | some rs => exact modifyRecords a rs _ hP.completeUsage

theorem markUnknownProvidedWith (hP : ExportRecord.Kept P) (a : Arena) (d : DescriptorId) (canMangle : Bool)
    (exclude : List String) (target : Option StarTarget)
    : GrowsBy P a (a.markUnknownProvidedWith d canMangle exclude target).1 :=
  markUnknownProvidedWith_steps .modifyRecord hP (fun a d name => one (.getOrCreate a d name)) a d canMangle exclude
    target

theorem markUsedUnknownWay (hP : ExportRecord.Kept P) (a : Arena) (d : DescriptorId)
    : GrowsBy P a (a.markUsedUnknownWay d).1 := by
  apply updateRecords
  intro record
  exact hP.edit record .setUsedInUnknownWay

theorem markAllKnownUsed (hP : ExportRecord.Kept P) (a : Arena) (d : DescriptorId)
    : GrowsBy P a (a.markAllKnownUsed d).1 := by
  apply updateRecords
  intro record
  split
  · exact hP.edit record (.setUsed .used)
  · exact hP.refl record

theorem markExportUsed (hP : ExportRecord.Kept P) (a : Arena) (d : DescriptorId) (path : List String) (state : Usage)
    : GrowsBy P a (a.markExportUsed d path state).1 := by
  induction path generalizing a d with
  | nil =>
    unfold Arena.markExportUsed
    exact markUsedUnknownWay hP a d
  | cons first rest ih =>
    unfold Arena.markExportUsed
    dsimp only
    refine (one (.getOrCreate a d first)).trans ?_
    split
    · exact updateRecord _ _ _ fun record => hP.edit record (.setUsed state)
    · exact .trans (updateRecord _ _ _ fun record => hP.edit record (.setUsedIf _ _)) (ih _ _)

theorem ofOp (hP : ExportRecord.Kept P) {op : ArenaOp} (hop : op.IsGradual) (h : op.Valid a)
    : GrowsBy P a (op.apply a) := by
  cases op with
  | newDescriptor => exact one (.newDescriptor a)
  | getOrCreate d name => exact one (.getOrCreate a d name)
  | edit r e => exact one (.modifyRecord a r _ fun record => hP.edit record e)
  | setRedirect d target => exact absurd rfl (hop.setRedirect d target)
  | createNested r => exact one (.createNested a r (h.records r (by simp [ArenaOp.records])))
  | linkNested r d => exact one (.linkNested a r d (h.descriptors d (by simp [ArenaOp.descriptors])))
  | markHasProvideInfo d => exact modifyRecords a _ _ hP.completeProvision
  | markHasUseInfo d => exact markHasUseInfo hP a d
  | markUnknownProvided d canMangle exclude target => exact markUnknownProvidedWith hP a d canMangle exclude target
  | markUsedUnknownWay d => exact markUsedUnknownWay hP a d
  | markAllKnownUsed d => exact markAllKnownUsed hP a d
  | markUsedForSideEffects d => exact updateRecord a _ _ fun record => hP.edit record (.setUsedIf _ _)
  | markExportUsed d path state => exact markExportUsed hP a d path state
  | restore d snapshot => exact absurd rfl (hop.restore d snapshot)

end GrowsBy

namespace StepsBy

variable {P : ExportRecord → ExportRecord → Prop} {a a' : Arena}

theorem one (h : StepBy P a a') : StepsBy P a a' := Relation.ReflTransGen.single h

theorem keep {motive : Arena → Prop} (step : ∀ {a a' : Arena}, motive a → StepBy P a a' → motive a')
    (hsteps : StepsBy P a a') (h : motive a) : motive a' := by
  induction hsteps with
  | refl => exact h
  | tail _ hstep ih => exact step ih hstep

theorem getOrCreate (a : Arena) (d : DescriptorId) (name : String) : StepsBy P a (a.getOrCreate d name).1 := by
  unfold Arena.getOrCreate
  split
  · exact .refl
  · exact one (.insertLocal a _ name)

theorem getOrInsertLocal (a : Arena) (d : DescriptorId) (name : String)
    : StepsBy P a (a.getOrInsertLocal d name).1 := by
  unfold Arena.getOrInsertLocal
  split
  · exact .refl
  · exact one (.insertLocal a d name)

theorem ofGrow (h : GrowBy P a a') : StepsBy P a a' := by
  cases h with
  | modifyRecord r f hf => exact one (.modifyRecord a r f hf)
  | getOrCreate d name => exact getOrCreate a d name
  | newDescriptor => exact one (.newDescriptor a)
  | createNested r hr => exact one (.createNested a r hr)
  | linkNested r d hd => exact one (.linkNested a r d hd)

theorem ofGrows (h : GrowsBy P a a') : StepsBy P a a' := by
  induction h with
  | refl => exact .refl
  | tail _ hstep ih => exact ih.trans (ofGrow hstep)

theorem ofOp (hP : ExportRecord.Kept P) {op : ArenaOp} (hop : ∀ d snapshot, op ≠ .restore d snapshot)
    (h : op.Valid a) : StepsBy P a (op.apply a) := by
  by_cases hredirect : ∃ d target, op = .setRedirect d target
  · obtain ⟨d, target, rfl⟩ := hredirect
    refine one (.setRedirect a d target (h.descriptors d (by simp [ArenaOp.descriptors])) ?_)
    intro t ht
    exact h.descriptors t (by simpa [ArenaOp.descriptors] using .inr ht)
  · exact ofGrows (.ofOp hP ⟨fun d target heq => hredirect ⟨d, target, heq⟩, hop⟩ h)

end StepsBy

def ListsExisting (a : Arena) : Prop :=
  ∀ x ∈ a.descriptors, ∀ r ∈ x.exports.values, r.index < a.records.size

namespace ListsExisting

variable {P : ExportRecord → ExportRecord → Prop} {a a' : Arena}

theorem empty : ({} : Arena).ListsExisting := by
  intro x hx
  exact absurd hx (Array.not_mem_empty x)

theorem modifyRecord (h : a.ListsExisting) (r : RecordId) (f : ExportRecord → ExportRecord)
    : (a.modifyRecord r f).ListsExisting := by
  unfold ListsExisting Arena.modifyRecord
  rw [Array.size_modify]
  exact h

theorem modifyDescriptor (h : a.ListsExisting) (d : DescriptorId) {f : Descriptor → Descriptor}
    (hf : ∀ x ∈ a.descriptors, ∀ r ∈ (f x).exports.values, r.index < a.records.size)
    : (a.modifyDescriptor d f).ListsExisting := by
  intro x hx
  obtain ⟨i, hi⟩ := Array.mem_iff_getElem?.1 hx
  simp only [Arena.modifyDescriptor, Array.getElem?_modify] at hi
  split at hi
  · obtain ⟨y, hy, rfl⟩ := Option.map_eq_some_iff.1 hi
    exact hf y (Array.mem_of_getElem? hy)
  · exact h x (Array.mem_of_getElem? hi)

theorem newDescriptorOf (h : a.ListsExisting) (owner : Option RecordId)
    : (a.newDescriptorOf owner).1.ListsExisting := by
  intro x hx r hr
  simp only [Arena.newDescriptorOf, Array.size_push]
  rcases Array.mem_push.1 hx with hold | rfl
  · exact Nat.lt_succ_of_lt (Nat.lt_succ_of_lt (h x hold r hr))
  · cases hr

theorem insertLocal (h : a.ListsExisting) (d : DescriptorId) (name : String)
    : (a.insertLocal d name).1.ListsExisting := by
  have hpushed : ∀ x ∈ a.descriptors, ∀ r ∈ x.exports.values, r.index < a.records.size + 1 :=
    fun x hx r hr => Nat.lt_succ_of_lt (h x hx r hr)
  unfold Arena.insertLocal
  dsimp only
  apply modifyDescriptor
  · intro x hx r hr
    rw [Array.size_push]
    exact hpushed x hx r hr
  · intro x hx r hr
    rw [Array.size_push]
    rcases Dict.mem_values_insert hr with rfl | hold
    · exact Nat.lt_succ_self _
    · exact hpushed x hx r hold

theorem step (h : a.ListsExisting) (hstep : StepBy P a a') : a'.ListsExisting := by
  cases hstep with
  | modifyRecord r f => exact h.modifyRecord r f
  | insertLocal d name => exact h.insertLocal d name
  | newDescriptor => exact h.newDescriptorOf none
  | setRedirect d target =>
    unfold Arena.setRedirect
    split
    · exact h
    · split
      · exact h.modifyDescriptor d h
      · split
        · exact h
        · exact h.modifyDescriptor d h
  | createNested r =>
    unfold Arena.createNested
    split
    · exact h
    · have hnew := h.newDescriptorOf (some r)
      refine modifyRecord (modifyDescriptor (hnew.modifyRecord _ _) _ ?_) r _
      exact hnew.modifyRecord _ _
  | linkNested r d =>
    unfold Arena.linkNested
    split
    · exact h
    · exact h.modifyRecord r _

theorem steps (h : a.ListsExisting) (hsteps : StepsBy P a a') : a'.ListsExisting := hsteps.keep step h

theorem lt_of_listed? (h : a.ListsExisting) {d : DescriptorId} {name : String} {r : RecordId}
    (hr : a.listed? d name = some r) : r.index < a.records.size := by
  unfold listed? descriptor at hr
  cases hd : a.descriptors[d.index]? with
  | none =>
    rw [hd] at hr
    cases hr
  | some x =>
    rw [hd] at hr
    exact h x (Array.mem_of_getElem? hd) r (Dict.mem_values_of_get? hr)

theorem lt_assignLocal (h : a.ListsExisting) (d : DescriptorId) (name : String) (facts : ProvisionFacts)
    : (a.assignLocal d name facts).2.index < (a.assignLocal d name facts).1.records.size := by
  unfold Arena.assignLocal Arena.getOrInsertLocal Arena.modifyRecord
  dsimp only
  rw [Array.size_modify]
  split
  · next r hr => exact h.lt_of_listed? hr
  · simp [Arena.insertLocal, Arena.modifyDescriptor]

end ListsExisting

namespace StepsBy

variable {P : ExportRecord → ExportRecord → Prop} (hassign : ∀ r facts, P r (ExportRecord.assignProvision r facts))
include hassign

theorem assignLocal (a : Arena) (d : DescriptorId) (name : String) (facts : ProvisionFacts)
    : StepsBy P a (a.assignLocal d name facts).1 := by
  unfold Arena.assignLocal
  exact (getOrInsertLocal a d name).tail (.modifyRecord _ _ _ (hassign · facts))

mutual

theorem restore (a : Arena) (h : a.ListsExisting) (d : DescriptorId)
    : ∀ s : ProvisionSnapshot, StepsBy P a (a.restore d s)
  | .mk other exports => by
    rw [Arena.restore]
    have hreset := ofGrows
      (.modifyRecords a (a.locals d ++ [(a.descriptor d).other]) (·.assignProvision other) (hassign · other))
    exact hreset.trans (restoreExports _ (h.steps hreset) d exports)

theorem restoreExports (a : Arena) (h : a.ListsExisting) (d : DescriptorId)
    : ∀ es : List (String × ProvisionFacts × Option ProvisionSnapshot), StepsBy P a (a.restoreExports d es)
  | [] => by
    rw [Arena.restoreExports]
  | (name, facts, none) :: rest => by
    rw [Arena.restoreExports]
    have hassigned := assignLocal hassign a d name facts
    exact hassigned.trans (restoreExports _ (h.steps hassigned) d rest)
  | (name, facts, some inner) :: rest => by
    rw [Arena.restoreExports]
    dsimp only
    have hassigned := assignLocal hassign a d name facts
    have hlt := h.lt_assignLocal d name facts
    generalize a.assignLocal d name facts = assigned at hassigned hlt ⊢
    have hnested := hassigned.tail (.createNested assigned.1 assigned.2 hlt)
    have hinner := hnested.trans (restore _ (h.steps hnested) (assigned.1.createNested assigned.2).2 inner)
    exact hinner.trans (restoreExports _ (h.steps hinner) d rest)

end

theorem ofAnyOp (hP : ExportRecord.Kept P) {a : Arena} (op : ArenaOp) (ha : a.ListsExisting) (h : op.Valid a)
    : StepsBy P a (op.apply a) := by
  by_cases hop : ∃ d snapshot, op = .restore d snapshot
  · obtain ⟨d, snapshot, rfl⟩ := hop
    exact restore hassign a ha d snapshot
  · exact ofOp hP (fun d snapshot heq => hop ⟨d, snapshot, heq⟩) h

end StepsBy

theorem Steps.ofOp {a : Arena} (op : ArenaOp) (ha : a.ListsExisting) (h : op.Valid a) : Steps a (op.apply a) :=
  StepsBy.ofAnyOp (fun _ _ => {}) .samePlace op ha h

inductive Reachable : Arena → Prop where
  | empty : Reachable {}
  | step {a : Arena} (op : ArenaOp) : Reachable a → op.Valid a → Reachable (op.apply a)

theorem Reachable.listsExisting {a : Arena} (h : a.Reachable) : a.ListsExisting := by
  induction h with
  | empty => exact .empty
  | step op _ hvalid ih => exact ih.steps (Steps.ofOp op ih hvalid)

theorem Reachable.invariantBy {P : ExportRecord → ExportRecord → Prop} (hP : ExportRecord.Kept P)
    (hassign : ∀ r facts, P r (ExportRecord.assignProvision r facts)) {motive : Arena → Prop} {a : Arena}
    (h : a.Reachable) (empty : motive {}) (step : ∀ {a a' : Arena}, motive a → StepBy P a a' → motive a')
    : motive a := by
  induction h with
  | empty => exact empty
  | step op ha hvalid ih => exact (StepsBy.ofAnyOp hassign hP op ha.listsExisting hvalid).keep step ih

theorem Reachable.invariant {motive : Arena → Prop} {a : Arena} (h : a.Reachable) (empty : motive {})
    (step : ∀ {a a' : Arena}, motive a → Step a a' → motive a') : motive a :=
  h.invariantBy .samePlace (fun _ _ => {}) empty step

end Arena
end ModuleLink
