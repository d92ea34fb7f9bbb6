import ModuleLink.Proofs.Exports.Descent
import ModuleLink.Proofs.Exports.Frame

/-!
This module contains the proof that descriptors and the records that own them refer to each other in every arena that
operations lead to, and that a record which owns a descriptor does so for ever. A descriptor is made for its owner, at a
time when the owner is already held somewhere, so that ownership only leads to newer descriptors.
-/

namespace ModuleLink
namespace Arena

variable {a a' : Arena} {d e : DescriptorId} {r : RecordId} {s : Slot} {name : String}

theorem owner_newDescriptorOf (a : Arena) (owner : Option RecordId) (d : DescriptorId)
    : ((a.newDescriptorOf owner).1.descriptor d).owner
        =
      if d = ⟨a.descriptors.size⟩ then owner else (a.descriptor d).owner := by
  split
  · next hnew => rw [hnew, descriptor_newDescriptorOf]
  · next hold =>
    have hne : d.index ≠ a.descriptors.size := fun heq => hold (DescriptorId.index_injective heq)
    simp [descriptor, newDescriptorOf, Array.getElem?_push, hne]

theorem owner_createNested (h : (a.record r).ownedNested = none) (d : DescriptorId)
    : ((a.createNested r).1.descriptor d).owner
        =
      if d = ⟨a.descriptors.size⟩ then some r else (a.descriptor d).owner := by
  rw [← owner_newDescriptorOf, createNested, h]
  refine modifyDescriptor_congr Descriptor.owner ?_ _ d
  exact fun _ => rfl

theorem nested_createNested_of_ne {r' : RecordId} (h : (a.record r).ownedNested = none) (hne : r' ≠ r)
    : ((a.createNested r).1.record r').nested = (a.record r').nested ∧
      ((a.createNested r).1.record r').nestedOwned = (a.record r').nestedOwned := by
  rw [createNested, h]
  dsimp only
  rw [record_modifyRecord_of_ne _ hne]
  rcases record_modifyRecord (a.newDescriptorOf (some r)).1
    ((a.newDescriptorOf (some r)).1.descriptor (a.newDescriptorOf (some r)).2).other
      ExportRecord.completeProvision r' with hsame | hnew
  · rw [record_newDescriptorOf] at hsame
    exact ⟨congrArg ExportRecord.nested hsame, congrArg ExportRecord.nestedOwned hsame⟩
  · rw [record_newDescriptorOf] at hnew
    exact ⟨(congrArg ExportRecord.nested hnew :), (congrArg ExportRecord.nestedOwned hnew :)⟩

theorem lt_of_nestedOwned (h : (a.record r).nestedOwned = true) : r.index < a.records.size := by
  cases Nat.lt_or_ge r.index a.records.size with
  | inl hlt => exact hlt
  | inr hge =>
    rw [record_of_le hge] at h
    cases h

theorem nestedOwned_of_ownedNested (h : (a.record r).ownedNested = some d)
    : (a.record r).nestedOwned = true ∧ (a.record r).nested = some d := by
  unfold ExportRecord.ownedNested at h
  split at h
  · next howned => exact ⟨howned, h⟩
  · cases h

theorem ownedNested_of_nestedOwned (h : (a.record r).nestedOwned = true)
    : (a.record r).ownedNested = (a.record r).nested := by
  unfold ExportRecord.ownedNested
  rw [if_pos h]

theorem ownedNested_step (hstep : Step a a') (h : (a.record r).ownedNested = some d)
    : (a'.record r).ownedNested = some d := by
  have ⟨howned, hnested⟩ := nestedOwned_of_ownedNested h
  have hlt := lt_of_nestedOwned howned
  suffices hsame : (a'.record r).nested = (a.record r).nested ∧
      (a'.record r).nestedOwned = (a.record r).nestedOwned by
    rw [ownedNested_of_nestedOwned (hsame.2.trans howned), hsame.1, hnested]
  cases hstep with
  | modifyRecord r' f hf =>
    rcases record_modifyRecord a r' f r with hsame | hnew
    · rw [hsame]
      exact ⟨rfl, rfl⟩
    · rw [hnew]
      exact ⟨(hf _).nested, (hf _).nestedOwned⟩
  | insertLocal d name =>
    rw [record_insertLocal_of_lt d name hlt]
    exact ⟨rfl, rfl⟩
  | newDescriptor =>
    rw [newDescriptor, record_newDescriptorOf]
    exact ⟨rfl, rfl⟩
  | setRedirect d target =>
    rcases setRedirect_fst a d target with hsame | hnew
    · rw [hsame]
      exact ⟨rfl, rfl⟩
    · rw [hnew]
      exact ⟨rfl, rfl⟩
  | createNested r' =>
    cases hr' : (a.record r').ownedNested with
    | some e =>
      rw [createNested_of_owned hr']
      exact ⟨rfl, rfl⟩
    | none =>
      apply nested_createNested_of_ne hr'
      rintro rfl
      rw [h] at hr'
      cases hr'
  | linkNested r' d' =>
    unfold Arena.linkNested
    split
    · exact ⟨rfl, rfl⟩
    · next hr' =>
      have hne : r ≠ r' := by
        rintro rfl
        exact hr' (.inl howned)
      rw [record_modifyRecord_of_ne _ hne]
      exact ⟨rfl, rfl⟩

/--
Owned descriptors and their owners refer to each other, and ownership leads to newer descriptors.
-/
structure Owned (a : Arena) : Prop where
  nested : ∀ {r : RecordId}, (a.record r).nestedOwned = true → ∃ d, (a.record r).nested = some d
  owned : ∀ {r : RecordId} {d : DescriptorId}, (a.record r).ownedNested = some d → (a.descriptor d).owner = some r
  owner : ∀ {r : RecordId} {d : DescriptorId}, (a.descriptor d).owner = some r → (a.record r).ownedNested = some d
  newer : ∀ {s : Slot} {r : RecordId} {d : DescriptorId},
    a.Holds s r → (a.record r).ownedNested = some d → s.descriptor.index < d.index

namespace Owned

theorem empty : ({} : Arena).Owned where
  nested h := absurd (lt_of_nestedOwned h) (Nat.not_lt_zero _)
  owned h := absurd (lt_of_nestedOwned (nestedOwned_of_ownedNested h).1) (Nat.not_lt_zero _)
  owner h := by cases h
  newer h := absurd h.lt_size (Nat.not_lt_zero _)

theorem keep (h : a.Owned) (hholds : ∀ {s r}, a'.Holds s r → a.Holds s r ∨ a.records.size ≤ r.index)
    (howner : ∀ d, (a'.descriptor d).owner = (a.descriptor d).owner)
    (howned : ∀ r, (a'.record r).nestedOwned = (a.record r).nestedOwned)
    (hnested : ∀ r, (a.record r).nestedOwned = true → (a'.record r).nested = (a.record r).nested) : a'.Owned := by
  have hsame (r : RecordId) : (a'.record r).ownedNested = (a.record r).ownedNested := by
    unfold ExportRecord.ownedNested
    rw [howned]
    split
    · next hr => exact hnested r hr
    · rfl
  constructor
  · intro r hr
    rw [howned] at hr
    rw [hnested r hr]
    exact h.nested hr
  · intro r d hr
    rw [hsame] at hr
    rw [howner]
    exact h.owned hr
  · intro r d hd
    rw [howner] at hd
    rw [hsame]
    exact h.owner hd
  · intro s r d hr hd
    rw [hsame] at hd
    cases hholds hr with
    | inl hold => exact h.newer hold hd
    | inr hnew =>
      rw [record_of_le hnew] at hd
      cases hd

theorem modifyRecord (h : a.Owned) (r : RecordId) {f : ExportRecord → ExportRecord}
    (howned : (f (a.record r)).nestedOwned = (a.record r).nestedOwned)
    (hnested : (a.record r).nestedOwned = true → (f (a.record r)).nested = (a.record r).nested)
    : (a.modifyRecord r f).Owned := by
  have hrecord (r' : RecordId) : (a.modifyRecord r f).record r' = a.record r' ∨
      (r' = r ∧ (a.modifyRecord r f).record r' = f (a.record r)) := by
    by_cases hr' : r' = r
    · subst hr'
      exact (record_modifyRecord a r' f r').imp_right fun hnew => ⟨rfl, hnew⟩
    · exact .inl (record_modifyRecord_of_ne f hr')
  apply h.keep
  · intro s r hr
    exact .inl hr.ofModifyRecord
  · exact fun _ => rfl
  · intro r'
    rcases hrecord r' with hsame | ⟨rfl, hnew⟩
    · rw [hsame]
    · rw [hnew, howned]
  · intro r' hr'
    rcases hrecord r' with hsame | ⟨rfl, hnew⟩
    · rw [hsame]
    · rw [hnew, hnested hr']

theorem insertLocal (h : a.Owned) (d : DescriptorId) (name : String) : (a.insertLocal d name).1.Owned := by
  apply h.keep
  · intro s r hr
    rcases hr.ofInsertLocal with hold | ⟨-, rfl⟩
    · exact .inl hold
    · exact .inr (Nat.le_refl _)
  · exact insertLocal_congr Descriptor.owner (fun _ _ => rfl) d name
  · intro r
    rw [record_insertLocal]
    split
    · next hnew =>
      rw [record_of_le (Nat.le_of_eq hnew.symm)]
      rfl
    · rfl
  · exact fun r _ => nested_insertLocal d name r

theorem newDescriptor (h : a.Owned) : a.newDescriptor.1.Owned := by
  apply h.keep
  · intro s r hr
    rcases hr.ofNewDescriptorOf with hold | ⟨-, rfl⟩ | ⟨-, rfl⟩
    · exact .inl hold
    · exact .inr (Nat.le_refl _)
    · exact .inr (Nat.le_succ _)
  · intro d
    rw [Arena.newDescriptor, owner_newDescriptorOf]
    split
    · next hd =>
      rw [hd, descriptor, Array.getElem?_eq_none (Nat.le_refl _)]
      rfl
    · rfl
  · intro r
    rw [Arena.newDescriptor, record_newDescriptorOf]
  · intro r _
    rw [Arena.newDescriptor, record_newDescriptorOf]

theorem setRedirect (h : a.Owned) (d : DescriptorId) (target : Option DescriptorId)
    : (a.modifyDescriptor d ({ · with redirect := target })).Owned := by
  apply h.keep
  · intro s r hr
    exact .inl (hr.ofModifyDescriptor (fun _ => rfl) (fun _ => rfl) (fun _ => rfl))
  · apply modifyDescriptor_congr Descriptor.owner
    exact fun _ => rfl
  · exact fun _ => rfl
  · exact fun _ _ => rfl

theorem createNested (h : a.Owned) (hlinked : a.Linked) (hr : r.index < a.records.size)
    : (a.createNested r).1.Owned := by
  -- The new descriptor names the record as its owner, and is newer than all places where records are held.
  cases hfree : (a.record r).ownedNested with
  | some e =>
    rw [createNested_of_owned hfree]
    exact h
  | none =>
    have hself : ((a.createNested r).1.record r).ownedNested = some ⟨a.descriptors.size⟩ := by
      rw [record_createNested hfree hr, if_pos rfl]
      rfl
    have hothers {r' : RecordId} (hne : r' ≠ r)
        : ((a.createNested r).1.record r').ownedNested = (a.record r').ownedNested := by
      have ⟨hnested, howned⟩ := nested_createNested_of_ne hfree hne
      unfold ExportRecord.ownedNested
      rw [hnested, howned]
    constructor
    · intro r' hr'
      by_cases hne : r' = r
      · subst hne
        exact ⟨_, (nestedOwned_of_ownedNested hself).2⟩
      · have ⟨hnested, howned⟩ := nested_createNested_of_ne hfree hne
        rw [howned] at hr'
        rw [hnested]
        exact h.nested hr'
    · intro r' d hd
      rw [owner_createNested hfree]
      by_cases hne : r' = r
      · subst hne
        rw [hself] at hd
        cases hd
        rw [if_pos rfl]
      · rw [hothers hne] at hd
        have hlt := hlinked.lt_of_ownedNested hd
        rw [if_neg, h.owned hd]
        rintro rfl
        exact Nat.lt_irrefl _ hlt
    · intro r' d hd
      rw [owner_createNested hfree] at hd
      split at hd
      · next hnew =>
        cases hd
        rw [hself, hnew]
      · have hold := h.owner hd
        rw [hothers, hold]
        rintro rfl
        rw [hfree] at hold
        cases hold
    · intro s r' d hr' hd
      have hholds : a.Holds s r' ∨ a.records.size ≤ r'.index := by
        rw [Arena.createNested, hfree] at hr'
        have hnew := hr'.ofModifyRecord.ofModifyDescriptor (fun _ => rfl) (fun _ => rfl) (fun _ => rfl)
        rcases hnew.ofModifyRecord.ofNewDescriptorOf with hold | ⟨-, rfl⟩ | ⟨-, rfl⟩
        · exact .inl hold
        · exact .inr (Nat.le_refl _)
        · exact .inr (Nat.le_succ _)
      by_cases hne : r' = r
      · subst hne
        rw [hself] at hd
        cases hd
        cases hholds with
        | inl hold => exact hold.lt_size
        | inr hge => exact absurd hr (Nat.not_lt.2 hge)
      · rw [hothers hne] at hd
        cases hholds with
        | inl hold => exact h.newer hold hd
        | inr hge =>
          rw [record_of_le hge] at hd
          cases hd

theorem step (h : a.Owned) (hlinked : a.Linked) (hstep : Step a a') : a'.Owned := by
  cases hstep with
  | modifyRecord r f hf => exact h.modifyRecord r (hf _).nestedOwned fun _ => (hf _).nested
  | insertLocal d name => exact h.insertLocal d name
  | newDescriptor => exact h.newDescriptor
  | setRedirect d target =>
    rcases setRedirect_fst a d target with hsame | hnew
    · rw [hsame]
      exact h
    · rw [hnew]
      exact h.setRedirect d target
  | createNested r hr => exact h.createNested hlinked hr
  | linkNested r d =>
    unfold Arena.linkNested
    split
    · exact h
    · next hr =>
      apply h.modifyRecord
      · rfl
      · intro howned
        exact absurd (.inl howned) hr

end Owned

theorem Reachable.owned (h : a.Reachable) : a.Owned := by
  suffices hboth : a.Linked ∧ a.Owned from hboth.2
  refine h.invariant (motive := fun a => a.Linked ∧ a.Owned) ⟨.empty, .empty⟩ ?_
  rintro a a' ⟨hlinked, howned⟩ hstep
  exact ⟨hlinked.step hstep, howned.step hlinked hstep⟩

def Leads : Arena → Arena → Prop :=
  Relation.ReflTransGen fun a a' => ∃ op : ArenaOp, op.Valid a ∧ a' = op.apply a

namespace Leads

theorem reachable (hleads : a.Leads a') (h : a.Reachable) : a'.Reachable := by
  induction hleads with
  | refl => exact h
  | tail _ hlast ih =>
    obtain ⟨op, hvalid, rfl⟩ := hlast
    exact .step op ih hvalid

theorem ownedNested (hleads : a.Leads a') (h : a.Reachable) (hd : (a.record r).ownedNested = some d)
    : (a'.record r).ownedNested = some d := by
  induction hleads with
  | refl => exact hd
  | tail hbefore hlast ih =>
    obtain ⟨op, hvalid, rfl⟩ := hlast
    have hsteps := Steps.ofOp op (reachable hbefore h).listsExisting hvalid
    exact hsteps.keep (motive := fun a => (a.record r).ownedNested = some d) (fun hd hstep => ownedNested_step hstep hd)
      ih

end Leads

def Below (a : Arena) (e d : DescriptorId) : Prop :=
  ∃ s r, s.descriptor = d ∧ a.Holds s r ∧ (a.record r).ownedNested = some e

theorem wellFounded_below (hlinked : a.Linked) (h : a.Owned) : WellFounded a.Below := by
  refine Subrelation.wf ?_ (measure fun d : DescriptorId => a.descriptors.size - d.index).wf
  rintro e d ⟨s, r, rfl, hr, he⟩
  have hlt := hlinked.lt_of_ownedNested he
  have hnewer := h.newer hr he
  change a.descriptors.size - e.index < a.descriptors.size - s.descriptor.index
  omega

structure Forest (a : Arena) : Prop where
  keys : ∀ d, (a.descriptor d).exports.DistinctKeys
  record : ∀ s r, a.Holds s r → r.index < a.records.size
  once : ∀ s s' r, a.Holds s r → a.Holds s' r → s = s'
  name : ∀ s r, a.Holds s r → (a.record r).name = s.name?
  owned : ∀ r, (a.record r).nestedOwned = true →
    ∃ d, (a.record r).nested = some d ∧ d.index < a.descriptors.size ∧ (a.descriptor d).owner = some r
  owner : ∀ d r, (a.descriptor d).owner = some r →
    r.index < a.records.size ∧ (a.record r).nested = some d ∧ (a.record r).nestedOwned = true
  newer : ∀ s r d, a.Holds s r → (a.descriptor d).owner = some r → s.descriptor.index < d.index

theorem Reachable.forest (h : a.Reachable) : a.Forest where
  keys := h.named.keys
  record _ _ := h.sound.tidy.lt
  once _ _ _ := h.sound.tidy.once
  name _ _ := h.sound.tidy.name
  owned r hr := by
    obtain ⟨d, hd⟩ := h.owned.nested hr
    refine ⟨d, hd, h.linked.nested hd, h.owned.owned ?_⟩
    rw [ownedNested_of_nestedOwned hr, hd]
  owner d r hd := by
    have ⟨howned, hnested⟩ := nestedOwned_of_ownedNested (h.owned.owner hd)
    exact ⟨lt_of_nestedOwned howned, hnested, howned⟩
  newer _ _ _ hr hd := h.owned.newer hr (h.owned.owner hd)

/--
Records are held once, under their own names; a descriptor that is owned and its owner refer to each other, now and
after all further operations. Ownership is well-founded, so that a snapshot comes to an end: it is that of the records
of the descriptor itself, with the snapshots of the descriptors that they own.
-/
theorem ownership_forest (h : a.Reachable)
    : a.Forest
        ∧
      (∀ a', a.Leads a' → ∀ r d, (a.descriptor d).owner = some r →
        (a'.descriptor d).owner = some r ∧ (a'.record r).nested = some d ∧ (a'.record r).nestedOwned = true)
        ∧
      WellFounded a.Below
        ∧
      ∀ d, a.snapshot d = .mk (a.otherFacts d) ((a.orderedLocals d).filterMap (a.snapshotRecord? d)) := by
  refine ⟨h.forest, ?_, wellFounded_below h.linked h.owned, snapshot_eq h.sound⟩
  intro a' hleads r d hd
  have howned := hleads.ownedNested h (h.owned.owner hd)
  have ⟨hnestedOwned, hnested⟩ := nestedOwned_of_ownedNested howned
  exact ⟨(hleads.reachable h).owned.owned howned, hnested, hnestedOwned⟩

theorem ownership_forest_sample
    : Sample.nested.Reachable ∧
      Sample.nested.Holds (.listed ⟨1⟩ "x") ⟨4⟩ ∧ (Sample.nested.record ⟨4⟩).name = some "x" ∧
      (Sample.nested.descriptor ⟨2⟩).owner = some ⟨4⟩ ∧ (Sample.nested.record ⟨4⟩).nested = some ⟨2⟩ ∧
      Sample.nested.Leads (Sample.nested.linkNested ⟨4⟩ ⟨3⟩).1 ∧
      ((Sample.nested.linkNested ⟨4⟩ ⟨3⟩).1.record ⟨4⟩).nested = some ⟨2⟩ ∧
      Sample.nested.Below ⟨2⟩ ⟨1⟩ ∧ ¬ Sample.nested.Below ⟨1⟩ ⟨2⟩ ∧
      Sample.nested.snapshot ⟨1⟩
        = .mk (Sample.nested.otherFacts ⟨1⟩)
            ((Sample.nested.orderedLocals ⟨1⟩).filterMap (Sample.nested.snapshotRecord? ⟨1⟩)) := by
  have ⟨hforest, hlater, hwf, hsnapshot⟩ := ownership_forest Sample.nested_reachable
  have hx : Sample.nested.Holds (.listed ⟨1⟩ "x") ⟨4⟩ := .listed (by decide +kernel)
  have howner : (Sample.nested.descriptor ⟨2⟩).owner = some ⟨4⟩ := by decide +kernel
  obtain ⟨-, hnested, howned⟩ := hforest.owner ⟨2⟩ ⟨4⟩ howner
  have hleads : Sample.nested.Leads (Sample.nested.linkNested ⟨4⟩ ⟨3⟩).1 :=
    .single ⟨.linkNested ⟨4⟩ ⟨3⟩, ⟨by decide +kernel, by decide +kernel⟩, rfl⟩
  have hbelow : Sample.nested.Below ⟨2⟩ ⟨1⟩ := by
    refine ⟨_, _, rfl, hx, ?_⟩
    rw [ownedNested_of_nestedOwned howned, hnested]
  exact ⟨Sample.nested_reachable, hx, hforest.name _ _ hx, howner, hnested, hleads, (hlater _ hleads _ _ howner).2.1,
    hbelow, hwf.asymmetric _ _ hbelow, hsnapshot ⟨1⟩⟩

end Arena
end ModuleLink
