import ModuleLink.Proofs.Exports.Snapshot

/-!
This module contains what the steps of a replay change: they assign provision to the records of a descriptor, list more
names, and create the descriptors that records own. All else stays, and so does what separate descriptors say.
-/

namespace ModuleLink

structure ExportRecord.SameUse (r r' : ExportRecord) : Prop where
  used : r'.used = r.used := by rfl
  outputName : r'.outputName = r.outputName := by rfl
  mangleUse : r'.mangleUse = r.mangleUse := by rfl
  targets : r'.targets = r.targets := by rfl

theorem ExportRecord.SameUse.trans {r r' r'' : ExportRecord} (h : r.SameUse r') (h' : r'.SameUse r'')
    : r.SameUse r'' where
  used := h'.used.trans h.used
  outputName := h'.outputName.trans h.outputName
  mangleUse := h'.mangleUse.trans h.mangleUse
  targets := h'.targets.trans h.targets

namespace Arena

variable {a a' a'' b : Arena} {d e f : DescriptorId} {r : RecordId} {name : String}

structure SameAt (a a' : Arena) (d : DescriptorId) : Prop where
  descriptor : a'.descriptor d = a.descriptor d
  record : ∀ {s : Slot} {r : RecordId}, a.Holds s r → s.descriptor = d → a'.record r = a.record r

def Owns (a : Arena) (d e : DescriptorId) : Prop := ∃ path, a.ownedAt? d path = some e

/--
The descriptors that are touched are changed in their provision and get more records; the others stay.
-/
structure Extends (a a' : Arena) (touched : DescriptorId → Prop) : Prop where
  descriptors : a.descriptors.size ≤ a'.descriptors.size
  records : a.records.size ≤ a'.records.size
  use : ∀ {r : RecordId}, r.index < a.records.size → (a.record r).SameUse (a'.record r)
  redirect : ∀ {d : DescriptorId}, d.index < a.descriptors.size → (a'.descriptor d).redirect = (a.descriptor d).redirect
  same : ∀ {d : DescriptorId}, d.index < a.descriptors.size → ¬ touched d → a.SameAt a' d
  owned : ∀ {d e : DescriptorId} {name : String}, a.ownedBy? d name = some e → a'.ownedBy? d name = some e
  created : ∀ {d e : DescriptorId} {name : String},
    a'.ownedBy? d name = some e → a.ownedBy? d name = some e ∨ a.descriptors.size ≤ e.index

theorem SameAt.holds {s : Slot} (h : a.SameAt a' d) (hsize : a.descriptors.size ≤ a'.descriptors.size)
    (hr : a.Holds s r) (hs : s.descriptor = d) : a'.Holds s r := by
  cases hr with
  | @other c hc =>
    obtain rfl : c = d := hs
    rw [← h.descriptor]
    exact .other (Nat.lt_of_lt_of_le hc hsize)
  | @sideEffects c hc =>
    obtain rfl : c = d := hs
    rw [← h.descriptor]
    exact .sideEffects (Nat.lt_of_lt_of_le hc hsize)
  | @listed c name r hlisted =>
    obtain rfl : c = d := hs
    rw [listed?, ← h.descriptor] at hlisted
    exact .listed hlisted

section Nested

theorem createNested_of_owned (h : (a.record r).ownedNested = some e) : a.createNested r = (a, e) := by
  rw [createNested, h]

variable (h : (a.record r).ownedNested = none)
include h

theorem createNested_snd : (a.createNested r).2 = ⟨a.descriptors.size⟩ := by
  rw [createNested, h]
  rfl

theorem size_createNested : (a.createNested r).1.descriptors.size = a.descriptors.size + 1 := by
  rw [createNested, h]
  simp [modifyRecord]

theorem records_createNested : (a.createNested r).1.records.size = a.records.size + 2 := by
  rw [createNested, h]
  simp [modifyRecord, modifyDescriptor, newDescriptorOf]

theorem descriptor_createNested (hd : d.index < a.descriptors.size)
    : (a.createNested r).1.descriptor d = a.descriptor d := by
  have hne : d ≠ (a.newDescriptorOf (some r)).2 := by
    rintro rfl
    exact Nat.lt_irrefl _ hd
  rw [createNested, h]
  refine (descriptor_modifyDescriptor_of_ne _ hne).trans ?_
  exact descriptor_newDescriptorOf_of_lt (some r) hd

theorem exports_createNested (d : DescriptorId)
    : ((a.createNested r).1.descriptor d).exports = (a.descriptor d).exports := by
  rw [createNested, h]
  refine (modifyDescriptor_congr Descriptor.exports ?_ _ d).trans ?_
  · exact fun _ => rfl
  · exact newDescriptorOf_congr Descriptor.exports (fun _ _ _ => rfl) (some r) d

theorem record_createNested {s : RecordId} (hs : s.index < a.records.size)
    : (a.createNested r).1.record s
        =
      if s = r then { a.record s with nested := some ⟨a.descriptors.size⟩, nestedOwned := true } else a.record s := by
  have hold : ((a.newDescriptorOf (some r)).1.modifyRecord
      ((a.newDescriptorOf (some r)).1.descriptor (a.newDescriptorOf (some r)).2).other
        ExportRecord.completeProvision).record s = a.record s := by
    rw [record_modifyRecord_of_ne, record_newDescriptorOf]
    rintro rfl
    rw [show (a.newDescriptorOf (some r)).2 = ⟨a.descriptors.size⟩ from rfl, descriptor_newDescriptorOf] at hs
    exact Nat.lt_irrefl _ hs
  rw [createNested, h]
  dsimp only
  split
  next heq =>
    subst heq
    refine (record_modifyRecord_self _ ?_).trans ?_
    · simp only [modifyRecord, modifyDescriptor, newDescriptorOf, Array.size_modify, Array.size_push]
      omega
    · exact congrArg ({ · with nested := some ⟨a.descriptors.size⟩, nestedOwned := true }) hold
  next hne => exact (record_modifyRecord_of_ne _ hne).trans hold

end Nested

theorem Tidy.ownedAt?_of_lt (h : a'.Tidy) {path : List String}
    (hcreated : ∀ {d e : DescriptorId} {name : String},
      a'.ownedBy? d name = some e → a.ownedBy? d name = some e ∨ a.descriptors.size ≤ e.index)
    (he : a'.ownedAt? d path = some e) (hlt : e.index < a.descriptors.size) : a.ownedAt? d path = some e := by
  induction path generalizing d with
  | nil => exact he
  | cons name path ih =>
    obtain ⟨f, hf, hpath⟩ := ownedAt?_cons.1 he
    have hle := h.le_of_ownedAt? hpath
    have hold := (hcreated hf).resolve_right (by omega)
    exact ownedAt?_cons.2 ⟨f, hold, ih hpath⟩

namespace Extends

variable {touched touched' : DescriptorId → Prop} {path : List String}

theorem refl (a : Arena) (touched : DescriptorId → Prop) : a.Extends a touched where
  descriptors := Nat.le_refl _
  records := Nat.le_refl _
  use _ := {}
  redirect _ := rfl
  same _ _ := ⟨rfl, fun _ _ => rfl⟩
  owned := id
  created := .inl

theorem trans (h : a.Extends a' touched) (h' : a'.Extends a'' touched')
    (htouched : ∀ d, d.index < a.descriptors.size → touched' d → touched d) : a.Extends a'' touched where
  descriptors := Nat.le_trans h.descriptors h'.descriptors
  records := Nat.le_trans h.records h'.records
  use := by
    intro r hr
    exact (h.use hr).trans (h'.use (Nat.lt_of_lt_of_le hr h.records))
  redirect := by
    intro d hd
    rw [h'.redirect (Nat.lt_of_lt_of_le hd h.descriptors), h.redirect hd]
  same := by
    intro d hd hnot
    have hsame := h.same hd hnot
    have hsame' := h'.same (Nat.lt_of_lt_of_le hd h.descriptors) fun ht => hnot (htouched d hd ht)
    constructor
    · rw [hsame'.descriptor, hsame.descriptor]
    · intro s r hr hs
      rw [hsame'.record (hsame.holds h.descriptors hr hs) hs, hsame.record hr hs]
  owned := by
    intro d e name he
    exact h'.owned (h.owned he)
  created := by
    intro d e name he
    rcases h'.created he with hold | hnew
    · exact h.created hold
    · exact .inr (Nat.le_trans h.descriptors hnew)

theorem ownedAt? (h : a.Extends a' touched) (he : a.ownedAt? d path = some e) : a'.ownedAt? d path = some e :=
  ownedAt?_mono h.owned he

theorem ownedAt?_of_lt (h : a.Extends a' touched) (htidy : a'.Tidy) (he : a'.ownedAt? d path = some e)
    (hlt : e.index < a.descriptors.size) : a.ownedAt? d path = some e := htidy.ownedAt?_of_lt h.created he hlt

theorem modifyRecord (htidy : a.Tidy) {s : Slot} (hr : a.Holds s r) (facts : ProvisionFacts)
    : a.Extends (a.modifyRecord r (·.assignProvision facts)) (· = s.descriptor) := by
  have howned (d : DescriptorId) (name : String)
      : (a.modifyRecord r (·.assignProvision facts)).ownedBy? d name = a.ownedBy? d name := by
    apply Option.bind_congr
    intro r' _
    rcases record_modifyRecord a r (·.assignProvision facts) r' with hsame | hnew
    · rw [hsame]
    · rw [hnew]
      rfl
  constructor
  · apply Nat.le_refl
  · exact Nat.le_of_eq Array.size_modify.symm
  · intro r' _
    rcases record_modifyRecord a r (·.assignProvision facts) r' with hsame | hnew
    · rw [hsame]
      exact {}
    · rw [hnew]
      exact {}
  · intro d _
    rfl
  · intro d _ hd
    refine ⟨rfl, ?_⟩
    intro s' r' hr' hs'
    apply record_modifyRecord_of_ne
    rintro rfl
    rw [← hs', htidy.once hr' hr] at hd
    exact hd rfl
  · intro d e name he
    rw [howned]
    exact he
  · intro d e name he
    rw [howned] at he
    exact .inl he

theorem insertLocal (htidy : a.Tidy) (hd : d.index < a.descriptors.size) (hname : a.listed? d name = none)
    : a.Extends (a.insertLocal d name).1 (· = d) := by
  have howned (e : DescriptorId) (n : String) : (a.insertLocal d name).1.ownedBy? e n = a.ownedBy? e n := by
    rw [ownedBy?, listed?_insertLocal hd, ownedBy?]
    split
    next hnew =>
      rw [hnew.1, hnew.2, hname, Option.bind_some, record_insertLocal, if_pos rfl]
      rfl
    · apply Option.bind_congr
      intro r hr
      rw [record_insertLocal_of_lt d name (htidy.lt (.listed hr))]
  constructor
  · rw [size_insertLocal]
  · simp [Arena.insertLocal, Arena.modifyDescriptor]
  · intro r hr
    rw [record_insertLocal_of_lt d name hr]
    exact {}
  · intro e _
    exact redirect_insertLocal d name e
  · intro e _ he
    refine ⟨descriptor_insertLocal_of_ne name he, ?_⟩
    intro s r hr _
    exact record_insertLocal_of_lt d name (htidy.lt hr)
  · intro e f n hf
    rw [howned]
    exact hf
  · intro e f n hf
    rw [howned] at hf
    exact .inl hf

theorem createNested (h : a.Sound) (hr : a.listed? d name = some r) : a.Extends (a.createNested r).1 (· = d) := by
  cases howned : (a.record r).ownedNested with
  | some e =>
    rw [createNested_of_owned howned]
    exact refl a _
  | none =>
    have hlisted {e : DescriptorId} {n : String} {r' : RecordId}
        : (a.createNested r).1.listed? e n = some r' ↔ a.listed? e n = some r' := by
      rw [listed?, exports_createNested howned]
      rfl
    constructor
    · rw [size_createNested howned]
      apply Nat.le_succ
    · rw [records_createNested howned]
      apply Nat.le_add_right
    · intro r' hr'
      rw [record_createNested howned hr']
      split
      next heq =>
        rw [heq]
        exact {}
      · exact {}
    · intro e he
      rw [descriptor_createNested howned he]
    · intro e he hne
      refine ⟨descriptor_createNested howned he, ?_⟩
      intro s r' hr' hs
      rw [record_createNested howned (h.tidy.lt hr'), if_neg]
      rintro rfl
      rw [← hs, h.tidy.once hr' (.listed hr)] at hne
      exact hne rfl
    · intro e f n hf
      obtain ⟨r', hr', hf⟩ := ownedBy?_eq_some.1 hf
      refine ownedBy?_eq_some.2 ⟨r', hlisted.2 hr', ?_⟩
      rw [record_createNested howned (h.tidy.lt (.listed hr')), if_neg]
      · exact hf
      · rintro rfl
        rw [howned] at hf
        cases hf
    · intro e f n hf
      obtain ⟨r', hr', hf⟩ := ownedBy?_eq_some.1 hf
      rw [hlisted] at hr'
      rw [record_createNested howned (h.tidy.lt (.listed hr'))] at hf
      split at hf
      · cases hf
        exact .inr (Nat.le_refl _)
      · exact .inl (ownedBy?_eq_some.2 ⟨r', hr', hf⟩)

end Extends

theorem ownedBy?_createNested (htidy : a.Tidy) (hr : a.listed? d name = some r)
    : (a.createNested r).1.ownedBy? d name = some (a.createNested r).2 := by
  cases howned : (a.record r).ownedNested with
  | some e =>
    rw [createNested_of_owned howned]
    exact ownedBy?_eq_some.2 ⟨r, hr, howned⟩
  | none =>
    refine ownedBy?_eq_some.2 ⟨r, ?_, ?_⟩
    · rw [listed?, exports_createNested howned]
      exact hr
    · rw [record_createNested howned (htidy.lt (.listed hr)), if_pos rfl, createNested_snd howned]
      rfl

theorem eq_of_createNested (hle : a.descriptors.size ≤ e.index)
    (hlt : e.index < (a.createNested r).1.descriptors.size) : e = (a.createNested r).2 := by
  cases howned : (a.record r).ownedNested with
  | some f =>
    rw [createNested_of_owned howned] at hlt
    exact absurd hlt (Nat.not_lt.2 hle)
  | none =>
    rw [size_createNested howned] at hlt
    rw [createNested_snd howned]
    exact DescriptorId.index_injective (Nat.le_antisymm (Nat.le_of_lt_succ hlt) hle)

structure SameFacts (a a' : Arena) (d : DescriptorId) : Prop where
  other : a'.otherFacts d = a.otherFacts d
  own : ∀ name, a'.ownFacts d name = a.ownFacts d name

theorem holds_ownRecord (hd : d.index < a.descriptors.size) (name : String)
    : a.Holds (.other d) (a.ownRecord d name) ∨ a.Holds (.listed d name) (a.ownRecord d name) := by
  unfold ownRecord
  cases hlisted : a.listed? d name with
  | none => exact .inl (.other hd)
  | some r => exact .inr (.listed hlisted)

namespace SameFacts

theorem trans (h : a.SameFacts a' d) (h' : a'.SameFacts a'' d) : a.SameFacts a'' d where
  other := h'.other.trans h.other
  own name := (h'.own name).trans (h.own name)

theorem ofRecords (hd : d.index < a.descriptors.size) (hdescriptor : a'.descriptor d = a.descriptor d)
    (hrecord : ∀ {s r}, a.Holds s r → s.descriptor = d → (a'.record r).provisionFacts = (a.record r).provisionFacts)
    : a.SameFacts a' d where
  other := by
    rw [otherFacts, hdescriptor]
    exact hrecord (.other hd) rfl
  own := by
    intro name
    have hown : a'.ownRecord d name = a.ownRecord d name := by
      rw [ownRecord, listed?, hdescriptor]
      rfl
    rw [ownFacts, hown]
    rcases holds_ownRecord hd name with hother | hlisted
    · exact hrecord hother rfl
    · exact hrecord hlisted rfl

theorem createNested (htidy : a.Tidy) (hd : d.index < a.descriptors.size) (r : RecordId)
    : a.SameFacts (a.createNested r).1 d := by
  cases howned : (a.record r).ownedNested with
  | some e =>
    rw [createNested_of_owned howned]
    exact ⟨rfl, fun _ => rfl⟩
  | none =>
    apply ofRecords hd (descriptor_createNested howned hd)
    intro s r' hr' _
    rw [record_createNested howned (htidy.lt hr')]
    split
    · rfl
    · rfl

theorem insertLocal (htidy : a.Tidy) (hd : d.index < a.descriptors.size) (hname : a.listed? d name = none)
    : a.SameFacts (a.insertLocal d name).1 d := by
  have hother : ((a.insertLocal d name).1.descriptor d).other = (a.descriptor d).other :=
    insertLocal_congr Descriptor.other (fun _ _ => rfl) d name d
  constructor
  · rw [otherFacts, hother, record_insertLocal_of_lt d name (htidy.lt (.other hd))]
    rfl
  · intro n
    by_cases hn : n = name
    · subst hn
      rw [ownFacts_of_not_listed hname, ownFacts_of_listed? (r := ⟨a.records.size⟩), record_insertLocal, if_pos rfl]
      · rfl
      · rw [listed?_insertLocal hd, if_pos ⟨rfl, rfl⟩]
    · have hown : (a.insertLocal d name).1.ownRecord d n = a.ownRecord d n := by
        rw [ownRecord, listed?_insertLocal hd, if_neg (fun h => hn h.2), hother]
        rfl
      have hlt : (a.ownRecord d n).index < a.records.size := by
        rcases holds_ownRecord hd n with hother | hlisted
        · exact htidy.lt hother
        · exact htidy.lt hlisted
      rw [ownFacts, hown, record_insertLocal_of_lt d name hlt]
      rfl

end SameFacts

theorem SameAt.sameFacts (h : a.SameAt a' d) (hd : d.index < a.descriptors.size) : a.SameFacts a' d := by
  apply SameFacts.ofRecords hd h.descriptor
  intro s r hr hs
  rw [h.record hr hs]

section Assign

variable (htidy : a.Tidy) (facts : ProvisionFacts)
include htidy

theorem otherFacts_modifyRecord (hr : a.listed? d name = some r)
    : (a.modifyRecord r (·.assignProvision facts)).otherFacts d = a.otherFacts d := by
  refine congrArg ExportRecord.provisionFacts (record_modifyRecord_of_ne _ ?_)
  intro heq
  have hother : a.Holds (.other d) r := heq ▸ .other (lt_of_listed? hr)
  cases htidy.once hother (.listed hr)

theorem ownFacts_modifyRecord (hr : a.listed? d name = some r) (n : String)
    : (a.modifyRecord r (·.assignProvision facts)).ownFacts d n = if n = name then facts else a.ownFacts d n := by
  split
  next hn =>
    subst hn
    have hassigned := record_modifyRecord_self (·.assignProvision facts) (htidy.lt (.listed hr))
    rw [ownFacts_of_listed? (a := a.modifyRecord r _) hr, hassigned]
    rfl
  next hn =>
    refine congrArg ExportRecord.provisionFacts (record_modifyRecord_of_ne _ ?_)
    intro heq
    have hown := holds_ownRecord (lt_of_listed? hr) n
    rw [show a.ownRecord d n = r from heq] at hown
    rcases hown with hother | hlisted
    · cases htidy.once hother (.listed hr)
    · cases htidy.once hlisted (.listed hr)
      exact hn rfl

end Assign

section AssignLocal

theorem listed?_getOrInsertLocal (hd : d.index < a.descriptors.size) (name : String)
    : (a.getOrInsertLocal d name).1.listed? d name = some (a.getOrInsertLocal d name).2 := by
  unfold getOrInsertLocal
  split
  next r hr => exact hr
  · rw [listed?_insertLocal hd, if_pos ⟨rfl, rfl⟩]
    rfl

theorem Extends.getOrInsertLocal (htidy : a.Tidy) (hd : d.index < a.descriptors.size) (name : String)
    : a.Extends (a.getOrInsertLocal d name).1 (· = d) := by
  unfold Arena.getOrInsertLocal
  split
  · exact refl a _
  next hname => exact insertLocal htidy hd hname

theorem SameFacts.getOrInsertLocal (htidy : a.Tidy) (hd : d.index < a.descriptors.size) (name : String)
    : a.SameFacts (a.getOrInsertLocal d name).1 d := by
  unfold Arena.getOrInsertLocal
  split
  · exact ⟨rfl, fun _ => rfl⟩
  next hname => exact insertLocal htidy hd hname

theorem Sound.getOrInsertLocal (h : a.Sound) (d : DescriptorId) (name : String) : (a.getOrInsertLocal d name).1.Sound :=
  h.steps (StepsBy.getOrInsertLocal a d name)

theorem listed?_assignLocal (hd : d.index < a.descriptors.size) (name : String) (facts : ProvisionFacts)
    : (a.assignLocal d name facts).1.listed? d name = some (a.assignLocal d name facts).2 :=
  listed?_getOrInsertLocal hd name

theorem size_assignLocal (a : Arena) (d : DescriptorId) (name : String) (facts : ProvisionFacts)
    : (a.assignLocal d name facts).1.descriptors.size = a.descriptors.size := by
  change (a.getOrInsertLocal d name).1.descriptors.size = a.descriptors.size
  unfold getOrInsertLocal
  split
  · rfl
  · apply size_insertLocal

variable (h : a.Sound) (hd : d.index < a.descriptors.size) (name : String) (facts : ProvisionFacts)
include h hd

theorem Extends.assignLocal : a.Extends (a.assignLocal d name facts).1 (· = d) := by
  have hlisted := Holds.listed (listed?_getOrInsertLocal hd name)
  exact (getOrInsertLocal h.tidy hd name).trans (.modifyRecord (h.getOrInsertLocal d name).tidy hlisted facts)
    fun _ _ => id

theorem otherFacts_assignLocal : (a.assignLocal d name facts).1.otherFacts d = a.otherFacts d := by
  refine (otherFacts_modifyRecord (h.getOrInsertLocal d name).tidy facts (listed?_getOrInsertLocal hd name)).trans ?_
  exact (SameFacts.getOrInsertLocal h.tidy hd name).other

theorem ownFacts_assignLocal (n : String)
    : (a.assignLocal d name facts).1.ownFacts d n = if n = name then facts else a.ownFacts d n := by
  refine (ownFacts_modifyRecord (h.getOrInsertLocal d name).tidy facts (listed?_getOrInsertLocal hd name) n).trans ?_
  rw [(SameFacts.getOrInsertLocal h.tidy hd name).own]

end AssignLocal

def reset (a : Arena) (d : DescriptorId) (facts : ProvisionFacts) : Arena :=
  (a.locals d ++ [(a.descriptor d).other]).foldl (fun a r => a.modifyRecord r (·.assignProvision facts)) a

section Reset

variable {rs : List RecordId}

theorem Extends.assignAll (htidy : a.Tidy) (hrs : ∀ r ∈ rs, ∃ s : Slot, a.Holds s r ∧ s.descriptor = d)
    (facts : ProvisionFacts)
    : a.Extends (rs.foldl (fun a r => a.modifyRecord r (·.assignProvision facts)) a) (· = d) := by
  induction rs generalizing a with
  | nil => exact refl a _
  | cons r rs ih =>
    obtain ⟨s, hs, rfl⟩ := hrs r List.mem_cons_self
    refine (modifyRecord htidy hs facts).trans (ih (htidy.modifyRecord r rfl rfl) ?_) fun _ _ => id
    intro r' hr'
    obtain ⟨s', hs', hslot⟩ := hrs r' (List.mem_cons_of_mem r hr')
    exact ⟨s', hs'.modifyRecord, hslot⟩

end Reset

theorem Extends.reset (h : a.Sound) (hd : d.index < a.descriptors.size) (facts : ProvisionFacts)
    : a.Extends (a.reset d facts) (· = d) := by
  apply assignAll h.tidy
  intro r hr
  rcases List.mem_append.1 hr with hlocal | hother
  · obtain ⟨name, hlisted, -⟩ := h.named.listed_of_mem hlocal
    exact ⟨_, .listed hlisted, rfl⟩
  · rw [List.mem_singleton.1 hother]
    exact ⟨_, .other hd, rfl⟩

theorem Sound.reset (h : a.Sound) (d : DescriptorId) (facts : ProvisionFacts) : (a.reset d facts).Sound :=
  h.steps (.ofGrows (.modifyRecords a _ _ fun _ => {}))

theorem Sound.restore (h : a.Sound) (d : DescriptorId) (s : ProvisionSnapshot) : (a.restore d s).Sound :=
  h.steps (StepsBy.restore (fun _ _ => {}) a h.listsExisting d s)

theorem size_reset (a : Arena) (d : DescriptorId) (facts : ProvisionFacts)
    : (a.reset d facts).descriptors.size = a.descriptors.size := by
  rw [reset, descriptors_modifyAll]

theorem facts_reset (htidy : a.Tidy) (hd : d.index < a.descriptors.size) (facts : ProvisionFacts)
    : (a.reset d facts).otherFacts d = facts ∧ ∀ name, (a.reset d facts).ownFacts d name = facts := by
  have hdescriptor : (a.reset d facts).descriptor d = a.descriptor d := by
    rw [descriptor, reset, descriptors_modifyAll]
    rfl
  have hassigned {s : Slot} {r : RecordId} (hr : a.Holds s r) (hmem : r ∈ a.locals d ++ [(a.descriptor d).other])
      : ((a.reset d facts).record r).provisionFacts = facts := by
    rw [reset, record_modifyAll (f := (·.assignProvision facts)) _ (fun _ => rfl) (htidy.lt hr), if_pos hmem]
    rfl
  have hother : (a.reset d facts).otherFacts d = facts := by
    rw [otherFacts, hdescriptor]
    exact hassigned (.other hd) (List.mem_append_right _ (List.mem_singleton_self _))
  refine ⟨hother, ?_⟩
  intro name
  have hlisted : (a.reset d facts).listed? d name = a.listed? d name := by
    rw [listed?, hdescriptor]
    rfl
  cases hr : a.listed? d name with
  | none =>
    rw [hr] at hlisted
    rw [ownFacts_of_not_listed hlisted]
    exact hother
  | some r =>
    rw [hr] at hlisted
    rw [ownFacts_of_listed? hlisted]
    exact hassigned (.listed hr) (List.mem_append_left _ (Dict.mem_values_of_get? hr))

end Arena
end ModuleLink
