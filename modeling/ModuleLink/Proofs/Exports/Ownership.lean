import Mathlib.Data.List.Induction
import ModuleLink.Proofs.Exports.Usage

/-!
This module contains the proof that descriptors and records form a forest in every arena that operations lead to: a
record is held in one place, a descriptor is owned by one record at most, and it is newer than the descriptor that lists
its owner. A descriptor below another is therefore found by one path of names only.
-/

namespace ModuleLink

inductive Slot where
  | other (d : DescriptorId)
  | sideEffects (d : DescriptorId)
  | listed (d : DescriptorId) (name : String)

namespace Slot

def descriptor : Slot → DescriptorId
  | .other d | .sideEffects d | .listed d _ => d

def name? : Slot → Option String
  | .other _ | .sideEffects _ => none
  | .listed _ name => some name

end Slot

namespace Arena

variable {a a' : Arena} {d e : DescriptorId} {r : RecordId} {s : Slot} {name : String}

inductive Holds (a : Arena) : Slot → RecordId → Prop where
  | other {d : DescriptorId} : d.index < a.descriptors.size → a.Holds (.other d) (a.descriptor d).other
  | sideEffects {d : DescriptorId} :
      d.index < a.descriptors.size → a.Holds (.sideEffects d) (a.descriptor d).sideEffects
  | listed {d : DescriptorId} {name : String} {r : RecordId} : a.listed? d name = some r → a.Holds (.listed d name) r

theorem lt_of_listed? (h : a.listed? d name = some r) : d.index < a.descriptors.size := by
  cases Nat.lt_or_ge d.index a.descriptors.size with
  | inl hlt => exact hlt
  | inr hge =>
    rw [listed?, descriptor, Array.getElem?_eq_none hge] at h
    cases h

@[simp]
theorem size_insertLocal (a : Arena) (d : DescriptorId) (name : String)
    : (a.insertLocal d name).1.descriptors.size = a.descriptors.size := size_modifyDescriptor _ d _

theorem descriptor_insertLocal (hd : d.index < a.descriptors.size) (name : String)
    : (a.insertLocal d name).1.descriptor d
        =
      { a.descriptor d with exports := (a.descriptor d).exports.insert name ⟨a.records.size⟩ } :=
  descriptor_modifyDescriptor (a := { a with records := _ }) _ hd

theorem descriptor_insertLocal_of_ne (name : String) (h : e ≠ d)
    : (a.insertLocal d name).1.descriptor e = a.descriptor e :=
  descriptor_modifyDescriptor_of_ne (a := { a with records := _ }) _ h

theorem listed?_insertLocal (hd : d.index < a.descriptors.size) (name : String) (e : DescriptorId) (n : String)
    : (a.insertLocal d name).1.listed? e n
        =
      if e = d ∧ n = name then some ⟨a.records.size⟩ else a.listed? e n := by
  rw [listed?]
  by_cases he : e = d
  · rw [he, descriptor_insertLocal hd, Dict.get?_insert]
    by_cases hn : n = name
    · simp [hn]
    · simp [hn, Ne.symm hn, listed?]
  · rw [descriptor_insertLocal_of_ne name he, if_neg fun h => he h.1]
    rfl

theorem record_insertLocal_of_lt (d : DescriptorId) (name : String) (hr : r.index < a.records.size)
    : (a.insertLocal d name).1.record r = a.record r := by
  rw [record_insertLocal, if_neg (Nat.ne_of_lt hr)]

theorem descriptor_newDescriptorOf (a : Arena) (owner : Option RecordId)
    : (a.newDescriptorOf owner).1.descriptor ⟨a.descriptors.size⟩
        =
      { other := ⟨a.records.size⟩, sideEffects := ⟨a.records.size + 1⟩, owner } := by
  simp [descriptor, newDescriptorOf]

theorem descriptor_newDescriptorOf_of_lt (owner : Option RecordId) (hd : d.index < a.descriptors.size)
    : (a.newDescriptorOf owner).1.descriptor d = a.descriptor d := by
  simp [descriptor, newDescriptorOf, Array.getElem?_push, Nat.ne_of_lt hd]

namespace Holds

theorem lt_size (h : a.Holds s r) : s.descriptor.index < a.descriptors.size := by
  cases h with
  | other hd => exact hd
  | sideEffects hd => exact hd
  | listed hlisted => exact lt_of_listed? hlisted

theorem modifyRecord {f : ExportRecord → ExportRecord} {r' : RecordId} (h : a.Holds s r)
    : (a.modifyRecord r' f).Holds s r := by
  cases h with
  | other hd => exact .other hd
  | sideEffects hd => exact .sideEffects hd
  | listed hlisted => exact .listed hlisted

theorem ofModifyRecord {f : ExportRecord → ExportRecord} {r' : RecordId} (h : (a.modifyRecord r' f).Holds s r)
    : a.Holds s r := by
  cases h with
  | other hd => exact .other hd
  | sideEffects hd => exact .sideEffects hd
  | listed hlisted => exact .listed hlisted

theorem ofModifyDescriptor {f : Descriptor → Descriptor} (h : (a.modifyDescriptor d f).Holds s r)
    (hexports : ∀ x, (f x).exports = x.exports) (hother : ∀ x, (f x).other = x.other)
    (hsideEffects : ∀ x, (f x).sideEffects = x.sideEffects) : a.Holds s r := by
  cases h with
  | other hd =>
    rw [size_modifyDescriptor] at hd
    rw [modifyDescriptor_congr Descriptor.other hother]
    exact .other hd
  | sideEffects hd =>
    rw [size_modifyDescriptor] at hd
    rw [modifyDescriptor_congr Descriptor.sideEffects hsideEffects]
    exact .sideEffects hd
  | listed hlisted =>
    rw [listed?, modifyDescriptor_congr Descriptor.exports hexports] at hlisted
    exact .listed hlisted

theorem ofInsertLocal (h : (a.insertLocal d name).1.Holds s r)
    : a.Holds s r ∨ (s = .listed d name ∧ r = ⟨a.records.size⟩) := by
  cases h with
  | other hd =>
    rw [insertLocal_congr Descriptor.other fun _ _ => rfl]
    exact .inl (.other (by simpa [insertLocal] using hd))
  | sideEffects hd =>
    rw [insertLocal_congr Descriptor.sideEffects fun _ _ => rfl]
    exact .inl (.sideEffects (by simpa [insertLocal] using hd))
  | @listed e n r hlisted =>
    by_cases he : e = d
    · subst he
      have hd := lt_of_listed? hlisted
      rw [size_insertLocal] at hd
      rw [listed?_insertLocal hd] at hlisted
      split at hlisted
      next hn =>
        cases hlisted
        exact .inr ⟨by rw [hn.2], rfl⟩
      · exact .inl (.listed hlisted)
    · rw [listed?, descriptor_insertLocal_of_ne name he] at hlisted
      exact .inl (.listed hlisted)

theorem ofNewDescriptorOf {owner : Option RecordId} (h : (a.newDescriptorOf owner).1.Holds s r)
    : a.Holds s r
        ∨
      (s = .other ⟨a.descriptors.size⟩ ∧ r = ⟨a.records.size⟩)
        ∨
      (s = .sideEffects ⟨a.descriptors.size⟩ ∧ r = ⟨a.records.size + 1⟩) := by
  cases h with
  | @other d hd =>
    rw [size_newDescriptorOf, Nat.lt_succ_iff_lt_or_eq] at hd
    cases hd with
    | inl hlt =>
      rw [descriptor_newDescriptorOf_of_lt owner hlt]
      exact .inl (.other hlt)
    | inr heq =>
      have hnew : d = ⟨a.descriptors.size⟩ := DescriptorId.index_injective heq
      rw [hnew, descriptor_newDescriptorOf]
      exact .inr (.inl ⟨rfl, rfl⟩)
  | @sideEffects d hd =>
    rw [size_newDescriptorOf, Nat.lt_succ_iff_lt_or_eq] at hd
    cases hd with
    | inl hlt =>
      rw [descriptor_newDescriptorOf_of_lt owner hlt]
      exact .inl (.sideEffects hlt)
    | inr heq =>
      have hnew : d = ⟨a.descriptors.size⟩ := DescriptorId.index_injective heq
      rw [hnew, descriptor_newDescriptorOf]
      exact .inr (.inr ⟨rfl, rfl⟩)
  | listed hlisted =>
    rw [listed?, newDescriptorOf_congr Descriptor.exports fun _ _ _ => rfl] at hlisted
    exact .inl (.listed hlisted)

end Holds

theorem Linked.lt_of_ownedNested (h : a.Linked) (hr : (a.record r).ownedNested = some d)
    : d.index < a.descriptors.size := by
  unfold ExportRecord.ownedNested at hr
  split at hr
  · exact h.nested hr
  · cases hr

/--
Records are in one place, which gives them their name, and own descriptors that are theirs alone.
-/
structure Tidy (a : Arena) : Prop where
  lt : ∀ {s : Slot} {r : RecordId}, a.Holds s r → r.index < a.records.size
  once : ∀ {s s' : Slot} {r : RecordId}, a.Holds s r → a.Holds s' r → s = s'
  name : ∀ {s : Slot} {r : RecordId}, a.Holds s r → (a.record r).name = s.name?
  owner : ∀ {r r' : RecordId} {d : DescriptorId},
    (a.record r).ownedNested = some d → (a.record r').ownedNested = some d → r = r'
  newer : ∀ {d e : DescriptorId} {name : String} {r : RecordId},
    a.listed? d name = some r → (a.record r).ownedNested = some e → d.index < e.index

namespace Tidy

theorem empty : ({} : Arena).Tidy where
  lt h := absurd h.lt_size (Nat.not_lt_zero _)
  once h := absurd h.lt_size (Nat.not_lt_zero _)
  name h := absurd h.lt_size (Nat.not_lt_zero _)
  owner h := by cases h
  newer h := absurd (lt_of_listed? h) (Nat.not_lt_zero _)

theorem extend (h : a.Tidy) (fresh : Slot → RecordId → Prop)
    (hholds : ∀ {s r}, a'.Holds s r → a.Holds s r ∨ fresh s r)
    (hfresh : ∀ {s r}, fresh s r → a.records.size ≤ r.index ∧ r.index < a'.records.size ∧ (a'.record r).name = s.name?)
    (honce : ∀ {s s' r}, fresh s r → fresh s' r → s = s')
    (hsize : a.records.size ≤ a'.records.size)
    (hname : ∀ r, r.index < a.records.size → (a'.record r).name = (a.record r).name)
    (howned : ∀ r, (a'.record r).ownedNested = (a.record r).ownedNested) : a'.Tidy where
  lt := by
    intro s r hr
    cases hholds hr with
    | inl hold => exact Nat.lt_of_lt_of_le (h.lt hold) hsize
    | inr hnew => exact (hfresh hnew).2.1
  once := by
    intro s s' r hr hr'
    rcases hholds hr with hold | hnew
    · rcases hholds hr' with hold' | hnew'
      · exact h.once hold hold'
      · exact absurd (h.lt hold) (Nat.not_lt.2 (hfresh hnew').1)
    · rcases hholds hr' with hold' | hnew'
      · exact absurd (h.lt hold') (Nat.not_lt.2 (hfresh hnew).1)
      · exact honce hnew hnew'
  name := by
    intro s r hr
    cases hholds hr with
    | inl hold =>
      rw [hname r (h.lt hold)]
      exact h.name hold
    | inr hnew => exact (hfresh hnew).2.2
  owner := by
    intro r r' d hr hr'
    rw [howned] at hr hr'
    exact h.owner hr hr'
  newer := by
    intro d e name r hr he
    rw [howned] at he
    cases hholds (.listed hr) with
    | inl hold =>
      cases hold with
      | listed hlisted => exact h.newer hlisted he
    | inr hnew =>
      rw [record_of_le (hfresh hnew).1] at he
      cases he

theorem keep (h : a.Tidy) (hholds : ∀ {s r}, a'.Holds s r → a.Holds s r) (hsize : a.records.size ≤ a'.records.size)
    (hname : ∀ r, (a'.record r).name = (a.record r).name)
    (howned : ∀ r, (a'.record r).ownedNested = (a.record r).ownedNested) : a'.Tidy :=
  h.extend (fun _ _ => False) (fun hr => .inl (hholds hr)) nofun nofun hsize (fun r _ => hname r) howned

theorem modifyRecord (h : a.Tidy) (r : RecordId) {f : ExportRecord → ExportRecord}
    (hname : (f (a.record r)).name = (a.record r).name)
    (howned : (f (a.record r)).ownedNested = (a.record r).ownedNested) : (a.modifyRecord r f).Tidy := by
  have hrecord (s : RecordId) : (a.modifyRecord r f).record s = a.record s ∨
      (s = r ∧ (a.modifyRecord r f).record s = f (a.record r)) := by
    by_cases hs : s = r
    · subst hs
      exact (record_modifyRecord a s f s).imp_right fun hnew => ⟨rfl, hnew⟩
    · exact .inl (record_modifyRecord_of_ne f hs)
  apply h.keep
  · exact .ofModifyRecord
  · exact Nat.le_of_eq Array.size_modify.symm
  · intro s
    rcases hrecord s with hsame | ⟨rfl, hnew⟩
    · rw [hsame]
    · rw [hnew, hname]
  · intro s
    rcases hrecord s with hsame | ⟨rfl, hnew⟩
    · rw [hsame]
    · rw [hnew, howned]

theorem setRedirect (h : a.Tidy) (d : DescriptorId) (target : Option DescriptorId)
    : (a.modifyDescriptor d ({ · with redirect := target })).Tidy := by
  apply h.keep
  · intro s r hr
    exact hr.ofModifyDescriptor (fun _ => rfl) (fun _ => rfl) (fun _ => rfl)
  · apply Nat.le_refl
  · exact fun _ => rfl
  · exact fun _ => rfl

theorem insertLocal (h : a.Tidy) (d : DescriptorId) (name : String) : (a.insertLocal d name).1.Tidy := by
  have hnew {r : RecordId} (hr : r = ⟨a.records.size⟩)
      : (a.insertLocal d name).1.record r = .seeded name (a.record (a.descriptor d).other) := by
    rw [record_insertLocal, if_pos (by rw [hr])]
  apply h.extend (fun s r => s = .listed d name ∧ r = ⟨a.records.size⟩)
  · exact Holds.ofInsertLocal
  · rintro s r ⟨rfl, hr⟩
    rw [hnew hr, hr]
    exact ⟨Nat.le_refl _, by simp [Arena.insertLocal, Arena.modifyDescriptor], rfl⟩
  · rintro s s' r ⟨rfl, -⟩ ⟨rfl, -⟩
    rfl
  · simp [Arena.insertLocal, Arena.modifyDescriptor]
  · intro r hr
    rw [record_insertLocal_of_lt d name hr]
  · intro r
    rw [record_insertLocal]
    split
    next hr =>
      rw [record_of_le (Nat.le_of_eq hr.symm)]
      rfl
    · rfl

theorem newDescriptorOf (h : a.Tidy) (owner : Option RecordId) : (a.newDescriptorOf owner).1.Tidy := by
  have hsize : (a.newDescriptorOf owner).1.records.size = a.records.size + 2 := by
    simp [Arena.newDescriptorOf]
  apply h.extend fun s r => (s = .other ⟨a.descriptors.size⟩ ∧ r = ⟨a.records.size⟩) ∨
    (s = .sideEffects ⟨a.descriptors.size⟩ ∧ r = ⟨a.records.size + 1⟩)
  · exact Holds.ofNewDescriptorOf
  · rintro s r (⟨rfl, rfl⟩ | ⟨rfl, rfl⟩)
    · refine ⟨Nat.le_refl _, ?_, ?_⟩
      · rw [hsize]
        exact Nat.lt_add_of_pos_right Nat.two_pos
      · rw [record_newDescriptorOf, record_of_le (r := ⟨a.records.size⟩) (Nat.le_refl _)]
        rfl
    · refine ⟨Nat.le_succ _, ?_, ?_⟩
      · rw [hsize]
        apply Nat.lt_succ_self
      · rw [record_newDescriptorOf, record_of_le (Nat.le_succ _)]
        rfl
  · rintro s s' r (⟨rfl, rfl⟩ | ⟨rfl, rfl⟩) (⟨rfl, hr⟩ | ⟨rfl, hr⟩)
    · rfl
    · simp at hr
    · simp at hr
    · rfl
  · rw [hsize]
    apply Nat.le_add_right
  · intro r _
    rw [record_newDescriptorOf]
  · intro r
    rw [record_newDescriptorOf]

theorem own (h : a.Tidy) (hfree : ∀ s, (a.record s).ownedNested ≠ some d)
    (hnewer : ∀ e name, a.listed? e name = some r → e.index < d.index)
    : (a.modifyRecord r ({ · with nested := some d, nestedOwned := true })).Tidy := by
  have howned {s : RecordId} {e : DescriptorId}
      (hs : ((a.modifyRecord r ({ · with nested := some d, nestedOwned := true })).record s).ownedNested = some e)
      : (a.record s).ownedNested = some e ∨ (s = r ∧ e = d) := by
    by_cases heq : s = r
    · subst heq
      rcases record_modifyRecord a s ({ · with nested := some d, nestedOwned := true }) s with hsame | hnew
      · rw [hsame] at hs
        exact .inl hs
      · rw [hnew] at hs
        cases hs
        exact .inr ⟨rfl, rfl⟩
    · rw [record_modifyRecord_of_ne _ heq] at hs
      exact .inl hs
  constructor
  · intro s r' hr'
    exact Nat.lt_of_lt_of_eq (h.lt hr'.ofModifyRecord) Array.size_modify.symm
  · intro s s' r' hr' hr''
    exact h.once hr'.ofModifyRecord hr''.ofModifyRecord
  · intro s r' hr'
    rw [← h.name hr'.ofModifyRecord]
    rcases record_modifyRecord a r ({ · with nested := some d, nestedOwned := true }) r' with hsame | hnew
    · rw [hsame]
    · rw [hnew]
  · intro s s' e hs hs'
    rcases howned hs with hold | ⟨rfl, rfl⟩
    · rcases howned hs' with hold' | ⟨rfl, rfl⟩
      · exact h.owner hold hold'
      · exact absurd hold (hfree s)
    · rcases howned hs' with hold' | ⟨rfl, -⟩
      · exact absurd hold' (hfree s')
      · rfl
  · intro e e' name s hs he'
    rcases howned he' with hold | ⟨rfl, rfl⟩
    · exact h.newer hs hold
    · exact hnewer e name hs

theorem createNested (h : a.Tidy) (hlinked : a.Linked) (r : RecordId) : (a.createNested r).1.Tidy := by
  unfold Arena.createNested
  split
  · exact h
  · dsimp only
    apply own
    · refine setRedirect (modifyRecord (h.newDescriptorOf (some r)) _ ?_ ?_) _ _
      · rfl
      · rfl
    · -- The descriptor is new, so that no record refers to it.
      intro s hs
      have howned : (a.record s).ownedNested = some (a.newDescriptorOf (some r)).2 := by
        rw [← hs, ← record_newDescriptorOf (some r) s]
        rcases record_modifyRecord (a.newDescriptorOf (some r)).1 _ ExportRecord.completeProvision s with hsame | hnew
        · exact congrArg ExportRecord.ownedNested hsame.symm
        · exact (congrArg ExportRecord.ownedNested hnew).symm
      exact Nat.lt_irrefl _ (hlinked.lt_of_ownedNested howned)
    · intro e name he
      have hholds := (Holds.listed he).ofModifyDescriptor (fun _ => rfl) (fun _ => rfl) (fun _ => rfl)
      rcases hholds.ofModifyRecord.ofNewDescriptorOf with hold | ⟨hslot, -⟩ | ⟨hslot, -⟩
      · exact hold.lt_size
      · cases hslot
      · cases hslot

theorem step (h : a.Tidy) (hlinked : a.Linked) (hstep : Step a a') : a'.Tidy := by
  cases hstep with
  | modifyRecord r f hf =>
    apply h.modifyRecord
    · exact (hf _).name
    · unfold ExportRecord.ownedNested
      rw [(hf _).nested, (hf _).nestedOwned]
  | insertLocal d name => exact h.insertLocal d name
  | newDescriptor => exact h.newDescriptorOf none
  | setRedirect d target =>
    rcases setRedirect_fst a d target with hsame | hnew
    · rw [hsame]
      exact h
    · rw [hnew]
      exact h.setRedirect d target
  | createNested r => exact h.createNested hlinked r
  | linkNested r d =>
    unfold Arena.linkNested
    split
    · exact h
    next hr =>
      have howned : (a.record r).nestedOwned = false := by
        simpa using fun howned => hr (.inl howned)
      apply h.modifyRecord
      · rfl
      · simp [ExportRecord.ownedNested, howned]

end Tidy

structure Sound (a : Arena) : Prop where
  linked : a.Linked
  named : a.Named
  tidy : a.Tidy

namespace Sound

theorem empty : ({} : Arena).Sound := ⟨.empty, .empty, .empty⟩

theorem step (h : a.Sound) (hstep : Step a a') : a'.Sound :=
  ⟨h.linked.step hstep, h.named.step hstep, h.tidy.step h.linked hstep⟩

theorem steps (h : a.Sound) (hsteps : Steps a a') : a'.Sound := hsteps.keep step h

theorem listsExisting (h : a.Sound) : a.ListsExisting := by
  intro x hx r hr
  obtain ⟨i, hi⟩ := Array.mem_iff_getElem?.1 hx
  have hx : a.descriptor ⟨i⟩ = x := by
    rw [descriptor, hi]
    rfl
  rw [← hx] at hr
  obtain ⟨name, hlisted, -⟩ := h.named.listed_of_mem hr
  exact h.tidy.lt (.listed hlisted)

theorem name_other (h : a.Sound) (hd : d.index < a.descriptors.size) : (a.record (a.other d)).name = none :=
  h.tidy.name (.other (h.linked.lt_of_mem_chain hd (a.chainEnd_mem d)))

end Sound

theorem Reachable.sound (h : a.Reachable) : a.Sound := h.invariant .empty .step

def ownedBy? (a : Arena) (d : DescriptorId) (name : String) : Option DescriptorId :=
  (a.listed? d name).bind fun r => (a.record r).ownedNested

/--
The descriptor that a path of names leads to, from each descriptor to the one that a record of it owns.
-/
def ownedAt? (a : Arena) (d : DescriptorId) : List String → Option DescriptorId
  | [] => some d
  | name :: path => (a.ownedBy? d name).bind fun e => a.ownedAt? e path

section Owned

variable {f : DescriptorId} {path path' : List String}

theorem ownedBy?_eq_some
    : a.ownedBy? d name = some e ↔ ∃ r, a.listed? d name = some r ∧ (a.record r).ownedNested = some e :=
  Option.bind_eq_some_iff

theorem ownedAt?_cons
    : a.ownedAt? d (name :: path) = some f ↔ ∃ e, a.ownedBy? d name = some e ∧ a.ownedAt? e path = some f :=
  Option.bind_eq_some_iff

theorem ownedAt?_mono
    (h : ∀ {d e : DescriptorId} {name : String}, a.ownedBy? d name = some e → a'.ownedBy? d name = some e)
    (hf : a.ownedAt? d path = some f) : a'.ownedAt? d path = some f := by
  induction path generalizing d with
  | nil => exact hf
  | cons name path ih =>
    obtain ⟨e, he, hpath⟩ := ownedAt?_cons.1 hf
    exact ownedAt?_cons.2 ⟨e, h he, ih hpath⟩

theorem Linked.lt_of_ownedBy? (h : a.Linked) (he : a.ownedBy? d name = some e) : e.index < a.descriptors.size := by
  obtain ⟨r, -, howned⟩ := ownedBy?_eq_some.1 he
  exact h.lt_of_ownedNested howned

theorem Linked.lt_of_ownedAt? (h : a.Linked) (hd : d.index < a.descriptors.size) (hf : a.ownedAt? d path = some f)
    : f.index < a.descriptors.size := by
  induction path generalizing d with
  | nil =>
    cases hf
    exact hd
  | cons name path ih =>
    obtain ⟨e, he, hpath⟩ := ownedAt?_cons.1 hf
    exact ih (h.lt_of_ownedBy? he) hpath

namespace Tidy

theorem lt_of_ownedBy? (h : a.Tidy) (he : a.ownedBy? d name = some e) : d.index < e.index := by
  obtain ⟨r, hlisted, howned⟩ := ownedBy?_eq_some.1 he
  exact h.newer hlisted howned

theorem le_of_ownedAt? (h : a.Tidy) (hf : a.ownedAt? d path = some f) : d.index ≤ f.index := by
  induction path generalizing d with
  | nil =>
    cases hf
    apply Nat.le_refl
  | cons name path ih =>
    obtain ⟨e, he, hpath⟩ := ownedAt?_cons.1 hf
    exact Nat.le_trans (Nat.le_of_lt (h.lt_of_ownedBy? he)) (ih hpath)

theorem ownedBy?_unique (h : a.Tidy) {d' : DescriptorId} {name' : String} (he : a.ownedBy? d name = some e)
    (he' : a.ownedBy? d' name' = some e) : d = d' ∧ name = name' := by
  obtain ⟨r, hlisted, howned⟩ := ownedBy?_eq_some.1 he
  obtain ⟨r', hlisted', howned'⟩ := ownedBy?_eq_some.1 he'
  cases h.owner howned howned'
  cases h.once (.listed hlisted) (.listed hlisted')
  exact ⟨rfl, rfl⟩

theorem ownedAt?_concat : a.ownedAt? d (path ++ [name]) = (a.ownedAt? d path).bind (a.ownedBy? · name) := by
  induction path generalizing d with
  | nil => simp [ownedAt?]
  | cons first path ih => simp [ownedAt?, Option.bind_assoc, ih]

theorem ownedAt?_injective (h : a.Tidy) (hf : a.ownedAt? d path = some f) (hf' : a.ownedAt? d path' = some f)
    : path = path' := by
  -- The last names are those of the owner, so that the paths are compared from their ends.
  induction path using List.reverseRecOn generalizing f path' with
  | nil =>
    cases hf
    cases path' with
    | nil => rfl
    | cons name' path' =>
      obtain ⟨e, he, hpath⟩ := ownedAt?_cons.1 hf'
      exact absurd (h.le_of_ownedAt? hpath) (Nat.not_le.2 (h.lt_of_ownedBy? he))
  | append_singleton path name ih =>
    rw [ownedAt?_concat, Option.bind_eq_some_iff] at hf
    obtain ⟨e, he, hlast⟩ := hf
    cases path' using List.reverseRecOn with
    | nil =>
      cases hf'
      exact absurd (h.le_of_ownedAt? he) (Nat.not_le.2 (h.lt_of_ownedBy? hlast))
    | append_singleton path' name' =>
      rw [ownedAt?_concat, Option.bind_eq_some_iff] at hf'
      obtain ⟨e', he', hlast'⟩ := hf'
      obtain ⟨rfl, rfl⟩ := h.ownedBy?_unique hlast hlast'
      rw [ih he he']

end Tidy

theorem Sound.owned_induction {motive : DescriptorId → Prop} (h : a.Sound)
    (step : ∀ d, (∀ name e, a.ownedBy? d name = some e → motive e) → motive d) (d : DescriptorId) : motive d := by
  induction hn : a.descriptors.size - d.index using Nat.strongRecOn generalizing d with
  | ind n ih =>
    apply step
    intro name e he
    have hlt := h.linked.lt_of_ownedBy? he
    have hnewer := h.tidy.lt_of_ownedBy? he
    exact ih (a.descriptors.size - e.index) (by omega) e rfl

end Owned

end Arena
end ModuleLink
