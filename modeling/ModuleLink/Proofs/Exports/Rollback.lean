import ModuleLink.Proofs.Exports.Forest
import ModuleLink.Proofs.Exports.Restore
import ModuleLink.Proofs.Exports.Star

/-!
This module contains the proof that the replay of a snapshot rolls back what was learned about provision since it was
taken. The snapshot speaks of the descriptors that were owned then, however a path comes to them. What is said about
exports elsewhere stays as it is.
-/

namespace ModuleLink

theorem ExportRecord.SamePlace.ownedNested {x y : ExportRecord} (h : x.SamePlace y)
    : y.ownedNested = x.ownedNested := by
  rw [ExportRecord.ownedNested, h.nested, h.nestedOwned]
  rfl

namespace Arena

variable {a b c : Arena} {d e : DescriptorId} {r : RecordId} {name : String}

/--
A step that sets no redirect and no link. It may list another name where a lookup for it ends, or create a descriptor
for a record that had none.
-/
inductive EnrichStep : Arena → Arena → Prop where
  | modifyRecord (a : Arena) (r : RecordId) (f : ExportRecord → ExportRecord)
      (hf : ∀ x : ExportRecord, x.SamePlace (f x)) : EnrichStep a (a.modifyRecord r f)
  | getOrCreate (a : Arena) (d : DescriptorId) (name : String) : EnrichStep a (a.getOrCreate d name).1
  | createNested (a : Arena) (r : RecordId) (hr : (a.record r).nested = none) : EnrichStep a (a.createNested r).1

abbrev Enriches : Arena → Arena → Prop := Relation.ReflTransGen EnrichStep

structure Widens (a b : Arena) : Prop where
  descriptors : a.descriptors.size ≤ b.descriptors.size
  records : a.records.size ≤ b.records.size
  redirect : ∀ d : DescriptorId, (b.descriptor d).redirect = (a.descriptor d).redirect
  listed : ∀ {d : DescriptorId} {name : String} {r : RecordId}, a.listed? d name = some r → b.listed? d name = some r
  new : ∀ {d : DescriptorId} {name : String} {r : RecordId}, b.listed? d name = some r →
    a.listed? d name = some r ∨ a.records.size ≤ r.index ∧ (a.descriptor d).redirect = none
  owned : ∀ {r : RecordId} {e : DescriptorId},
    (a.record r).ownedNested = some e → (b.record r).ownedNested = some e
  created : ∀ {r : RecordId} {e : DescriptorId},
    (b.record r).ownedNested = some e → (a.record r).ownedNested = some e ∨ a.descriptors.size ≤ e.index

theorem samePlace_modifyRecord (r : RecordId) {f : ExportRecord → ExportRecord}
    (hf : ∀ x : ExportRecord, x.SamePlace (f x)) (s : RecordId)
    : (a.record s).SamePlace ((a.modifyRecord r f).record s) := by
  rcases record_modifyRecord a r f s with hsame | hnew
  · rw [hsame]
    exact {}
  · rw [hnew]
    exact hf _

theorem ownedNested_of_le (hr : a.records.size ≤ r.index) : (a.record r).ownedNested = none := by
  rw [record_of_le hr]
  rfl

theorem place_createNested (h : (a.record r).ownedNested = none) (s : RecordId)
    : (a.record s).SamePlace ((a.createNested r).1.record s) ∨
      s = r ∧ ((a.createNested r).1.record s).ownedNested = some ⟨a.descriptors.size⟩ := by
  have hold : (a.record s).SamePlace (((a.newDescriptorOf (some r)).1.modifyRecord
      ((a.newDescriptorOf (some r)).1.descriptor (a.newDescriptorOf (some r)).2).other
        ExportRecord.completeProvision).record s) := by
    rw [← record_newDescriptorOf (some r) s]
    exact samePlace_modifyRecord _ (fun _ => {}) s
  rw [createNested, h]
  by_cases hs : s = r
  · rcases record_modifyRecord _ r _ s with hsame | hnew
    · rw [hsame]
      exact .inl hold
    · rw [hnew]
      exact .inr ⟨hs, rfl⟩
  · rw [record_modifyRecord_of_ne _ hs]
    exact .inl hold

theorem redirect_createNested (h : (a.record r).nested = none) (d : DescriptorId)
    : ((a.createNested r).1.descriptor d).redirect = (a.descriptor d).redirect := by
  have howned : (a.record r).ownedNested = none := by
    rw [ExportRecord.ownedNested, h, ite_self]
  have hnone : (a.descriptor ⟨a.descriptors.size⟩).redirect = none := by
    rw [descriptor, Array.getElem?_eq_none (Nat.le_refl _)]
    rfl
  rw [createNested, howned, h]
  by_cases hd : d = ⟨a.descriptors.size⟩
  · subst hd
    rw [hnone]
    refine congrArg Descriptor.redirect (descriptor_modifyDescriptor _ ?_)
    exact Nat.lt_of_lt_of_eq (Nat.lt_succ_self _) (size_newDescriptorOf a (some r)).symm
  · refine (congrArg Descriptor.redirect (descriptor_modifyDescriptor_of_ne _ hd)).trans ?_
    exact redirect_newDescriptorOf (some r) d

namespace Widens

theorem refl (a : Arena) : a.Widens a where
  descriptors := Nat.le_refl _
  records := Nat.le_refl _
  redirect _ := rfl
  listed := id
  new := .inl
  owned := id
  created := .inl

theorem trans (h : a.Widens b) (h' : b.Widens c) : a.Widens c where
  descriptors := Nat.le_trans h.descriptors h'.descriptors
  records := Nat.le_trans h.records h'.records
  redirect d := (h'.redirect d).trans (h.redirect d)
  listed hr := h'.listed (h.listed hr)
  new := by
    intro d name r hr
    rcases h'.new hr with hold | ⟨hnew, hlast⟩
    · exact h.new hold
    · rw [h.redirect] at hlast
      exact .inr ⟨Nat.le_trans h.records hnew, hlast⟩
  owned hr := h'.owned (h.owned hr)
  created := by
    intro r e he
    rcases h'.created he with hold | hnew
    · exact h.created hold
    · exact .inr (Nat.le_trans h.descriptors hnew)

theorem modifyRecord (a : Arena) (r : RecordId) {f : ExportRecord → ExportRecord}
    (hf : ∀ x : ExportRecord, x.SamePlace (f x)) : a.Widens (a.modifyRecord r f) := by
  have hplace := samePlace_modifyRecord (a := a) r hf
  constructor
  · apply Nat.le_refl
  · exact Nat.le_of_eq Array.size_modify.symm
  · intro d
    rfl
  · exact id
  · exact .inl
  · intro s e hs
    exact (hplace s).ownedNested.trans hs
  · intro s e hs
    exact .inl ((hplace s).ownedNested.symm.trans hs)

theorem insertLocal (hlast : (a.descriptor d).redirect = none) (hname : a.listed? d name = none)
    : a.Widens (a.insertLocal d name).1 := by
  have hrecord (s : RecordId) : ((a.insertLocal d name).1.record s).ownedNested = (a.record s).ownedNested := by
    rw [record_insertLocal]
    split
    next heq =>
      rw [ownedNested_of_le (Nat.le_of_eq heq.symm)]
      rfl
    · rfl
  constructor
  · exact Nat.le_of_eq (size_insertLocal a d name).symm
  · rw [size_records_insertLocal]
    apply Nat.le_succ
  · exact redirect_insertLocal d name
  · intro e n s hs
    by_cases he : e = d
    · subst he
      rw [listed?_insertLocal (lt_of_listed? hs), if_neg]
      · exact hs
      · rintro ⟨_, rfl⟩
        rw [hname] at hs
        cases hs
    · rw [listed?, descriptor_insertLocal_of_ne name he]
      exact hs
  · intro e n s hs
    by_cases he : e = d
    · subst he
      have hlt := lt_of_listed? hs
      rw [size_insertLocal] at hlt
      rw [listed?_insertLocal hlt] at hs
      split at hs
      · cases hs
        exact .inr ⟨Nat.le_refl _, hlast⟩
      · exact .inl hs
    · rw [listed?, descriptor_insertLocal_of_ne name he] at hs
      exact .inl hs
  · intro s e hs
    exact (hrecord s).trans hs
  · intro s e hs
    exact .inl ((hrecord s).symm.trans hs)

theorem getOrCreate (h : a.Linked) (d : DescriptorId) (name : String) : a.Widens (a.getOrCreate d name).1 := by
  unfold Arena.getOrCreate
  split
  · exact refl a
  next hfind =>
    exact insertLocal (h.redirect_chainEnd d) (List.findSome?_eq_none_iff.1 hfind _ (a.chainEnd_mem d))

theorem createNested (h : (a.record r).nested = none) : a.Widens (a.createNested r).1 := by
  have howned : (a.record r).ownedNested = none := by
    rw [ExportRecord.ownedNested, h, ite_self]
  constructor
  · rw [size_createNested howned]
    apply Nat.le_succ
  · rw [records_createNested howned]
    apply Nat.le_add_right
  · exact redirect_createNested h
  · intro d name s hs
    rw [listed?, exports_createNested howned]
    exact hs
  · intro d name s hs
    rw [listed?, exports_createNested howned] at hs
    exact .inl hs
  · intro s e hs
    rcases place_createNested howned s with hsame | ⟨rfl, -⟩
    · exact hsame.ownedNested.trans hs
    · rw [howned] at hs
      cases hs
  · intro s e hs
    rcases place_createNested howned s with hsame | ⟨-, hnew⟩
    · exact .inl (hsame.ownedNested.symm.trans hs)
    · rw [hnew] at hs
      cases hs
      exact .inr (Nat.le_refl _)

theorem ofStep (h : EnrichStep a b) (ha : a.Linked) : a.Widens b ∧ b.Linked := by
  cases h with
  | modifyRecord r f hf => exact ⟨modifyRecord a r hf, ha.step (.modifyRecord a r f hf)⟩
  | getOrCreate d name => exact ⟨getOrCreate ha d name, ha.steps (.getOrCreate a d name)⟩
  | createNested r hr => exact ⟨createNested hr, ha.createNested r⟩

theorem ofSteps (h : a.Enriches b) (ha : a.Linked) : a.Widens b := by
  suffices hkept : a.Widens b ∧ b.Linked from hkept.1
  induction h with
  | refl => exact ⟨refl a, ha⟩
  | tail _ hstep ih =>
    have hnext := ofStep hstep ih.2
    exact ⟨ih.1.trans hnext.1, hnext.2⟩

theorem ownedBy? (h : a.Widens b) (he : a.ownedBy? d name = some e) : b.ownedBy? d name = some e := by
  obtain ⟨r, hr, howned⟩ := ownedBy?_eq_some.1 he
  exact ownedBy?_eq_some.2 ⟨r, h.listed hr, h.owned howned⟩

theorem chain (h : a.Widens b) (ha : a.Linked) (d : DescriptorId) : b.chain d = a.chain d :=
  ha.chain_congr h.redirect d

end Widens

end Arena

/--
The operation speaks about provision: redirects and links stay as they are.
-/
inductive ArenaOp.IsProvision (a : Arena) : ArenaOp → Prop where
  | getOrCreate (d : DescriptorId) (name : String) : IsProvision a (.getOrCreate d name)
  | createNested (r : RecordId) (hr : (a.record r).nested = none) : IsProvision a (.createNested r)
  | setProvided (r : RecordId) (state : Provision) : IsProvision a (.edit r (.setProvided state))
  | markHasProvideInfo (d : DescriptorId) : IsProvision a (.markHasProvideInfo d)
  | markUnknownProvided (d : DescriptorId) (canMangle : Bool) (exclude : List String) (target : Option StarTarget)
      : IsProvision a (.markUnknownProvided d canMangle exclude target)

namespace Arena

variable {a b z : Arena} {d e : DescriptorId} {name : String} {path : List String}

inductive Speculates (a : Arena) : Arena → Prop where
  | refl : a.Speculates a
  | step {b : Arena} (op : ArenaOp) : a.Speculates b → op.Valid b → op.IsProvision b → a.Speculates (op.apply b)

theorem Enriches.ofOp {op : ArenaOp} (h : op.IsProvision a) : a.Enriches (op.apply a) := by
  cases h with
  | getOrCreate d name => exact .single (.getOrCreate a d name)
  | createNested r hr => exact .single (.createNested a r hr)
  | setProvided r state => exact .single (.modifyRecord a r _ fun record => .edit record (.setProvided state))
  | markHasProvideInfo d =>
    exact modifyRecords_steps .modifyRecord a (a.scope d) _ ExportRecord.Kept.samePlace.completeProvision
  | markUnknownProvided d canMangle exclude target =>
    exact markUnknownProvidedWith_steps .modifyRecord .samePlace (fun a d name => .single (.getOrCreate a d name)) a d
      canMangle exclude target

namespace Speculates

theorem reachable (h : a.Speculates b) (ha : a.Reachable) : b.Reachable := by
  induction h with
  | refl => exact ha
  | step op _ hvalid _ ih => exact .step op ih hvalid

end Speculates

section Home

/--
The descriptor whose record a lookup for `name` ends at.
-/
def home (a : Arena) (name : String) : DescriptorId → DescriptorId :=
  a.descend fun d inner => if (a.listed? d name).isSome then d else inner.getD d

theorem home_last (name : String) (h : a.chain d = [d]) : a.home name d = d := by
  rw [home, descend_last _ h]
  exact ite_self d

theorem home_next (name : String) (h : a.chain d = d :: a.chain e)
    : a.home name d = if (a.listed? d name).isSome then d else a.home name e := by
  rw [home, descend_next _ h]
  rfl

theorem Widens.home (h : a.Widens b) (ha : a.Linked) (name : String) (d : DescriptorId)
    : b.home name d = a.home name d := by
  -- A name is listed only where lookups for it end, so that they end there still.
  induction d using ha.chain_induction with
  | last d _ hchain =>
    rw [home_last name hchain, home_last name ((h.chain ha d).trans hchain)]
  | next d e hredirect hchain ih =>
    have hchain' : b.chain d = d :: b.chain e := by
      rw [h.chain ha, h.chain ha, hchain]
    have hlisted : (b.listed? d name).isSome ↔ (a.listed? d name).isSome := by
      rw [Option.isSome_iff_exists, Option.isSome_iff_exists]
      constructor
      · rintro ⟨r, hr⟩
        refine ⟨r, (h.new hr).resolve_right ?_⟩
        rintro ⟨-, hlast⟩
        rw [hlast] at hredirect
        cases hredirect
      · rintro ⟨r, hr⟩
        exact ⟨r, h.listed hr⟩
    rw [home_next name hchain', home_next name hchain, ih]
    simp only [hlisted]

end Home

structure Reassigned (a b : Arena) : Prop where
  descriptors : b.descriptors = a.descriptors
  records : b.records.size = a.records.size
  record : ∀ r : RecordId, (a.record r).SamePlace (b.record r)

inductive Present (a : Arena) : DescriptorId → ProvisionSnapshot → Prop where
  | mk {d : DescriptorId} {s : ProvisionSnapshot} :
      (∀ name x, (name, x) ∈ s.exports.entries → (a.listed? d name).isSome) →
      (∀ name facts inner, (name, facts, some inner) ∈ s.exports.entries → (a.ownedBy? d name).isSome) →
      (∀ name facts inner e, (name, facts, some inner) ∈ s.exports.entries → a.ownedBy? d name = some e →
        Present a e inner) → Present a d s

theorem Present.tail {other : ProvisionFacts} {x : String × ProvisionFacts × Option ProvisionSnapshot}
    {es : List (String × ProvisionFacts × Option ProvisionSnapshot)} (h : a.Present d (.mk other (x :: es)))
    : a.Present d (.mk other es) := by
  cases h with
  | mk hlisted howned hinner =>
    refine .mk ?_ ?_ ?_
    · intro name y hy
      exact hlisted name y (List.mem_cons_of_mem x hy)
    · intro name facts inner hy
      exact howned name facts inner (List.mem_cons_of_mem x hy)
    · intro name facts inner e hy
      exact hinner name facts inner e (List.mem_cons_of_mem x hy)

theorem assignLocal_of_listed {r : RecordId} (h : a.listed? d name = some r) (facts : ProvisionFacts)
    : a.assignLocal d name facts = (a.modifyRecord r (·.assignProvision facts), r) := by
  rw [assignLocal, getOrInsertLocal, h]

namespace Reassigned

theorem refl (a : Arena) : a.Reassigned a := ⟨rfl, rfl, fun _ => {}⟩

theorem trans {c : Arena} (h : a.Reassigned b) (h' : b.Reassigned c) : a.Reassigned c :=
  ⟨h'.descriptors.trans h.descriptors, h'.records.trans h.records, fun r => (h.record r).trans (h'.record r)⟩

theorem modifyRecord (a : Arena) (r : RecordId) (facts : ProvisionFacts)
    : a.Reassigned (a.modifyRecord r (·.assignProvision facts)) :=
  ⟨rfl, Array.size_modify, samePlace_modifyRecord r fun _ => {}⟩

theorem reset (a : Arena) (d : DescriptorId) (facts : ProvisionFacts) : a.Reassigned (a.reset d facts) := by
  unfold Arena.reset
  generalize a.locals d ++ [(a.descriptor d).other] = rs
  induction rs generalizing a with
  | nil => exact refl a
  | cons r rs ih => exact (modifyRecord a r facts).trans (ih _)

section Same

variable (h : a.Reassigned b)
include h

theorem descriptor (d : DescriptorId) : b.descriptor d = a.descriptor d := by
  rw [Arena.descriptor, h.descriptors]
  rfl

theorem listed? (d : DescriptorId) (name : String) : b.listed? d name = a.listed? d name := by
  rw [Arena.listed?, h.descriptor]
  rfl

theorem ownRecord (d : DescriptorId) (name : String) : b.ownRecord d name = a.ownRecord d name := by
  rw [Arena.ownRecord, h.listed?, h.descriptor]
  rfl

theorem ownedBy? (d : DescriptorId) (name : String) : b.ownedBy? d name = a.ownedBy? d name := by
  rw [Arena.ownedBy?, h.listed?]
  exact Option.bind_congr fun r _ => (h.record r).ownedNested

theorem present {s : ProvisionSnapshot} (hs : a.Present d s) : b.Present d s := by
  induction hs with
  | mk hlisted howned _ ih =>
    refine .mk ?_ ?_ ?_
    · intro name x hx
      rw [h.listed?]
      exact hlisted name x hx
    · intro name facts inner hinner
      rw [h.ownedBy?]
      exact howned name facts inner hinner
    · intro name facts inner e hinner he
      rw [h.ownedBy?] at he
      exact ih name facts inner e hinner he

end Same

end Reassigned

mutual

theorem restore_reassigned {a : Arena} {d : DescriptorId}
    : ∀ {s : ProvisionSnapshot}, a.Present d s → a.Reassigned (a.restore d s)
  | .mk other es, h => by
    rw [Arena.restore]
    have hreset := Reassigned.reset a d other
    exact hreset.trans (restoreExports_reassigned other es (hreset.present h))

theorem restoreExports_reassigned {a : Arena} {d : DescriptorId} (other : ProvisionFacts)
    : ∀ es : List (String × ProvisionFacts × Option ProvisionSnapshot), a.Present d (.mk other es) →
      a.Reassigned (a.restoreExports d es)
  | [], _ => by
    rw [Arena.restoreExports]
    exact .refl a
  | (name, facts, none) :: rest, h => by
    have .mk hlisted _ _ := h
    obtain ⟨r, hr⟩ := Option.isSome_iff_exists.1 (hlisted name _ List.mem_cons_self)
    have hassigned := Reassigned.modifyRecord a r facts
    rw [Arena.restoreExports, assignLocal_of_listed hr]
    exact hassigned.trans (restoreExports_reassigned other rest (hassigned.present h.tail))
  | (name, facts, some inner) :: rest, h => by
    have .mk _ howned hinner := h
    obtain ⟨e, he⟩ := Option.isSome_iff_exists.1 (howned name facts inner List.mem_cons_self)
    obtain ⟨r, hr, hnested⟩ := ownedBy?_eq_some.1 he
    have hassigned := Reassigned.modifyRecord a r facts
    have hrestored := hassigned.trans
      (restore_reassigned (hassigned.present (hinner name facts inner e List.mem_cons_self he)))
    rw [Arena.restoreExports, assignLocal_of_listed hr]
    dsimp only
    rw [createNested_of_owned ((hassigned.record r).ownedNested.trans hnested)]
    exact hrestored.trans (restoreExports_reassigned other rest (hrestored.present h.tail))

end

section Questions

def onward? (a : Arena) (d : DescriptorId) (name : String) (rest : List String) : Option DescriptorId :=
  if rest.isEmpty then none else (a.seen d name).nested

/--
The descriptor that holds the record which decides whether the export at a path is provided.
-/
def decider (a : Arena) (d : DescriptorId) : List String → DescriptorId
  | [] => d
  | name :: rest =>
    match a.onward? d name rest with
    | some e => a.decider e rest
    | none => a.home name d

/--
The path of `a` comes by an export whose properties are asked elsewhere in `b`: a descriptor was created for them, or
the name was listed where the catch-all record has a descriptor.
-/
inductive Diverted (a b : Arena) : DescriptorId → List String → Prop where
  | here {d : DescriptorId} {name : String} {rest : List String} (h : b.onward? d name rest ≠ a.onward? d name rest)
      : Diverted a b d (name :: rest)
  | later {d e : DescriptorId} {name : String} {rest : List String} (he : a.onward? d name rest = some e)
      (hrest : Diverted a b e rest) : Diverted a b d (name :: rest)

variable {rest : List String}

theorem isProvided?_onward (h : a.onward? d name rest = some e)
    : a.isProvided? d (name :: rest) = a.isProvided? e rest := by
  rw [isProvided?]
  unfold onward? seen at h
  simp only [h]

theorem isProvided?_decided (h : a.onward? d name rest = none)
    : a.isProvided? d (name :: rest)
        =
      if (a.seen d name).provided = .provided ∧ ¬ rest.isEmpty then none else (a.seen d name).provided.toOption := by
  rw [isProvided?]
  unfold onward? seen at h
  simp only [h]
  rfl

theorem Diverted.onward (h : a.Diverted b d (name :: rest)) (ha : a.onward? d name rest = some e)
    (hb : b.onward? d name rest = some e) : a.Diverted b e rest := by
  cases h with
  | here h =>
    rw [ha, hb] at h
    exact absurd rfl h
  | later he hrest =>
    rw [ha] at he
    cases he
    exact hrest

end Questions

structure RolledBack (a b z : Arena) (d : DescriptorId) : Prop where
  nested : ∀ e name, (z.seen e name).nested = (b.seen e name).nested
  covered : ∀ {e : DescriptorId} {name : String}, e.index < a.descriptors.size → a.Owns d (a.home name e) →
    (z.seen e name).provided = (a.seen e name).provided
  other : ∀ {e : DescriptorId} {name : String}, e.index < a.descriptors.size → ¬ a.Owns d (a.home name e) →
    (z.seen e name).provided = (b.seen e name).provided

theorem RolledBack.isProvided? (h : RolledBack a b z d) (ha : a.Linked) (he : e.index < a.descriptors.size)
    (path : List String)
    : a.Diverted b e path ∨
      (a.Owns d (a.decider e path) → z.isProvided? e path = a.isProvided? e path) ∧
      (¬ a.Owns d (a.decider e path) → z.isProvided? e path = b.isProvided? e path) := by
  induction path generalizing e with
  | nil => exact .inr ⟨fun _ => rfl, fun _ => rfl⟩
  | cons name rest ih =>
    have hz : z.onward? e name rest = b.onward? e name rest := by
      rw [onward?, h.nested]
      rfl
    by_cases hb : b.onward? e name rest = a.onward? e name rest
    · rw [hb] at hz
      rw [decider]
      cases hnext : a.onward? e name rest with
      | none =>
        rw [hnext] at hb hz
        rw [isProvided?_decided hnext, isProvided?_decided hb, isProvided?_decided hz]
        refine .inr ⟨fun howned => ?_, fun hother => ?_⟩
        · rw [h.covered he howned]
        · rw [h.other he hother]
      | some f =>
        rw [hnext] at hb hz
        rw [isProvided?_onward hnext, isProvided?_onward hb, isProvided?_onward hz]
        have hf : f.index < a.descriptors.size := by
          unfold onward? at hnext
          split at hnext
          · cases hnext
          · exact ha.nested hnext
        rcases ih hf with hdiverted | hkept
        · exact .inl (.later hnext hdiverted)
        · exact .inr hkept
    · exact .inl (.here hb)

section Replay

variable (ha : a.Sound) (hb : b.Sound) (hd : d.index < a.descriptors.size) (hwidens : a.Widens b)
include ha hb hd hwidens

end Replay

end Arena

namespace Sample

end Sample

end ModuleLink
