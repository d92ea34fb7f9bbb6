import ModuleLink.Proofs.Exports.Creation
import ModuleLink.Proofs.Exports.Marking
import ModuleLink.Proofs.Exports.Monotone
import ModuleLink.Proofs.Exports.Spelling

/-!
This module contains the proof that a use of an export is seen by whoever asks for it. The marking follows a path from
record to record. It may come to one record several times, but it only moves usages up, and a record that it creates is
the last on its way; so what it has marked stays marked, and the questions go the same way.
-/

namespace ModuleLink

namespace Usage

theorem ne_unused {u : Usage} (h : .unknown ≤ u) : u ≠ .unused := by
  rintro rfl
  exact absurd h (by decide)

theorem isUsed_of_ne {u : Usage} (h : u ≠ .unused) : u.isUsed = true := bne_iff_ne.2 h

theorem le_promote_right (a b : Usage) : b ≤ a.promote b := by
  unfold promote
  split
  · apply Nat.le_refl
  · next hlt => exact Nat.le_of_not_lt hlt

end Usage

namespace ExportRecord

def UsedMore (x y : ExportRecord) : Prop := ∃ u, x.used ≤ u ∧ y = { x with used := u }

theorem UsedMore.refl (x : ExportRecord) : x.UsedMore x := ⟨x.used, Nat.le_refl _, rfl⟩

theorem UsedMore.trans {x y z : ExportRecord} (h : x.UsedMore y) (h' : y.UsedMore z) : x.UsedMore z := by
  obtain ⟨u, hu, rfl⟩ := h
  obtain ⟨v, hv, rfl⟩ := h'
  exact ⟨v, Nat.le_trans hu hv, rfl⟩

theorem UsedMore.samePlace {x y : ExportRecord} (h : x.UsedMore y) : x.SamePlace y := by
  obtain ⟨u, -, rfl⟩ := h
  exact {}

theorem UsedMore.setUsed (x : ExportRecord) (state : Usage) : x.UsedMore (x.setUsed state).1 :=
  ⟨_, x.used.le_promote state, rfl⟩

def useProperties (x : ExportRecord) : ExportRecord × Bool := x.setUsedUpTo .unused .propertiesUsed

theorem UsedMore.useProperties (x : ExportRecord) : x.UsedMore x.useProperties.1 := by
  unfold ExportRecord.useProperties setUsedUpTo setUsedIf
  split
  · exact UsedMore.setUsed x .propertiesUsed
  · exact UsedMore.refl x

theorem unknown_le_useProperties (x : ExportRecord) : .unknown ≤ x.useProperties.1.used := by
  unfold useProperties setUsedUpTo setUsedIf
  split
  · exact Nat.le_trans (by decide) (Usage.le_promote_right x.used .propertiesUsed)
  · next hused =>
    rw [decide_eq_true_eq] at hused
    exact Nat.lt_of_not_le hused

variable {x : ExportRecord} {rest : List String}

theorem nested_of_last (h : rest = [] ∨ x.nested = none) : (if rest.isEmpty then none else x.nested) = none := by
  rcases h with rfl | hnested
  · rfl
  · rw [hnested, ite_self]

theorem nested_of_next (h : rest ≠ []) : (if rest.isEmpty then none else x.nested) = x.nested := by
  rw [if_neg]
  simpa using h

end ExportRecord

namespace Arena

variable {a b c : Arena} {d e : DescriptorId} {r s : RecordId} {first : String} {rest path : List String}
  {state : Usage}

section Steps

theorem markExportUsed_new (hr : a.find? d first = none) (rest : List String) (state : Usage)
    : a.markExportUsed d (first :: rest) state
        =
      (a.insertLocal (a.chainEnd d) first).1.updateRecord ⟨a.records.size⟩ (·.setUsed state) := by
  have hcreate : a.getOrCreate d first = a.insertLocal (a.chainEnd d) first := by
    rw [getOrCreate, hr]
  have hnested : ((a.insertLocal (a.chainEnd d) first).1.record ⟨a.records.size⟩).nested = none := by
    rw [record_insertLocal, if_pos rfl]
    rfl
  unfold markExportUsed
  rw [hcreate]
  dsimp only
  rw [show (a.insertLocal (a.chainEnd d) first).2 = ⟨a.records.size⟩ from rfl,
    ExportRecord.nested_of_last (.inr hnested)]

theorem markExportUsed_last (hr : a.find? d first = some r) (hlast : rest = [] ∨ (a.record r).nested = none)
    (state : Usage) : a.markExportUsed d (first :: rest) state = a.updateRecord r (·.setUsed state) := by
  unfold markExportUsed getOrCreate
  rw [hr]
  dsimp only
  rw [ExportRecord.nested_of_last hlast]

theorem markExportUsed_next (hr : a.find? d first = some r) (hrest : rest ≠ []) (he : (a.record r).nested = some e)
    (state : Usage)
    : a.markExportUsed d (first :: rest) state
        =
      (((a.updateRecord r ExportRecord.useProperties).1.markExportUsed e rest state).1,
        ((a.updateRecord r ExportRecord.useProperties).1.markExportUsed e rest state).2
          || (a.updateRecord r ExportRecord.useProperties).2) := by
  conv => lhs; unfold markExportUsed getOrCreate
  rw [hr]
  dsimp only
  rw [ExportRecord.nested_of_next hrest, he]
  rfl

end Steps

inductive Met (a : Arena) : DescriptorId → List String → RecordId → Prop where
  | here {d : DescriptorId} {first : String} {rest : List String} {r : RecordId} :
      a.find? d first = some r → Met a d (first :: rest) r
  | next {d e : DescriptorId} {first : String} {rest : List String} {r s : RecordId} :
      a.find? d first = some r → (a.record r).nested = some e → Met a e rest s → Met a d (first :: rest) s

inductive Marked (a : Arena) (state : Usage) : DescriptorId → List String → Prop where
  | last {d : DescriptorId} {first : String} {rest : List String} {r : RecordId} :
      a.find? d first = some r → (rest = [] ∨ (a.record r).nested = none) → state ≤ (a.record r).used →
      Marked a state d (first :: rest)
  | next {d e : DescriptorId} {first : String} {rest : List String} {r : RecordId} :
      a.find? d first = some r → rest ≠ [] → (a.record r).nested = some e → .unknown ≤ (a.record r).used →
      Marked a state e rest → Marked a state d (first :: rest)

theorem Linked.find?_modifyRecord (h : a.Linked) (r : RecordId) (f : ExportRecord → ExportRecord) (e : DescriptorId)
    (name : String) : (a.modifyRecord r f).find? e name = a.find? e name := by
  have hsame : (a.modifyRecord r f).descriptors = a.descriptors := rfl
  exact h.find?_of_same hsame e name

structure Retains (a b : Arena) (changed : RecordId → Prop) : Prop where
  size : a.records.size ≤ b.records.size
  find? : ∀ {e : DescriptorId} {name : String} {r : RecordId}, a.find? e name = some r → b.find? e name = some r
  records : ∀ r : RecordId, r.index < a.records.size → (a.record r).UsedMore (b.record r)
  kept : ∀ r : RecordId, r.index < a.records.size → ¬changed r → b.record r = a.record r

namespace Retains

variable {changed changed' : RecordId → Prop}

theorem mono (h : a.Retains b changed) (hchanged : ∀ r : RecordId, r.index < a.records.size → changed r → changed' r)
    : a.Retains b changed' where
  size := h.size
  find? := h.find?
  records := h.records
  kept r hr hkept := h.kept r hr fun hr' => hkept (hchanged r hr hr')

theorem trans (h : a.Retains b changed) (h' : b.Retains c changed') : a.Retains c fun r => changed r ∨ changed' r where
  size := Nat.le_trans h.size h'.size
  find? hr := h'.find? (h.find? hr)
  records r hr := (h.records r hr).trans (h'.records r (Nat.lt_of_lt_of_le hr h.size))
  kept r hr hkept := by
    have ⟨hkept, hkept'⟩ := not_or.1 hkept
    rw [h'.kept r (Nat.lt_of_lt_of_le hr h.size) hkept', h.kept r hr hkept]

theorem modifyRecord (h : a.Linked) (r : RecordId) {f : ExportRecord → ExportRecord}
    (hf : ∀ x : ExportRecord, x.UsedMore (f x)) : a.Retains (a.modifyRecord r f) (· = r) where
  size := Nat.le_of_eq Array.size_modify.symm
  find? hr := (h.find?_modifyRecord ..).trans hr
  records s _ := by
    rcases record_modifyRecord a r f s with hsame | hnew
    · rw [hsame]
      exact .refl _
    · rw [hnew]
      exact hf _
  kept s _ hs := record_modifyRecord_of_ne f hs

theorem insertLocal (h : a.Linked) (hv : a.Vacant d first) : a.Retains (a.insertLocal d first).1 fun _ => False where
  size := by
    simp [Arena.insertLocal, Arena.modifyDescriptor]
  find? hr := by
    rw [h.find?_insertLocal hv, hr]
    rfl
  records r hr := by
    rw [record_insertLocal_of_lt d first hr]
    exact .refl _
  kept r hr _ := record_insertLocal_of_lt d first hr

end Retains

theorem Sound.useProperties (h : a.Sound) (r : RecordId) : (a.updateRecord r ExportRecord.useProperties).1.Sound :=
  h.step (.modifyRecord a r _ fun x => (ExportRecord.UsedMore.useProperties x).samePlace)

theorem Sound.lt_of_find? (h : a.Sound) (hr : a.find? d first = some r) : r.index < a.records.size := by
  obtain ⟨e, hlisted⟩ := exists_listed_of_find? hr
  exact h.tidy.lt (.listed hlisted)

theorem Met.ofModifyRecord (h : a.Linked) {f : ExportRecord → ExportRecord}
    (hf : ∀ x : ExportRecord, (f x).nested = x.nested) (hs : (a.modifyRecord r f).Met d path s) : a.Met d path s := by
  induction hs with
  | here hfind =>
    rw [h.find?_modifyRecord] at hfind
    exact .here hfind
  | @next d e first rest r' s hfind hnested _ ih =>
    rw [h.find?_modifyRecord] at hfind
    refine .next hfind ?_ ih
    rcases record_modifyRecord a r f r' with hsame | hnew
    · rw [← hsame]
      exact hnested
    · rw [← hnested, hnew, hf]

theorem Sound.markExportUsed_induction {motive : Arena → DescriptorId → List String → Prop}
    (nil : ∀ {a : Arena} {d : DescriptorId}, a.Sound → d.index < a.descriptors.size → motive a d [])
    (new : ∀ {a : Arena} {d : DescriptorId} {first : String} {rest : List String}, a.Sound →
      d.index < a.descriptors.size → a.find? d first = none → motive a d (first :: rest))
    (last : ∀ {a : Arena} {d : DescriptorId} {first : String} {rest : List String} {r : RecordId}, a.Sound →
      a.find? d first = some r → (rest = [] ∨ (a.record r).nested = none) → motive a d (first :: rest))
    (next : ∀ {a : Arena} {d e : DescriptorId} {first : String} {rest : List String} {r : RecordId}, a.Sound →
      a.find? d first = some r → rest ≠ [] → (a.record r).nested = some e →
      motive (a.updateRecord r ExportRecord.useProperties).1 e rest → motive a d (first :: rest))
    (h : a.Sound) (hd : d.index < a.descriptors.size) (path : List String) : motive a d path := by
  -- A path is followed through records that are found; the first that is missing is created, and is the last.
  induction path generalizing a d with
  | nil => exact nil h hd
  | cons first rest ih =>
    cases hr : a.find? d first with
    | none => exact new h hd hr
    | some r =>
      by_cases hrest : rest = []
      · exact last h hr (.inl hrest)
      · cases he : (a.record r).nested with
        | none => exact last h hr (.inr he)
        | some e =>
          exact next h hr hrest he (ih (h.useProperties r) (h.linked.nested he))

theorem Sound.retains_markExportUsed (h : a.Sound) (hd : d.index < a.descriptors.size) (hpath : path ≠ [])
    (state : Usage) : a.Retains (a.markExportUsed d path state).1 (a.Met d path) := by
  refine Sound.markExportUsed_induction (motive := fun a d path => path ≠ [] →
    a.Retains (a.markExportUsed d path state).1 (a.Met d path)) ?_ ?_ ?_ ?_ h hd path hpath
  · intro a d _ _ hpath
    exact absurd rfl hpath
  · intro a d first rest h hd hr _
    rw [markExportUsed_new hr]
    have hinsert := Retains.insertLocal h.linked (h.linked.vacant_chainEnd hd hr)
    have hsound := h.step (.insertLocal a (a.chainEnd d) first)
    have hmodify := Retains.modifyRecord hsound.linked ⟨a.records.size⟩ fun x => ExportRecord.UsedMore.setUsed x state
    apply (hinsert.trans hmodify).mono
    -- The record that was created is none of those that were there.
    rintro _ hold (hfalse | rfl)
    · exact hfalse.elim
    · exact absurd hold (Nat.lt_irrefl _)
  · intro a d first rest r h hr hlast _
    rw [markExportUsed_last hr hlast]
    apply (Retains.modifyRecord h.linked r fun x => ExportRecord.UsedMore.setUsed x state).mono
    rintro _ - rfl
    exact .here hr
  · intro a d e first rest r h hr hrest he ih _
    rw [markExportUsed_next hr hrest he]
    apply ((Retains.modifyRecord h.linked r ExportRecord.UsedMore.useProperties).trans (ih hrest)).mono
    rintro s - (rfl | hs)
    · exact .here hr
    · exact .next hr he (hs.ofModifyRecord h.linked fun x => (ExportRecord.UsedMore.useProperties x).samePlace.nested)

theorem Sound.marked_setUsed (h : a.Sound) (hr : a.find? d first = some r)
    (hlast : rest = [] ∨ (a.record r).nested = none) (state : Usage)
    : (a.updateRecord r (·.setUsed state)).1.Marked state d (first :: rest) := by
  have hrecord : (a.updateRecord r (·.setUsed state)).1.record r = ((a.record r).setUsed state).1 :=
    record_modifyRecord_self _ (h.lt_of_find? hr)
  refine .last ((h.linked.find?_modifyRecord ..).trans hr) ?_ ?_
  · rw [hrecord]
    exact hlast
  · rw [hrecord]
    exact Usage.le_promote_right _ state

theorem Sound.marked_markExportUsed (h : a.Sound) (hd : d.index < a.descriptors.size) (hpath : path ≠ [])
    (state : Usage) : (a.markExportUsed d path state).1.Marked state d path := by
  refine Sound.markExportUsed_induction (motive := fun a d path => path ≠ [] →
    (a.markExportUsed d path state).1.Marked state d path) ?_ ?_ ?_ ?_ h hd path hpath
  · intro a d _ _ hpath
    exact absurd rfl hpath
  · intro a d first rest h hd hr _
    rw [markExportUsed_new hr]
    have hfind : (a.insertLocal (a.chainEnd d) first).1.find? d first = some ⟨a.records.size⟩ := by
      rw [h.linked.find?_insertLocal (h.linked.vacant_chainEnd hd hr), hr, if_pos ⟨rfl, rfl⟩]
      rfl
    refine (h.step (.insertLocal a (a.chainEnd d) first)).marked_setUsed hfind (.inr ?_) state
    rw [record_insertLocal, if_pos rfl]
    rfl
  · intro a d first rest r h hr hlast _
    rw [markExportUsed_last hr hlast]
    exact h.marked_setUsed hr hlast state
  · intro a d e first rest r h hr hrest he ih _
    rw [markExportUsed_next hr hrest he]
    have hfind : (a.updateRecord r ExportRecord.useProperties).1.find? d first = some r :=
      (h.linked.find?_modifyRecord ..).trans hr
    have hrecord : (a.updateRecord r ExportRecord.useProperties).1.record r = (a.record r).useProperties.1 :=
      record_modifyRecord_self _ (h.lt_of_find? hr)
    have hretains := (h.useProperties r).retains_markExportUsed (h.linked.nested he) hrest state
    obtain ⟨u, hu, hfinal⟩ := hretains.records r ((h.useProperties r).lt_of_find? hfind)
    refine .next (hretains.find? hfind) hrest ?_ ?_ (ih hrest)
    · rw [hfinal, hrecord, ← he]
      exact (ExportRecord.UsedMore.useProperties (a.record r)).samePlace.nested
    · rw [hfinal]
      rw [hrecord] at hu
      exact Nat.le_trans (a.record r).unknown_le_useProperties hu

section Questions

theorem lookup_of_find? (hr : a.find? d first = some r) : a.lookup d first = r := by
  rw [lookup, hr]
  rfl

theorem Marked.le_usedState (h : a.Marked state d path) : state ≤ a.usedState d path := by
  induction h with
  | last hr hlast hused =>
    rw [usedState, lookup_of_find? hr, ExportRecord.nested_of_last hlast]
    exact hused
  | next hr hrest he _ _ ih =>
    rw [usedState, lookup_of_find? hr, ExportRecord.nested_of_next hrest, he]
    exact ih

theorem Marked.exists_used (h : a.Marked state d (first :: rest)) (hstate : .unknown ≤ state)
    : ∃ r, a.find? d first = some r ∧ (a.record r).used ≠ .unused := by
  cases h with
  | last hr _ hused => exact ⟨_, hr, Usage.ne_unused (Nat.le_trans hstate hused)⟩
  | next hr _ _ hused => exact ⟨_, hr, Usage.ne_unused hused⟩

theorem Marked.isSome_outputPath? (h : a.Marked state d path) (hstate : .unknown ≤ state)
    : (a.outputPath? d path).isSome := by
  induction h with
  | @last d first rest r hr hlast hused =>
    obtain rfl := lookup_of_find? hr
    obtain ⟨segment, hsegment⟩ := Option.isSome_iff_exists.1
      (ExportRecord.isSome_outputSegment? first |>.2 (Usage.ne_unused (Nat.le_trans hstate hused)))
    rw [outputPath?_whole hsegment (hlast.imp_right followed?_of_nested_eq_none)]
    rfl
  | @next d e first rest r hr hrest he hused _ ih =>
    obtain rfl := lookup_of_find? hr
    obtain ⟨segment, hsegment⟩ := Option.isSome_iff_exists.1
      (ExportRecord.isSome_outputSegment? first |>.2 (Usage.ne_unused hused))
    cases hfollowed : a.followed? (a.lookup d first) with
    | none =>
      rw [outputPath?_whole hsegment (.inr hfollowed)]
      rfl
    | some f =>
      cases he.symm.trans (nested_of_followed? hfollowed)
      obtain ⟨name, rest, rfl⟩ := List.exists_cons_of_ne_nil hrest
      rw [outputPath?_property hsegment hfollowed, Option.isSome_map]
      exact ih

theorem Marked.isUsed (h : a.Marked state d (first :: rest)) (hstate : .unknown ≤ state) : a.isUsed d = true := by
  obtain ⟨r, hr, hused⟩ := h.exists_used hstate
  obtain ⟨e, he, hlisted⟩ := List.exists_of_findSome?_eq_some hr
  have hscope : r ∈ a.scope d := mem_scope.2 (.inl ⟨e, he, Dict.mem_values_of_get? hlisted⟩)
  exact List.any_eq_true.2 ⟨r, hscope, Usage.isUsed_of_ne hused⟩

theorem Summarizes.mayUse {answer : UsedExports} (h : a.Summarizes d answer)
    (hused : (a.record (a.lookup d first)).used ≠ .unused) : answer.mayUse first = true := by
  cases h with
  | vague hvague => cases hvague <;> rfl
  | never hsettled => exact absurd ((hsettled.lookup first).resolve_right List.not_mem_nil) hused
  | names hsettled => exact List.contains_iff_mem.2 ((hsettled.lookup first).resolve_left hused)

end Questions

/--
Once an export is marked as used, the questions about it have that usage for an answer or a greater one, and if it is a
consumption the export has a path in the output and its module is used. Of the records that were there before, the
marking changes those that it meets along the path, and of them the usage.
-/
theorem markExportUsed_seen (h : a.Reachable) (hd : d.index < a.descriptors.size) (first : String) (rest : List String)
    (state : Usage)
    : ∃ b changed, a.markExportUsed d (first :: rest) state = (b, changed)
        ∧
      state ≤ b.usedState d (first :: rest)
        ∧
      (.unknown ≤ state →
        (b.outputPath? d (first :: rest)).isSome ∧ b.isExportUsed d (first :: rest) ∧ b.isUsed d ∧
          (b.usedExports d).mayUse first)
        ∧
      ∀ r : RecordId, r.index < a.records.size →
        ∃ u, b.record r = { a.record r with used := u } ∧ (u ≠ (a.record r).used → a.Met d (first :: rest) r) := by
  have hpath : first :: rest ≠ [] := List.cons_ne_nil first rest
  have hmarked := h.sound.marked_markExportUsed hd hpath state
  have hretains := h.sound.retains_markExportUsed hd hpath state
  have hsound := h.sound.steps (.ofGrows (.markExportUsed .samePlace a d (first :: rest) state))
  refine ⟨_, _, rfl, hmarked.le_usedState, ?_, ?_⟩
  · intro hstate
    have hused : (a.markExportUsed d (first :: rest) state).1.isExportUsed d (first :: rest) :=
      Usage.isUsed_of_ne (Usage.ne_unused (Nat.le_trans hstate hmarked.le_usedState))
    refine ⟨hmarked.isSome_outputPath? hstate, hused, hmarked.isUsed hstate, ?_⟩
    obtain ⟨r, hr, hused⟩ := hmarked.exists_used hstate
    apply (summarizes_usedExports hsound.linked hsound.named d).mayUse
    rw [lookup_of_find? hr]
    exact hused
  · intro r hr
    obtain ⟨u, -, hrecord⟩ := hretains.records r hr
    refine ⟨u, hrecord, ?_⟩
    intro hu
    by_contra hmet
    rw [hretains.kept r hr hmet] at hrecord
    exact hu (congrArg ExportRecord.used hrecord).symm

end Arena

namespace Sample

def looping : List ArenaOp :=
  [.newDescriptor, .getOrCreate ⟨0⟩ "self", .linkNested ⟨2⟩ ⟨0⟩, .markHasUseInfo ⟨0⟩]

def looped : Arena := looping.foldl ArenaOp.apply {}

theorem looped_reachable : looped.Reachable := by
  simp only [looped, looping, List.foldl_cons, List.foldl_nil]
  iterate 4 refine .step _ ?_ ⟨by decide +kernel, by decide +kernel⟩
  exact .empty

end Sample

theorem Arena.markExportUsed_seen_sample
    : Sample.looped.Reachable ∧ (Sample.looped.record ⟨2⟩).used = .unused ∧
      ∃ b changed, Sample.looped.markExportUsed ⟨0⟩ ["self", "self", "x"] .used = (b, changed) ∧
        b.find? ⟨0⟩ "x" = some ⟨3⟩ ∧ .used ≤ b.usedState ⟨0⟩ ["self", "self", "x"] ∧
        (b.outputPath? ⟨0⟩ ["self", "self", "x"]).isSome ∧ (b.usedExports ⟨0⟩).mayUse "self" ∧
        b.record ⟨0⟩ = Sample.looped.record ⟨0⟩ := by
  obtain ⟨b, changed, hb, hstate, hseen, -⟩ :=
    markExportUsed_seen Sample.looped_reachable (d := ⟨0⟩) (by decide +kernel) "self" ["self", "x"] .used
  obtain ⟨houtput, -, -, hmay⟩ := hseen (by decide)
  have hfind : (Sample.looped.markExportUsed ⟨0⟩ ["self", "self", "x"] .used).1.find? ⟨0⟩ "x" = some ⟨3⟩ := by
    decide +kernel
  have hother : (Sample.looped.markExportUsed ⟨0⟩ ["self", "self", "x"] .used).1.record ⟨0⟩
      = Sample.looped.record ⟨0⟩ := by
    decide +kernel
  rw [hb] at hfind hother
  exact ⟨Sample.looped_reachable, by decide +kernel, b, changed, hb, hfind, hstate, houtput, hmay, hother⟩

end ModuleLink
