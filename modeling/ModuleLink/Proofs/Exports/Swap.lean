import ModuleLink.Proofs.Exports.Creation
import ModuleLink.Proofs.Exports.Marking

/-!
This module contains the proof that an export may be mentioned for the first time before or after its descriptor is
marked. A marking changes a new record if and only if it changes the catch-all record that the new one is made from, and
changes both in the same way.
-/

namespace ModuleLink

namespace ExportRecord

structure Inherited (f : ExportRecord → ExportRecord × Bool) : Prop where
  once : Once f
  seeded : ∀ name r, f (.seeded name r) = (.seeded name (f r).1, (f r).2)

namespace Inherited

theorem completeProvision : Inherited fun r => (r.completeProvision, false) := ⟨once_completeProvision, fun _ _ => rfl⟩

theorem completeUsage : Inherited fun r => (r.completeUsage, false) := ⟨once_completeUsage, fun _ _ => rfl⟩

theorem setUsedInUnknownWay : Inherited setUsedInUnknownWay := ⟨once_setUsedInUnknownWay, fun _ _ => rfl⟩

theorem markUnknownProvided (canMangle : Bool) : Inherited (·.markUnknownProvided canMangle [] none) where
  once := once_markUnknownProvided canMangle
  seeded _ _ := by
    cases canMangle <;> rfl

end Inherited
end ExportRecord

namespace Arena

variable {a : Arena} {d e f : DescriptorId} {r : RecordId} {name : String} {g : ExportRecord → ExportRecord × Bool}
  {rs rs' : List RecordId}

theorem ext_record {b : Arena} (hdescriptors : a.descriptors = b.descriptors) (hsize : a.records.size = b.records.size)
    (hrecord : ∀ r : RecordId, r.index < a.records.size → a.record r = b.record r) : a = b := by
  obtain ⟨ds, rs⟩ := a
  obtain ⟨ds', rs'⟩ := b
  cases hdescriptors
  congr 1
  apply Array.ext hsize
  intro i hi hi'
  have hsame := hrecord ⟨i⟩ hi
  simpa [record, hi, hi'] using hsame

/--
Among `rs'` are the records `rs`, and the record that is new in `f` if its catch-all record is among them.
-/
structure Carries (a : Arena) (f : DescriptorId) (rs rs' : List RecordId) : Prop where
  lt : ∀ r ∈ rs, r.index < a.records.size
  mem : ∀ r, r ∈ rs' ↔ r ∈ rs ∨ ((a.descriptor f).other ∈ rs ∧ r = ⟨a.records.size⟩)

theorem Carries.mem_old (h : a.Carries f rs rs') (hr : r.index ≠ a.records.size) : r ∈ rs' ↔ r ∈ rs := by
  rw [h.mem]
  apply or_iff_left
  rintro ⟨-, rfl⟩
  exact hr rfl

theorem Carries.mem_new (h : a.Carries f rs rs') : ⟨a.records.size⟩ ∈ rs' ↔ (a.descriptor f).other ∈ rs := by
  rw [h.mem]
  constructor
  · rintro (hold | ⟨hother, -⟩)
    · exact absurd (h.lt _ hold) (Nat.lt_irrefl _)
    · exact hother
  · intro hother
    exact .inr ⟨hother, rfl⟩

theorem size_records_insertLocal (a : Arena) (f : DescriptorId) (name : String)
    : (a.insertLocal f name).1.records.size = a.records.size + 1 := by
  simp [insertLocal, modifyDescriptor]

theorem descriptors_insertLocal {b : Arena} (hdescriptors : b.descriptors = a.descriptors)
    (hsize : b.records.size = a.records.size) (f : DescriptorId) (name : String)
    : (b.insertLocal f name).1.descriptors = (a.insertLocal f name).1.descriptors := by
  simp [insertLocal, modifyDescriptor, hdescriptors, hsize]

theorem Carries.any_insertLocal (h : a.Carries f rs rs') (hg : ExportRecord.Inherited g) (name : String)
    : (rs'.any fun r => (g ((a.insertLocal f name).1.record r)).2) = rs.any fun r => (g (a.record r)).2 := by
  rw [Bool.eq_iff_iff, List.any_eq_true, List.any_eq_true]
  constructor
  · rintro ⟨r, hr, hchanged⟩
    rcases (h.mem r).1 hr with hr | ⟨hother, rfl⟩
    · rw [record_insertLocal_of_lt f name (h.lt r hr)] at hchanged
      exact ⟨r, hr, hchanged⟩
    · rw [record_insertLocal, if_pos rfl, hg.seeded] at hchanged
      exact ⟨_, hother, hchanged⟩
  · rintro ⟨r, hr, hchanged⟩
    refine ⟨r, (h.mem r).2 (.inl hr), ?_⟩
    rw [record_insertLocal_of_lt f name (h.lt r hr)]
    exact hchanged

theorem updateRecords_insertLocal (hg : ExportRecord.Inherited g) (hf : (a.descriptor f).other.index < a.records.size)
    (h : a.Carries f rs rs') (name : String)
    : (a.insertLocal f name).1.updateRecords rs' g
        =
      (((a.updateRecords rs g).1.insertLocal f name).1, (a.updateRecords rs g).2) := by
  have hrepeat (x : ExportRecord) : (g (g x).1).1 = (g x).1 := by rw [hg.once]
  have hdescriptors := descriptors_modifyAll a rs fun x => (g x).1
  have hsize := size_modifyAll a rs fun x => (g x).1
  rw [updateRecords_eq hg.once, updateRecords_eq hg.once]
  refine Prod.ext ?_ ?_
  · apply ext_record
    · rw [descriptors_modifyAll]
      exact (descriptors_insertLocal hdescriptors hsize f name).symm
    · rw [size_modifyAll, size_records_insertLocal, size_records_insertLocal, hsize]
    · intro r hr
      rw [size_modifyAll] at hr
      rw [record_modifyAll rs' hrepeat hr, record_insertLocal, record_insertLocal, hsize,
        descriptor_of_same hdescriptors]
      by_cases hnew : r.index = a.records.size
      · obtain rfl : r = ⟨a.records.size⟩ := RecordId.index_injective hnew
        rw [if_pos rfl, if_pos rfl, record_modifyAll rs hrepeat hf, hg.seeded]
        simp only [h.mem_new]
        split <;> rfl
      · have hold : r.index < a.records.size := by
          rw [size_records_insertLocal] at hr
          omega
        rw [if_neg hnew, if_neg hnew, record_modifyAll rs hrepeat hold]
        simp only [h.mem_old hnew]
  · exact h.any_insertLocal hg name

section Scopes

theorem Sound.other_mem_scope (h : a.Sound) (hf : f.index < a.descriptors.size) (he : e.index < a.descriptors.size)
    : (a.descriptor f).other ∈ a.scope e ↔ a.chainEnd e = f := by
  constructor
  · intro hmem
    rcases mem_scope.1 hmem with ⟨c, -, hmem⟩ | heq
    · obtain ⟨n, hlisted, -⟩ := h.named.listed_of_mem hmem
      cases h.tidy.once (.listed hlisted) (.other hf)
    · have hother := h.linked.holds_other he
      rw [← heq] at hother
      exact Slot.other.inj (h.tidy.once hother (.other hf))
  · rintro rfl
    exact mem_scope.2 (.inr rfl)

theorem Sound.carries_scope (h : a.Sound) (hv : a.Vacant f name) (he : e.index < a.descriptors.size)
    : a.Carries f (a.scope e) ((a.insertLocal f name).1.scope e) where
  lt _ hr := h.lt_of_mem_scope he hr
  mem r := by
    rw [h.mem_scope_insertLocal hv, h.other_mem_scope hv.lt he]

theorem Sound.enters_insertLocal (h : a.Sound) (hv : a.Vacant f name) : (a.insertLocal f name).1.Enters = a.Enters := by
  funext c e
  rw [eq_iff_iff]
  constructor
  · intro hc
    cases hc with
    | nested hr howned =>
      rcases (mem_locals_insertLocal hv).1 hr with hr | ⟨-, rfl⟩
      · rw [record_insertLocal_of_lt f name (h.lt_of_mem_locals hr)] at howned
        exact .nested hr howned
      · -- The new record owns nothing.
        rw [record_insertLocal, if_pos rfl] at howned
        cases howned
    | redirect hredirect =>
      rw [redirect_insertLocal] at hredirect
      exact .redirect hredirect
  · intro hc
    cases hc with
    | nested hr howned =>
      rw [← record_insertLocal_of_lt f name (h.lt_of_mem_locals hr)] at howned
      exact .nested ((mem_locals_insertLocal hv).2 (.inl hr)) howned
    | redirect hredirect =>
      rw [← redirect_insertLocal f name] at hredirect
      exact .redirect hredirect

theorem concerns_insertLocal (hv : a.Vacant f name)
    : (a.insertLocal f name).1.Concerns e r ↔ a.Concerns e r ∨ (e = f ∧ r = ⟨a.records.size⟩) := by
  have hother := insertLocal_congr (a := a) Descriptor.other (fun _ _ => rfl) f name e
  have hsideEffects := insertLocal_congr (a := a) Descriptor.sideEffects (fun _ _ => rfl) f name e
  have hredirect := redirect_insertLocal (a := a) f name e
  constructor
  · intro hr
    cases hr with
    | listed hr =>
      rcases (mem_locals_insertLocal hv).1 hr with hr | hnew
      · exact .inl (.listed hr)
      · exact .inr hnew
    | sideEffects =>
      rw [hsideEffects]
      exact .inl .sideEffects
    | other hnone =>
      rw [hredirect] at hnone
      rw [hother]
      exact .inl (.other hnone)
  · rintro (hr | hnew)
    · cases hr with
      | listed hr => exact .listed ((mem_locals_insertLocal hv).2 (.inl hr))
      | sideEffects =>
        rw [← hsideEffects]
        exact .sideEffects
      | other hnone =>
        rw [← hredirect] at hnone
        rw [← hother]
        exact .other hnone
    · exact .listed ((mem_locals_insertLocal hv).2 (.inr hnew))

theorem Sound.holds_of_concerns (h : a.Sound) (he : e.index < a.descriptors.size) (hr : a.Concerns e r)
    : ∃ slot, a.Holds slot r ∧ (slot = .other f → e = f) := by
  cases hr with
  | listed hr =>
    obtain ⟨n, hlisted, -⟩ := h.named.listed_of_mem hr
    exact ⟨_, .listed hlisted, Slot.noConfusion⟩
  | sideEffects => exact ⟨_, .sideEffects he, Slot.noConfusion⟩
  | other _ => exact ⟨_, .other he, Slot.other.inj⟩

theorem Linked.lt_of_reaches (h : a.Linked) (hd : d.index < a.descriptors.size)
    (he : Relation.ReflTransGen a.Enters d e) : e.index < a.descriptors.size := by
  cases he with
  | refl => exact hd
  | tail _ he => exact h.lt_of_enters he

theorem Sound.carries_usageScope? (h : a.Sound) (hv : a.Vacant f name) (he : e.index < a.descriptors.size)
    (hrs : a.usageScope? e = some rs) (hrs' : (a.insertLocal f name).1.usageScope? e = some rs')
    : a.Carries f rs rs' where
  lt r hr := by
    obtain ⟨c, hc, hr⟩ := (mem_usageScope? hrs).1 hr
    obtain ⟨_, hholds, -⟩ := h.holds_of_concerns (f := f) (h.linked.lt_of_reaches he hc) hr
    exact h.tidy.lt hholds
  mem r := by
    have hother : (a.descriptor f).other ∈ rs ↔ Relation.ReflTransGen a.Enters e f := by
      rw [mem_usageScope? hrs]
      constructor
      · rintro ⟨c, hc, hmem⟩
        obtain ⟨slot, hholds, heq⟩ := h.holds_of_concerns (f := f) (h.linked.lt_of_reaches he hc) hmem
        rw [← heq (h.tidy.once hholds (.other hv.lt))]
        exact hc
      · intro hf
        exact ⟨f, hf, .other hv.last⟩
    rw [hother, mem_usageScope? hrs, mem_usageScope? hrs', h.enters_insertLocal hv]
    simp only [concerns_insertLocal hv]
    constructor
    · rintro ⟨c, hc, hr | ⟨rfl, rfl⟩⟩
      · exact .inl ⟨c, hc, hr⟩
      · exact .inr ⟨hc, rfl⟩
    · rintro (⟨c, hc, hr⟩ | ⟨hf, rfl⟩)
      · exact ⟨c, hc, .inl hr⟩
      · exact ⟨f, hf, .inr ⟨rfl, rfl⟩⟩

theorem Sound.usageEnds_insertLocal (h : a.Sound) (hv : a.Vacant f name)
    : (a.insertLocal f name).1.UsageEnds e ↔ a.UsageEnds e := by
  rw [UsageEnds, h.enters_insertLocal hv]
  rfl

end Scopes

/--
Whether `name` is mentioned before or after a marking makes no difference: the same arena and the same report come out,
or none in both cases, and the record is the same one.
-/
structure Swaps {α : Type} (a : Arena) (d : DescriptorId) (name : String) (mark : Arena → Option (Arena × α))
    : Prop where
  marked : mark (a.getOrCreate d name).1 = (mark a).map fun x => ((x.1.getOrCreate d name).1, x.2)
  record : ∀ x, mark a = some x → (x.1.getOrCreate d name).2 = (a.getOrCreate d name).2

theorem size_updateRecords (hg : ExportRecord.Once g) (a : Arena) (rs : List RecordId)
    : (a.updateRecords rs g).1.records.size = a.records.size := by
  rw [updateRecords_eq hg, size_modifyAll]

theorem Swaps.congr {α : Type} {mark mark' : Arena → Option (Arena × α)} (h : a.Swaps d name mark)
    (hbefore : mark' a = mark a) (hafter : mark' (a.getOrCreate d name).1 = mark (a.getOrCreate d name).1)
    : a.Swaps d name mark' where
  marked := by
    rw [hafter, hbefore]
    exact h.marked
  record := by
    rw [hbefore]
    exact h.record

theorem Swaps.map {α β : Type} {mark : Arena → Option (Arena × α)} (h : a.Swaps d name mark) (view : α → β)
    : a.Swaps d name fun b => (mark b).map fun x => (x.1, view x.2) where
  marked := by
    rw [h.marked, Option.map_map, Option.map_map]
    rfl
  record x hx := by
    obtain ⟨y, hy, rfl⟩ := Option.map_eq_some_iff.1 hx
    exact h.record y hy

theorem Sound.swaps (h : a.Sound) (hd : d.index < a.descriptors.size) (hg : ExportRecord.Inherited g)
    (scope? : Arena → Option (List RecordId))
    (hscope : ∀ f, a.Vacant f name →
      Option.Rel (a.Carries f) (scope? a) (scope? (a.insertLocal f name).1))
    : a.Swaps d name fun b => (scope? b).map fun rs => b.updateRecords rs g := by
  have hfind (rs : List RecordId) : (a.updateRecords rs g).1.find? d name = a.find? d name :=
    h.linked.find?_of_same (descriptors_updateRecords a rs g) d name
  cases hlisted : a.find? d name with
  | some r =>
    have hcreate : a.getOrCreate d name = (a, r) := by
      rw [getOrCreate, hlisted]
    have hafter (rs : List RecordId) : (a.updateRecords rs g).1.getOrCreate d name = ((a.updateRecords rs g).1, r) := by
      rw [getOrCreate, hfind, hlisted]
    constructor
    · rw [hcreate, Option.map_map]
      congr 1
      funext rs
      rw [Function.comp_apply, hafter]
    · intro x hx
      obtain ⟨rs, -, rfl⟩ := Option.map_eq_some_iff.1 hx
      rw [hafter, hcreate]
  | none =>
    have hv := h.linked.vacant_chainEnd hd hlisted
    have hcreate : a.getOrCreate d name = a.insertLocal (a.chainEnd d) name := by
      rw [getOrCreate, hlisted]
    have hafter (rs : List RecordId) : (a.updateRecords rs g).1.getOrCreate d name
        = (a.updateRecords rs g).1.insertLocal (a.chainEnd d) name := by
      rw [getOrCreate, hfind, hlisted, h.linked.chainEnd_of_same (descriptors_updateRecords a rs g)]
    constructor
    · rw [hcreate, Option.map_map]
      have hrel := hscope _ hv
      generalize scope? a = before, scope? (a.insertLocal (a.chainEnd d) name).1 = after at hrel
      cases hrel with
      | none => rfl
      | some hcarries =>
        rw [Option.map_some, Option.map_some, updateRecords_insertLocal hg (h.tidy.lt (.other hv.lt)) hcarries,
          Function.comp_apply, hafter]
    · intro x hx
      obtain ⟨rs, -, rfl⟩ := Option.map_eq_some_iff.1 hx
      rw [hafter, hcreate]
      exact congrArg RecordId.mk (size_updateRecords hg.once a rs)

theorem Sound.swaps_scope (h : a.Sound) (hd : d.index < a.descriptors.size) (he : e.index < a.descriptors.size)
    (hg : ExportRecord.Inherited g) : a.Swaps d name fun b => some (b.updateRecords (b.scope e) g) :=
  h.swaps hd hg (fun b => some (b.scope e)) fun _ hv => .some (h.carries_scope hv he)

theorem Sound.swaps_usageScope? (h : a.Sound) (hd : d.index < a.descriptors.size) (he : e.index < a.descriptors.size)
    (hg : ExportRecord.Inherited g)
    : a.Swaps d name fun b => (b.usageScope? e).map fun rs => b.updateRecords rs g := by
  apply h.swaps hd hg (·.usageScope? e)
  intro f hv
  have he' : e.index < (a.insertLocal f name).1.descriptors.size := by
    rw [size_insertLocal]
    exact he
  have hisSome : ((a.insertLocal f name).1.usageScope? e).isSome ↔ (a.usageScope? e).isSome := by
    rw [h.linked.usageScope?_isSome he, (h.linked.step (.insertLocal a f name)).usageScope?_isSome he',
      h.usageEnds_insertLocal hv]
  cases hrs : a.usageScope? e with
  | none =>
    rw [hrs, Option.isSome_none, Bool.false_eq_true, iff_false, Option.not_isSome_iff_eq_none] at hisSome
    rw [hisSome]
    exact .none
  | some rs =>
    rw [hrs] at hisSome
    obtain ⟨rs', hrs'⟩ := Option.isSome_iff_exists.1 (hisSome.2 rfl)
    rw [hrs']
    exact .some (h.carries_usageScope? hv he hrs hrs')

/--
It makes no difference whether an export is mentioned before or after a marking. A marking of uses comes to an end in
both cases or in none.
-/
theorem getOrCreate_swaps (h : a.Reachable) (hd : d.index < a.descriptors.size) (he : e.index < a.descriptors.size)
    (name : String)
    : a.Swaps d name (fun b => some (b.markHasProvideInfo e, ())) ∧
      a.Swaps d name (fun b => (b.markHasUseInfo? e).map (·, ())) ∧
      (∀ canMangle, a.Swaps d name fun b => some (b.markUnknownProvided e canMangle)) ∧
      a.Swaps d name (fun b => some (b.markUsedUnknownWay e)) ∧
      ((a.markHasUseInfo? e).isSome ↔ a.UsageEnds e) := by
  have hsound := h.sound
  have hprovide (b : Arena) : b.markHasProvideInfo e
      = (b.updateRecords (b.scope e) fun r => (r.completeProvision, false)).1 := by
    rw [updateRecords_eq ExportRecord.once_completeProvision]
    rfl
  have huse (b : Arena) : b.markHasUseInfo? e
      = (b.usageScope? e).map fun rs => (b.updateRecords rs fun r => (r.completeUsage, false)).1 := by
    simp only [updateRecords_eq ExportRecord.once_completeUsage]
    rfl
  refine ⟨?_, ?_, ?_, ?_, ?_⟩
  · simp only [hprovide]
    exact (hsound.swaps_scope hd he .completeProvision).map fun _ => ()
  · simp only [huse, Option.map_map]
    have hswaps : a.Swaps d name _ := (hsound.swaps_usageScope? hd he .completeUsage).map fun _ => ()
    simp only [Option.map_map] at hswaps
    exact hswaps
  · intro canMangle
    have hlinked : (a.getOrCreate d name).1.Linked := hsound.linked.steps (.getOrCreate a d name)
    apply (hsound.swaps_scope hd he (.markUnknownProvided canMangle)).congr
    · rw [hsound.linked.markUnknownProvided_eq]
    · rw [hlinked.markUnknownProvided_eq]
  · exact hsound.swaps_scope hd he .setUsedInUnknownWay
  · rw [markHasUseInfo?, Option.isSome_map]
    exact hsound.linked.usageScope?_isSome he

end Arena

namespace Sample

/--
`0` is redirected to `1`. The export `x` there is an object, whose properties are described by `2`.
-/
def layering : List ArenaOp := [
  .newDescriptor, .newDescriptor, .setRedirect ⟨0⟩ (some ⟨1⟩), .getOrCreate ⟨0⟩ "x", .createNested ⟨4⟩]

def layered : Arena := layering.foldl ArenaOp.apply {}

theorem layered_reachable : layered.Reachable := by
  simp only [layered, layering, List.foldl_cons, List.foldl_nil]
  iterate 5 refine .step _ ?_ ⟨by decide +kernel, by decide +kernel⟩
  exact .empty

end Sample

theorem Arena.getOrCreate_swaps_sample
    : Sample.layered.Reachable ∧ Sample.layered.UsageEnds ⟨0⟩ ∧
      (∃ b, Sample.layered.markHasUseInfo? ⟨0⟩ = some b ∧
        (Sample.layered.getOrCreate ⟨0⟩ "z").1.markHasUseInfo? ⟨0⟩ = some (b.getOrCreate ⟨0⟩ "z").1 ∧
        (b.getOrCreate ⟨0⟩ "z").2 = ⟨7⟩ ∧ ((b.getOrCreate ⟨0⟩ "z").1.record ⟨7⟩).used = .unused) ∧
      (Sample.layered.getOrCreate ⟨0⟩ "z").1.markUnknownProvided ⟨0⟩ false
          = (((Sample.layered.markUnknownProvided ⟨0⟩ false).1.getOrCreate ⟨0⟩ "z").1, true) := by
  obtain ⟨-, huse, hunknown, -, hends⟩ := getOrCreate_swaps Sample.layered_reachable (d := ⟨0⟩) (e := ⟨0⟩)
    (by decide +kernel) (by decide +kernel) "z"
  have hunused : (Sample.layered.markHasUseInfo? ⟨0⟩).map
      (fun b => ((b.getOrCreate ⟨0⟩ "z").1.record ⟨7⟩).used) = some .unused := by decide +kernel
  obtain ⟨b, hb, hunused⟩ := Option.map_eq_some_iff.1 hunused
  have hmarked := huse.marked
  have hrecord := huse.record (b, ()) (by rw [hb]; rfl)
  refine ⟨Sample.layered_reachable, hends.1 (by rw [hb]; rfl), ⟨b, hb, ?_, ?_, hunused⟩, ?_⟩
  · simpa [hb] using hmarked
  · rw [hrecord]
    decide +kernel
  · have hchanged : (Sample.layered.markUnknownProvided ⟨0⟩ false).2 = true := by decide +kernel
    rw [← hchanged]
    exact Option.some.inj (hunknown false).marked

end ModuleLink
