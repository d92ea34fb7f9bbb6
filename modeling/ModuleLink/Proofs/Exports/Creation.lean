import ModuleLink.Proofs.Exports.Ownership
import ModuleLink.Proofs.Exports.Provision

/-!
This module contains the proof that nobody notices when a record is created. A record is created where a lookup for its
name ends, and it says what the catch-all record said there until then; so the answers stay the same, also for the
descriptors that are redirected to that place.
-/

namespace ModuleLink

namespace ExportRecord

structure ReadsAs (name : String) (r r' : ExportRecord) : Prop where
  used : r'.used = r.used := by rfl
  provided : r'.provided = r.provided := by rfl
  nested : r'.nested = r.nested := by rfl
  segment : r'.outputSegment? name = r.outputSegment? name := by rfl

theorem ReadsAs.seeded {r : ExportRecord} (name : String) (hname : r.name = none) (hnested : r.nested = none)
    : r.ReadsAs name (.seeded name r) where
  nested := by
    rw [hnested]
    rfl
  segment := by
    unfold outputSegment?
    rw [hname]
    rfl

end ExportRecord

namespace Arena

variable {a : Arena} {d e f : DescriptorId} {r : RecordId} {name n : String}

section Lookup

theorem Linked.redirect_chainEnd (h : a.Linked) (d : DescriptorId) : (a.descriptor (a.chainEnd d)).redirect = none := by
  induction d using h.chain_induction with
  | last d hd hchain =>
    rw [chainEnd_last hchain]
    exact hd
  | next d e _ hchain ih =>
    rw [chainEnd_next hchain]
    exact ih

theorem Linked.mem_chain_of_last (h : a.Linked) (hlast : (a.descriptor f).redirect = none)
    : f ∈ a.chain e ↔ a.chainEnd e = f := by
  constructor
  · intro hmem
    induction e using h.chain_induction with
    | last e _ hchain =>
      rw [hchain, List.mem_singleton] at hmem
      rw [chainEnd_last hchain, hmem]
    | next e c he hchain ih =>
      rw [chainEnd_next hchain]
      apply ih
      rw [hchain, List.mem_cons] at hmem
      apply hmem.resolve_left
      rintro rfl
      rw [hlast] at he
      cases he
  · rintro rfl
    apply chainEnd_mem

theorem Linked.lt_chainEnd (h : a.Linked) (hd : d.index < a.descriptors.size)
    : (a.chainEnd d).index < a.descriptors.size := by
  apply h.lt_of_mem_chain hd
  apply chainEnd_mem

theorem Linked.holds_other (h : a.Linked) (hd : d.index < a.descriptors.size)
    : a.Holds (.other (a.chainEnd d)) (a.other d) :=
  .other (h.lt_chainEnd hd)

theorem exists_listed_of_find? (h : a.find? d name = some r) : ∃ e, a.listed? e name = some r := by
  obtain ⟨e, _, hr⟩ := List.exists_of_findSome?_eq_some h
  exact ⟨e, hr⟩

theorem Sound.lookup_eq_other (h : a.Sound) (hd : d.index < a.descriptors.size) (he : e.index < a.descriptors.size)
    : a.lookup e name = a.other d ↔ a.find? e name = none ∧ a.chainEnd e = a.chainEnd d := by
  have hother := h.linked.holds_other hd
  unfold lookup
  cases hfind : a.find? e name with
  | none =>
    have hother' := h.linked.holds_other he
    constructor
    · intro heq
      rw [Option.getD_none] at heq
      rw [heq] at hother'
      exact ⟨rfl, Slot.other.inj (h.tidy.once hother' hother)⟩
    · rintro ⟨-, heq⟩
      rw [Option.getD_none, other, other, heq]
  | some r =>
    obtain ⟨c, hr⟩ := exists_listed_of_find? hfind
    constructor
    · intro heq
      rw [Option.getD_some] at heq
      rw [heq] at hr
      cases h.tidy.once (.listed hr) hother
    · rintro ⟨hnone, -⟩
      cases hnone

theorem Sound.lt_lookup (h : a.Sound) (he : e.index < a.descriptors.size) (n : String)
    : (a.lookup e n).index < a.records.size := by
  unfold lookup
  cases hfind : a.find? e n with
  | none =>
    apply h.tidy.lt
    exact h.linked.holds_other he
  | some r =>
    obtain ⟨c, hr⟩ := exists_listed_of_find? hfind
    exact h.tidy.lt (.listed hr)

theorem Sound.lt_of_mem_locals (h : a.Sound) (hr : r ∈ a.locals d) : r.index < a.records.size := by
  obtain ⟨name, hlisted, -⟩ := h.named.listed_of_mem hr
  exact h.tidy.lt (.listed hlisted)

theorem Sound.lt_of_mem_scope (h : a.Sound) (he : e.index < a.descriptors.size) (hr : r ∈ a.scope e)
    : r.index < a.records.size := by
  rcases mem_scope.1 hr with ⟨c, -, hr⟩ | rfl
  · exact h.lt_of_mem_locals hr
  · exact h.tidy.lt (h.linked.holds_other he)

end Lookup

structure Vacant (a : Arena) (f : DescriptorId) (name : String) : Prop where
  lt : f.index < a.descriptors.size
  last : (a.descriptor f).redirect = none
  unlisted : a.listed? f name = none

theorem Linked.vacant_chainEnd (h : a.Linked) (hd : d.index < a.descriptors.size) (hfind : a.find? d name = none)
    : a.Vacant (a.chainEnd d) name where
  lt := h.lt_chainEnd hd
  last := h.redirect_chainEnd d
  unlisted := List.findSome?_eq_none_iff.1 hfind _ (a.chainEnd_mem d)

section Insert

theorem Linked.chain_insertLocal (h : a.Linked) (f : DescriptorId) (name : String) (e : DescriptorId)
    : (a.insertLocal f name).1.chain e = a.chain e :=
  h.chain_congr (redirect_insertLocal f name) e

theorem Linked.chainEnd_insertLocal (h : a.Linked) (f : DescriptorId) (name : String) (e : DescriptorId)
    : (a.insertLocal f name).1.chainEnd e = a.chainEnd e := by
  rw [chainEnd, h.chain_insertLocal]
  rfl

theorem Linked.other_insertLocal (h : a.Linked) (f : DescriptorId) (name : String) (e : DescriptorId)
    : (a.insertLocal f name).1.other e = a.other e := by
  rw [other, h.chainEnd_insertLocal, insertLocal_congr Descriptor.other fun _ _ => rfl]
  rfl

theorem Linked.find?_insertLocal (h : a.Linked) (hv : a.Vacant f name) (e : DescriptorId) (n : String)
    : (a.insertLocal f name).1.find? e n
        =
      (a.find? e n).or (if a.chainEnd e = f ∧ n = name then some ⟨a.records.size⟩ else none) := by
  induction e using h.chain_induction with
  | last e _ hchain =>
    have hchain' := h.chain_insertLocal f name e
    rw [hchain] at hchain'
    rw [find?_last n hchain', find?_last n hchain, chainEnd_last hchain, listed?_insertLocal hv.lt]
    split
    next heq =>
      rw [heq.1, heq.2, hv.unlisted]
      rfl
    · rw [Option.or_none]
  | next e c he hchain ih =>
    have hchain' := h.chain_insertLocal f name e
    rw [hchain, ← h.chain_insertLocal f name c] at hchain'
    have hne : e ≠ f := by
      rintro rfl
      rw [hv.last] at he
      cases he
    rw [find?_next n hchain', find?_next n hchain, chainEnd_next hchain, ih, listed?_insertLocal hv.lt,
      if_neg fun heq => hne heq.1, Option.or_assoc]

theorem Linked.lookup_insertLocal (h : a.Linked) (hv : a.Vacant f name) (e : DescriptorId) (n : String)
    : (a.insertLocal f name).1.lookup e n
        =
      if a.find? e n = none ∧ a.chainEnd e = f ∧ n = name then ⟨a.records.size⟩ else a.lookup e n := by
  rw [lookup, lookup, h.find?_insertLocal hv, h.other_insertLocal]
  cases a.find? e n with
  | none =>
    by_cases heq : a.chainEnd e = f ∧ n = name
    · simp [heq]
    · simp [heq]
  | some r => simp

/--
Who looks up a name reads the same as before: the record that was there, or a new one in place of the catch-all.
-/
theorem Sound.readsAs_insertLocal (h : a.Sound) (hv : a.Vacant f name)
    (hplain : (a.record (a.descriptor f).other).nested = none) (he : e.index < a.descriptors.size) (n : String)
    : (a.record (a.lookup e n)).ReadsAs n
        ((a.insertLocal f name).1.record ((a.insertLocal f name).1.lookup e n)) := by
  rw [h.linked.lookup_insertLocal hv]
  split
  next heq =>
    obtain ⟨hfind, hend, rfl⟩ := heq
    have hlookup : a.lookup e n = (a.descriptor f).other := by
      rw [lookup, hfind, Option.getD_none, other, hend]
    rw [hlookup, record_insertLocal, if_pos rfl]
    exact .seeded n (h.tidy.name (.other hv.lt)) hplain
  · rw [record_insertLocal_of_lt f name (h.lt_lookup he n)]
    exact {}

theorem exports_insertLocal (hv : a.Vacant f name)
    : ((a.insertLocal f name).1.descriptor f).exports.entries
        =
      (a.descriptor f).exports.entries ++ [(name, ⟨a.records.size⟩)] := by
  rw [descriptor_insertLocal hv.lt]
  exact Dict.entries_insert_of_new hv.unlisted _

theorem mem_locals_insertLocal (hv : a.Vacant f name)
    : r ∈ (a.insertLocal f name).1.locals e ↔ r ∈ a.locals e ∨ (e = f ∧ r = ⟨a.records.size⟩) := by
  by_cases heq : e = f
  · subst heq
    rw [locals, Dict.values, exports_insertLocal hv, List.map_append, List.mem_append]
    simp [locals, Dict.values]
  · rw [locals, descriptor_insertLocal_of_ne name heq]
    simp [locals, heq]

theorem Sound.mem_scope_insertLocal (h : a.Sound) (hv : a.Vacant f name)
    : r ∈ (a.insertLocal f name).1.scope e ↔ r ∈ a.scope e ∨ (a.chainEnd e = f ∧ r = ⟨a.records.size⟩) := by
  have hend : f ∈ a.chain e ↔ a.chainEnd e = f := h.linked.mem_chain_of_last hv.last
  rw [mem_scope, mem_scope, h.linked.chain_insertLocal, h.linked.other_insertLocal]
  simp only [mem_locals_insertLocal hv]
  constructor
  · rintro (⟨c, hc, hr | ⟨rfl, hr⟩⟩ | hother)
    · exact .inl (.inl ⟨c, hc, hr⟩)
    · exact .inr ⟨hend.1 hc, hr⟩
    · exact .inl (.inr hother)
  · rintro ((⟨c, hc, hr⟩ | hother) | ⟨hf, hr⟩)
    · exact .inl ⟨c, hc, .inl hr⟩
    · exact .inr hother
    · exact .inl ⟨f, hend.2 hf, .inr ⟨rfl, hr⟩⟩

theorem Sound.record_orderedLocals_insertLocal (h : a.Sound) (hne : e ≠ f)
    : ((a.insertLocal f name).1.orderedLocals e).map (a.insertLocal f name).1.record
        =
      (a.orderedLocals e).map a.record := by
  rw [orderedLocals, descriptor_insertLocal_of_ne name hne]
  apply List.map_congr_left
  intro r hr
  apply record_insertLocal_of_lt
  apply h.lt_of_mem_locals (d := e)
  rw [← mem_orderedLocals]
  exact hr

theorem Sound.seeded_orderedLocals_insertLocal (h : a.Sound) (hv : a.Vacant f name)
    : ∃ before after, (a.orderedLocals f).map a.record = before ++ after ∧
        ((a.insertLocal f name).1.orderedLocals f).map (a.insertLocal f name).1.record
          = before ++ .seeded name (a.record (a.descriptor f).other) :: after := by
  have hkeys := (h.named.insertLocal f name).keys f
  have hnodup : (((a.descriptor f).exports.entries ++ [(name, (⟨a.records.size⟩ : RecordId))]).map Prod.fst).Nodup := by
    rw [← exports_insertLocal hv]
    refine hkeys.imp ?_
    intro k k' hne
    simpa using hne
  obtain ⟨before, after, hold, hnew⟩ := mergeSort_concat Prod.fst hnodup
  have hrecord {r : RecordId} (hr : r ∈ (before ++ after).map Prod.snd)
      : (a.insertLocal f name).1.record r = a.record r := by
    apply record_insertLocal_of_lt
    apply h.lt_of_mem_locals (d := f)
    rw [← mem_orderedLocals, orderedLocals, hold]
    exact hr
  refine ⟨before.map fun x => a.record x.2, after.map fun x => a.record x.2, ?_, ?_⟩
  · rw [orderedLocals, hold, List.map_map, List.map_append]
    rfl
  · rw [orderedLocals, exports_insertLocal hv, hnew, List.map_map, List.map_append, List.map_cons]
    congr 1
    · apply List.map_congr_left
      intro x hx
      exact hrecord (List.mem_map_of_mem (List.mem_append_left after hx))
    · congr 1
      · exact (record_insertLocal f name _).trans (if_pos rfl)
      · apply List.map_congr_left
        intro x hx
        exact hrecord (List.mem_map_of_mem (List.mem_append_right before hx))

end Insert

section Scan

variable {r : ExportRecord}

theorem scanUsed_unused (h : r.used = .unused) (before after : List ExportRecord)
    : scanUsed (before ++ r :: after) = scanUsed (before ++ after) := by
  induction before with
  | nil =>
    rw [List.nil_append, scanUsed, h]
    rfl
  | cons x before ih =>
    rw [List.cons_append, List.cons_append, scanUsed, scanUsed, ih]

theorem scanProvided_notProvided (h : r.provided = .notProvided) (before after : List ExportRecord)
    : scanProvided (before ++ r :: after) = scanProvided (before ++ after) := by
  induction before with
  | nil =>
    rw [List.nil_append, scanProvided, h]
    rfl
  | cons x before ih =>
    rw [List.cons_append, List.cons_append, scanProvided, scanProvided, ih]

end Scan

structure SameAnswers (a a' : Arena) (e : DescriptorId) : Prop where
  usedState : ∀ path, a'.usedState e path = a.usedState e path := by exact fun _ => rfl
  isExportUsed : ∀ path, a'.isExportUsed e path = a.isExportUsed e path := by exact fun _ => rfl
  isProvided? : ∀ path, a'.isProvided? e path = a.isProvided? e path := by exact fun _ => rfl
  outputPath? : ∀ path, a'.outputPath? e path = a.outputPath? e path := by exact fun _ => rfl
  usedExports : a'.usedExports e = a.usedExports e := by rfl
  providedExports : a'.providedExports e = a.providedExports e := by rfl
  isUsed : a'.isUsed e = a.isUsed e := by rfl
  isModuleUsed : a'.isModuleUsed e = a.isModuleUsed e := by rfl

namespace Sound

variable (h : a.Sound) (hv : a.Vacant f name) (he : e.index < a.descriptors.size)
include h he

theorem record_other_insertLocal
    : (a.insertLocal f name).1.record ((a.insertLocal f name).1.descriptor e).other
        =
      a.record (a.descriptor e).other := by
  rw [insertLocal_congr Descriptor.other fun _ _ => rfl]
  apply record_insertLocal_of_lt
  exact h.tidy.lt (.other he)

theorem record_sideEffects_insertLocal
    : (a.insertLocal f name).1.record ((a.insertLocal f name).1.descriptor e).sideEffects
        =
      a.record (a.descriptor e).sideEffects := by
  rw [insertLocal_congr Descriptor.sideEffects fun _ _ => rfl]
  apply record_insertLocal_of_lt
  exact h.tidy.lt (.sideEffects he)

include hv

theorem isUsed_insertLocal : (a.insertLocal f name).1.isUsed e = a.isUsed e := by
  have hother : a.other e ∈ a.scope e := mem_scope.2 (.inr rfl)
  rw [Bool.eq_iff_iff, isUsed, isUsed, List.any_eq_true, List.any_eq_true]
  constructor
  · rintro ⟨r, hr, hused⟩
    rcases (h.mem_scope_insertLocal hv).1 hr with hr | ⟨rfl, rfl⟩
    · rw [record_insertLocal_of_lt f name (h.lt_of_mem_scope he hr)] at hused
      exact ⟨r, hr, hused⟩
    · -- The new record is used as the catch-all is.
      rw [record_insertLocal, if_pos rfl] at hused
      exact ⟨a.other e, hother, hused⟩
  · rintro ⟨r, hr, hused⟩
    refine ⟨r, (h.mem_scope_insertLocal hv).2 (.inl hr), ?_⟩
    rw [record_insertLocal_of_lt f name (h.lt_of_mem_scope he hr)]
    exact hused

theorem usedExportsStep_insertLocal (inner : Option UsedExports)
    (hinner : (a.descriptor e).redirect = none → inner = none)
    : (a.insertLocal f name).1.usedExportsStep e inner = a.usedExportsStep e inner := by
  have hnames : (a.insertLocal f name).1.usedNames e inner = a.usedNames e inner := by
    unfold usedNames
    rw [h.record_other_insertLocal he]
    by_cases heq : e = f
    · subst heq
      rw [hinner hv.last]
      obtain ⟨before, after, hold, hnew⟩ := h.seeded_orderedLocals_insertLocal hv
      rw [hold, hnew]
      cases hother : scanOtherUsed (a.record (a.descriptor e).other) with
      | error answer => rfl
      | ok _ =>
        have hunused : (ExportRecord.seeded name (a.record (a.descriptor e).other)).used = .unused :=
          scanOtherUsed_eq_ok hother
        rw [scanUsed_unused hunused]
    · rw [h.record_orderedLocals_insertLocal heq]
  unfold usedExportsStep
  rw [hnames, h.record_sideEffects_insertLocal he]

theorem providedExportsStep_insertLocal (inner : Option ProvidedExports)
    (hinner : (a.descriptor e).redirect = none → inner = none)
    : (a.insertLocal f name).1.providedExportsStep e inner = a.providedExportsStep e inner := by
  have hnames : (a.insertLocal f name).1.providedNames e inner = a.providedNames e inner := by
    unfold providedNames
    rw [h.record_other_insertLocal he]
    by_cases heq : e = f
    · subst heq
      rw [hinner hv.last]
      obtain ⟨before, after, hold, hnew⟩ := h.seeded_orderedLocals_insertLocal hv
      rw [hold, hnew]
      rcases scanOtherProvided_cases (a.record (a.descriptor e).other) with ⟨hmissing, -⟩ | ⟨-, hother | hother⟩
      · have hmissing : (ExportRecord.seeded name (a.record (a.descriptor e).other)).provided = .notProvided := hmissing
        rw [scanProvided_notProvided hmissing]
      · rw [hother]
        rfl
      · rw [hother]
        rfl
    · rw [h.record_orderedLocals_insertLocal heq]
  unfold providedExportsStep
  rw [hnames]

end Sound

theorem Linked.descend_congr {β : Type} {a' : Arena} {step step' : DescriptorId → Option β → β} (h : a.Linked)
    (hredirect : ∀ d, (a'.descriptor d).redirect = (a.descriptor d).redirect)
    (hstep : ∀ e, e.index < a.descriptors.size → ∀ inner, ((a.descriptor e).redirect = none → inner = none) →
      step' e inner = step e inner)
    (hd : d.index < a.descriptors.size) : a'.descend step' d = a.descend step d := by
  induction d using h.chain_induction with
  | last d _ hchain =>
    have hchain' := h.chain_congr hredirect d
    rw [hchain] at hchain'
    rw [descend_last _ hchain', descend_last _ hchain]
    exact hstep d hd none fun _ => rfl
  | next d e hde hchain ih =>
    have hchain' := h.chain_congr hredirect d
    rw [hchain, ← h.chain_congr hredirect e] at hchain'
    rw [descend_next _ hchain', descend_next _ hchain, ih (h.redirect hde)]
    apply hstep d hd
    intro hnone
    rw [hde] at hnone
    cases hnone

namespace Sound

variable (h : a.Sound) (hv : a.Vacant f name)
include h hv

theorem usedExports_insertLocal (he : e.index < a.descriptors.size)
    : (a.insertLocal f name).1.usedExports e = a.usedExports e := by
  apply h.linked.descend_congr (redirect_insertLocal f name) _ he
  intro e he inner hinner
  exact h.usedExportsStep_insertLocal hv he inner hinner

theorem providedExports_insertLocal (he : e.index < a.descriptors.size)
    : (a.insertLocal f name).1.providedExports e = a.providedExports e := by
  apply h.linked.descend_congr (redirect_insertLocal f name) _ he
  intro e he inner hinner
  exact h.providedExportsStep_insertLocal hv he inner hinner

variable (hplain : (a.record (a.descriptor f).other).nested = none)
include hplain

theorem usedState_insertLocal (he : e.index < a.descriptors.size) (path : List String)
    : (a.insertLocal f name).1.usedState e path = a.usedState e path := by
  induction path generalizing e with
  | nil =>
    unfold usedState
    rw [h.linked.other_insertLocal, record_insertLocal_of_lt f name (h.tidy.lt (h.linked.holds_other he))]
  | cons first rest ih =>
    have hreads := h.readsAs_insertLocal hv hplain he first
    unfold usedState
    dsimp only
    rw [hreads.nested, hreads.used]
    split
    · rfl
    next e' hnested =>
      split at hnested
      · cases hnested
      · exact ih (h.linked.nested hnested)

theorem isProvided?_insertLocal (he : e.index < a.descriptors.size) (path : List String)
    : (a.insertLocal f name).1.isProvided? e path = a.isProvided? e path := by
  induction path generalizing e with
  | nil => rfl
  | cons first rest ih =>
    have hreads := h.readsAs_insertLocal hv hplain he first
    unfold isProvided?
    dsimp only
    rw [hreads.nested, hreads.provided]
    split
    next e' hnested =>
      split at hnested
      · cases hnested
      · exact ih (h.linked.nested hnested)
    · rfl

theorem outputPath?_insertLocal (he : e.index < a.descriptors.size) (path : List String)
    : (a.insertLocal f name).1.outputPath? e path = a.outputPath? e path := by
  induction path generalizing e with
  | nil =>
    unfold outputPath?
    rw [h.isUsed_insertLocal hv he]
  | cons first rest ih =>
    have hreads := h.readsAs_insertLocal hv hplain he first
    unfold outputPath?
    dsimp only
    rw [hreads.segment, hreads.nested, hreads.used]
    split
    · rfl
    · split
      · rfl
      · split
        next e' hnested =>
          split at hnested
          · rw [ih (h.linked.nested hnested)]
          · cases hnested
        · rfl

theorem sameAnswers_insertLocal (he : e.index < a.descriptors.size) : a.SameAnswers (a.insertLocal f name).1 e where
  usedState := h.usedState_insertLocal hv hplain he
  isExportUsed path := by
    rw [isExportUsed, h.isUsed_insertLocal hv he, h.usedState_insertLocal hv hplain he]
    rfl
  isProvided? := h.isProvided?_insertLocal hv hplain he
  outputPath? := h.outputPath?_insertLocal hv hplain he
  usedExports := h.usedExports_insertLocal hv he
  providedExports := h.providedExports_insertLocal hv he
  isUsed := h.isUsed_insertLocal hv he
  isModuleUsed := by
    rw [isModuleUsed, h.isUsed_insertLocal hv he, h.record_sideEffects_insertLocal he]
    rfl

end Sound

/--
A record may be created without anybody noticing, if no catch-all record has a descriptor of properties. All questions
have the answers that they had before. The new record is found by those who looked for its name and came to the
catch-all record that it is made from; all others find the records that they found before.
-/
theorem getOrCreate_neutral (h : a.Reachable)
    (hplain : ∀ c : DescriptorId, c.index < a.descriptors.size → (a.record (a.descriptor c).other).nested = none)
    (hd : d.index < a.descriptors.size) (name : String)
    : (a.getOrCreate d name).1.lookup d name = (a.getOrCreate d name).2 ∧
      ∀ e : DescriptorId, e.index < a.descriptors.size →
        a.SameAnswers (a.getOrCreate d name).1 e ∧
        ∀ n, (a.getOrCreate d name).1.lookup e n
          =
        if a.lookup d name = a.other d ∧ n = name ∧ a.lookup e n = a.other d then (a.getOrCreate d name).2
        else a.lookup e n := by
  have hsound := h.sound
  unfold getOrCreate
  cases hfind : a.find? d name with
  | some r =>
    have hlisted : a.lookup d name ≠ a.other d := by
      intro heq
      have hnone := ((hsound.lookup_eq_other hd hd).1 heq).1
      rw [hfind] at hnone
      cases hnone
    refine ⟨by rw [lookup, hfind, Option.getD_some], fun e _ => ⟨{}, ?_⟩⟩
    intro n
    rw [if_neg fun heq => hlisted heq.1]
  | none =>
    have hv := hsound.linked.vacant_chainEnd hd hfind
    refine ⟨?_, fun e he => ⟨hsound.sameAnswers_insertLocal hv (hplain _ hv.lt) he, ?_⟩⟩
    · rw [hsound.linked.lookup_insertLocal hv, if_pos ⟨hfind, rfl, rfl⟩]
      rfl
    · intro n
      have hd' := (hsound.lookup_eq_other hd hd).2 ⟨hfind, rfl⟩
      rw [hsound.linked.lookup_insertLocal hv]
      refine if_congr ?_ rfl rfl
      rw [hsound.lookup_eq_other hd he]
      constructor
      · rintro ⟨hnone, hend, hn⟩
        exact ⟨hd', hn, hnone, hend⟩
      · rintro ⟨-, hn, hnone, hend⟩
        exact ⟨hnone, hend, hn⟩

theorem getOrCreate_neutral_sample
    : Sample.consumed.Reachable ∧
      (∀ c : DescriptorId, c.index < Sample.consumed.descriptors.size →
        (Sample.consumed.record (Sample.consumed.descriptor c).other).nested = none) ∧
      (Sample.consumed.getOrCreate ⟨0⟩ "z").2 = ⟨10⟩ ∧
      (Sample.consumed.getOrCreate ⟨0⟩ "z").1.lookup ⟨0⟩ "z" = ⟨10⟩ ∧
      Sample.consumed.lookup ⟨1⟩ "z" = ⟨2⟩ ∧ (Sample.consumed.getOrCreate ⟨0⟩ "z").1.lookup ⟨1⟩ "z" = ⟨10⟩ ∧
      Sample.consumed.lookup ⟨1⟩ "y" = ⟨5⟩ ∧ (Sample.consumed.getOrCreate ⟨0⟩ "z").1.lookup ⟨1⟩ "y" = ⟨5⟩ ∧
      (Sample.consumed.getOrCreate ⟨0⟩ "z").1.usedState ⟨0⟩ ["z"] = .unused ∧
      (Sample.consumed.getOrCreate ⟨0⟩ "z").1.usedExports ⟨0⟩ = .names ["y"] := by
  have hplain : ∀ i < Sample.consumed.descriptors.size,
      (Sample.consumed.record (Sample.consumed.descriptor ⟨i⟩).other).nested = none := by decide +kernel
  have ⟨hself, hothers⟩ := getOrCreate_neutral Sample.consumed_reachable (fun c => hplain c.index)
    (d := ⟨0⟩) (by decide +kernel) "z"
  have hrecord : (Sample.consumed.getOrCreate ⟨0⟩ "z").2 = ⟨10⟩ := by decide +kernel
  have hanswers := (hothers ⟨0⟩ (by decide +kernel)).1
  have hlookup := (hothers ⟨1⟩ (by decide +kernel)).2
  refine ⟨Sample.consumed_reachable, fun c => hplain c.index, hrecord, hself.trans hrecord, by decide +kernel, ?_,
    by decide +kernel, ?_, ?_, ?_⟩
  · rw [hlookup, if_pos (by decide +kernel)]
    exact hrecord
  · rw [hlookup, if_neg (by decide +kernel)]
    decide +kernel
  · rw [hanswers.usedState]
    decide +kernel
  · rw [hanswers.usedExports]
    exact Sample.usedExports_consumed

end Arena
end ModuleLink
