import ModuleLink.Proofs.Exports.Descent

/-!
This module contains the proof that the summary of the consumed exports agrees with the questions about single ones.
The summary is made of the names that records have, the questions go by the names that records are listed under; these
are the same in every arena that operations lead to.
-/

namespace ModuleLink
namespace Arena

variable {a a' : Arena} {d e : DescriptorId}

structure Named (a : Arena) : Prop where
  keys : ∀ d, (a.descriptor d).exports.DistinctKeys
  names : ∀ {d : DescriptorId} {name : String} {r : RecordId},
    a.listed? d name = some r → (a.record r).name = some name

namespace Named

theorem empty : ({} : Arena).Named where
  keys := by
    intro d
    exact Dict.distinctKeys_empty
  names := by
    intro d name r h
    cases h

theorem name_find? (h : a.Named) {name : String} {r : RecordId} (hr : a.find? d name = some r)
    : (a.record r).name = some name := by
  obtain ⟨e, -, hlisted⟩ := List.exists_of_findSome?_eq_some hr
  exact h.names hlisted

theorem listed_of_mem (h : a.Named) {r : RecordId} (hr : r ∈ a.locals d)
    : ∃ name, a.listed? d name = some r ∧ (a.record r).name = some name := by
  obtain ⟨⟨name, r⟩, hmem, rfl⟩ := List.mem_map.1 hr
  have hlisted := Dict.get?_of_mem_entries (h.keys d) hmem
  exact ⟨name, hlisted, h.names hlisted⟩

theorem keep (h : a.Named) (hexports : ∀ d, (a'.descriptor d).exports = (a.descriptor d).exports)
    (hnames : ∀ r, (a'.record r).name = (a.record r).name) : a'.Named where
  keys := by
    intro d
    rw [hexports]
    exact h.keys d
  names := by
    intro d name r hr
    rw [listed?, hexports] at hr
    rw [hnames]
    exact h.names hr

theorem modifyRecord (h : a.Named) (r : RecordId) {f : ExportRecord → ExportRecord}
    (hf : ∀ record, (f record).name = record.name) : (a.modifyRecord r f).Named := by
  apply h.keep
  · intro d
    rfl
  · intro s
    cases record_modifyRecord a r f s with
    | inl hsame => rw [hsame]
    | inr hnew => rw [hnew, hf]

theorem modifyDescriptor (h : a.Named) (d : DescriptorId) {f : Descriptor → Descriptor}
    (hf : ∀ x, (f x).exports = x.exports) : (a.modifyDescriptor d f).Named := by
  apply h.keep
  · exact modifyDescriptor_congr Descriptor.exports hf d
  · intro r
    rfl

theorem newDescriptorOf (h : a.Named) (owner : Option RecordId) : (a.newDescriptorOf owner).1.Named := by
  apply h.keep
  · exact newDescriptorOf_congr Descriptor.exports (fun _ _ _ => rfl) owner
  · intro r
    rw [record_newDescriptorOf]

theorem exports_insertLocal (a : Arena) (d : DescriptorId) (name : String) (e : DescriptorId)
    : ((a.insertLocal d name).1.descriptor e).exports = (a.descriptor e).exports
        ∨
      ((a.insertLocal d name).1.descriptor e).exports = (a.descriptor e).exports.insert name ⟨a.records.size⟩ := by
  simp only [descriptor, Arena.insertLocal, Arena.modifyDescriptor, Array.getElem?_modify]
  split
  · cases a.descriptors[e.index]? with
    | none => exact .inl rfl
    | some x => exact .inr rfl
  · exact .inl rfl

theorem insertLocal (h : a.Named) (d : DescriptorId) (name : String) : (a.insertLocal d name).1.Named := by
  have hold {e : DescriptorId} {n : String} {r : RecordId} (hr : (a.descriptor e).exports.get? n = some r)
      : ((a.insertLocal d name).1.record r).name = some n := by
    have hname := h.names hr
    rw [record_insertLocal, if_neg]
    · exact hname
    · -- A record with a name exists, so that it is not the new one.
      intro hnew
      rw [record_of_le (Nat.le_of_eq hnew.symm)] at hname
      cases hname
  constructor
  · intro e
    cases exports_insertLocal a d name e with
    | inl hsame =>
      rw [hsame]
      exact h.keys e
    | inr hinsert =>
      rw [hinsert]
      exact (h.keys e).insert name _
  · intro e n r hr
    rw [listed?] at hr
    cases exports_insertLocal a d name e with
    | inl hsame =>
      rw [hsame] at hr
      exact hold hr
    | inr hinsert =>
      rw [hinsert, Dict.get?_insert] at hr
      split at hr
      next hn =>
        cases hr
        rw [record_insertLocal, if_pos rfl, ← eq_of_beq hn]
        rfl
      · exact hold hr

theorem step (h : a.Named) (hstep : Step a a') : a'.Named := by
  cases hstep with
  | modifyRecord r f hf => exact h.modifyRecord r fun record => (hf record).name
  | insertLocal d name => exact h.insertLocal d name
  | newDescriptor => exact h.newDescriptorOf none
  | setRedirect d target =>
    rcases setRedirect_fst a d target with hsame | hnew
    · rw [hsame]
      exact h
    · rw [hnew]
      exact h.modifyDescriptor d fun _ => rfl
  | createNested r =>
    unfold Arena.createNested
    split
    · exact h
    · refine modifyRecord (modifyDescriptor (modifyRecord ?_ _ ?_) _ ?_) r ?_
      · exact h.newDescriptorOf (some r)
      · exact fun _ => rfl
      · exact fun _ => rfl
      · exact fun _ => rfl
  | linkNested r d =>
    unfold Arena.linkNested
    split
    · exact h
    · exact h.modifyRecord r fun _ => rfl

end Named

theorem Reachable.named (h : a.Reachable) : a.Named := h.invariant .empty .step

theorem mem_orderedLocals {r : RecordId} : r ∈ a.orderedLocals d ↔ r ∈ a.locals d := by
  simp [orderedLocals, locals, Dict.values]

theorem orderedLocals_of_sorted
    (h : (a.descriptor d).exports.entries.Pairwise fun x y => decide (x.1 ≤ y.1)) : a.orderedLocals d = a.locals d := by
  unfold orderedLocals
  rw [List.mergeSort_of_pairwise h]
  rfl

section Scan

variable {rs : List ExportRecord} {r : ExportRecord} {names : List String} {answer : UsedExports}

theorem scanUsed_eq_error (h : scanUsed rs = .error answer)
    : ∃ r ∈ rs, (answer = .unknown ∧ r.used = .noInfo) ∨ (answer = .everything ∧ r.used = .unknown) := by
  induction rs with
  | nil => cases h
  | cons r rs ih =>
    have hrest (hrs : scanUsed rs = .error answer)
        : ∃ r' ∈ r :: rs, (answer = .unknown ∧ r'.used = .noInfo) ∨ (answer = .everything ∧ r'.used = .unknown) := by
      obtain ⟨r', hr', hstop⟩ := ih hrs
      exact ⟨r', List.mem_cons_of_mem r hr', hstop⟩
    unfold scanUsed at h
    split at h
    next hused =>
      cases h
      exact ⟨r, List.mem_cons_self, .inl ⟨rfl, hused⟩⟩
    · exact hrest h
    next hused =>
      cases h
      exact ⟨r, List.mem_cons_self, .inr ⟨rfl, hused⟩⟩
    all_goals
      cases hrs : scanUsed rs with
      | error s =>
        rw [hrs] at h
        cases h
        exact hrest hrs
      | ok ns =>
        rw [hrs] at h
        cases h

theorem scanUsed_cons_eq_ok (h : scanUsed (r :: rs) = .ok names)
    : (r.used = .unused ∧ scanUsed rs = .ok names)
        ∨
      ((r.used = .propertiesUsed ∨ r.used = .used) ∧
        ∃ ns, scanUsed rs = .ok ns ∧ names = r.name.getD "" :: ns) := by
  unfold scanUsed at h
  split at h
  · cases h
  next hused => exact .inl ⟨hused, h⟩
  · cases h
  all_goals
    next hused =>
    cases hrs : scanUsed rs with
    | error s =>
      rw [hrs] at h
      cases h
    | ok ns =>
      rw [hrs] at h
      cases h
      exact .inr ⟨by simp [hused], ns, rfl, rfl⟩

theorem scanUsed_eq_ok (h : scanUsed rs = .ok names)
    : (∀ r ∈ rs, r.used = .unused ∨ r.name.getD "" ∈ names) ∧
      ∀ name ∈ names, ∃ r ∈ rs, r.name.getD "" = name ∧ (r.used = .propertiesUsed ∨ r.used = .used) := by
  induction rs generalizing names with
  | nil =>
    cases h
    simp
  | cons r rs ih =>
    rcases scanUsed_cons_eq_ok h with ⟨hunused, hrs⟩ | ⟨hused, ns, hrs, rfl⟩
    · have ⟨hall, hnames⟩ := ih hrs
      constructor
      · intro r' hr'
        rcases List.mem_cons.1 hr' with rfl | hr'
        · exact .inl hunused
        · exact hall r' hr'
      · intro name hname
        obtain ⟨r', hr', hfound⟩ := hnames name hname
        exact ⟨r', List.mem_cons_of_mem r hr', hfound⟩
    · have ⟨hall, hnames⟩ := ih hrs
      constructor
      · intro r' hr'
        rcases List.mem_cons.1 hr' with rfl | hr'
        · exact .inr List.mem_cons_self
        · exact (hall r' hr').imp_right (List.mem_cons_of_mem _)
      · intro name hname
        rcases List.mem_cons.1 hname with rfl | hname
        · exact ⟨r, List.mem_cons_self, rfl, hused⟩
        · obtain ⟨r', hr', hfound⟩ := hnames name hname
          exact ⟨r', List.mem_cons_of_mem r hr', hfound⟩

theorem scanOtherUsed_eq_error (h : scanOtherUsed r = .error answer)
    : (answer = .unknown ∧ r.used = .noInfo)
        ∨
      (answer = .everything ∧ (r.used = .unknown ∨ r.used = .propertiesUsed ∨ r.used = .used)) := by
  unfold scanOtherUsed at h
  split at h
  next hused =>
    cases h
    exact .inl ⟨rfl, hused⟩
  · cases h
  all_goals
    next hused =>
    cases h
    exact .inr ⟨rfl, by simp [hused]⟩

theorem scanOtherUsed_eq_ok (h : scanOtherUsed r = .ok ()) : r.used = .unused := by
  unfold scanOtherUsed at h
  split at h
  · cases h
  · assumption
  all_goals cases h

end Scan

/--
The records that the descriptors list are unused or have one of the names, and no name is there without need.
-/
structure Covers (a : Arena) (ds : List DescriptorId) (names : List String) : Prop where
  listed : ∀ e ∈ ds, ∀ name r, a.listed? e name = some r → (a.record r).used = .unused ∨ name ∈ names
  names : ∀ name ∈ names, ∃ e ∈ ds, ∃ r, a.listed? e name = some r ∧
    ((a.record r).used = .propertiesUsed ∨ (a.record r).used = .used)

namespace Covers

variable {ds es : List DescriptorId} {ns ms : List String}

theorem congr (h : a.Covers ds ns) (hsame : ∀ name, name ∈ ms ↔ name ∈ ns) : a.Covers ds ms where
  listed := by
    intro e he name r hr
    rw [hsame]
    exact h.listed e he name r hr
  names := by
    intro name hname
    rw [hsame] at hname
    exact h.names name hname

theorem append (h : a.Covers ds ns) (h' : a.Covers es ms) : a.Covers (ds ++ es) (ns ++ ms) where
  listed := by
    intro e he name r hr
    rw [List.mem_append]
    rcases List.mem_append.1 he with he | he
    · exact (h.listed e he name r hr).imp_right .inl
    · exact (h'.listed e he name r hr).imp_right .inr
  names := by
    intro name hname
    rcases List.mem_append.1 hname with hname | hname
    · obtain ⟨e, he, hfound⟩ := h.names name hname
      exact ⟨e, List.mem_append_left es he, hfound⟩
    · obtain ⟨e, he, hfound⟩ := h'.names name hname
      exact ⟨e, List.mem_append_right ds he, hfound⟩

theorem ofScan (h : a.Named) (hscan : scanUsed ((a.orderedLocals d).map a.record) = .ok ns) : a.Covers [d] ns := by
  have ⟨hall, hnames⟩ := scanUsed_eq_ok hscan
  constructor
  · intro e he name r hr
    cases List.mem_singleton.1 he
    -- The scan knows the record by its own name, which is the one that it is listed under.
    have hrecord := hall (a.record r) (List.mem_map_of_mem (mem_orderedLocals.2 (Dict.mem_values_of_get? hr)))
    rw [h.names hr] at hrecord
    exact hrecord
  · intro name hname
    obtain ⟨_, hrecord, rfl, hused⟩ := hnames name hname
    obtain ⟨r, hr, rfl⟩ := List.mem_map.1 hrecord
    obtain ⟨name, hlisted, hname⟩ := h.listed_of_mem (mem_orderedLocals.1 hr)
    rw [hname]
    exact ⟨d, List.mem_singleton_self d, r, hlisted, hused⟩

end Covers

/--
The names are those of all exports that are consumed along the redirects; what is not listed is not consumed.
-/
structure Settled (a : Arena) (d : DescriptorId) (names : List String) : Prop where
  covers : a.Covers (a.chain d) names
  other : (a.record (a.other d)).used = .unused

namespace Settled

variable {names : List String}

theorem lookup (h : a.Settled d names) (name : String)
    : (a.record (a.lookup d name)).used = .unused ∨ name ∈ names := by
  unfold Arena.lookup
  cases hfind : a.find? d name with
  | none => exact .inl h.other
  | some r =>
    obtain ⟨e, he, hr⟩ := List.exists_of_findSome?_eq_some hfind
    exact h.covers.listed e he name r hr

theorem unused (h : a.Settled d []) (hnamed : a.Named) : ∀ r ∈ a.scope d, (a.record r).used = .unused := by
  intro r hr
  rcases List.mem_append.1 hr with hr | hr
  · obtain ⟨e, he, hr⟩ := List.mem_flatMap.1 hr
    obtain ⟨name, hlisted, _⟩ := hnamed.listed_of_mem hr
    exact (h.covers.listed e he name r hlisted).resolve_right List.not_mem_nil
  · rw [List.mem_singleton.1 hr]
    exact h.other

end Settled

inductive Vague (a : Arena) (d : DescriptorId) : UsedExports → Prop where
  | unknown {r : RecordId} : r ∈ a.scope d → (a.record r).used = .noInfo → a.Vague d .unknown
  | sideEffects {e : DescriptorId} :
      e ∈ a.chain d → (a.record (a.descriptor e).sideEffects).used = .noInfo → a.Vague d .unknown
  | everything {r : RecordId} : r ∈ a.scope d → (a.record r).used = .unknown → a.Vague d .everything
  | other : ((a.record (a.other d)).used = .propertiesUsed ∨ (a.record (a.other d)).used = .used) →
      a.Vague d .everything

namespace Vague

variable {answer : UsedExports}

theorem next (hchain : a.chain d = d :: a.chain e) (h : a.Vague e answer) : a.Vague d answer := by
  have hother : a.other d = a.other e := by
    rw [Arena.other, Arena.other, chainEnd_next hchain]
  have hscope {r : RecordId} (hr : r ∈ a.scope e) : r ∈ a.scope d := by
    rw [scope_next hchain]
    exact List.mem_append_right _ hr
  cases h with
  | unknown hr hused => exact .unknown (hscope hr) hused
  | sideEffects he hused =>
    refine .sideEffects ?_ hused
    rw [hchain]
    exact List.mem_cons_of_mem d he
  | everything hr hused => exact .everything (hscope hr) hused
  | other hused =>
    rw [← hother] at hused
    exact .other hused

theorem ofScan (h : scanUsed ((a.orderedLocals d).map a.record) = .error answer) : a.Vague d answer := by
  obtain ⟨_, hrecord, hstop⟩ := scanUsed_eq_error h
  obtain ⟨r, hr, rfl⟩ := List.mem_map.1 hrecord
  have hscope : r ∈ a.scope d := by
    obtain ⟨ds, hds⟩ := a.chain_eq_cons d
    refine mem_scope.2 (.inl ⟨d, ?_, mem_orderedLocals.1 hr⟩)
    rw [hds]
    exact List.mem_cons_self
  rcases hstop with ⟨rfl, hused⟩ | ⟨rfl, hused⟩
  · exact .unknown hscope hused
  · exact .everything hscope hused

theorem ofScanOther (h : scanOtherUsed (a.record (a.other d)) = .error answer) : a.Vague d answer := by
  have hscope : a.other d ∈ a.scope d := mem_scope.2 (.inr rfl)
  rcases scanOtherUsed_eq_error h with ⟨rfl, hused⟩ | ⟨rfl, hused | hused⟩
  · exact .unknown hscope hused
  · exact .everything hscope hused
  · exact .other hused

end Vague

inductive Summarizes (a : Arena) (d : DescriptorId) : UsedExports → Prop where
  | vague {answer : UsedExports} : a.Vague d answer → a.Summarizes d answer
  | never : a.Settled d [] → (a.record (a.descriptor d).sideEffects).used = .unused → a.Summarizes d .never
  | names {ns : List String} : a.Settled d ns → ns.Pairwise (· < ·) → a.Summarizes d (.names ns)

inductive Names (a : Arena) (d : DescriptorId) : Except UsedExports (List String) → Prop where
  | vague {answer : UsedExports} : a.Vague d answer → a.Names d (.error answer)
  | settled {ns : List String} : a.Settled d ns → a.Names d (.ok ns)

theorem usedNames_last (h : a.Named) (hchain : a.chain d = [d]) : a.Names d (a.usedNames d none) := by
  have hother : a.other d = (a.descriptor d).other := by
    rw [other, chainEnd_last hchain]
  unfold usedNames
  rw [← hother]
  cases hscanOther : scanOtherUsed (a.record (a.other d)) with
  | error answer => exact .vague (.ofScanOther hscanOther)
  | ok _ =>
    cases hscan : scanUsed ((a.orderedLocals d).map a.record) with
    | error answer => exact .vague (.ofScan hscan)
    | ok own =>
      refine .settled ⟨?_, scanOtherUsed_eq_ok hscanOther⟩
      rw [hchain]
      exact .ofScan h hscan

theorem usedNames_next (h : a.Named) (hchain : a.chain d = d :: a.chain e) {inner : UsedExports}
    (hinner : a.Summarizes e inner) : a.Names d (a.usedNames d (some inner)) := by
  unfold usedNames
  cases hscan : scanUsed ((a.orderedLocals d).map a.record) with
  | error answer => exact .vague (.ofScan hscan)
  | ok own =>
    -- The names of `d` itself come before those of the redirect.
    have hjoin {ns : List String} (hns : a.Settled e ns) : a.Settled d (own ++ ns) := by
      constructor
      · rw [hchain]
        exact (Covers.ofScan h hscan).append hns.covers
      · rw [other, chainEnd_next hchain]
        exact hns.other
    cases hinner with
    | vague hvague =>
      have hvague := hvague.next hchain
      cases inner with
      | unknown => exact .vague hvague
      | everything => exact .vague hvague
      | never => cases hvague
      | names ns => cases hvague
    | never hsettled =>
      -- The side-effects record of `e` has no say in the answer for `d`.
      have hsettled := hjoin hsettled
      rw [List.append_nil] at hsettled
      exact .settled hsettled
    | names hsettled => exact .settled (hjoin hsettled)

theorem Names.summarizes {inner : Option UsedExports} (h : a.Names d (a.usedNames d inner))
    : a.Summarizes d (a.usedExportsStep d inner) := by
  unfold usedExportsStep
  generalize a.usedNames d inner = result at h
  cases h with
  | vague hvague => exact .vague hvague
  | @settled ns hsettled =>
    cases ns with
    | nil =>
      -- Nothing is consumed, so that the side-effects record decides.
      dsimp only
      split
      next hused =>
        obtain ⟨ds, hds⟩ := a.chain_eq_cons d
        refine .vague (.sideEffects ?_ hused)
        rw [hds]
        exact List.mem_cons_self
      next hunused => exact .never hsettled hunused
      all_goals exact .names hsettled .nil
    | cons n ns => exact .names ⟨hsettled.covers.congr fun _ => mem_increasing, hsettled.other⟩ (pairwise_increasing _)

theorem summarizes_usedExports (h : a.Linked) (hnamed : a.Named) (d : DescriptorId)
    : a.Summarizes d (a.usedExports d) := by
  induction d using h.chain_induction with
  | last d _ hchain =>
    rw [usedExports, descend_last _ hchain]
    exact (usedNames_last hnamed hchain).summarizes
  | next d e _ hchain ih =>
    rw [usedExports, descend_next _ hchain]
    exact (usedNames_next hnamed hchain ih).summarizes

/--
An export that may be consumed is not missing from the summary. A module that the summary says is never used is not
used, and has no exports in the output. The names of a summary are increasing, and each is that of an export that is
consumed. A summary that does not tell exports apart is due to a record whose usage is not known, or to a catch-all
record that is used.
-/
theorem usedExports_sound (h : a.Reachable) (d : DescriptorId)
    : (∀ name, a.isExportUsed d [name] → (a.usedExports d).mayUse name) ∧
      (a.usedExports d = .never → a.isModuleUsed d = false ∧ ∀ name, a.outputPath? d [name] = none) ∧
      (∀ ns, a.usedExports d = .names ns → ns.Pairwise (· < ·) ∧
        ∀ name ∈ ns, ∃ ds, a.Redirects d ds ∧ ∃ e ∈ ds, ∃ r, a.listed? e name = some r ∧
          ((a.record r).used = .propertiesUsed ∨ (a.record r).used = .used)) ∧
      (a.usedExports d = .unknown ∨ a.usedExports d = .everything → a.Vague d (a.usedExports d)) := by
  have hsummary := summarizes_usedExports h.linked h.named d
  refine ⟨?_, ?_, ?_, ?_⟩
  · intro name hused
    have hused : (a.record (a.lookup d name)).used ≠ .unused := by
      simpa [isExportUsed, usedState, Usage.isUsed] using hused
    generalize a.usedExports d = answer at hsummary
    cases hsummary with
    | vague hvague => cases hvague <;> rfl
    | never hsettled => exact absurd ((hsettled.lookup name).resolve_right List.not_mem_nil) hused
    | names hsettled => exact List.contains_iff_mem.2 ((hsettled.lookup name).resolve_left hused)
  · intro hnever
    rw [hnever] at hsummary
    cases hsummary with
    | vague hvague => cases hvague
    | never hsettled hsideEffects =>
      constructor
      · simpa [isModuleUsed, isUsed, Usage.isUsed, hsideEffects] using hsettled.unused h.named
      · intro name
        have hunused := (hsettled.lookup name).resolve_right List.not_mem_nil
        simp [outputPath?, ExportRecord.outputSegment?, hunused]
  · intro ns hns
    rw [hns] at hsummary
    cases hsummary with
    | vague hvague => cases hvague
    | names hsettled hincreasing =>
      exact ⟨hincreasing, fun name hname => ⟨_, h.linked.redirects_chain d, hsettled.covers.names name hname⟩⟩
  · generalize a.usedExports d = answer at hsummary
    intro hvague
    cases hsummary with
    | vague hvague => exact hvague
    | never => simp at hvague
    | names => simp at hvague

end Arena

namespace Sample

/--
One descriptor is redirected to another, which lists `x` and `y`; of these, `y` is used.
-/
def usage : List ArenaOp := [
  .newDescriptor, .newDescriptor, .setRedirect ⟨0⟩ (some ⟨1⟩), .getOrCreate ⟨0⟩ "x", .getOrCreate ⟨0⟩ "y",
  .markHasUseInfo ⟨0⟩, .markExportUsed ⟨0⟩ ["y"] .used, .newDescriptor, .markHasUseInfo ⟨2⟩, .newDescriptor]

def consumed : Arena := usage.foldl ArenaOp.apply {}

theorem consumed_reachable : consumed.Reachable := by
  simp only [consumed, usage, List.foldl_cons, List.foldl_nil]
  iterate 10 refine .step _ ?_ ⟨by decide +kernel, by decide +kernel⟩
  exact .empty

theorem usedExports_consumed : consumed.usedExports ⟨0⟩ = .names ["y"] := by
  have hinner : consumed.usedExports ⟨1⟩ = .names ["y"] := by
    rw [Arena.usedExports, Arena.descend_last _ (by decide +kernel)]
    unfold Arena.usedExportsStep Arena.usedNames
    rw [Arena.orderedLocals_of_sorted (by decide +kernel)]
    decide +kernel
  rw [Arena.usedExports, Arena.descend_next (e := ⟨1⟩) _ (by decide +kernel), ← Arena.usedExports, hinner]
  unfold Arena.usedExportsStep Arena.usedNames
  rw [Arena.orderedLocals_of_sorted (by decide +kernel)]
  decide +kernel

theorem usedExports_unconsumed : consumed.usedExports ⟨2⟩ = .never := by
  rw [Arena.usedExports, Arena.descend_last _ (by decide +kernel)]
  unfold Arena.usedExportsStep Arena.usedNames
  rw [Arena.orderedLocals_of_sorted (by decide +kernel)]
  decide +kernel

end Sample

theorem Arena.usedExports_sound_sample
    : Sample.consumed.Reachable ∧
      Sample.consumed.isExportUsed ⟨0⟩ ["y"] ∧ (Sample.consumed.usedExports ⟨0⟩).mayUse "y" ∧
      Sample.consumed.usedExports ⟨0⟩ = .names ["y"] ∧
      (∃ ds, Sample.consumed.Redirects ⟨0⟩ ds ∧ ∃ e ∈ ds, ∃ r, Sample.consumed.listed? e "y" = some r ∧
        ((Sample.consumed.record r).used = .propertiesUsed ∨ (Sample.consumed.record r).used = .used)) ∧
      Sample.consumed.usedExports ⟨2⟩ = .never ∧ Sample.consumed.isModuleUsed ⟨2⟩ = false ∧
      Sample.consumed.outputPath? ⟨2⟩ ["y"] = none ∧
      Sample.consumed.usedExports ⟨3⟩ = .unknown ∧ Sample.consumed.Vague ⟨3⟩ .unknown := by
  have ⟨hused, _, hnames, _⟩ := usedExports_sound Sample.consumed_reachable ⟨0⟩
  have ⟨_, hnever, _⟩ := usedExports_sound Sample.consumed_reachable ⟨2⟩
  have ⟨_, _, _, hvague⟩ := usedExports_sound Sample.consumed_reachable ⟨3⟩
  have hy : Sample.consumed.isExportUsed ⟨0⟩ ["y"] := by decide +kernel
  have hunknown : Sample.consumed.usedExports ⟨3⟩ = .unknown := by decide +kernel
  have hunused := hnever Sample.usedExports_unconsumed
  rw [hunknown] at hvague
  refine ⟨Sample.consumed_reachable, hy, hused "y" hy, Sample.usedExports_consumed, ?_,
    Sample.usedExports_unconsumed, hunused.1, hunused.2 "y", hunknown, hvague (.inl rfl)⟩
  exact (hnames ["y"] Sample.usedExports_consumed).2 "y" List.mem_cons_self

end ModuleLink
