import ModuleLink.Proofs.Exports.Report

/-!
This module contains the proof that a star re-export applies to everything but the excluded names. Records for the
excluded names are created before any other record is changed, so that they still say what the catch-all record said
for them.
-/

namespace ModuleLink

namespace ExportRecord

variable {x : ExportRecord} {canMangle : Bool} {exclude : List String} {target : Option StarTarget} {name : String}

/--
The target under `key`, for who asks for `requested`. A catch-all record passes the name on.
-/
def targetFor? (x : ExportRecord) (key : DependencyId) (requested : String) : Option ExportTarget :=
  (x.targets.get? key).map fun t => if x.name = none then { t with path := t.path.or (some [requested]) } else t

structure Spared (name : String) (x y : ExportRecord) : Prop where
  provided : y.provided = x.provided
  targetFor? : ∀ key, y.targetFor? key name = x.targetFor? key name

structure Shared (name : String) (target : Option StarTarget) (x y : ExportRecord) : Prop where
  provided : y.provided = if x.provided = .provided then .provided else .maybeProvided
  targetFor? : ∀ t, target = some t →
    ∃ priority, y.targetFor? t.key name = some ⟨t.connection, some [name], priority⟩

theorem targetFor?_seeded (hname : x.name = none) (key : DependencyId) (name : String)
    : (seeded name x).targetFor? key name = x.targetFor? key name := by
  unfold targetFor? seeded
  simp only [Dict.get?_mapValues, Option.map_map, hname]
  rfl

section Restrict

@[simp]
theorem name_restrictMangle (x : ExportRecord) (canMangle : Bool) : (x.restrictMangle canMangle).1.name = x.name := by
  cases canMangle <;> rfl

@[simp]
theorem provided_restrictMangle (x : ExportRecord) (canMangle : Bool)
    : (x.restrictMangle canMangle).1.provided = x.provided := by
  cases canMangle <;> rfl

@[simp]
theorem targets_restrictMangle (x : ExportRecord) (canMangle : Bool)
    : (x.restrictMangle canMangle).1.targets = x.targets := by
  cases canMangle <;> rfl

end Restrict

section Star

variable {path : Option (List String)} {priority : StarTarget → Int}

theorem setStar_congr {α : Type} (view : ExportRecord → α)
    (hview : ∀ (x : ExportRecord) targets, view { x with targets } = view x) (x : ExportRecord)
    (target : Option StarTarget) (path : Option (List String)) (priority : StarTarget → Int)
    : view (x.setStar target path priority) = view x := by
  cases target with
  | none => rfl
  | some t =>
    unfold setStar setTarget
    dsimp only
    split
    · rfl
    · apply hview

theorem get?_setStar (x : ExportRecord) (t : StarTarget)
    : (x.setStar (some t) path priority).targets.get? t.key = some ⟨t.connection, path, priority t⟩ := by
  unfold setStar setTarget
  dsimp only
  split
  · assumption
  · rw [Dict.get?_insert]
    simp

theorem promote_maybeProvided (p : Provision)
    : p.promote .maybeProvided = if p = .provided then .provided else .maybeProvided := by
  cases p <;> rfl

end Star

theorem markUnknownProvided_fst (x : ExportRecord) (canMangle : Bool) (exclude : List String)
    (target : Option StarTarget)
    : (x.markUnknownProvided canMangle exclude target).1
        =
      if x.name.getD "" ∈ exclude then (x.restrictMangle canMangle).1
      else ((x.restrictMangle canMangle).1.setProvided .maybeProvided).1.setStar target (some [x.name.getD ""])
        fun _ => -1 := by
  unfold markUnknownProvided
  dsimp only
  by_cases h : x.name.getD "" ∈ exclude
  · rw [if_pos h, if_pos (List.contains_iff_mem.2 h)]
  · rw [if_neg h, if_neg (fun hc => h (List.contains_iff_mem.1 hc))]
    rfl

theorem markOtherProvided_fst (x : ExportRecord) (canMangle : Bool) (target : Option StarTarget)
    : (x.markOtherProvided canMangle target).1
        =
      ((x.setProvided .maybeProvided).1.restrictMangle canMangle).1.setStar target none StarTarget.priority := rfl

theorem spared_markUnknownProvided (hname : x.name = some name) (hexclude : name ∈ exclude)
    : x.Spared name (x.markUnknownProvided canMangle exclude target).1 := by
  rw [markUnknownProvided_fst, hname, Option.getD_some, if_pos hexclude]
  constructor
  · apply provided_restrictMangle
  · intro key
    unfold targetFor?
    rw [targets_restrictMangle, name_restrictMangle]

theorem shared_markUnknownProvided (hname : x.name = some name) (hexclude : name ∉ exclude)
    : x.Shared name target (x.markUnknownProvided canMangle exclude target).1 := by
  rw [markUnknownProvided_fst, hname, Option.getD_some, if_neg hexclude]
  constructor
  · rw [setStar_congr provided fun _ _ => rfl, ← promote_maybeProvided, ← provided_restrictMangle x canMangle]
    rfl
  · rintro t rfl
    exists -1
    unfold targetFor?
    rw [setStar_congr ExportRecord.name fun _ _ => rfl, get?_setStar]
    simp [setProvided, hname]

theorem shared_markOtherProvided (hname : x.name = none) (name : String)
    : x.Shared name target (x.markOtherProvided canMangle target).1 := by
  rw [markOtherProvided_fst]
  constructor
  · rw [setStar_congr provided fun _ _ => rfl, ← promote_maybeProvided, provided_restrictMangle]
    rfl
  · rintro t rfl
    exists t.priority
    unfold targetFor?
    rw [setStar_congr ExportRecord.name fun _ _ => rfl, get?_setStar]
    simp [setProvided, hname]

theorem restricted_markUnknownProvided (x : ExportRecord) (canMangle : Bool) (exclude : List String)
    (target : Option StarTarget) : (x.markUnknownProvided canMangle exclude target).1.Restricted canMangle := by
  rw [markUnknownProvided_fst]
  split
  · apply restricted_restrictMangle
  · unfold Restricted
    rw [setStar_congr mangleProvide fun _ _ => rfl]
    apply restricted_restrictMangle

theorem restricted_markOtherProvided (x : ExportRecord) (canMangle : Bool) (target : Option StarTarget)
    : (x.markOtherProvided canMangle target).1.Restricted canMangle := by
  rw [markOtherProvided_fst]
  unfold Restricted
  rw [setStar_congr mangleProvide fun _ _ => rfl]
  apply restricted_restrictMangle

theorem mangleProvide_markUnknownProvided (x : ExportRecord) (exclude : List String) (target : Option StarTarget)
    : (x.markUnknownProvided true exclude target).1.mangleProvide = x.mangleProvide := by
  rw [markUnknownProvided_fst]
  split
  · rfl
  · rw [setStar_congr mangleProvide fun _ _ => rfl]
    rfl

theorem mangleProvide_markOtherProvided (x : ExportRecord) (target : Option StarTarget)
    : (x.markOtherProvided true target).1.mangleProvide = x.mangleProvide := by
  rw [markOtherProvided_fst, setStar_congr mangleProvide fun _ _ => rfl]
  rfl

end ExportRecord

namespace Arena

variable {a b c : Arena} {d e : DescriptorId} {r : RecordId} {f : ExportRecord → ExportRecord × Bool} {name : String}
  {canMangle : Bool} {exclude names : List String} {target : Option StarTarget} {done ds : List DescriptorId}

def seen (a : Arena) (d : DescriptorId) (name : String) : ExportRecord := a.record (a.lookup d name)

structure Prepared (a : Arena) (d : DescriptorId) (exclude : List String) (b : Arena) : Prop where
  sound : b.Sound
  size : b.descriptors.size = a.descriptors.size
  redirect : ∀ e, (b.descriptor e).redirect = (a.descriptor e).redirect
  other : ∀ e, (b.descriptor e).other = (a.descriptor e).other
  old : ∀ {r : RecordId}, r.index < a.records.size → r.index < b.records.size ∧ b.record r = a.record r
  find? : ∀ name, b.find? d name = a.find? d name
      ∨
    (a.find? d name = none ∧ name ∈ exclude ∧
      ∃ r, b.find? d name = some r ∧ b.record r = .seeded name (a.record (a.other d)))

namespace Prepared

theorem start (h : a.Sound) : Prepared a d exclude a where
  sound := h
  size := rfl
  redirect _ := rfl
  other _ := rfl
  old hr := ⟨hr, rfl⟩
  find? _ := .inl rfl

theorem chainEnd (h : Prepared a d exclude b) (ha : a.Sound) (e : DescriptorId) : b.chainEnd e = a.chainEnd e := by
  rw [Arena.chainEnd, ha.linked.chain_congr h.redirect]
  rfl

theorem other_eq (h : Prepared a d exclude b) (ha : a.Sound) : b.other d = a.other d := by
  rw [Arena.other, h.chainEnd ha, h.other]
  rfl

theorem ne_other (h : Prepared a d exclude b) (ha : a.Sound) (hd : d.index < a.descriptors.size) (hr : r ∈ b.locals e)
    : r ≠ a.other d := by
  rintro rfl
  obtain ⟨n, hn, _⟩ := h.sound.named.listed_of_mem hr
  have hholds := h.sound.linked.holds_other (h.size ▸ hd)
  rw [h.other_eq ha] at hholds
  cases h.sound.tidy.once (.listed hn) hholds

theorem getOrCreate (h : Prepared a d exclude b) (ha : a.Sound) (hd : d.index < a.descriptors.size)
    (he : e.index < a.descriptors.size) (hend : a.chainEnd e = a.chainEnd d) (hname : name ∈ exclude)
    : Prepared a d exclude (b.getOrCreate e name).1 := by
  unfold Arena.getOrCreate
  split
  · exact h
  next hnone =>
    rw [← h.size] at he
    have hv := h.sound.linked.vacant_chainEnd he hnone
    rw [h.chainEnd ha, hend] at hv ⊢
    constructor
    · exact h.sound.step (.insertLocal b _ name)
    · rw [size_insertLocal, h.size]
    · intro x
      rw [redirect_insertLocal, h.redirect]
    · intro x
      rw [insertLocal_congr Descriptor.other fun _ _ => rfl, h.other]
    · intro r hr
      have ⟨hlt, hold⟩ := h.old hr
      rw [size_records_insertLocal, record_insertLocal_of_lt _ _ hlt]
      exact ⟨Nat.lt_succ_of_lt hlt, hold⟩
    · intro n
      rw [h.sound.linked.find?_insertLocal hv, h.chainEnd ha]
      rcases h.find? n with hfind | ⟨hfind, hn, r, hr, hrecord⟩
      · rw [hfind]
        cases hn : a.find? d n with
        | some r => simp
        | none =>
          by_cases heq : n = name
          · -- The new record is made from the catch-all record, which nobody has changed yet.
            right
            subst heq
            refine ⟨rfl, hname, ⟨b.records.size⟩, by simp, ?_⟩
            have hother := (h.old (ha.tidy.lt (ha.linked.holds_other hd))).2
            rw [record_insertLocal, if_pos rfl, h.other, ← hother]
            rfl
          · simp [heq]
      · right
        refine ⟨hfind, hn, r, by simp [hr], ?_⟩
        rw [record_insertLocal_of_lt _ _ (h.sound.lt_of_find? hr), hrecord]

end Prepared

structure Staged (f : ExportRecord → ExportRecord × Bool) (done : List DescriptorId) (b c : Arena) : Prop where
  descriptors : c.descriptors = b.descriptors
  size : c.records.size = b.records.size
  record : ∀ {r : RecordId}, r.index < b.records.size →
    c.record r = if r ∈ done.flatMap b.locals then (f (b.record r)).1 else b.record r

namespace Staged

theorem start (b : Arena) : Staged f [] b b where
  descriptors := rfl
  size := rfl
  record _ := by simp

theorem updateLocals (h : Staged f done b c) (hf : ExportRecord.Once f) (e : DescriptorId)
    : Staged f (done ++ [e]) b (c.updateRecords (c.locals e) f).1 where
  descriptors := by rw [descriptors_updateRecords, h.descriptors]
  size := by rw [size_updateRecords hf, h.size]
  record := by
    intro r hr
    rw [record_updateRecords hf _ (h.size ▸ hr), h.record hr, locals_of_same h.descriptors]
    simp only [List.flatMap_append, List.flatMap_singleton, List.mem_append]
    by_cases hdone : r ∈ done.flatMap b.locals
    · simp [hdone, hf (b.record r)]
    · simp [hdone]

theorem getOrCreate (h : Staged f done b c) (hb : b.Sound) (he : e.index < b.descriptors.size)
    (hdone : ∀ x ∈ done, (b.descriptor x).redirect ≠ none) (name : String)
    : Staged f done (b.getOrCreate e name).1 (c.getOrCreate e name).1 := by
  unfold Arena.getOrCreate
  rw [hb.linked.find?_of_same h.descriptors, hb.linked.chainEnd_of_same h.descriptors]
  cases hfind : b.find? e name with
  | some r => exact h
  | none =>
    have hv := hb.linked.vacant_chainEnd he hfind
    generalize b.chainEnd e = x at hv
    have hlocals : done.flatMap (b.insertLocal x name).1.locals = done.flatMap b.locals := by
      apply List.flatMap_congr
      intro y hy
      have hne : y ≠ x := by
        rintro rfl
        exact hdone y hy hv.last
      rw [locals, descriptor_insertLocal_of_ne name hne]
      rfl
    have hlisted {r : RecordId} (hr : r ∈ done.flatMap b.locals) : ∃ y n, b.listed? y n = some r := by
      obtain ⟨y, _, hr⟩ := List.mem_flatMap.1 hr
      obtain ⟨n, hn, _⟩ := hb.named.listed_of_mem hr
      exact ⟨y, n, hn⟩
    have hother : (b.descriptor x).other ∉ done.flatMap b.locals := by
      intro hr
      obtain ⟨y, n, hn⟩ := hlisted hr
      cases hb.tidy.once (.listed hn) (.other hv.lt)
    constructor
    · exact descriptors_insertLocal h.descriptors h.size x name
    · rw [size_records_insertLocal, size_records_insertLocal, h.size]
    · intro r hr
      rw [size_records_insertLocal] at hr
      rw [hlocals, record_insertLocal, record_insertLocal, h.size, descriptor_of_same h.descriptors]
      by_cases hnew : r.index = b.records.size
      · have hr : r ∉ done.flatMap b.locals := by
          intro hr
          obtain ⟨y, n, hn⟩ := hlisted hr
          have hlt := hb.tidy.lt (.listed hn)
          omega
        rw [if_pos hnew, if_pos hnew, if_neg hr, h.record (hb.tidy.lt (.other hv.lt)), if_neg hother]
      · rw [if_neg hnew, if_neg hnew, h.record (by omega)]

end Staged

section Run

variable (ha : a.Sound) (hd : d.index < a.descriptors.size)
include ha hd

theorem Sound.staged_getOrCreateAll (he : e.index < a.descriptors.size) (hend : a.chainEnd e = a.chainEnd d)
    (hdone : ∀ x ∈ done, (a.descriptor x).redirect ≠ none) (hnames : ∀ name ∈ names, name ∈ exclude)
    (hstate : ∃ b, Prepared a d exclude b ∧ Staged f done b c)
    : ∃ b, Prepared a d exclude b ∧ Staged f done b (names.foldl (fun a name => (a.getOrCreate e name).1) c) := by
  induction names generalizing c with
  | nil => exact hstate
  | cons name names ih =>
    rw [List.forall_mem_cons] at hnames
    obtain ⟨b, hprepared, hstaged⟩ := hstate
    rw [List.foldl_cons]
    apply ih hnames.2
    refine ⟨_, hprepared.getOrCreate ha hd he hend hnames.1, hstaged.getOrCreate hprepared.sound ?_ ?_ name⟩
    · rw [hprepared.size]
      exact he
    · intro x hx
      rw [hprepared.redirect]
      exact hdone x hx

theorem Sound.staged_provideStep {state : Arena × Bool} (he : e.index < a.descriptors.size)
    (hend : a.chainEnd e = a.chainEnd d) (hdone : ∀ x ∈ done, (a.descriptor x).redirect ≠ none)
    (hstate : ∃ b, Prepared a d exclude b ∧ Staged (·.markUnknownProvided canMangle exclude target) done b state.1)
    : ∃ b, Prepared a d exclude b ∧
        Staged (·.markUnknownProvided canMangle exclude target) (done ++ [e]) b
          (Arena.provideStep canMangle exclude target state e).1 := by
  obtain ⟨b, hprepared, hstaged⟩ := ha.staged_getOrCreateAll hd he hend hdone (fun _ hname => hname) hstate
  exact ⟨b, hprepared, hstaged.updateLocals (ExportRecord.once_provideListed canMangle exclude target) e⟩

theorem Sound.staged_provideSteps {state : Arena × Bool} (he : e.index < a.descriptors.size)
    (hend : a.chainEnd e = a.chainEnd d) (hdone : ∀ x ∈ done, (a.descriptor x).redirect ≠ none)
    (hds : a.Redirects e ds)
    (hstate : ∃ b, Prepared a d exclude b ∧ Staged (·.markUnknownProvided canMangle exclude target) done b state.1)
    : ∃ b, Prepared a d exclude b ∧
        Staged (·.markUnknownProvided canMangle exclude target) (done ++ ds) b
          (ds.foldl (Arena.provideStep canMangle exclude target) state).1 := by
  -- Records are created where the redirects end, which is the last descriptor to be marked.
  induction hds generalizing done state with
  | last => exact ha.staged_provideStep hd he hend hdone hstate
  | @next e e' ds hredirect hds ih =>
    have hchain : a.chain e = e :: a.chain e' := by
      rw [hds.chain_eq]
      exact (Redirects.next hredirect hds).chain_eq
    rw [List.append_cons, List.foldl_cons]
    apply ih (ha.linked.redirect hredirect)
    · rw [← chainEnd_next hchain, hend]
    · intro x hx
      rcases List.mem_append.1 hx with hx | hx
      · exact hdone x hx
      · rw [List.mem_singleton.1 hx, hredirect]
        apply Option.some_ne_none
    · exact ha.staged_provideStep hd he hend hdone hstate

theorem Sound.staged_provideAll (canMangle : Bool) (exclude : List String) (target : Option StarTarget)
    : ∃ b, Prepared a d exclude b ∧
        Staged (·.markUnknownProvided canMangle exclude target) (a.chain d) b
          (a.provideAll d canMangle exclude target).1 :=
  ha.staged_provideSteps hd hd rfl (List.forall_mem_nil _) (ha.linked.redirects_chain d) ⟨a, .start ha, .start a⟩

end Run

/--
What a marking of unknown exports makes of `a`. In `b` the new records are there, but none is changed yet.
-/
structure StarMarked (a : Arena) (d : DescriptorId) (canMangle : Bool) (exclude : List String)
    (target : Option StarTarget) (b z : Arena) : Prop where
  prepared : Prepared a d exclude b
  linked : z.Linked
  descriptors : z.descriptors = b.descriptors
  found : ∀ name ∈ exclude, ∃ r, b.find? d name = some r
  catchAll : z.record (a.other d) = ((a.record (a.other d)).markOtherProvided canMangle target).1
  listed : ∀ {e r}, e ∈ a.chain d → r ∈ b.locals e →
    z.record r = ((b.record r).markUnknownProvided canMangle exclude target).1
  rest : ∀ {r : RecordId}, r.index < a.records.size → r ≠ a.other d → r ∉ (a.chain d).flatMap b.locals →
    z.record r = a.record r

theorem Sound.starMarked (h : a.Sound) (hd : d.index < a.descriptors.size) (canMangle : Bool) (exclude : List String)
    (target : Option StarTarget)
    : ∃ b, StarMarked a d canMangle exclude target b (a.markUnknownProvidedWith d canMangle exclude target).1 := by
  obtain ⟨b, hprepared, hstaged⟩ := h.staged_provideAll hd canMangle exclude target
  obtain ⟨_, _, hdone⟩ := h.done_provideAll hd canMangle exclude target
  have hlinked := h.linked.steps (.ofGrows (.markUnknownProvidedWith .samePlace a d canMangle exclude target))
  have hmark : (a.markUnknownProvidedWith d canMangle exclude target).1
      = (a.provideAll d canMangle exclude target).1.modifyRecord ((a.provideAll d canMangle exclude target).1.other d)
          fun x => (x.markOtherProvided canMangle target).1 := rfl
  rw [hmark] at hlinked ⊢
  generalize (a.provideAll d canMangle exclude target).1 = c at hstaged hdone hlinked
  have hfind := hprepared.sound.linked.find?_of_same hstaged.descriptors d
  have hother : c.other d = a.other d := by
    rw [hprepared.sound.linked.other_of_same hstaged.descriptors, hprepared.other_eq h]
  rw [hother] at hlinked ⊢
  have ⟨hlt, hcatchAll⟩ := hprepared.old (h.tidy.lt (h.linked.holds_other hd))
  have hnone : a.other d ∉ (a.chain d).flatMap b.locals := by
    intro hr
    obtain ⟨e, _, hr⟩ := List.mem_flatMap.1 hr
    exact hprepared.ne_other h hd hr rfl
  refine ⟨b, hprepared, hlinked, hstaged.descriptors, ?_, ?_, ?_, ?_⟩
  · intro name hname
    obtain ⟨ds, hds⟩ := c.chain_eq_cons d
    rw [← hfind]
    exact (hdone d (by simp [hds])).found name hname
  · rw [record_modifyRecord_self _ (hstaged.size ▸ hlt), hstaged.record hlt, if_neg hnone, hcatchAll]
  · intro e r he hr
    rw [record_modifyRecord_of_ne _ (hprepared.ne_other h hd hr), hstaged.record (hprepared.sound.lt_of_mem_locals hr),
      if_pos (List.mem_flatMap.2 ⟨e, he, hr⟩)]
  · intro r hr hne hnot
    have ⟨hlt, hold⟩ := hprepared.old hr
    rw [record_modifyRecord_of_ne _ hne, hstaged.record hlt, if_neg hnot, hold]

namespace StarMarked

variable {z : Arena} (h : StarMarked a d canMangle exclude target b z)
include h

theorem mangleProvide (hmangle : canMangle = true) (hr : r.index < a.records.size)
    : (z.record r).mangleProvide = (a.record r).mangleProvide := by
  subst hmangle
  by_cases hother : r = a.other d
  · rw [hother, h.catchAll, ExportRecord.mangleProvide_markOtherProvided]
  · by_cases hlisted : r ∈ (a.chain d).flatMap b.locals
    · obtain ⟨e, he, hr'⟩ := List.mem_flatMap.1 hlisted
      rw [h.listed he hr', ExportRecord.mangleProvide_markUnknownProvided, (h.prepared.old hr).2]
    · rw [h.rest hr hother hlisted]

theorem find?_eq (name : String) : z.find? d name = b.find? d name :=
  h.prepared.sound.linked.find?_of_same h.descriptors d name

variable (ha : a.Sound)
include ha

theorem other_eq : z.other d = a.other d := by
  rw [h.prepared.sound.linked.other_of_same h.descriptors, h.prepared.other_eq ha]

theorem record_of_find? (hr : b.find? d name = some r)
    : z.record r = ((b.record r).markUnknownProvided canMangle exclude target).1 := by
  obtain ⟨e, he, hr⟩ := List.exists_of_findSome?_eq_some hr
  rw [ha.linked.chain_congr h.prepared.redirect] at he
  exact h.listed he (Dict.mem_values_of_get? hr)

/--
A name keeps its record, or gets a new one because it is excluded, or comes to the catch-all record.
-/
theorem seen_cases (name : String)
    : (a.find? d name ≠ none ∧ z.seen d name = ((a.seen d name).markUnknownProvided canMangle exclude target).1)
        ∨
      (a.seen d name = a.record (a.other d) ∧ name ∈ exclude ∧
        z.seen d name = ((ExportRecord.seeded name (a.seen d name)).markUnknownProvided canMangle exclude target).1)
        ∨
      (a.seen d name = a.record (a.other d) ∧ name ∉ exclude ∧
        z.seen d name = ((a.seen d name).markOtherProvided canMangle target).1) := by
  unfold seen lookup
  rw [h.find?_eq, h.other_eq ha]
  cases hfind : a.find? d name with
  | some r =>
    left
    have hr : b.find? d name = some r := by
      rcases h.prepared.find? name with hsame | ⟨hnone, _⟩
      · rw [hsame, hfind]
      · rw [hfind] at hnone
        contradiction
    rw [hr, Option.getD_some, h.record_of_find? ha hr, (h.prepared.old (ha.lt_of_find? hfind)).2]
    exact ⟨Option.some_ne_none r, rfl⟩
  | none =>
    right
    by_cases hname : name ∈ exclude
    · left
      obtain ⟨r, hr⟩ := h.found name hname
      refine ⟨rfl, hname, ?_⟩
      rcases h.prepared.find? name with hsame | ⟨_, _, r', hr', hrecord⟩
      · rw [hsame, hfind] at hr
        contradiction
      · rw [hr', Option.getD_some, h.record_of_find? ha hr', hrecord]
        rfl
    · right
      have hr : b.find? d name = none := by
        rcases h.prepared.find? name with hsame | ⟨_, hexclude, _⟩
        · rw [hsame, hfind]
        · contradiction
      rw [hr]
      exact ⟨rfl, hname, h.catchAll⟩

end StarMarked

section Everything

theorem scanProvided_of_final {rs : List ExportRecord} (h : ∀ r ∈ rs, r.provided.isOpen = false)
    : scanProvided rs = .error .everything ∨ ∃ names, scanProvided rs = .ok names := by
  induction rs with
  | nil => exact .inr ⟨[], rfl⟩
  | cons r rs ih =>
    rw [List.forall_mem_cons] at h
    rw [scanProvided]
    cases hr : r.provided with
    | undetermined => simp [hr, Provision.isOpen] at h
    | notProvided => simp [hr, Provision.isOpen] at h
    | maybeProvided => exact .inl rfl
    | provided =>
      rcases ih h.2 with hscan | ⟨names, hscan⟩
      · left
        rw [hscan]
        rfl
      · right
        rw [hscan]
        exact ⟨_, rfl⟩

theorem scanOtherProvided_of_final {r : ExportRecord} (h : r.provided.isOpen = false)
    : scanOtherProvided r = .error .everything := by
  unfold scanOtherProvided
  revert h
  cases r.provided <;> simp [Provision.isOpen]

theorem providedExports_of_final (h : a.Linked)
    (hlisted : ∀ e ∈ a.chain d, ∀ r ∈ a.locals e, (a.record r).provided.isOpen = false)
    (hother : (a.record (a.other d)).provided.isOpen = false)
    : a.providedExports d = .everything := by
  induction d using h.chain_induction with
  | last d _ hchain =>
    rw [other, chainEnd_last hchain] at hother
    rw [providedExports, descend_last _ hchain, providedExportsStep, providedNames, scanOtherProvided_of_final hother]
    rfl
  | next d e _ hchain ih =>
    rw [hchain, List.forall_mem_cons] at hlisted
    rw [other, chainEnd_next hchain] at hother
    rw [providedExports, descend_next _ hchain, ← providedExports, ih hlisted.2 hother, providedExportsStep,
      providedNames]
    have hfinal : ∀ x ∈ (a.orderedLocals d).map a.record, x.provided.isOpen = false := by
      rw [List.forall_mem_map]
      intro r hr
      exact hlisted.1 r (mem_orderedLocals.1 hr)
    rcases scanProvided_of_final hfinal with hscan | ⟨names, hscan⟩
    · rw [hscan]
      rfl
    · rw [hscan]
      rfl

end Everything

theorem Sound.name_seen (h : a.Sound) (hfind : a.find? d name ≠ none) : (a.seen d name).name = some name := by
  obtain ⟨r, hr⟩ := Option.ne_none_iff_exists'.1 hfind
  rw [seen, lookup, hr]
  exact h.named.name_find? hr

namespace StarMarked

variable {z : Arena} (h : StarMarked a d canMangle exclude target b z) (ha : a.Sound)
  (hd : d.index < a.descriptors.size)
include h ha hd

theorem spared (hname : name ∈ exclude) : (a.seen d name).Spared name (z.seen d name) := by
  rcases h.seen_cases ha name with ⟨hfind, hseen⟩ | ⟨hother, _, hseen⟩ | ⟨_, hnot, _⟩
  · rw [hseen]
    exact ExportRecord.spared_markUnknownProvided (ha.name_seen hfind) hname
  · rw [hseen]
    have hspared : (ExportRecord.seeded name (a.seen d name)).Spared name
        ((ExportRecord.seeded name (a.seen d name)).markUnknownProvided canMangle exclude target).1 :=
      ExportRecord.spared_markUnknownProvided rfl hname
    constructor
    · exact hspared.provided
    · intro key
      rw [hspared.targetFor?, ExportRecord.targetFor?_seeded]
      rw [hother, ha.name_other hd]
  · contradiction

theorem shared (hname : name ∉ exclude) : (a.seen d name).Shared name target (z.seen d name) := by
  rcases h.seen_cases ha name with ⟨hfind, hseen⟩ | ⟨_, hmem, _⟩ | ⟨hother, _, hseen⟩
  · rw [hseen]
    exact ExportRecord.shared_markUnknownProvided (ha.name_seen hfind) hname
  · contradiction
  · rw [hseen]
    apply ExportRecord.shared_markOtherProvided
    rw [hother, ha.name_other hd]

omit hd in
theorem restricted (name : String) : (z.seen d name).Restricted canMangle := by
  rcases h.seen_cases ha name with ⟨_, hseen⟩ | ⟨_, _, hseen⟩ | ⟨_, _, hseen⟩
  · rw [hseen]
    apply ExportRecord.restricted_markUnknownProvided
  · rw [hseen]
    apply ExportRecord.restricted_markUnknownProvided
  · rw [hseen]
    apply ExportRecord.restricted_markOtherProvided

omit hd in
theorem providedExports (hexclude : exclude = []) : z.providedExports d = .everything := by
  have hredirect (e : DescriptorId) : (z.descriptor e).redirect = (a.descriptor e).redirect := by
    rw [descriptor_of_same h.descriptors, h.prepared.redirect]
  apply providedExports_of_final h.linked
  · intro e he r hr
    rw [ha.linked.chain_congr hredirect] at he
    rw [locals_of_same h.descriptors] at hr
    rw [h.listed he hr, ExportRecord.markUnknownProvided_fst, if_neg (by simp [hexclude]),
      ExportRecord.setStar_congr ExportRecord.provided fun _ _ => rfl]
    apply ExportRecord.final_setProvided
  · rw [h.other_eq ha, h.catchAll, ExportRecord.markOtherProvided_fst,
      ExportRecord.setStar_congr ExportRecord.provided fun _ _ => rfl, ExportRecord.provided_restrictMangle]
    apply ExportRecord.final_setProvided

end StarMarked

structure Reexports (a : Arena) (d : DescriptorId) (canMangle : Bool) (exclude : List String)
    (target : Option StarTarget) (z : Arena) : Prop where
  spared : ∀ name ∈ exclude, (a.seen d name).Spared name (z.seen d name)
  shared : ∀ name, name ∉ exclude → (a.seen d name).Shared name target (z.seen d name)
  restricted : canMangle = false → ∀ name, (z.seen d name).mangleProvide = some false
  unrestricted : canMangle = true → ∀ r : RecordId, r.index < a.records.size →
    (z.record r).mangleProvide = (a.record r).mangleProvide
  everything : exclude = [] → z.providedExports d = .everything

theorem reexports_markUnknownProvidedWith (h : a.Reachable) (hd : d.index < a.descriptors.size) (canMangle : Bool)
    (exclude : List String) (target : Option StarTarget)
    : a.Reexports d canMangle exclude target (a.markUnknownProvidedWith d canMangle exclude target).1 := by
  obtain ⟨b, hb⟩ := h.sound.starMarked hd canMangle exclude target
  constructor
  · intro name hname
    exact hb.spared h.sound hd hname
  · intro name hname
    exact hb.shared h.sound hd hname
  · intro hmangle name
    cases hb.restricted h.sound name with
    | inl htrue => simp [hmangle] at htrue
    | inr hfalse => exact hfalse
  · intro hmangle r hr
    exact hb.mangleProvide hmangle hr
  · intro hexclude
    exact hb.providedExports h.sound hexclude

end Arena

theorem Arena.reexports_markUnknownProvidedWith_sample
    : Sample.forwarded.Reachable ∧
      ∃ z, (Sample.forwarded.markUnknownProvidedWith ⟨0⟩ false ["default"] (some Sample.starTarget)).1 = z ∧
        Sample.forwarded.Reexports ⟨0⟩ false ["default"] (some Sample.starTarget) z ∧
        (∃ priority, (z.seen ⟨0⟩ "y").targetFor? ⟨0⟩ "y" = some ⟨⟨0⟩, some ["y"], priority⟩) ∧
        (z.seen ⟨0⟩ "default").provided = .undetermined ∧
        (z.seen ⟨0⟩ "default").mangleProvide = some false := by
  have h := reexports_markUnknownProvidedWith Sample.forwarded_reachable (d := ⟨0⟩) (by decide) false
    ["default"] (some Sample.starTarget)
  refine ⟨Sample.forwarded_reachable, _, rfl, h, ?_, ?_, ?_⟩
  · exact (h.shared "y" (by simp)).targetFor? Sample.starTarget rfl
  · rw [(h.spared "default" (by simp)).provided]
    decide
  · exact h.restricted rfl "default"

end ModuleLink
