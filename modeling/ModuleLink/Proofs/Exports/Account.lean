import ModuleLink.Proofs.Exports.Swap
import ModuleLink.Proofs.Exports.Trail

/-!
This module contains the proof that markings report changes exactly. What they report is usage, provision and the
permissions to shorten a name. These only climb while a marking goes on, so that no change is undone by a later one, and
a marking that adds up the reports of its parts reports whether there is a difference in the end.
-/

namespace ModuleLink

namespace Usage

theorem promote_eq_self {a b : Usage} : a.promote b = a ↔ ¬a < b := by
  unfold promote
  split
  · next hlt =>
    constructor
    · rintro rfl
      exact absurd hlt (Nat.lt_irrefl _)
    · exact fun hnot => absurd hlt hnot
  · next hlt => exact iff_of_true rfl hlt

end Usage

namespace Provision

theorem rank_injective : Function.Injective rank := by
  intro a b
  cases a <;> cases b <;> simp [rank]

theorem promote_eq_self {a b : Provision} : a.promote b = a ↔ a.moves b = false := by
  cases a <;> cases b <;> decide

end Provision

namespace ExportRecord

structure SameMarks (x y : ExportRecord) : Prop where
  used : y.used = x.used := by rfl
  provided : y.provided = x.provided := by rfl
  mangleProvide : y.mangleProvide = x.mangleProvide := by rfl
  mangleUse : y.mangleUse = x.mangleUse := by rfl

/--
Usage and provision do not move down, and the permissions to shorten the name are kept or withdrawn.
-/
structure Climbs (x y : ExportRecord) : Prop where
  used : x.used ≤ y.used := by exact Nat.le_refl _
  provided : x.provided ≤ y.provided := by exact Nat.le_refl _
  mangleProvide : y.mangleProvide = x.mangleProvide ∨ y.mangleProvide = some false := by exact .inl rfl
  mangleUse : y.mangleUse = x.mangleUse ∨ y.mangleUse = some false := by exact .inl rfl

namespace Climbs

variable {x y z : ExportRecord}

theorem withdrawn {p q r : Option Bool} (h : q = p ∨ q = some false) (h' : r = q ∨ r = some false)
    : r = p ∨ r = some false := by
  rcases h' with rfl | hr
  · exact h
  · exact .inr hr

theorem trans (h : x.Climbs y) (h' : y.Climbs z) : x.Climbs z where
  used := Nat.le_trans h.used h'.used
  provided := Nat.le_trans h.provided h'.provided
  mangleProvide := withdrawn h.mangleProvide h'.mangleProvide
  mangleUse := withdrawn h.mangleUse h'.mangleUse

theorem kept {p q r : Option Bool} (h : q = p ∨ q = some false) (h' : r = q ∨ r = some false) (heq : r = p)
    : q = p := by
  subst heq
  rcases h with hq | hq
  · exact hq
  · rcases h' with hr | hr
    · exact hr.symm
    · rw [hq, hr]

theorem sameMarks (h : x.Climbs y) (h' : y.Climbs z) : x.SameMarks z ↔ x.SameMarks y ∧ y.SameMarks z := by
  constructor
  · intro hsame
    have hmarks : x.SameMarks y := by
      refine ⟨?_, ?_, kept h.mangleProvide h'.mangleProvide hsame.mangleProvide,
        kept h.mangleUse h'.mangleUse hsame.mangleUse⟩
      · apply Usage.rank_injective
        apply Nat.le_antisymm _ h.used
        rw [← hsame.used]
        exact h'.used
      · apply Provision.rank_injective
        apply Nat.le_antisymm _ h.provided
        rw [← hsame.provided]
        exact h'.provided
    refine ⟨hmarks, ?_, ?_, ?_, ?_⟩
    · rw [hsame.used, hmarks.used]
    · rw [hsame.provided, hmarks.provided]
    · rw [hsame.mangleProvide, hmarks.mangleProvide]
    · rw [hsame.mangleUse, hmarks.mangleUse]
  · rintro ⟨hxy, hyz⟩
    exact ⟨hyz.used.trans hxy.used, hyz.provided.trans hxy.provided, hyz.mangleProvide.trans hxy.mangleProvide,
      hyz.mangleUse.trans hxy.mangleUse⟩

end Climbs

structure Accurate (f : ExportRecord → ExportRecord × Bool) : Prop where
  climbs : ∀ x : ExportRecord, x.Climbs (f x).1
  report : ∀ x : ExportRecord, (f x).2 = true ↔ ¬x.SameMarks (f x).1

namespace Accurate

variable {f g : ExportRecord → ExportRecord × Bool}

theorem andThen (hf : Accurate f) (hg : Accurate g) : Accurate fun x => ((g (f x).1).1, (f x).2 || (g (f x).1).2) where
  climbs x := (hf.climbs x).trans (hg.climbs (f x).1)
  report x := by
    rw [(hf.climbs x).sameMarks (hg.climbs (f x).1), Bool.or_eq_true, hf.report, hg.report, not_and_or]

theorem ite {c : ExportRecord → Prop} [DecidablePred c] (hf : Accurate f) (hg : Accurate g)
    : Accurate fun x => if c x then f x else g x where
  climbs x := by
    split
    · exact hf.climbs x
    · exact hg.climbs x
  report x := by
    split
    · exact hf.report x
    · exact hg.report x

theorem silent {f : ExportRecord → ExportRecord} (hf : ∀ x : ExportRecord, x.SameMarks (f x))
    : Accurate fun x => (f x, false) where
  climbs x := by
    obtain ⟨hused, hprovided, hmangleProvide, hmangleUse⟩ := hf x
    exact ⟨Nat.le_of_eq (congrArg Usage.rank hused.symm), Nat.le_of_eq (congrArg Provision.rank hprovided.symm),
      .inl hmangleProvide, .inl hmangleUse⟩
  report x := by
    have hsame := hf x
    simpa using hsame

theorem setUsed (state : Usage) : Accurate (·.setUsed state) where
  climbs x := { used := x.used.le_promote state }
  report x := by
    have hsame : x.SameMarks (x.setUsed state).1 ↔ x.used.promote state = x.used :=
      ⟨fun h => h.used, fun h => { used := h }⟩
    rw [hsame, Usage.promote_eq_self, not_not]
    exact decide_eq_true_iff

theorem setUsedIf (condition : Usage → Bool) (state : Usage) : Accurate (·.setUsedIf condition state) :=
  ite (setUsed state) (silent fun _ => {})

theorem useProperties : Accurate ExportRecord.useProperties := setUsedIf (fun u => decide (u ≤ .unused)) .propertiesUsed

theorem setProvided (state : Provision) : Accurate (·.setProvided state) where
  climbs x := { provided := x.provided.le_promote state }
  report x := by
    have hsame : x.SameMarks (x.setProvided state).1 ↔ x.provided.promote state = x.provided :=
      ⟨fun h => h.provided, fun h => { provided := h }⟩
    rw [hsame, Provision.promote_eq_self, Bool.not_eq_false]
    rfl

theorem withdrawProvide : Accurate (·.setMangleProvide (some false)) where
  climbs x := { mangleProvide := .inr rfl }
  report x := by
    have hsame : x.SameMarks (x.setMangleProvide (some false)).1 ↔ some false = x.mangleProvide :=
      ⟨fun h => h.mangleProvide, fun h => { mangleProvide := h }⟩
    rw [hsame, setMangleProvide, bne_iff_ne]
    exact ne_comm

theorem withdrawUse : Accurate (·.setMangleUse (some false)) where
  climbs x := { mangleUse := .inr rfl }
  report x := by
    have hsame : x.SameMarks (x.setMangleUse (some false)).1 ↔ some false = x.mangleUse :=
      ⟨fun h => h.mangleUse, fun h => { mangleUse := h }⟩
    rw [hsame, setMangleUse, bne_iff_ne]
    exact ne_comm

theorem setUsedInUnknownWay : Accurate ExportRecord.setUsedInUnknownWay := (setUsed .unknown).andThen withdrawUse

theorem restrictMangle (canMangle : Bool) : Accurate (·.restrictMangle canMangle) := by
  cases canMangle with
  | false => exact withdrawProvide
  | true => exact silent fun _ => {}

theorem setStarTarget (target : Option StarTarget) (path : ExportRecord → Option (List String))
    (priority : StarTarget → Int)
    : Accurate fun x => (match target with
        | none => x
        | some t => (x.setTarget t.key ⟨t.connection, path x, priority t⟩).1, false) := by
  apply silent
  intro x
  cases target with
  | none => exact {}
  | some t =>
    unfold setTarget
    dsimp only
    split <;> exact {}

theorem markUnknownProvided (canMangle : Bool) (exclude : List String) (target : Option StarTarget)
    : Accurate (·.markUnknownProvided canMangle exclude target) := by
  have hprovide := ((restrictMangle canMangle).andThen (setProvided .maybeProvided)).andThen
    (setStarTarget target (fun x => some [x.name.getD ""]) fun _ => -1)
  have hmark := (restrictMangle canMangle).ite (c := fun x => exclude.contains (x.name.getD "") = true) hprovide
  convert hmark using 2 with x
  cases canMangle <;> simp only [ExportRecord.markUnknownProvided, Bool.or_false] <;> rfl

theorem markOtherProvided (canMangle : Bool) (target : Option StarTarget)
    : Accurate (·.markOtherProvided canMangle target) := by
  have hmark := ((setProvided .maybeProvided).andThen (restrictMangle canMangle)).andThen
    (setStarTarget target (fun _ => none) StarTarget.priority)
  simp only [Bool.or_false] at hmark
  exact hmark

end Accurate

end ExportRecord

namespace Arena

variable {a b c : Arena} {d e : DescriptorId} {r : RecordId} {f : ExportRecord → ExportRecord × Bool} {changed : Bool}

inductive Creates (a : Arena) : Arena → Prop where
  | refl : Creates a a
  | step {b : Arena} (d : DescriptorId) (name : String) :
      Creates a b → d.index < b.descriptors.size → Creates a (b.getOrCreate d name).1

theorem Creates.size_descriptors (h : a.Creates b) : b.descriptors.size = a.descriptors.size := by
  induction h with
  | refl => rfl
  | step d name _ _ ih =>
    unfold getOrCreate
    split
    · exact ih
    · exact (size_insertLocal ..).trans ih

/--
What was reported on the way from `b` to `c`, where `b` has all records of `c` as they were in the beginning.
-/
structure Account (a b c : Arena) (changed : Bool) : Prop where
  created : a.Creates b
  descriptors : c.descriptors = b.descriptors
  size : c.records.size = b.records.size
  climbs : ∀ r, (b.record r).Climbs (c.record r)
  exact : changed = true ↔ ∃ r : RecordId, r.index < b.records.size ∧ ¬(b.record r).SameMarks (c.record r)

namespace Account

theorem size_descriptors (h : Account a b c changed) : c.descriptors.size = a.descriptors.size := by
  rw [h.descriptors, h.created.size_descriptors]

theorem refl (a : Arena) : Account a a a false where
  created := .refl
  descriptors := rfl
  size := rfl
  climbs _ := {}
  exact := by
    constructor
    · exact nofun
    · rintro ⟨r, -, hchanged⟩
      exact absurd {} hchanged

theorem updateRecord (h : Account a b c changed) (hf : ExportRecord.Accurate f) (hr : r.index < c.records.size)
    : Account a b (c.updateRecord r f).1 (changed || (c.updateRecord r f).2) := by
  have hself : (c.updateRecord r f).1.record r = (f (c.record r)).1 := record_modifyRecord_self _ hr
  have hother {s : RecordId} (hs : s ≠ r) : (c.updateRecord r f).1.record s = c.record s :=
    record_modifyRecord_of_ne _ hs
  have hmarks : (b.record r).SameMarks (f (c.record r)).1
      ↔ (b.record r).SameMarks (c.record r) ∧ (c.record r).SameMarks (f (c.record r)).1 :=
    (h.climbs r).sameMarks (hf.climbs _)
  have hreport : (c.updateRecord r f).2 = true ↔ ¬(c.record r).SameMarks (f (c.record r)).1 := hf.report _
  refine ⟨h.created, h.descriptors, Array.size_modify.trans h.size, ?_, ?_⟩
  · intro s
    by_cases hs : s = r
    · rw [hs, hself]
      exact (h.climbs r).trans (hf.climbs _)
    · rw [hother hs]
      exact h.climbs s
  · rw [Bool.or_eq_true, h.exact, hreport]
    constructor
    · rintro (⟨s, hlt, hchanged⟩ | hchanged)
      · refine ⟨s, hlt, ?_⟩
        by_cases hs : s = r
        · rw [hs, hself, hmarks, ← hs]
          exact fun hsame => hchanged hsame.1
        · rwa [hother hs]
      · refine ⟨r, h.size ▸ hr, ?_⟩
        rw [hself, hmarks]
        exact fun hsame => hchanged hsame.2
    · rintro ⟨s, hlt, hchanged⟩
      by_cases hs : s = r
      · rw [hs, hself, hmarks, not_and_or] at hchanged
        rw [hs] at hlt
        exact hchanged.imp_left fun hchanged => ⟨r, hlt, hchanged⟩
      · rw [hother hs] at hchanged
        exact .inl ⟨s, hlt, hchanged⟩

theorem updateRecords (h : Account a b c changed) (hf : ExportRecord.Accurate f) {rs : List RecordId}
    (hrs : ∀ r ∈ rs, r.index < c.records.size)
    : Account a b (c.updateRecords rs f).1 (changed || (c.updateRecords rs f).2) := by
  suffices hall : ∀ state : Arena × Bool, Account a b state.1 state.2 →
      Account a b (rs.foldl (updateStep f) state).1 (rs.foldl (updateStep f) state).2 by
    have hfold := hall (c, changed) h
    rwa [foldl_updateStep] at hfold
  rw [h.size] at hrs
  induction rs with
  | nil => exact fun _ hstate => hstate
  | cons r rs ih =>
    intro state hstate
    rw [List.forall_mem_cons] at hrs
    exact ih hrs.2 _ (hstate.updateRecord hf (hstate.size ▸ hrs.1))

end Account

def SameOthers (b c : Arena) : Prop :=
  ∀ e : DescriptorId, e.index < b.descriptors.size → c.record (b.descriptor e).other = b.record (b.descriptor e).other

theorem SameOthers.updateRecord (h : SameOthers b c) (hc : c.Sound) (hsame : c.descriptors = b.descriptors)
    {name : String} (hr : c.listed? d name = some r) : SameOthers b (c.updateRecord r f).1 := by
  intro e he
  have hne : (b.descriptor e).other ≠ r := by
    intro heq
    rw [← hsame] at he
    rw [← descriptor_of_same hsame] at heq
    rw [← heq] at hr
    cases hc.tidy.once (.listed hr) (.other he)
  exact (record_modifyRecord_of_ne _ hne).trans (h e he)

section Create

variable {name : String} (h : Account a b c changed) (ho : SameOthers b c)
include h ho

theorem SameOthers.record_insertLocal (hd : d.index < b.descriptors.size) (name : String) (r : RecordId)
    : (b.insertLocal d name).1.record r = (c.insertLocal d name).1.record r ∨
        ((b.insertLocal d name).1.record r = b.record r ∧ (c.insertLocal d name).1.record r = c.record r ∧
          r.index ≠ b.records.size) := by
  rw [Arena.record_insertLocal, Arena.record_insertLocal, h.size, descriptor_of_same h.descriptors, ho d hd]
  by_cases hr : r.index = b.records.size
  · rw [if_pos hr, if_pos hr]
    exact .inl rfl
  · rw [if_neg hr, if_neg hr]
    exact .inr ⟨rfl, rfl, hr⟩

theorem Account.getOrCreate (hc : c.Linked) (hd : d.index < b.descriptors.size) (name : String)
    : Account a (b.getOrCreate d name).1 (c.getOrCreate d name).1 changed ∧
        SameOthers (b.getOrCreate d name).1 (c.getOrCreate d name).1 := by
  have hcreated := h.created.step d name hd
  have hfind : b.find? d name = c.find? d name := hc.find?_of_same h.descriptors.symm d name
  have hend : b.chainEnd d = c.chainEnd d := hc.chainEnd_of_same h.descriptors.symm d
  unfold Arena.getOrCreate at hcreated ⊢
  rw [hfind, hend] at hcreated ⊢
  cases hr : c.find? d name with
  | some r => exact ⟨h, ho⟩
  | none =>
    rw [hr] at hcreated
    have hlt : (c.chainEnd d).index < b.descriptors.size := by
      rw [← h.descriptors] at hd ⊢
      exact hc.lt_chainEnd hd
    have hrecord := ho.record_insertLocal h hlt name
    refine ⟨⟨hcreated, descriptors_insertLocal h.descriptors h.size _ name, ?_, ?_, ?_⟩, ?_⟩
    · rw [size_records_insertLocal, size_records_insertLocal, h.size]
    · intro r
      rcases hrecord r with hsame | ⟨hb, hc, -⟩
      · rw [hsame]
        exact {}
      · rw [hb, hc]
        exact h.climbs r
    · rw [h.exact]
      constructor
      · rintro ⟨r, hr, hchanged⟩
        refine ⟨r, ?_, ?_⟩
        · rw [size_records_insertLocal]
          exact Nat.lt_succ_of_lt hr
        · rw [record_insertLocal_of_lt _ _ hr, record_insertLocal_of_lt _ _ (h.size ▸ hr)]
          exact hchanged
      · rintro ⟨r, hr, hchanged⟩
        rcases hrecord r with hsame | ⟨hb, hc, hne⟩
        · rw [hsame] at hchanged
          exact absurd {} hchanged
        · rw [hb, hc] at hchanged
          rw [size_records_insertLocal] at hr
          exact ⟨r, Nat.lt_of_le_of_ne (Nat.le_of_lt_succ hr) hne, hchanged⟩
    · intro e he
      rw [size_insertLocal] at he
      rw [insertLocal_congr Descriptor.other fun _ _ => rfl]
      rcases hrecord (b.descriptor e).other with hsame | ⟨hb, hc, -⟩
      · exact hsame.symm
      · rw [hb, hc]
        exact ho e he

end Create

structure Ongoing (a b c : Arena) (changed : Bool) : Prop where
  account : Account a b c changed
  others : SameOthers b c
  sound : c.Sound

namespace Ongoing

theorem start (h : a.Sound) : Ongoing a a a false := ⟨.refl a, fun _ _ => rfl, h⟩

theorem updateRecord (h : Ongoing a b c changed) (hf : ExportRecord.Accurate f)
    (hplace : ∀ x : ExportRecord, x.SamePlace (f x).1) {name : String} (hr : c.listed? d name = some r)
    : Ongoing a b (c.updateRecord r f).1 (changed || (c.updateRecord r f).2) where
  account := h.account.updateRecord hf (h.sound.tidy.lt (.listed hr))
  others := h.others.updateRecord h.sound h.account.descriptors hr
  sound := h.sound.step (.modifyRecord c r _ hplace)

theorem updateLocals (h : Ongoing a b c changed) (hf : ExportRecord.Accurate f)
    (hplace : ∀ x : ExportRecord, x.SamePlace (f x).1) (e : DescriptorId)
    : Ongoing a b (c.updateRecords (c.locals e) f).1 (changed || (c.updateRecords (c.locals e) f).2) := by
  suffices hall : ∀ rs : List RecordId, (∀ r ∈ rs, ∃ name, c.listed? e name = some r) → ∀ state : Arena × Bool,
      state.1.descriptors = c.descriptors → Ongoing a b state.1 state.2 →
      Ongoing a b (rs.foldl (updateStep f) state).1 (rs.foldl (updateStep f) state).2 by
    have hfold := hall (c.locals e) (fun r hr => (h.sound.named.listed_of_mem hr).imp fun _ => And.left) (c, changed)
      rfl h
    rwa [foldl_updateStep] at hfold
  intro rs
  induction rs with
  | nil => exact fun _ _ _ hstate => hstate
  | cons r rs ih =>
    intro hrs state hsame hstate
    rw [List.forall_mem_cons] at hrs
    obtain ⟨name, hr⟩ := hrs.1
    rw [← listed?_of_same hsame] at hr
    exact ih hrs.2 (updateStep f state r) hsame (hstate.updateRecord hf hplace hr)

theorem getOrCreate (h : Ongoing a b c changed) (hd : d.index < c.descriptors.size) (name : String)
    : Ongoing a (b.getOrCreate d name).1 (c.getOrCreate d name).1 changed := by
  have ⟨haccount, hothers⟩ := h.account.getOrCreate h.others h.sound.linked (h.account.descriptors ▸ hd) name
  exact ⟨haccount, hothers, h.sound.steps (.getOrCreate c d name)⟩

theorem getOrCreateAll (h : Ongoing a b c changed) (hd : d.index < c.descriptors.size) (names : List String)
    : ∃ b', Ongoing a b' (names.foldl (fun a name => (a.getOrCreate d name).1) c) changed := by
  induction names generalizing b c with
  | nil => exact ⟨b, h⟩
  | cons name names ih =>
    have hle := (StepsBy.getOrCreate (P := ExportRecord.SamePlace) c d name).size_le
    exact ih (h.getOrCreate hd name) (Nat.lt_of_lt_of_le hd hle)

end Ongoing

section Markings

theorem Sound.account_markUsedUnknownWay (h : a.Sound) (hd : d.index < a.descriptors.size) {start b : Arena}
    (haccount : Account start b a changed)
    : Account start b (a.markUsedUnknownWay d).1 (changed || (a.markUsedUnknownWay d).2) :=
  haccount.updateRecords .setUsedInUnknownWay fun _ hr => h.lt_of_mem_scope hd hr

theorem Sound.account_markExportUsed (h : a.Sound) (hd : d.index < a.descriptors.size) (path : List String)
    (state : Usage) : ∃ b, Account a b (a.markExportUsed d path state).1 (a.markExportUsed d path state).2 := by
  suffices hall : ∀ start b changed, Ongoing start b a changed →
      ∃ b', Account start b' (a.markExportUsed d path state).1 (changed || (a.markExportUsed d path state).2) from
    hall a a false (.start h)
  refine Sound.markExportUsed_induction (motive := fun a d path => ∀ start b changed, Ongoing start b a changed →
    ∃ b', Account start b' (a.markExportUsed d path state).1
      (changed || (a.markExportUsed d path state).2)) ?_ ?_ ?_ ?_ h hd path
  · intro a d h hd start b changed hongoing
    rw [markExportUsed]
    exact ⟨b, h.account_markUsedUnknownWay hd hongoing.account⟩
  · intro a d first rest h hd hr start b changed hongoing
    have hcreate : (a.getOrCreate d first).1 = (a.insertLocal (a.chainEnd d) first).1 := by
      rw [getOrCreate, hr]
    have hcreated := hongoing.getOrCreate hd first
    rw [hcreate] at hcreated
    rw [markExportUsed_new hr]
    refine ⟨_, hcreated.account.updateRecord (.setUsed state) ?_⟩
    rw [size_records_insertLocal]
    exact Nat.lt_succ_self _
  · intro a d first rest r h hr hlast start b changed hongoing
    rw [markExportUsed_last hr hlast]
    exact ⟨b, hongoing.account.updateRecord (.setUsed state) (h.lt_of_find? hr)⟩
  · intro a d e first rest r h hr hrest he ih start b changed hongoing
    obtain ⟨f, hlisted⟩ := exists_listed_of_find? hr
    have houter := hongoing.updateRecord .useProperties (fun x => (ExportRecord.UsedMore.useProperties x).samePlace)
      hlisted
    obtain ⟨b', hb'⟩ := ih start b _ houter
    refine ⟨b', ?_⟩
    rw [markExportUsed_next hr hrest he, Bool.or_comm _ (Prod.snd _), ← Bool.or_assoc]
    exact hb'

def provideStep (canMangle : Bool) (exclude : List String) (target : Option StarTarget) (state : Arena × Bool)
    (e : DescriptorId) : Arena × Bool :=
  let b := exclude.foldl (fun a name => (a.getOrCreate e name).1) state.1
  ((b.updateRecords (b.locals e) (·.markUnknownProvided canMangle exclude target)).1,
    state.2 || (b.updateRecords (b.locals e) (·.markUnknownProvided canMangle exclude target)).2)

def provideAll (a : Arena) (d : DescriptorId) (canMangle : Bool) (exclude : List String) (target : Option StarTarget) :
    Arena × Bool :=
  (a.chain d).foldl (provideStep canMangle exclude target) (a, false)

theorem markUnknownProvidedWith_eq (a : Arena) (d : DescriptorId) (canMangle : Bool) (exclude : List String)
    (target : Option StarTarget)
    : a.markUnknownProvidedWith d canMangle exclude target
        =
      updateStep (·.markOtherProvided canMangle target) (a.provideAll d canMangle exclude target)
        ((a.provideAll d canMangle exclude target).1.other d) := rfl

variable (canMangle : Bool) (exclude : List String) (target : Option StarTarget)

theorem Ongoing.provideStep {state : Arena × Bool} (h : Ongoing a b state.1 state.2)
    (he : e.index < state.1.descriptors.size)
    : ∃ b', Ongoing a b' (Arena.provideStep canMangle exclude target state e).1
        (Arena.provideStep canMangle exclude target state e).2 := by
  obtain ⟨b', hcreated⟩ := h.getOrCreateAll he exclude
  exact ⟨b', hcreated.updateLocals (.markUnknownProvided canMangle exclude target)
    (fun x => ExportRecord.Kept.samePlace.markUnknownProvided x canMangle exclude target) e⟩

theorem Sound.ongoing_provideAll (h : a.Sound) (hd : d.index < a.descriptors.size)
    : ∃ b, Ongoing a b (a.provideAll d canMangle exclude target).1 (a.provideAll d canMangle exclude target).2 := by
  suffices hall : ∀ ds : List DescriptorId, (∀ e ∈ ds, e.index < a.descriptors.size) → ∀ state : Arena × Bool,
      (∃ b, Ongoing a b state.1 state.2) →
      ∃ b, Ongoing a b (ds.foldl (Arena.provideStep canMangle exclude target) state).1
        (ds.foldl (Arena.provideStep canMangle exclude target) state).2 from
    hall (a.chain d) (fun _ he => h.linked.lt_of_mem_chain hd he) (a, false) ⟨a, .start h⟩
  intro ds
  induction ds with
  | nil => exact fun _ _ hstate => hstate
  | cons e ds ih =>
    rintro hds state ⟨b, hstate⟩
    rw [List.forall_mem_cons] at hds
    apply ih hds.2
    apply hstate.provideStep
    rw [hstate.account.size_descriptors]
    exact hds.1

theorem Sound.account_markUnknownProvidedWith (h : a.Sound) (hd : d.index < a.descriptors.size)
    : ∃ b, Account a b (a.markUnknownProvidedWith d canMangle exclude target).1
        (a.markUnknownProvidedWith d canMangle exclude target).2 := by
  obtain ⟨b, hb⟩ := h.ongoing_provideAll canMangle exclude target hd
  rw [markUnknownProvidedWith_eq]
  refine ⟨b, hb.account.updateRecord (.markOtherProvided canMangle target) ?_⟩
  apply hb.sound.tidy.lt
  apply hb.sound.linked.holds_other
  rw [hb.account.size_descriptors]
  exact hd

end Markings

end Arena
end ModuleLink
