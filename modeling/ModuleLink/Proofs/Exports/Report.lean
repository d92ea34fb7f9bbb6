import ModuleLink.Proofs.Exports.Account

/-!
This module contains the proof that markings can be repeated until nothing changes. A marking reports exactly whether it
has changed anything, and when it is repeated at once it finds its records and has nothing left to do.
-/

namespace ModuleLink

namespace ExportRecord

theorem setUsed_of_le {x : ExportRecord} {state : Usage} (h : state ≤ x.used) : x.setUsed state = (x, false) := by
  have hlt : ¬x.used < state := Nat.not_lt_of_le h
  rw [setUsed, Usage.promote_eq_self.2 hlt, decide_eq_false hlt]

theorem once_setUsed (state : Usage) : Once (·.setUsed state) :=
  fun x => setUsed_of_le (x.used.le_promote_right state)

theorem once_setUsedIf (condition : Usage → Bool) (state : Usage) : Once (·.setUsedIf condition state) := by
  intro x
  dsimp only
  by_cases h : condition x.used
  · rw [show x.setUsedIf condition state = x.setUsed state from if_pos h, setUsedIf]
    split
    · exact once_setUsed state x
    · rfl
  · have hx : x.setUsedIf condition state = (x, false) := if_neg h
    rw [hx]
    exact hx

theorem useProperties_of_le {x : ExportRecord} (h : .unknown ≤ x.used) : x.useProperties = (x, false) := by
  apply if_neg
  rw [decide_eq_true_iff]
  exact Nat.not_le_of_lt h

theorem once_setUsedOfProvided
    : Once fun x => if x.provided = .provided then x.setUsed .used else (x, false) := by
  intro x
  dsimp only
  by_cases h : x.provided = .provided
  · rw [if_pos h]
    exact (if_pos h).trans (once_setUsed .used x)
  · rw [if_neg h]
    exact if_neg h

section Provide

variable {x : ExportRecord} {canMangle : Bool} {target : Option StarTarget} {path : Option (List String)}
  {priority : StarTarget → Int}

def Restricted (canMangle : Bool) (x : ExportRecord) : Prop := canMangle = true ∨ x.mangleProvide = some false

theorem restricted_restrictMangle (x : ExportRecord) (canMangle : Bool)
    : (x.restrictMangle canMangle).1.Restricted canMangle := by
  cases canMangle with
  | true => exact .inl rfl
  | false => exact .inr rfl

theorem Restricted.restrictMangle (h : x.Restricted canMangle) : x.restrictMangle canMangle = (x, false) := by
  cases canMangle with
  | true => rfl
  | false =>
    have hfalse : some false = x.mangleProvide := (h.resolve_left Bool.false_ne_true).symm
    simp [ExportRecord.restrictMangle, setMangleProvide, hfalse]

theorem setProvided_of_final (h : x.provided.isOpen = false) (state : Provision)
    : x.setProvided state = (x, false) := by
  rw [setProvided, Provision.promote_of_final h, Provision.moves, h]
  rfl

theorem final_setProvided (x : ExportRecord) : (x.setProvided .maybeProvided).1.provided.isOpen = false := by
  obtain ⟨_, _, p, _⟩ := x
  cases p <;> rfl

def setStar (x : ExportRecord) (target : Option StarTarget) (path : Option (List String))
    (priority : StarTarget → Int) : ExportRecord :=
  match target with
  | none => x
  | some t => (x.setTarget t.key ⟨t.connection, path, priority t⟩).1

theorem setStar_of_get? (h : ∀ t, target = some t → x.targets.get? t.key = some ⟨t.connection, path, priority t⟩)
    : x.setStar target path priority = x := by
  cases target with
  | none => rfl
  | some t =>
    unfold setStar setTarget
    dsimp only
    rw [if_pos (h t rfl)]

structure Provides (canMangle : Bool) (target : Option StarTarget) (path : Option (List String))
    (priority : StarTarget → Int) (x : ExportRecord) : Prop where
  restricted : x.Restricted canMangle
  final : x.provided.isOpen = false
  star : ∀ t, target = some t → x.targets.get? t.key = some ⟨t.connection, path, priority t⟩

theorem Provides.ofStar (hrestricted : x.Restricted canMangle) (hfinal : x.provided.isOpen = false)
    : (x.setStar target path priority).Provides canMangle target path priority := by
  cases target with
  | none => exact ⟨hrestricted, hfinal, nofun⟩
  | some t =>
    unfold setStar setTarget
    dsimp only
    split
    · next hget =>
      refine ⟨hrestricted, hfinal, ?_⟩
      rintro _ ⟨⟩
      exact hget
    · refine ⟨hrestricted, hfinal, ?_⟩
      rintro _ ⟨⟩
      simp [Dict.get?_insert]

theorem once_provideListed (canMangle : Bool) (exclude : List String) (target : Option StarTarget)
    : Once (·.markUnknownProvided canMangle exclude target) := by
  have hmark (x : ExportRecord) : x.markUnknownProvided canMangle exclude target
      = if exclude.contains (x.name.getD "") then x.restrictMangle canMangle
        else (((x.restrictMangle canMangle).1.setProvided .maybeProvided).1.setStar target (some [x.name.getD ""])
            fun _ => -1,
          (x.restrictMangle canMangle).2 || ((x.restrictMangle canMangle).1.setProvided .maybeProvided).2) := rfl
  intro x
  have hname := (Kept.samePlace.markUnknownProvided x canMangle exclude target).name
  have hrestricted := restricted_restrictMangle x canMangle
  dsimp only
  rw [hmark (x.markUnknownProvided canMangle exclude target).1, hname, hmark x]
  by_cases h : exclude.contains (x.name.getD "")
  · rw [if_pos h, if_pos h]
    exact hrestricted.restrictMangle
  · rw [if_neg h, if_neg h]
    have hprovides : (((x.restrictMangle canMangle).1.setProvided .maybeProvided).1.setStar target
        (some [x.name.getD ""]) fun _ => -1).Provides canMangle target (some [x.name.getD ""]) fun _ => -1 :=
      .ofStar hrestricted (final_setProvided _)
    dsimp only
    rw [hprovides.restricted.restrictMangle, setProvided_of_final hprovides.final, setStar_of_get? hprovides.star]
    rfl

theorem once_provideOther (canMangle : Bool) (target : Option StarTarget)
    : Once (·.markOtherProvided canMangle target) := by
  have hmark (x : ExportRecord) : x.markOtherProvided canMangle target
      = (((x.setProvided .maybeProvided).1.restrictMangle canMangle).1.setStar target none StarTarget.priority,
          (x.setProvided .maybeProvided).2 || ((x.setProvided .maybeProvided).1.restrictMangle canMangle).2) := rfl
  intro x
  have hfinal : ((x.setProvided .maybeProvided).1.restrictMangle canMangle).1.provided.isOpen = false := by
    cases canMangle <;> exact final_setProvided x
  have hprovides : (((x.setProvided .maybeProvided).1.restrictMangle canMangle).1.setStar target none
      StarTarget.priority).Provides canMangle target none StarTarget.priority :=
    .ofStar (restricted_restrictMangle _ canMangle) hfinal
  dsimp only
  rw [hmark (x.markOtherProvided canMangle target).1, hmark x]
  dsimp only
  rw [setProvided_of_final hprovides.final, hprovides.restricted.restrictMangle, setStar_of_get? hprovides.star]
  rfl

end Provide

end ExportRecord

namespace Arena

variable {a b c : Arena} {d e : DescriptorId} {r : RecordId} {f : ExportRecord → ExportRecord × Bool}
  {rs : List RecordId} {path : List String} {state : Usage}

section Update

theorem updateRecord_of_fixed (h : f (a.record r) = (a.record r, false)) : a.updateRecord r f = (a, false) := by
  have hsame : a.modifyRecord r (fun x => (f x).1) = a := by
    apply ext_record
    · rfl
    · exact Array.size_modify
    · intro s hs
      by_cases hr : s = r
      · subst hr
        rw [record_modifyRecord_self _ (Nat.lt_of_lt_of_eq hs Array.size_modify), h]
      · exact record_modifyRecord_of_ne _ hr
  rw [updateRecord, hsame, h]

theorem fixed_updateRecord (hf : ExportRecord.Once f) (hr : r.index < a.records.size)
    : f ((a.updateRecord r f).1.record r) = ((a.updateRecord r f).1.record r, false) := by
  rw [updateRecord, record_modifyRecord_self _ hr]
  exact hf _

theorem updateRecords_of_fixed (h : ∀ r ∈ rs, f (a.record r) = (a.record r, false))
    : a.updateRecords rs f = (a, false) := by
  rw [updateRecords_eq_foldl]
  induction rs with
  | nil => rfl
  | cons r rs ih =>
    rw [List.forall_mem_cons] at h
    rw [List.foldl_cons, updateStep, updateRecord_of_fixed h.1]
    exact ih h.2

theorem record_updateRecords (hf : ExportRecord.Once f) (rs : List RecordId) (hr : r.index < a.records.size)
    : (a.updateRecords rs f).1.record r = if r ∈ rs then (f (a.record r)).1 else a.record r := by
  rw [updateRecords_eq hf]
  exact record_modifyAll rs (fun x => congrArg Prod.fst (hf x)) hr

theorem fixed_updateRecords (hf : ExportRecord.Once f) (hr : r ∈ rs) (hlt : r.index < a.records.size)
    : f ((a.updateRecords rs f).1.record r) = ((a.updateRecords rs f).1.record r, false) := by
  rw [record_updateRecords hf rs hlt, if_pos hr]
  exact hf _

theorem updateRecords_again (hf : ExportRecord.Once f) (h : ∀ r ∈ rs, r.index < a.records.size)
    : (a.updateRecords rs f).1.updateRecords rs f = ((a.updateRecords rs f).1, false) :=
  updateRecords_of_fixed fun r hr => fixed_updateRecords hf hr (h r hr)

end Update

theorem Marked.markExportUsed_again (h : a.Marked state d path) : a.markExportUsed d path state = (a, false) := by
  induction h with
  | last hr hlast hused =>
    rw [markExportUsed_last hr hlast]
    exact updateRecord_of_fixed (ExportRecord.setUsed_of_le hused)
  | next hr hrest he hused _ ih =>
    rw [markExportUsed_next hr hrest he, updateRecord_of_fixed (ExportRecord.useProperties_of_le hused), ih]
    rfl

section Provide

/--
The records in which `f` has nothing left to do stay as they are, and the others where they are found.
-/
structure Stays (f : ExportRecord → ExportRecord × Bool) (a b : Arena) : Prop where
  size : a.records.size ≤ b.records.size
  redirect : ∀ e : DescriptorId, (b.descriptor e).redirect = (a.descriptor e).redirect
  find? : ∀ {e : DescriptorId} {name : String} {r : RecordId}, a.find? e name = some r → b.find? e name = some r
  locals : ∀ {e : DescriptorId}, (a.descriptor e).redirect ≠ none → b.locals e = a.locals e
  fixed : ∀ {r : RecordId}, r.index < a.records.size → f (a.record r) = (a.record r, false) → b.record r = a.record r

namespace Stays

theorem refl (a : Arena) : Stays f a a where
  size := Nat.le_refl _
  redirect _ := rfl
  find? := id
  locals _ := rfl
  fixed _ _ := rfl

theorem trans (h : Stays f a b) (h' : Stays f b c) : Stays f a c where
  size := Nat.le_trans h.size h'.size
  redirect e := (h'.redirect e).trans (h.redirect e)
  find? hr := h'.find? (h.find? hr)
  locals he := by
    rw [← h.locals he]
    apply h'.locals
    rw [h.redirect]
    exact he
  fixed hr hfixed := by
    have hsame := h.fixed hr hfixed
    rw [← hsame] at hfixed ⊢
    exact h'.fixed (Nat.lt_of_lt_of_le hr h.size) hfixed

theorem getOrCreate (h : a.Sound) (hd : d.index < a.descriptors.size) (name : String)
    : Stays f a (a.getOrCreate d name).1 := by
  unfold Arena.getOrCreate
  cases hr : a.find? d name with
  | some r => exact refl a
  | none =>
    have hvacant := h.linked.vacant_chainEnd hd hr
    refine ⟨?_, redirect_insertLocal _ name, ?_, ?_, ?_⟩
    · rw [size_records_insertLocal]
      exact Nat.le_succ _
    · intro e n s hs
      rw [h.linked.find?_insertLocal hvacant, hs]
      rfl
    · intro e he
      have hne : e ≠ a.chainEnd d := by
        rintro rfl
        exact he hvacant.last
      rw [Arena.locals, descriptor_insertLocal_of_ne name hne]
      rfl
    · intro s hs _
      exact record_insertLocal_of_lt _ name hs

theorem updateRecords (h : a.Linked) (hf : ExportRecord.Once f) (rs : List RecordId)
    : Stays f a (a.updateRecords rs f).1 := by
  have hsame := descriptors_updateRecords a rs f
  refine ⟨Nat.le_of_eq (size_updateRecords hf a rs).symm, ?_, ?_, ?_, ?_⟩
  · intro e
    rw [descriptor_of_same hsame]
  · intro e name r hr
    exact (h.find?_of_same hsame e name).trans hr
  · intro e _
    exact locals_of_same hsame e
  · intro r hr hfixed
    rw [record_updateRecords hf rs hr, hfixed, ite_self]

end Stays

variable {canMangle : Bool} {exclude : List String} {target : Option StarTarget}

structure Done (canMangle : Bool) (exclude : List String) (target : Option StarTarget) (a : Arena) (e : DescriptorId) :
    Prop where
  found : ∀ name ∈ exclude, ∃ r, a.find? e name = some r
  fixed : ∀ r ∈ a.locals e, (a.record r).markUnknownProvided canMangle exclude target = (a.record r, false)

theorem Done.stays (h : Done canMangle exclude target a e) (hsound : a.Sound)
    (hstays : Stays (·.markUnknownProvided canMangle exclude target) a b) (he : (a.descriptor e).redirect ≠ none)
    : Done canMangle exclude target b e where
  found name hname := by
    obtain ⟨r, hr⟩ := h.found name hname
    exact ⟨r, hstays.find? hr⟩
  fixed r hr := by
    rw [hstays.locals he] at hr
    rw [hstays.fixed (hsound.lt_of_mem_locals hr) (h.fixed r hr)]
    exact h.fixed r hr

theorem Done.provideStep (h : Done canMangle exclude target a e) (changed : Bool)
    : Arena.provideStep canMangle exclude target (a, changed) e = (a, changed) := by
  have hcreate : exclude.foldl (fun a name => (a.getOrCreate e name).1) a = a := by
    have hfound := h.found
    clear h
    induction exclude with
    | nil => rfl
    | cons name names ih =>
      rw [List.forall_mem_cons] at hfound
      obtain ⟨r, hr⟩ := hfound.1
      rw [List.foldl_cons, getOrCreate, hr]
      exact ih hfound.2
  unfold Arena.provideStep
  dsimp only
  rw [hcreate, updateRecords_of_fixed h.fixed, Bool.or_false]

theorem find?_getOrCreate (h : a.Sound) (hd : d.index < a.descriptors.size) (name : String)
    : (a.getOrCreate d name).1.find? d name = some (a.getOrCreate d name).2 := by
  unfold getOrCreate
  cases hr : a.find? d name with
  | some r => exact hr
  | none =>
    dsimp only
    rw [h.linked.find?_insertLocal (h.linked.vacant_chainEnd hd hr), hr, if_pos ⟨rfl, rfl⟩]
    rfl

theorem Sound.stays_getOrCreateAll (h : a.Sound) (he : e.index < a.descriptors.size) (names : List String)
    : (names.foldl (fun a name => (a.getOrCreate e name).1) a).Sound ∧
        Stays f a (names.foldl (fun a name => (a.getOrCreate e name).1) a) ∧
        ∀ name ∈ names, ∃ r, (names.foldl (fun a name => (a.getOrCreate e name).1) a).find? e name = some r := by
  induction names generalizing a with
  | nil => exact ⟨h, .refl a, List.forall_mem_nil _⟩
  | cons name names ih =>
    have hsteps : StepsBy ExportRecord.SamePlace a (a.getOrCreate e name).1 := .getOrCreate a e name
    obtain ⟨hsound, hstays, hfound⟩ := ih (h.steps hsteps) (Nat.lt_of_lt_of_le he hsteps.size_le)
    refine ⟨hsound, (Stays.getOrCreate h he name).trans hstays, ?_⟩
    rw [List.forall_mem_cons]
    exact ⟨⟨_, hstays.find? (find?_getOrCreate h he name)⟩, hfound⟩

theorem Sound.done_provideStep (canMangle : Bool) (exclude : List String) (target : Option StarTarget)
    {state : Arena × Bool} (h : state.1.Sound) (he : e.index < state.1.descriptors.size)
    : (Arena.provideStep canMangle exclude target state e).1.Sound ∧
        Stays (·.markUnknownProvided canMangle exclude target) state.1
          (Arena.provideStep canMangle exclude target state e).1 ∧
        Done canMangle exclude target (Arena.provideStep canMangle exclude target state e).1 e := by
  obtain ⟨hsound, hcreate, hfound⟩ := h.stays_getOrCreateAll he exclude
  have honce := ExportRecord.once_provideListed canMangle exclude target
  unfold Arena.provideStep
  dsimp only
  generalize exclude.foldl (fun a name => (a.getOrCreate e name).1) state.1 = b at hsound hcreate hfound
  have hupdate := Stays.updateRecords hsound.linked honce (b.locals e)
  refine ⟨hsound.steps (.ofGrows (.updateRecords b _ _ ?_)), hcreate.trans hupdate, ?_, ?_⟩
  · intro x
    exact ExportRecord.Kept.samePlace.markUnknownProvided x canMangle exclude target
  · intro name hname
    obtain ⟨r, hr⟩ := hfound name hname
    exact ⟨r, hupdate.find? hr⟩
  · intro r hr
    rw [locals_of_same (descriptors_updateRecords b (b.locals e) _)] at hr
    exact fixed_updateRecords honce hr (hsound.lt_of_mem_locals hr)

theorem Sound.done_provideSteps (canMangle : Bool) (exclude : List String) (target : Option StarTarget)
    {ds : List DescriptorId} (state : Arena × Bool) (h : state.1.Sound) (hd : d.index < state.1.descriptors.size)
    (hds : state.1.Redirects d ds)
    : (ds.foldl (Arena.provideStep canMangle exclude target) state).1.Sound ∧
        Stays (·.markUnknownProvided canMangle exclude target) state.1
          (ds.foldl (Arena.provideStep canMangle exclude target) state).1 ∧
        ∀ e ∈ ds, Done canMangle exclude target (ds.foldl (Arena.provideStep canMangle exclude target) state).1 e := by
  -- Records are created where the redirects end, which comes last.
  induction ds generalizing d state with
  | nil => cases hds
  | cons e ds ih =>
    obtain ⟨hsound, hstays, hdone⟩ := h.done_provideStep canMangle exclude target hd
    cases hds with
    | last => exact ⟨hsound, hstays, List.forall_mem_singleton.2 hdone⟩
    | next hredirect hds =>
      rw [← hstays.redirect] at hredirect
      obtain ⟨hsound', hstays', hdone'⟩ := ih _ hsound (hsound.linked.redirect hredirect)
        (hds.congr fun e _ => hstays.redirect e)
      refine ⟨hsound', hstays.trans hstays', ?_⟩
      rw [List.forall_mem_cons]
      refine ⟨hdone.stays hsound hstays' ?_, hdone'⟩
      rw [hredirect]
      exact Option.some_ne_none _

theorem foldl_provideStep_of_done {ds : List DescriptorId} (h : ∀ e ∈ ds, Done canMangle exclude target a e)
    : ds.foldl (Arena.provideStep canMangle exclude target) (a, false) = (a, false) := by
  induction ds with
  | nil => rfl
  | cons e ds ih =>
    rw [List.forall_mem_cons] at h
    rw [List.foldl_cons, h.1.provideStep]
    exact ih h.2

theorem Done.updateOther (h : Done canMangle exclude target a e) (hsound : a.Sound) (hd : d.index < a.descriptors.size)
    : Done canMangle exclude target (a.updateRecord (a.other d) f).1 e where
  found name hname := by
    obtain ⟨r, hr⟩ := h.found name hname
    exact ⟨r, (hsound.linked.find?_modifyRecord ..).trans hr⟩
  fixed r hr := by
    have hr : r ∈ a.locals e := hr
    obtain ⟨name, hlisted, -⟩ := hsound.named.listed_of_mem hr
    have hne : r ≠ a.other d := by
      rintro rfl
      cases hsound.tidy.once (.listed hlisted) (hsound.linked.holds_other hd)
    rw [show (a.updateRecord (a.other d) f).1.record r = a.record r from record_modifyRecord_of_ne _ hne]
    exact h.fixed r hr

theorem Sound.done_provideAll (h : a.Sound) (hd : d.index < a.descriptors.size) (canMangle : Bool)
    (exclude : List String) (target : Option StarTarget)
    : (a.provideAll d canMangle exclude target).1.Sound ∧
        d.index < (a.provideAll d canMangle exclude target).1.descriptors.size ∧
        ∀ e ∈ (a.provideAll d canMangle exclude target).1.chain d,
          Done canMangle exclude target (a.provideAll d canMangle exclude target).1 e := by
  obtain ⟨_, hongoing⟩ := h.ongoing_provideAll canMangle exclude target hd
  obtain ⟨-, hstays, hdone⟩ := Sound.done_provideSteps canMangle exclude target (a, false) h hd
    (h.linked.redirects_chain d)
  have hchain : (a.provideAll d canMangle exclude target).1.chain d = a.chain d :=
    h.linked.chain_congr hstays.redirect d
  refine ⟨hongoing.sound, ?_, ?_⟩
  · rw [hongoing.account.size_descriptors]
    exact hd
  · rw [hchain]
    exact hdone

theorem Sound.markUnknownProvidedWith_again (h : a.Sound) (hd : d.index < a.descriptors.size) (canMangle : Bool)
    (exclude : List String) (target : Option StarTarget)
    : (a.markUnknownProvidedWith d canMangle exclude target).1.markUnknownProvidedWith d canMangle exclude target
        =
      ((a.markUnknownProvidedWith d canMangle exclude target).1, false) := by
  obtain ⟨hsound, hlt, hdone⟩ := h.done_provideAll hd canMangle exclude target
  rw [markUnknownProvidedWith_eq a, updateStep]
  generalize a.provideAll d canMangle exclude target = state at hsound hlt hdone
  dsimp only
  have hsame : (state.1.updateRecord (state.1.other d) (·.markOtherProvided canMangle target)).1.descriptors
      = state.1.descriptors := rfl
  have hfixed := fixed_updateRecord (ExportRecord.once_provideOther canMangle target)
    (hsound.tidy.lt (hsound.linked.holds_other hlt))
  have hdone' : ∀ e ∈ (state.1.updateRecord (state.1.other d) (·.markOtherProvided canMangle target)).1.chain d,
      Done canMangle exclude target
        (state.1.updateRecord (state.1.other d) (·.markOtherProvided canMangle target)).1 e := by
    rw [hsound.linked.chain_of_same hsame]
    intro e he
    exact (hdone e he).updateOther hsound hlt
  rw [markUnknownProvidedWith_eq, provideAll, foldl_provideStep_of_done hdone', updateStep,
    hsound.linked.other_of_same hsame, updateRecord_of_fixed hfixed]
  rfl

end Provide

/--
The marking reports exactly whether the usage, the provision or a permission to shorten the name of some record differs
from what it was before, or for a record that the marking created, from what it was created with. When it is repeated it
changes nothing, and reports that.
-/
structure Reports (a : Arena) (mark : Arena → Arena × Bool) : Prop where
  exact : ∃ b, a.Creates b ∧ (mark a).1.descriptors = b.descriptors ∧ (mark a).1.records.size = b.records.size ∧
    ((mark a).2 = true ↔ ∃ r : RecordId, r.index < b.records.size ∧ ¬(b.record r).SameMarks ((mark a).1.record r))
  again : mark (mark a).1 = ((mark a).1, false)

theorem Account.reports {mark : Arena → Arena × Bool} (h : Account a b (mark a).1 (mark a).2)
    (hagain : mark (mark a).1 = ((mark a).1, false)) : a.Reports mark where
  exact := ⟨b, h.created, h.descriptors, h.size, h.exact⟩
  again := hagain

theorem Sound.reports_markUsedUnknownWay (h : a.Sound) (hd : d.index < a.descriptors.size)
    : a.Reports (·.markUsedUnknownWay d) := by
  refine (h.account_markUsedUnknownWay hd (.refl a)).reports ?_
  have hsame := descriptors_updateRecords a (a.scope d) ExportRecord.setUsedInUnknownWay
  unfold markUsedUnknownWay
  rw [h.linked.scope_of_same hsame]
  exact updateRecords_again ExportRecord.once_setUsedInUnknownWay fun _ hr => h.lt_of_mem_scope hd hr

theorem Sound.reports_markAllKnownUsed (h : a.Sound) (d : DescriptorId) : a.Reports (·.markAllKnownUsed d) := by
  have hlt (r : RecordId) (hr : r ∈ a.locals d) : r.index < a.records.size := h.lt_of_mem_locals hr
  refine ((Account.refl a).updateRecords (.ite (.setUsed .used) (.silent fun _ => {})) hlt).reports ?_
  have hsame := descriptors_updateRecords a (a.locals d)
    fun r => if r.provided = .provided then r.setUsed .used else (r, false)
  unfold markAllKnownUsed
  rw [locals_of_same hsame]
  exact updateRecords_again ExportRecord.once_setUsedOfProvided hlt

theorem Sound.reports_markUsedForSideEffects (h : a.Sound) (hd : d.index < a.descriptors.size)
    : a.Reports (·.markUsedForSideEffects d) := by
  have hlt := h.tidy.lt (.sideEffects hd)
  refine ((Account.refl a).updateRecord (.setUsedIf _ .used) hlt).reports ?_
  exact updateRecord_of_fixed (fixed_updateRecord (ExportRecord.once_setUsedIf _ .used) hlt)

theorem Sound.reports_markExportUsed (h : a.Sound) (hd : d.index < a.descriptors.size) (path : List String)
    (state : Usage) : a.Reports (·.markExportUsed d path state) := by
  cases path with
  | nil =>
    simp only [markExportUsed]
    exact h.reports_markUsedUnknownWay hd
  | cons first rest =>
    obtain ⟨b, hb⟩ := h.account_markExportUsed hd (first :: rest) state
    exact hb.reports (h.marked_markExportUsed hd (List.cons_ne_nil first rest) state).markExportUsed_again

theorem Sound.reports_markUnknownProvidedWith (h : a.Sound) (hd : d.index < a.descriptors.size) (canMangle : Bool)
    (exclude : List String) (target : Option StarTarget)
    : a.Reports (·.markUnknownProvidedWith d canMangle exclude target) := by
  obtain ⟨b, hb⟩ := h.account_markUnknownProvidedWith canMangle exclude target hd
  exact hb.reports (h.markUnknownProvidedWith_again hd canMangle exclude target)

/--
Markings report changes exactly, and can be repeated until they report none.
-/
theorem markings_report (h : a.Reachable) (hd : d.index < a.descriptors.size)
    : (∀ canMangle exclude target, a.Reports (·.markUnknownProvidedWith d canMangle exclude target)) ∧
      (∀ canMangle, a.Reports (·.markUnknownProvided d canMangle)) ∧
      a.Reports (·.markUsedUnknownWay d) ∧
      a.Reports (·.markAllKnownUsed d) ∧
      a.Reports (·.markUsedForSideEffects d) ∧
      ∀ path state, a.Reports (·.markExportUsed d path state) := by
  refine ⟨h.sound.reports_markUnknownProvidedWith hd, ?_, h.sound.reports_markUsedUnknownWay hd,
    h.sound.reports_markAllKnownUsed d, h.sound.reports_markUsedForSideEffects hd, h.sound.reports_markExportUsed hd⟩
  intro canMangle
  exact h.sound.reports_markUnknownProvidedWith hd canMangle [] none

end Arena

namespace Sample

def forwarding : List ArenaOp :=
  [.newDescriptor, .newDescriptor, .setRedirect ⟨0⟩ (some ⟨1⟩), .getOrCreate ⟨1⟩ "x"]

def forwarded : Arena := forwarding.foldl ArenaOp.apply {}

theorem forwarded_reachable : forwarded.Reachable := by
  simp only [forwarded, forwarding, List.foldl_cons, List.foldl_nil]
  iterate 4 refine .step _ ?_ ⟨by decide +kernel, by decide +kernel⟩
  exact .empty

def starTarget : StarTarget := ⟨⟨0⟩, ⟨0⟩, 0⟩

end Sample

theorem Arena.markings_report_sample
    : Sample.forwarded.Reachable ∧
      (Sample.forwarded.markUnknownProvidedWith ⟨0⟩ false ["default"] (some Sample.starTarget)).2 = true ∧
      ∃ b c, Sample.forwarded.Creates b ∧
        (Sample.forwarded.markUnknownProvidedWith ⟨0⟩ false ["default"] (some Sample.starTarget)).1 = c ∧
        (∃ r, ¬(b.record r).SameMarks (c.record r)) ∧ c.find? ⟨0⟩ "default" = some ⟨5⟩ ∧
        c.markUnknownProvidedWith ⟨0⟩ false ["default"] (some Sample.starTarget) = (c, false) := by
  obtain ⟨⟨b, hcreates, -, -, hexact⟩, hagain⟩ := (markings_report Sample.forwarded_reachable (d := ⟨0⟩)
    (by decide +kernel)).1 false ["default"] (some Sample.starTarget)
  have hchanged : (Sample.forwarded.markUnknownProvidedWith ⟨0⟩ false ["default"] (some Sample.starTarget)).2
      = true := by
    decide +kernel
  obtain ⟨r, -, hr⟩ := hexact.1 hchanged
  exact ⟨Sample.forwarded_reachable, hchanged, b, _, hcreates, rfl, ⟨r, hr⟩, by decide +kernel, hagain⟩

end ModuleLink
