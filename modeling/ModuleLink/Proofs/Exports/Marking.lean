import ModuleLink.Proofs.Exports.Ownership

/-!
This module contains what a marking of a whole descriptor does. It changes the records in its scope, each of them once,
and reports whether one of them was changed. The scope of a usage marking also goes into the descriptors that records
own; the walk through them comes to an end if and only if it cannot go on for ever.
-/

namespace ModuleLink

namespace ExportRecord

def Once (f : ExportRecord → ExportRecord × Bool) : Prop := ∀ r, f (f r).1 = ((f r).1, false)

theorem once_completeProvision : Once fun r => (r.completeProvision, false) := by
  rintro ⟨_, _, p, m, _⟩
  cases p <;> cases m <;> rfl

theorem once_completeUsage : Once fun r => (r.completeUsage, false) := by
  rintro ⟨_, u, _, _, m, _⟩
  cases u <;> cases m <;> rfl

theorem once_setUsedInUnknownWay : Once setUsedInUnknownWay := by
  rintro ⟨_, u, _⟩
  cases u <;> rfl

theorem once_markUnknownProvided (canMangle : Bool) : Once (·.markUnknownProvided canMangle [] none) := by
  rintro ⟨_, _, p, _⟩
  cases canMangle <;> cases p <;> rfl

theorem markOtherProvided_eq (r : ExportRecord) (canMangle : Bool)
    : r.markOtherProvided canMangle none = r.markUnknownProvided canMangle [] none := by
  cases canMangle with
  | true => simp [markOtherProvided, markUnknownProvided, restrictMangle, setProvided]
  | false =>
    simp only [markOtherProvided, markUnknownProvided, restrictMangle, setProvided, setMangleProvide]
    simp [Bool.or_comm]

end ExportRecord

namespace Arena

variable {a : Arena} {d e : DescriptorId} {r : RecordId} {f : ExportRecord → ExportRecord × Bool}

section Descriptors

variable {a' : Arena} (hsame : a'.descriptors = a.descriptors)
include hsame

theorem descriptor_of_same (d : DescriptorId) : a'.descriptor d = a.descriptor d := by
  rw [descriptor, hsame]
  rfl

theorem locals_of_same (d : DescriptorId) : a'.locals d = a.locals d := by
  rw [locals, descriptor_of_same hsame]
  rfl

theorem listed?_of_same (d : DescriptorId) (name : String) : a'.listed? d name = a.listed? d name := by
  rw [listed?, descriptor_of_same hsame]
  rfl

theorem Linked.chain_of_same (h : a.Linked) (d : DescriptorId) : a'.chain d = a.chain d := by
  apply h.chain_congr
  intro e
  rw [descriptor_of_same hsame]

theorem Linked.chainEnd_of_same (h : a.Linked) (d : DescriptorId) : a'.chainEnd d = a.chainEnd d := by
  rw [chainEnd, h.chain_of_same hsame]
  rfl

theorem Linked.other_of_same (h : a.Linked) (d : DescriptorId) : a'.other d = a.other d := by
  rw [other, h.chainEnd_of_same hsame, descriptor_of_same hsame]
  rfl

theorem Linked.find?_of_same (h : a.Linked) (d : DescriptorId) (name : String) : a'.find? d name = a.find? d name := by
  simp only [find?, h.chain_of_same hsame, listed?_of_same hsame]

theorem Linked.scope_of_same (h : a.Linked) (d : DescriptorId) : a'.scope d = a.scope d := by
  have hlocals : a'.locals = a.locals := by
    funext e
    exact locals_of_same hsame e
  rw [scope, hlocals, h.chain_of_same hsame, h.other_of_same hsame]
  rfl

end Descriptors

section Update

def updateStep (f : ExportRecord → ExportRecord × Bool) (state : Arena × Bool) (r : RecordId) : Arena × Bool :=
  ((state.1.updateRecord r f).1, state.2 || (state.1.updateRecord r f).2)

theorem updateRecords_eq_foldl (a : Arena) (rs : List RecordId) (f : ExportRecord → ExportRecord × Bool)
    : a.updateRecords rs f = rs.foldl (updateStep f) (a, false) := rfl

theorem any_modifyRecord (hf : ExportRecord.Once f) (a : Arena) (r : RecordId) (rs : List RecordId)
    : ((f (a.record r)).2 || rs.any fun s => (f ((a.modifyRecord r fun x => (f x).1).record s)).2)
        =
      ((f (a.record r)).2 || rs.any fun s => (f (a.record s)).2) := by
  have hrecord (s : RecordId) : (f ((a.modifyRecord r fun x => (f x).1).record s)).2 = (f (a.record s)).2 ∨
      (s = r ∧ (f ((a.modifyRecord r fun x => (f x).1).record s)).2 = false) := by
    by_cases hs : s = r
    · subst hs
      rcases record_modifyRecord a s (fun x => (f x).1) s with hsame | hnew
      · rw [hsame]
        exact .inl rfl
      · rw [hnew, hf]
        exact .inr ⟨rfl, rfl⟩
    · rw [record_modifyRecord_of_ne _ hs]
      exact .inl rfl
  rw [Bool.eq_iff_iff, Bool.or_eq_true, Bool.or_eq_true, List.any_eq_true, List.any_eq_true]
  constructor
  · rintro (hr | ⟨s, hs, hchanged⟩)
    · exact .inl hr
    · rcases hrecord s with hsame | ⟨-, hfalse⟩
      · rw [hsame] at hchanged
        exact .inr ⟨s, hs, hchanged⟩
      · rw [hfalse] at hchanged
        cases hchanged
  · rintro (hr | ⟨s, hs, hchanged⟩)
    · exact .inl hr
    · rcases hrecord s with hsame | ⟨rfl, -⟩
      · rw [← hsame] at hchanged
        exact .inr ⟨s, hs, hchanged⟩
      · exact .inl hchanged

theorem updateRecords_eq (hf : ExportRecord.Once f) (a : Arena) (rs : List RecordId)
    : a.updateRecords rs f
        =
      (rs.foldl (fun a r => a.modifyRecord r fun x => (f x).1) a, rs.any fun r => (f (a.record r)).2) := by
  suffices hall : ∀ changed, rs.foldl (updateStep f) (a, changed)
      = (rs.foldl (fun a r => a.modifyRecord r fun x => (f x).1) a,
          changed || rs.any fun r => (f (a.record r)).2) from hall false
  induction rs generalizing a with
  | nil =>
    intro changed
    rw [List.any_nil, Bool.or_false]
    rfl
  | cons r rs ih =>
    intro changed
    rw [List.foldl_cons, List.foldl_cons, List.any_cons, ← any_modifyRecord hf]
    refine (ih _ _).trans ?_
    rw [Bool.or_assoc]
    rfl

theorem foldl_updateStep (rs : List RecordId) (a : Arena) (changed : Bool)
    : rs.foldl (updateStep f) (a, changed)
        =
      ((a.updateRecords rs f).1, changed || (a.updateRecords rs f).2) := by
  rw [updateRecords_eq_foldl]
  suffices hall : ∀ state : Arena × Bool, rs.foldl (updateStep f) (state.1, changed || state.2)
      = ((rs.foldl (updateStep f) state).1, changed || (rs.foldl (updateStep f) state).2) by
    have hstart := hall (a, false)
    rw [Bool.or_false] at hstart
    exact hstart
  induction rs with
  | nil =>
    intro state
    rfl
  | cons r rs ih =>
    intro state
    rw [List.foldl_cons, List.foldl_cons, ← ih]
    unfold updateStep
    rw [Bool.or_assoc]

theorem descriptors_updateRecords (a : Arena) (rs : List RecordId) (f : ExportRecord → ExportRecord × Bool)
    : (a.updateRecords rs f).1.descriptors = a.descriptors := by
  rw [updateRecords_eq_foldl]
  suffices hall : ∀ state : Arena × Bool, (rs.foldl (updateStep f) state).1.descriptors = state.1.descriptors from
    hall (a, false)
  induction rs with
  | nil =>
    intro state
    rfl
  | cons r rs ih =>
    intro state
    exact ih (updateStep f state r)

theorem foldl_updateRecords (ds : List DescriptorId) (state : Arena × Bool)
    : (ds.foldl (fun state e => ((state.1.updateRecords (state.1.locals e) f).1,
          state.2 || (state.1.updateRecords (state.1.locals e) f).2)) state)
        =
      (ds.flatMap state.1.locals).foldl (updateStep f) state := by
  induction ds generalizing state with
  | nil => rfl
  | cons d ds ih =>
    have hlocals : (state.1.updateRecords (state.1.locals d) f).1.locals = state.1.locals := by
      funext e
      apply locals_of_same
      apply descriptors_updateRecords
    obtain ⟨b, changed⟩ := state
    rw [List.foldl_cons, ih, List.flatMap_cons, List.foldl_append, foldl_updateStep (b.locals d), hlocals]

theorem Linked.markUnknownProvided_eq (h : a.Linked) (d : DescriptorId) (canMangle : Bool)
    : a.markUnknownProvided d canMangle = a.updateRecords (a.scope d) (·.markUnknownProvided canMangle [] none) := by
  have hchain := foldl_updateRecords (f := (·.markUnknownProvided canMangle [] none)) (a.chain d) (a, false)
  rw [← updateRecords_eq_foldl] at hchain
  have hother := h.other_of_same
    (descriptors_updateRecords a ((a.chain d).flatMap a.locals) (·.markUnknownProvided canMangle [] none)) d
  have hmark : (ExportRecord.markOtherProvided · canMangle none) = (·.markUnknownProvided canMangle [] none) := by
    funext r
    exact r.markOtherProvided_eq canMangle
  rw [scope, updateRecords_eq_foldl, List.foldl_append, ← updateRecords_eq_foldl, ← hother, ← hchain]
  unfold markUnknownProvided markUnknownProvidedWith
  rw [hmark]
  rfl

end Update

inductive Enters (a : Arena) (d : DescriptorId) : DescriptorId → Prop where
  | nested {r : RecordId} {e : DescriptorId} : r ∈ a.locals d → (a.record r).ownedNested = some e → a.Enters d e
  | redirect {e : DescriptorId} : (a.descriptor d).redirect = some e → a.Enters d e

inductive Concerns (a : Arena) (d : DescriptorId) : RecordId → Prop where
  | listed {r : RecordId} : r ∈ a.locals d → a.Concerns d r
  | sideEffects : a.Concerns d (a.descriptor d).sideEffects
  | other : (a.descriptor d).redirect = none → a.Concerns d (a.descriptor d).other

def UsageEnds (a : Arena) (d : DescriptorId) : Prop := Acc (Function.swap a.Enters) d

section Walk

variable {rs : List RecordId}

theorem enters_iff
    : a.Enters d e
        ↔
      e ∈ (a.locals d).filterMap (fun r => (a.record r).ownedNested) ∨ (a.descriptor d).redirect = some e := by
  rw [List.mem_filterMap]
  constructor
  · intro h
    cases h with
    | nested hr he => exact .inl ⟨_, hr, he⟩
    | redirect he => exact .inr he
  · rintro (⟨r, hr, he⟩ | he)
    · exact .nested hr he
    · exact .redirect he

theorem usageScope?.go_eq_some {n : Nat} (h : usageScope?.go a (n + 1) d = some rs)
    : ∃ nested rest,
        ((a.locals d).filterMap fun r => (a.record r).ownedNested).mapM (usageScope?.go a n) = some nested ∧
        ((∃ e, (a.descriptor d).redirect = some e ∧ usageScope?.go a n e = some rest) ∨
          ((a.descriptor d).redirect = none ∧ rest = [(a.descriptor d).other])) ∧
        rs = a.locals d ++ nested.flatten ++ [(a.descriptor d).sideEffects] ++ rest := by
  unfold usageScope?.go at h
  rw [Option.bind_eq_bind, Option.bind_eq_some_iff] at h
  obtain ⟨nested, hnested, h⟩ := h
  dsimp only at h
  split at h
  next e he =>
    obtain ⟨rest, hrest, heq⟩ := Option.bind_eq_some_iff.1 h
    cases heq
    exact ⟨nested, rest, hnested, .inl ⟨e, he, hrest⟩, rfl⟩
  next hnone =>
    cases h
    exact ⟨nested, _, hnested, .inr ⟨hnone, rfl⟩, rfl⟩

theorem usageScope?.go_of_enters {n : Nat} (h : usageScope?.go a (n + 1) d = some rs) (he : a.Enters d e)
    : ∃ rs', usageScope?.go a n e = some rs' ∧ rs' ⊆ rs := by
  obtain ⟨nested, rest, hnested, hrest, rfl⟩ := go_eq_some h
  rcases enters_iff.1 he with he | he
  · obtain ⟨rs', hmem, heq⟩ := (mapM_eq_some hnested).1 e he
    refine ⟨rs', heq, ?_⟩
    intro r hr
    have hflatten := List.mem_flatten_of_mem hmem hr
    simp [hflatten]
  · rcases hrest with ⟨e', he', hrest⟩ | ⟨hnone, -⟩
    · rw [he] at he'
      cases he'
      exact ⟨rest, hrest, List.subset_append_right _ _⟩
    · rw [he] at hnone
      cases hnone

theorem usageScope?.mem_go_of_concerns {n : Nat} (h : usageScope?.go a (n + 1) d = some rs) (hr : a.Concerns d r)
    : r ∈ rs := by
  obtain ⟨nested, rest, -, hrest, rfl⟩ := go_eq_some h
  cases hr with
  | listed hr => simp [hr]
  | sideEffects => simp
  | other hnone =>
    rcases hrest with ⟨e, he, -⟩ | ⟨-, rfl⟩
    · rw [hnone] at he
      cases he
    · simp

theorem usageScope?.cases_mem_go {n : Nat} (h : usageScope?.go a (n + 1) d = some rs) (hr : r ∈ rs)
    : a.Concerns d r ∨ ∃ e rs', a.Enters d e ∧ usageScope?.go a n e = some rs' ∧ r ∈ rs' := by
  obtain ⟨nested, rest, hnested, hrest, rfl⟩ := go_eq_some h
  simp only [List.mem_append, List.mem_flatten, List.mem_singleton] at hr
  rcases hr with ((hr | ⟨rs', hrs', hr⟩) | rfl) | hr
  · exact .inl (.listed hr)
  · obtain ⟨e, he, heq⟩ := (mapM_eq_some hnested).2 rs' hrs'
    exact .inr ⟨e, rs', enters_iff.2 (.inl he), heq, hr⟩
  · exact .inl .sideEffects
  · rcases hrest with ⟨e, he, hrest⟩ | ⟨hnone, rfl⟩
    · exact .inr ⟨e, rest, .redirect he, hrest, hr⟩
    · rw [List.mem_singleton.1 hr]
      exact .inl (.other hnone)

theorem usageScope?.go_isSome {n : Nat} (h : ∀ e, a.Enters d e → (usageScope?.go a n e).isSome)
    : (usageScope?.go a (n + 1) d).isSome := by
  have hwalks : (((a.locals d).filterMap fun r => (a.record r).ownedNested).mapM (usageScope?.go a n)).isSome := by
    apply mapM_isSome
    intro e he
    exact h e (enters_iff.2 (.inl he))
  obtain ⟨nested, hnested⟩ := Option.isSome_iff_exists.1 hwalks
  unfold usageScope?.go
  rw [hnested]
  cases hredirect : (a.descriptor d).redirect with
  | none => rfl
  | some e =>
    obtain ⟨rest, hrest⟩ := Option.isSome_iff_exists.1 (h e (.redirect hredirect))
    dsimp only
    rw [hrest]
    rfl

theorem usageScope?.mem_go {n : Nat} (h : usageScope?.go a n d = some rs)
    : r ∈ rs ↔ ∃ e, Relation.ReflTransGen a.Enters d e ∧ a.Concerns e r := by
  induction n generalizing d rs with
  | zero => cases h
  | succ n ih =>
    constructor
    · intro hr
      rcases cases_mem_go h hr with hr | ⟨e, rs', he, hrs', hr⟩
      · exact ⟨d, .refl, hr⟩
      · obtain ⟨c, hc, hr⟩ := (ih hrs').1 hr
        exact ⟨c, .head he hc, hr⟩
    · rintro ⟨c, hc, hr⟩
      rcases Relation.ReflTransGen.cases_head_iff.1 hc with rfl | ⟨e, he, hc⟩
      · exact mem_go_of_concerns h hr
      · obtain ⟨rs', hrs', hsubset⟩ := go_of_enters h he
        exact hsubset ((ih hrs').2 ⟨c, hc, hr⟩)

theorem usageScope?.ends_of_go {n : Nat} (h : usageScope?.go a n d = some rs) : a.UsageEnds d := by
  induction n generalizing d rs with
  | zero => cases h
  | succ n ih =>
    constructor
    intro e he
    obtain ⟨rs', hrs', -⟩ := go_of_enters h he
    exact ih hrs'

theorem UsageEnds.not_transGen (h : a.UsageEnds d) : ¬Relation.TransGen a.Enters d d := by
  rw [← Relation.transGen_swap]
  exact not_rel_of_acc h.transGen

theorem Linked.lt_of_enters (h : a.Linked) (he : a.Enters d e) : e.index < a.descriptors.size := by
  cases he with
  | nested _ howned => exact h.lt_of_ownedNested howned
  | redirect hredirect => exact h.redirect hredirect

theorem UsageEnds.go_isSome (hlinked : a.Linked) {n : Nat} {before : List DescriptorId}
    (hd : d.index < a.descriptors.size) (h : a.UsageEnds d) (hnodup : before.Nodup)
    (hbefore : ∀ c ∈ before, c.index < a.descriptors.size ∧ Relation.TransGen a.Enters c d)
    (hn : a.descriptors.size ≤ n + before.length) : (usageScope?.go a n d).isSome := by
  -- The descriptors that a walk has gone through to come to `d` are all different, so that its fuel is enough.
  have hnew : (d :: before).Nodup := by
    rw [List.nodup_cons]
    refine ⟨?_, hnodup⟩
    intro hmem
    exact h.not_transGen (hbefore d hmem).2
  induction n generalizing d before with
  | zero =>
    have hlength := length_le_of_nodup DescriptorId.index_injective hnew
      (List.forall_mem_cons.2 ⟨hd, fun c hc => (hbefore c hc).1⟩)
    rw [List.length_cons] at hlength
    omega
  | succ n ih =>
    apply usageScope?.go_isSome
    intro e he
    have hpassed : ∀ c ∈ d :: before, c.index < a.descriptors.size ∧ Relation.TransGen a.Enters c e := by
      rw [List.forall_mem_cons]
      refine ⟨⟨hd, .single he⟩, ?_⟩
      intro c hc
      exact ⟨(hbefore c hc).1, (hbefore c hc).2.tail he⟩
    have hends : a.UsageEnds e := h.inv he
    refine ih (hlinked.lt_of_enters he) hends hnew hpassed ?_ ?_
    · rw [List.length_cons]
      omega
    · rw [List.nodup_cons]
      refine ⟨?_, hnew⟩
      intro hmem
      exact hends.not_transGen (hpassed e hmem).2

theorem Linked.usageScope?_isSome (h : a.Linked) (hd : d.index < a.descriptors.size)
    : (a.usageScope? d).isSome ↔ a.UsageEnds d := by
  constructor
  · intro hsome
    obtain ⟨rs, hrs⟩ := Option.isSome_iff_exists.1 hsome
    exact usageScope?.ends_of_go hrs
  · intro hends
    exact hends.go_isSome h hd List.nodup_nil (List.forall_mem_nil _) (Nat.le_add_right ..)

theorem mem_usageScope? (h : a.usageScope? d = some rs)
    : r ∈ rs ↔ ∃ e, Relation.ReflTransGen a.Enters d e ∧ a.Concerns e r :=
  usageScope?.mem_go h

end Walk

end Arena
end ModuleLink
