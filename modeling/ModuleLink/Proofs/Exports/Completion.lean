import ModuleLink.Proofs.Exports.Creation
import ModuleLink.Proofs.Exports.Frame
import ModuleLink.Proofs.Exports.Marking
import ModuleLink.Proofs.Exports.Monotone

/-!
This module contains the proof that an analysis that was completed stays complete. The records that a summary looks at
have left the lowest state of their lattice. They do not come back to it, and a record that is listed later is made from
one of them.
-/

namespace ModuleLink

namespace ExportRecord

theorem provided_completeProvision (r : ExportRecord) : r.completeProvision.provided ≠ .undetermined := by
  unfold completeProvision
  dsimp only
  split
  · exact Provision.noConfusion
  next hdetermined => exact hdetermined

theorem used_completeUsage (r : ExportRecord) : r.completeUsage.used ≠ .noInfo := by
  change r.used.promote .unused ≠ .noInfo
  cases r.used <;> decide

end ExportRecord

structure ExportRecord.Lasts (Q : ExportRecord → Prop) : Prop where
  rises : ∀ {r r' : ExportRecord}, Q r → r.Rises r' → Q r'
  seeded : ∀ {r : ExportRecord} (name : String), Q r → Q (.seeded name r)

namespace ExportRecord.Lasts

theorem determined : Lasts (·.provided ≠ .undetermined) where
  rises {r r'} h hrises hundetermined := by
    have hle : r.provided.rank ≤ r'.provided.rank := hrises.provided
    rw [hundetermined] at hle
    cases hprovided : r.provided <;> simp_all [Provision.rank]
  seeded _ h := h

theorem trivial : Lasts fun _ => True := ⟨fun _ _ => True.intro, fun _ _ => True.intro⟩

theorem informed : Lasts (·.used ≠ .noInfo) where
  rises {r r'} h hrises hnoInfo := by
    have hle : r.used.rank ≤ r'.used.rank := hrises.used
    rw [hnoInfo] at hle
    cases hused : r.used <;> simp_all [Usage.rank]
  seeded _ h := h

end ExportRecord.Lasts

namespace Arena

variable {a a' : Arena} {d : DescriptorId}

/--
In `a'` the redirects of `d` lead where they did, and what is listed on the way is older or new at their end.
-/
structure GrowsAt (a a' : Arena) (d : DescriptorId) : Prop where
  rises : a.Rises a'
  chain : a'.chain d = a.chain d
  sideEffects : ∀ e ∈ a.chain d, (a'.descriptor e).sideEffects = (a.descriptor e).sideEffects
  scope : ∀ r ∈ a'.scope d, r ∈ a.scope d ∨ ∃ name, a'.record r = .seeded name (a.record (a.other d))

namespace GrowsAt

theorem ofSame (h : a.Linked) (hd : d.index < a.descriptors.size) (hrises : a.Rises a')
    (hsame : ∀ e : DescriptorId, e.index < a.descriptors.size → a'.descriptor e = a.descriptor e) : a.GrowsAt a' d := by
  have hsame {e : DescriptorId} (he : e ∈ a.chain d) : a'.descriptor e = a.descriptor e :=
    hsame e (h.lt_of_mem_chain hd he)
  have hchain : a'.chain d = a.chain d := by
    refine ((h.redirects_chain d).congr ?_).chain_eq
    intro e he
    rw [hsame he]
  have hother : a'.other d = a.other d := by
    have hend : a'.chainEnd d = a.chainEnd d := by
      rw [chainEnd, hchain]
      rfl
    rw [other, hend, hsame (a.chainEnd_mem d)]
    rfl
  have hlocals : (a.chain d).flatMap a'.locals = (a.chain d).flatMap a.locals := by
    apply List.flatMap_congr
    intro e he
    rw [locals, hsame he]
    rfl
  refine ⟨hrises, hchain, ?_, ?_⟩
  · intro e he
    rw [hsame he]
  · intro r hr
    rw [Arena.scope, hchain, hother, hlocals] at hr
    exact .inl hr

theorem getOrCreate (h : a.Sound) (hd : d.index < a.descriptors.size) (e : DescriptorId) (name : String)
    : a.GrowsAt (a.getOrCreate e name).1 d := by
  unfold Arena.getOrCreate
  cases hfind : a.find? e name with
  | some r => exact ofSame h.linked hd (.refl a) fun _ _ => rfl
  | none =>
    have hrises := Rises.insertLocal a (a.chainEnd e) name
    by_cases he : e.index < a.descriptors.size
    · have hv := h.linked.vacant_chainEnd he hfind
      refine ⟨hrises, h.linked.chain_insertLocal _ name d, ?_, ?_⟩
      · intro c _
        exact insertLocal_congr Descriptor.sideEffects (fun _ _ => rfl) _ name c
      · intro r hr
        rcases (h.mem_scope_insertLocal hv).1 hr with hr | ⟨hend, rfl⟩
        · exact .inl hr
        · refine .inr ⟨name, ?_⟩
          rw [record_insertLocal, if_pos rfl, other, hend]
    · apply ofSame h.linked hd hrises
      intro c hc
      apply descriptor_insertLocal_of_ne
      -- There is no descriptor `e`, so that it is not redirected.
      have hlast : (a.descriptor e).redirect = none := by
        by_contra hsome
        exact he (Redirects.lt_size (Option.isSome_iff_ne_none.2 hsome))
      rw [chainEnd_last (Redirects.last hlast).chain_eq]
      rintro rfl
      exact he hc

theorem step {P : ExportRecord → ExportRecord → Prop} (hP : ∀ {r r'}, P r r' → r.Rises r') (h : a.Sound)
    (hd : d.index < a.descriptors.size) (hstep : GrowBy P a a') : a.GrowsAt a' d := by
  have hrises : a.Rises a' := .ofSteps (.ofGrow (hstep.mono hP))
  cases hstep with
  | modifyRecord r f => exact ofSame h.linked hd hrises fun _ _ => rfl
  | getOrCreate e name => exact getOrCreate h hd e name
  | newDescriptor =>
    apply ofSame h.linked hd hrises
    intro e he
    exact descriptor_newDescriptorOf_of_lt none he
  | createNested r =>
    apply ofSame h.linked hd hrises
    intro e he
    cases howned : (a.record r).ownedNested with
    | some c => rw [createNested_of_owned howned]
    | none => exact descriptor_createNested howned he
  | linkNested r e =>
    apply ofSame h.linked hd hrises
    intro c _
    unfold linkNested
    split <;> rfl

end GrowsAt

/--
`Q` holds of the records that a lookup through `d` meets, and `R` of the side-effects records on its way.
-/
structure Satisfies (Q R : ExportRecord → Prop) (a : Arena) (d : DescriptorId) : Prop where
  scope : ∀ r ∈ a.scope d, Q (a.record r)
  sideEffects : ∀ e ∈ a.chain d, R (a.record (a.descriptor e).sideEffects)

namespace Satisfies

variable {Q R : ExportRecord → Prop}

theorem step (hQ : ExportRecord.Lasts Q) (hR : ExportRecord.Lasts R) (h : a.Sound) (hd : d.index < a.descriptors.size)
    (hholds : Satisfies Q R a d) (hgrows : a.GrowsAt a' d) : Satisfies Q R a' d := by
  constructor
  · intro r hr
    rcases hgrows.scope r hr with hr | ⟨name, hnew⟩
    · exact hQ.rises (hholds.scope r hr) (hgrows.rises.records r (h.lt_of_mem_scope hd hr))
    · rw [hnew]
      apply hQ.seeded
      exact hholds.scope _ (mem_scope.2 (.inr rfl))
  · intro e he
    rw [hgrows.chain] at he
    rw [hgrows.sideEffects e he]
    apply hR.rises (hholds.sideEffects e he)
    apply hgrows.rises.records
    exact h.tidy.lt (.sideEffects (h.linked.lt_of_mem_chain hd he))

end Satisfies

/--
The arena `a'` is made from `a` by an operation that neither sets a redirect nor replays a snapshot.
-/
def Proceeds (a a' : Arena) : Prop := ∃ op : ArenaOp, op.Valid a ∧ op.IsGradual ∧ a' = op.apply a

theorem Proceeds.growsBy {P : ExportRecord → ExportRecord → Prop} (hP : ExportRecord.Kept P) (h : a.Proceeds a')
    : GrowsBy P a a' := by
  obtain ⟨op, hvalid, hgradual, rfl⟩ := h
  exact .ofOp hP hgradual hvalid

theorem Proceeds.growsBy_run {P : ExportRecord → ExportRecord → Prop} (hP : ExportRecord.Kept P)
    (h : Relation.ReflTransGen Proceeds a a') : GrowsBy P a a' := by
  induction h with
  | refl => exact .refl
  | tail _ hlast ih => exact ih.trans (hlast.growsBy hP)

theorem Satisfies.grows {Q R : ExportRecord → Prop} (hQ : ExportRecord.Lasts Q) (hR : ExportRecord.Lasts R)
    (h : a.Sound) (hd : d.index < a.descriptors.size) (hholds : Satisfies Q R a d)
    (hgrows : GrowsBy (fun r r' => r.SamePlace r' ∧ r.Rises r') a a')
    : a'.Sound ∧ d.index < a'.descriptors.size ∧ Satisfies Q R a' d := by
  induction hgrows with
  | refl => exact ⟨h, hd, hholds⟩
  | tail _ hlast ih =>
    obtain ⟨hsound, hd, hholds⟩ := ih
    have hsteps : StepsBy ExportRecord.SamePlace _ _ := .ofGrow (hlast.mono And.left)
    exact ⟨hsound.steps hsteps, Nat.lt_of_lt_of_le hd hsteps.size_le,
      hholds.step hQ hR hsound hd (.step And.right hsound hd hlast)⟩

theorem Satisfies.run {Q R : ExportRecord → Prop} (hQ : ExportRecord.Lasts Q) (hR : ExportRecord.Lasts R) (h : a.Sound)
    (hd : d.index < a.descriptors.size) (hholds : Satisfies Q R a d) (hrun : Relation.ReflTransGen Proceeds a a')
    : a'.Sound ∧ Satisfies Q R a' d := by
  have hgrows := Proceeds.growsBy_run (ExportRecord.Kept.samePlace.and ExportRecord.Rises.kept) hrun
  obtain ⟨hsound, -, hholds⟩ := hholds.grows hQ hR h hd hgrows
  exact ⟨hsound, hholds⟩

section Summary

theorem scanProvided_ne_unknown {rs : List ExportRecord} (h : ∀ r ∈ rs, r.provided ≠ .undetermined)
    : scanProvided rs ≠ .error .unknown := by
  induction rs with
  | nil => simp [scanProvided]
  | cons r rs ih =>
    rw [List.forall_mem_cons] at h
    rw [scanProvided]
    split
    next hundetermined => exact absurd hundetermined h.1
    · exact ih h.2
    · simp
    · cases hscan : scanProvided rs with
      | ok names => simp [Except.map]
      | error answer =>
        rw [hscan] at ih
        simpa [Except.map] using ih h.2

theorem scanOtherProvided_ne_unknown {r : ExportRecord} (h : r.provided ≠ .undetermined)
    : scanOtherProvided r ≠ .error .unknown := by
  unfold scanOtherProvided
  split
  next hundetermined => exact absurd hundetermined h
  all_goals simp

theorem providedExportsStep_ne_unknown {inner : Option ProvidedExports}
    (hlocals : ∀ r ∈ a.locals d, (a.record r).provided ≠ .undetermined)
    (hother : inner = none → (a.record (a.descriptor d).other).provided ≠ .undetermined)
    (hinner : inner ≠ some .unknown) : a.providedExportsStep d inner ≠ .unknown := by
  have hscan : scanProvided ((a.orderedLocals d).map a.record) ≠ .error .unknown := by
    apply scanProvided_ne_unknown
    intro _ hrecord
    obtain ⟨r, hr, rfl⟩ := List.mem_map.1 hrecord
    exact hlocals r (mem_orderedLocals.1 hr)
  have hnames : a.providedNames d inner ≠ .error .unknown := by
    unfold providedNames
    generalize scanProvided ((a.orderedLocals d).map a.record) = own at hscan
    cases inner with
    | none =>
      have hscanOther := scanOtherProvided_ne_unknown (hother rfl)
      generalize scanOtherProvided (a.record (a.descriptor d).other) = settled at hscanOther
      cases settled with
      | error answer => simpa [bind, Except.bind] using hscanOther
      | ok _ =>
        cases own with
        | error answer => simpa [bind, Except.bind] using hscan
        | ok own => simp [bind, Except.bind, pure, Except.pure]
    | some inner =>
      cases own with
      | error answer => simpa [bind, Except.bind] using hscan
      | ok own =>
        cases inner with
        | unknown => exact absurd rfl hinner
        | everything => simp [bind, Except.bind, throw, throwThe, MonadExceptOf.throw]
        | names inner => simp [bind, Except.bind, pure, Except.pure]
  unfold providedExportsStep
  split
  next answer heq =>
    rintro rfl
    exact hnames heq
  · exact ProvidedExports.noConfusion

theorem Linked.providedExports_ne_unknown (h : a.Linked)
    (hscope : ∀ r ∈ a.scope d, (a.record r).provided ≠ .undetermined)
    : a.providedExports d ≠ .unknown := by
  induction d using h.chain_induction with
  | last d _ hchain =>
    rw [scope_last hchain, List.forall_mem_append, List.forall_mem_singleton] at hscope
    rw [providedExports, descend_last _ hchain]
    exact providedExportsStep_ne_unknown hscope.1 (fun _ => hscope.2) (Option.some_ne_none _).symm
  | next d e _ hchain ih =>
    rw [scope_next hchain, List.forall_mem_append] at hscope
    rw [providedExports, descend_next _ hchain]
    apply providedExportsStep_ne_unknown hscope.1
    · intro hnone
      cases hnone
    · intro heq
      exact ih hscope.2 (Option.some.inj heq)

theorem Linked.usedExports_ne_unknown (h : a.Linked) (hnamed : a.Named)
    (hscope : ∀ r ∈ a.scope d, (a.record r).used ≠ .noInfo)
    (hsideEffects : ∀ e ∈ a.chain d, (a.record (a.descriptor e).sideEffects).used ≠ .noInfo)
    : a.usedExports d ≠ .unknown := by
  intro hunknown
  have hsummary := summarizes_usedExports h hnamed d
  rw [hunknown] at hsummary
  cases hsummary with
  | vague hvague =>
    cases hvague with
    | unknown hr hused => exact hscope _ hr hused
    | sideEffects he hused => exact hsideEffects _ he hused

end Summary

section Marked

theorem Sound.satisfies_markHasProvideInfo (h : a.Sound) (hd : d.index < a.descriptors.size)
    : Satisfies (·.provided ≠ .undetermined) (fun _ => True) (a.markHasProvideInfo d) d where
  scope r hr := by
    have hsame : (a.markHasProvideInfo d).descriptors = a.descriptors := descriptors_modifyAll a (a.scope d) _
    rw [h.linked.scope_of_same hsame] at hr
    rw [markHasProvideInfo, record_modifyAll (f := ExportRecord.completeProvision) _
      (fun x => congrArg Prod.fst (ExportRecord.once_completeProvision x)) (h.lt_of_mem_scope hd hr), if_pos hr]
    apply ExportRecord.provided_completeProvision
  sideEffects _ _ := trivial

theorem Linked.reaches_of_mem_chain (h : a.Linked) {e : DescriptorId} (he : e ∈ a.chain d)
    : Relation.ReflTransGen a.Enters d e := by
  induction d using h.chain_induction with
  | last d _ hchain =>
    rw [hchain, List.mem_singleton] at he
    rw [he]
  | next d c hredirect hchain ih =>
    rw [hchain, List.mem_cons] at he
    rcases he with rfl | he
    · exact .refl
    · exact .head (.redirect hredirect) (ih he)

theorem Sound.satisfies_markHasUseInfo? (h : a.Sound) (hd : d.index < a.descriptors.size)
    (hmark : a.markHasUseInfo? d = some a') : Satisfies (·.used ≠ .noInfo) (·.used ≠ .noInfo) a' d := by
  obtain ⟨rs, hrs, rfl⟩ := Option.map_eq_some_iff.1 hmark
  have hsame := descriptors_modifyAll a rs ExportRecord.completeUsage
  have hmarked {r : RecordId} (hr : r.index < a.records.size) (hmem : r ∈ rs)
      : ((rs.foldl (fun a r => a.modifyRecord r ExportRecord.completeUsage) a).record r).used ≠ .noInfo := by
    rw [record_modifyAll rs (fun x => congrArg Prod.fst (ExportRecord.once_completeUsage x)) hr, if_pos hmem]
    apply ExportRecord.used_completeUsage
  constructor
  · intro r hr
    rw [h.linked.scope_of_same hsame] at hr
    apply hmarked (h.lt_of_mem_scope hd hr)
    rw [mem_usageScope? hrs]
    rcases mem_scope.1 hr with ⟨e, he, hr⟩ | rfl
    · exact ⟨e, h.linked.reaches_of_mem_chain he, .listed hr⟩
    · exact ⟨_, h.linked.reaches_of_mem_chain (a.chainEnd_mem d), .other (h.linked.redirect_chainEnd d)⟩
  · intro e he
    rw [h.linked.chain_of_same hsame] at he
    rw [descriptor_of_same hsame]
    apply hmarked (h.tidy.lt (.sideEffects (h.linked.lt_of_mem_chain hd he)))
    rw [mem_usageScope? hrs]
    exact ⟨e, h.linked.reaches_of_mem_chain he, .sideEffects⟩

end Marked

/--
An analysis that was completed stays complete, as long as no redirect is set and no snapshot is replayed: the summary
that it was made for never becomes ambiguous again. The marking for uses exists if and only if it comes to an end.
-/
theorem completed_stays (h : a.Reachable) (hd : d.index < a.descriptors.size)
    : (∀ a', Relation.ReflTransGen Proceeds (a.markHasProvideInfo d) a' → a'.providedExports d ≠ .unknown) ∧
      ((a.markHasUseInfo? d).isSome ↔ a.UsageEnds d) ∧
      ∀ b, a.markHasUseInfo? d = some b → ∀ b', Relation.ReflTransGen Proceeds b b' → b'.usedExports d ≠ .unknown := by
  have hsound := h.sound
  have hvalid : ∀ e ∈ [d], e.index < a.descriptors.size := List.forall_mem_singleton.2 hd
  refine ⟨?_, ?_, ?_⟩
  · intro a' hrun
    have hmarked : (a.markHasProvideInfo d).Reachable := h.step (.markHasProvideInfo d) ⟨hvalid, List.forall_mem_nil _⟩
    have hd' : d.index < (a.markHasProvideInfo d).descriptors.size := by
      rw [markHasProvideInfo, descriptors_modifyAll]
      exact hd
    have ⟨hsound', hholds⟩ := (hsound.satisfies_markHasProvideInfo hd).run .determined .trivial hmarked.sound hd' hrun
    exact hsound'.linked.providedExports_ne_unknown hholds.scope
  · rw [markHasUseInfo?, Option.isSome_map]
    exact hsound.linked.usageScope?_isSome hd
  · intro b hb b' hrun
    have hmarked := h.step (.markHasUseInfo d) ⟨hvalid, List.forall_mem_nil _⟩
    rw [ArenaOp.apply, hb, Option.getD_some] at hmarked
    have hd' : d.index < b.descriptors.size := by
      obtain ⟨rs, -, rfl⟩ := Option.map_eq_some_iff.1 hb
      rw [descriptors_modifyAll]
      exact hd
    have ⟨hsound', hholds⟩ := (hsound.satisfies_markHasUseInfo? hd hb).run .informed .informed hmarked.sound hd' hrun
    exact hsound'.linked.usedExports_ne_unknown hsound'.named hholds.scope hholds.sideEffects

theorem completed_stays_sample
    : Sample.consumed.Reachable ∧ Sample.consumed.chain ⟨0⟩ = [⟨0⟩, ⟨1⟩] ∧
      Sample.consumed.providedExports ⟨0⟩ = .unknown ∧
      ((Sample.consumed.markHasProvideInfo ⟨0⟩).getOrCreate ⟨1⟩ "z").1.providedExports ⟨0⟩ ≠ .unknown ∧
      Sample.consumed.usedExports ⟨3⟩ = .unknown ∧ Sample.consumed.UsageEnds ⟨3⟩ ∧
      ∃ b, Sample.consumed.markHasUseInfo? ⟨3⟩ = some b ∧ (b.getOrCreate ⟨3⟩ "z").1.usedExports ⟨3⟩ ≠ .unknown := by
  have ⟨hprovided, _⟩ := completed_stays Sample.consumed_reachable (d := ⟨0⟩) (by decide +kernel)
  obtain ⟨-, hends, hused⟩ := completed_stays Sample.consumed_reachable (d := ⟨3⟩) (by decide +kernel)
  have hgradual (d : DescriptorId) (name : String) : (ArenaOp.getOrCreate d name).IsGradual := ⟨nofun, nofun⟩
  have hsize : (Sample.consumed.markHasUseInfo? ⟨3⟩).map (·.descriptors.size) = some 4 := by decide +kernel
  obtain ⟨b, hb, hsize⟩ := Option.map_eq_some_iff.1 hsize
  refine ⟨Sample.consumed_reachable, by decide +kernel, by decide +kernel, ?_, by decide +kernel, ?_, b, hb, ?_⟩
  · apply hprovided
    exact .single ⟨.getOrCreate ⟨1⟩ "z", ⟨by decide +kernel, by decide +kernel⟩, hgradual _ _, rfl⟩
  · apply hends.1
    rw [hb]
    rfl
  · apply hused b hb
    refine .single ⟨.getOrCreate ⟨3⟩ "z", ⟨?_, List.forall_mem_nil _⟩, hgradual _ _, rfl⟩
    rw [hsize]
    exact List.forall_mem_singleton.2 (by decide)

end Arena
end ModuleLink
