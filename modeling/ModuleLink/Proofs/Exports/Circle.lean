import Mathlib.Data.Set.Card
import ModuleLink.Proofs.Exports.Forest
import ModuleLink.Proofs.Exports.Swap

/-!
This module contains the proof of when a usage marking comes to an end. It goes on along redirects and into the
descriptors that records own. Neither of the two goes round in a circle by itself, but both together do if an owned
descriptor is redirected to one from which the marking comes back to it.
-/

namespace ModuleLink

theorem acc_of_acyclic {α : Type u} {R : α → α → Prop} {x : α} (hfinite : {y | Relation.ReflTransGen R x y}.Finite)
    (hacyclic : ∀ y, Relation.ReflTransGen R x y → ¬Relation.TransGen R y y) : Acc (Function.swap R) x := by
  induction hn : {y | Relation.ReflTransGen R x y}.ncard using Nat.strong_induction_on generalizing x with
  | h n ih =>
    constructor
    intro y hxy
    have hxy : R x y := hxy
    have hfewer : {z | Relation.ReflTransGen R y z} ⊂ {z | Relation.ReflTransGen R x z} := by
      refine ⟨fun z hz => .head hxy hz, ?_⟩
      intro hback
      have hyx : Relation.ReflTransGen R y x := hback .refl
      exact hacyclic x .refl (.head' hxy hyx)
    refine ih _ ?_ (hfinite.subset hfewer.1) (fun z hz => hacyclic z (.head hxy hz)) rfl
    rw [← hn]
    exact Set.ncard_lt_ncard hfewer hfinite

namespace Arena

variable {a a' b : Arena} {c d e f t : DescriptorId} {r s : RecordId} {rs : List RecordId}

def completeUsageOf (a : Arena) (r : RecordId) : Arena := a.modifyRecord r ExportRecord.completeUsage

/--
The usage marking of `d` comes to an end with the second arena. The records `rs` are those of `d` that are still to be
marked; each is followed by the descriptor that it owns, and all of them by the redirect.
-/
inductive MarksUse : Arena → DescriptorId → List RecordId → Arena → Prop where
  | plain {a b : Arena} {d : DescriptorId} {r : RecordId} {rs : List RecordId} :
      (a.record r).ownedNested = none → MarksUse (a.completeUsageOf r) d rs b → MarksUse a d (r :: rs) b
  | owner {a b b' : Arena} {d e : DescriptorId} {r : RecordId} {rs : List RecordId} :
      (a.record r).ownedNested = some e → MarksUse (a.completeUsageOf r) e (a.locals e) b → MarksUse b d rs b' →
      MarksUse a d (r :: rs) b'
  | redirected {a b : Arena} {d e : DescriptorId} :
      (a.descriptor d).redirect = some e →
      MarksUse (a.completeUsageOf (a.descriptor d).sideEffects) e (a.locals e) b → MarksUse a d [] b
  | last {a : Arena} {d : DescriptorId} :
      (a.descriptor d).redirect = none →
      MarksUse a d [] ((a.completeUsageOf (a.descriptor d).sideEffects).completeUsageOf (a.descriptor d).other)

theorem concerns_iff
    : a.Concerns d s
        ↔
      s ∈ a.locals d ∨ s = (a.descriptor d).sideEffects ∨
        ((a.descriptor d).redirect = none ∧ s = (a.descriptor d).other) := by
  constructor
  · intro hs
    cases hs with
    | listed hs => exact .inl hs
    | sideEffects => exact .inr (.inl rfl)
    | other hlast => exact .inr (.inr ⟨hlast, rfl⟩)
  · rintro (hs | rfl | ⟨hlast, rfl⟩)
    · exact .listed hs
    · exact .sideEffects
    · exact .other hlast

structure SameCourse (a a' : Arena) : Prop where
  descriptors : a'.descriptors = a.descriptors
  ownedNested : ∀ r, (a'.record r).ownedNested = (a.record r).ownedNested

namespace SameCourse

theorem refl (a : Arena) : a.SameCourse a := ⟨rfl, fun _ => rfl⟩

theorem trans (h : a.SameCourse a') (h' : a'.SameCourse b) : a.SameCourse b where
  descriptors := h'.descriptors.trans h.descriptors
  ownedNested r := (h'.ownedNested r).trans (h.ownedNested r)

theorem completeUsageOf (a : Arena) (r : RecordId) : a.SameCourse (a.completeUsageOf r) where
  descriptors := rfl
  ownedNested s := by
    unfold Arena.completeUsageOf
    rcases record_modifyRecord a r ExportRecord.completeUsage s with hsame | hnew
    · rw [hsame]
    · rw [hnew]
      rfl

theorem descriptor (h : a.SameCourse a') (d : DescriptorId) : a'.descriptor d = a.descriptor d :=
  descriptor_of_same h.descriptors d

theorem locals (h : a.SameCourse a') (d : DescriptorId) : a'.locals d = a.locals d :=
  locals_of_same h.descriptors d

theorem enters (h : a.SameCourse a') : a'.Enters = a.Enters := by
  funext d e
  rw [eq_iff_iff, enters_iff, enters_iff]
  simp only [h.locals, h.descriptor, h.ownedNested]

theorem concerns (h : a.SameCourse a') : a'.Concerns d s ↔ a.Concerns d s := by
  rw [concerns_iff, concerns_iff, h.locals, h.descriptor]

end SameCourse

def InUsageScope (a : Arena) (d : DescriptorId) (s : RecordId) : Prop :=
  ∃ c, Relation.ReflTransGen a.Enters d c ∧ a.Concerns c s

def Remains (a : Arena) (d : DescriptorId) (rs : List RecordId) (s : RecordId) : Prop :=
  s ∈ rs ∨ (∃ r ∈ rs, ∃ e, (a.record r).ownedNested = some e ∧ a.InUsageScope e s) ∨
    s = (a.descriptor d).sideEffects ∨
    (∃ e, (a.descriptor d).redirect = some e ∧ a.InUsageScope e s) ∨
    ((a.descriptor d).redirect = none ∧ s = (a.descriptor d).other)

theorem SameCourse.inUsageScope (h : a.SameCourse a') : a'.InUsageScope d s ↔ a.InUsageScope d s := by
  simp only [InUsageScope, h.enters, h.concerns]

theorem SameCourse.remains (h : a.SameCourse a') : a'.Remains d rs s ↔ a.Remains d rs s := by
  simp only [Remains, h.ownedNested, h.inUsageScope, h.descriptor]

theorem inUsageScope_iff : a.InUsageScope d s ↔ a.Remains d (a.locals d) s := by
  constructor
  · rintro ⟨c, hc, hs⟩
    rcases Relation.ReflTransGen.cases_head_iff.1 hc with rfl | ⟨e, he, hc⟩
    · rcases concerns_iff.1 hs with hs | hs | hs
      · exact .inl hs
      · exact .inr (.inr (.inl hs))
      · exact .inr (.inr (.inr (.inr hs)))
    · cases he with
      | nested hr howned => exact .inr (.inl ⟨_, hr, e, howned, c, hc, hs⟩)
      | redirect hredirect => exact .inr (.inr (.inr (.inl ⟨e, hredirect, c, hc, hs⟩)))
  · rintro (hs | ⟨r, hr, e, howned, c, hc, hs⟩ | hs | ⟨e, hredirect, c, hc, hs⟩ | hs)
    · exact ⟨d, .refl, concerns_iff.2 (.inl hs)⟩
    · exact ⟨c, .head (.nested hr howned) hc, hs⟩
    · exact ⟨d, .refl, concerns_iff.2 (.inr (.inl hs))⟩
    · exact ⟨c, .head (.redirect hredirect) hc, hs⟩
    · exact ⟨d, .refl, concerns_iff.2 (.inr (.inr hs))⟩

theorem remains_cons
    : a.Remains d (r :: rs) s
        ↔
      s = r ∨ (∃ e, (a.record r).ownedNested = some e ∧ a.InUsageScope e s) ∨ a.Remains d rs s := by
  simp only [Remains, List.mem_cons, exists_eq_or_imp]
  grind

def completeUsageOfAll (a : Arena) (rs : List RecordId) : Arena := rs.foldl Arena.completeUsageOf a

theorem SameCourse.completeUsageOfAll (a : Arena) (rs : List RecordId) : a.SameCourse (a.completeUsageOfAll rs) := by
  unfold Arena.completeUsageOfAll
  induction rs generalizing a with
  | nil => exact .refl a
  | cons r rs ih => exact (completeUsageOf a r).trans (ih _)

theorem completeUsageOfAll_congr {rs' : List RecordId} (h : ∀ s, s ∈ rs ↔ s ∈ rs')
    : a.completeUsageOfAll rs = a.completeUsageOfAll rs' := by
  have hrepeat (x : ExportRecord) : x.completeUsage.completeUsage = x.completeUsage :=
    congrArg Prod.fst (ExportRecord.once_completeUsage x)
  have hsize (rs : List RecordId) : (a.completeUsageOfAll rs).records.size = a.records.size := size_modifyAll a rs _
  apply ext_record
  · rw [(SameCourse.completeUsageOfAll a rs).descriptors, (SameCourse.completeUsageOfAll a rs').descriptors]
  · rw [hsize, hsize]
  · intro s hs
    rw [hsize] at hs
    refine (record_modifyAll rs hrepeat hs).trans (Eq.trans ?_ (record_modifyAll rs' hrepeat hs).symm)
    simp only [h]

theorem usageEnds_of_next
    (h : (∀ r ∈ a.locals d, ∀ e, (a.record r).ownedNested = some e → a.UsageEnds e) ∧
      ∀ e, (a.descriptor d).redirect = some e → a.UsageEnds e)
    : a.UsageEnds d := by
  constructor
  intro e he
  cases he with
  | nested hr howned => exact h.1 _ hr e howned
  | redirect hredirect => exact h.2 e hredirect

namespace MarksUse

theorem marked (h : MarksUse a d rs b) : ∃ rs', b = a.completeUsageOfAll rs' ∧ ∀ s, s ∈ rs' ↔ a.Remains d rs s := by
  induction h with
  | @plain a b d r rs hplain _ ih =>
    obtain ⟨rs', rfl, hrs'⟩ := ih
    refine ⟨r :: rs', rfl, ?_⟩
    intro s
    rw [List.mem_cons, hrs', (SameCourse.completeUsageOf a r).remains, remains_cons]
    simp [hplain]
  | @owner a b b' d e r rs howned _ _ ihOwned ih =>
    obtain ⟨rs', rfl, hrs'⟩ := ihOwned
    obtain ⟨rs'', rfl, hrs''⟩ := ih
    have hcourse := (SameCourse.completeUsageOf a r).trans (SameCourse.completeUsageOfAll _ rs')
    refine ⟨r :: (rs' ++ rs''), ?_, ?_⟩
    · exact List.foldl_append.symm
    · intro s
      have hscope : (a.completeUsageOf r).Remains e (a.locals e) s ↔ a.InUsageScope e s := by
        rw [(SameCourse.completeUsageOf a r).remains, inUsageScope_iff]
      rw [List.mem_cons, List.mem_append, hrs', hscope, hrs'', hcourse.remains, remains_cons]
      simp [howned]
  | @redirected a b d e hredirect _ ih =>
    obtain ⟨rs', rfl, hrs'⟩ := ih
    refine ⟨(a.descriptor d).sideEffects :: rs', rfl, ?_⟩
    intro s
    rw [List.mem_cons, hrs', (SameCourse.completeUsageOf a _).remains, ← inUsageScope_iff]
    simp [Remains, hredirect]
  | @last a d hlast =>
    refine ⟨[(a.descriptor d).sideEffects, (a.descriptor d).other], rfl, ?_⟩
    intro s
    simp [Remains, hlast]

theorem usageEnds (h : MarksUse a d rs b)
    : (∀ r ∈ rs, ∀ e, (a.record r).ownedNested = some e → a.UsageEnds e) ∧
      ∀ e, (a.descriptor d).redirect = some e → a.UsageEnds e := by
  have hends {a a' : Arena} (hcourse : a.SameCourse a') {e : DescriptorId} : a'.UsageEnds e ↔ a.UsageEnds e := by
    unfold UsageEnds
    rw [hcourse.enters]
  induction h with
  | @plain a b d r rs hplain _ ih =>
    have hcourse := SameCourse.completeUsageOf a r
    simp only [hcourse.ownedNested, hcourse.descriptor, hends hcourse] at ih
    refine ⟨?_, ih.2⟩
    rw [List.forall_mem_cons, hplain]
    exact ⟨nofun, ih.1⟩
  | @owner a b b' d e r rs howned hnested _ ihOwned ih =>
    have hmarked := SameCourse.completeUsageOf a r
    obtain ⟨rs', rfl, -⟩ := hnested.marked
    have hcourse := hmarked.trans (SameCourse.completeUsageOfAll _ rs')
    simp only [hcourse.ownedNested, hcourse.descriptor, hends hcourse] at ih
    refine ⟨?_, ih.2⟩
    rw [List.forall_mem_cons, howned]
    refine ⟨?_, ih.1⟩
    rintro _ ⟨⟩
    rw [← hends hmarked]
    exact usageEnds_of_next ihOwned
  | @redirected a b d e hredirect _ ih =>
    refine ⟨List.forall_mem_nil _, ?_⟩
    rw [hredirect]
    rintro _ ⟨⟩
    rw [← hends (SameCourse.completeUsageOf a (a.descriptor d).sideEffects)]
    exact usageEnds_of_next ih
  | last hlast =>
    refine ⟨List.forall_mem_nil _, ?_⟩
    rw [hlast]
    exact nofun

theorem ends (h : MarksUse a d (a.locals d) b) : a.UsageEnds d := usageEnds_of_next h.usageEnds

end MarksUse

theorem UsageEnds.marksUse (h : a.UsageEnds d) : ∃ b, MarksUse a d (a.locals d) b := by
  suffices hall : ∀ a', a.SameCourse a' → ∃ b, MarksUse a' d (a'.locals d) b from hall a (.refl a)
  -- The arena changes on the way, but not the course.
  induction h with
  | intro d _ ih =>
    have hnext {a' : Arena} (hcourse : a.SameCourse a') {e : DescriptorId} (he : a.Enters d e)
        : ∃ b, MarksUse a' e (a'.locals e) b :=
      ih e he a' hcourse
    suffices hall : ∀ rs, rs ⊆ a.locals d → ∀ a', a.SameCourse a' → ∃ b, MarksUse a' d rs b by
      intro a' hcourse
      rw [hcourse.locals]
      exact hall _ (List.Subset.refl _) a' hcourse
    intro rs
    induction rs with
    | nil =>
      intro _ a' hcourse
      cases hredirect : (a.descriptor d).redirect with
      | none =>
        rw [← hcourse.descriptor] at hredirect
        exact ⟨_, .last hredirect⟩
      | some e =>
        have hmarked := hcourse.trans (.completeUsageOf a' (a'.descriptor d).sideEffects)
        obtain ⟨b, hb⟩ := hnext hmarked (.redirect hredirect)
        rw [← hcourse.descriptor] at hredirect
        exact ⟨b, .redirected hredirect hb⟩
    | cons r rs ihRest =>
      intro hsubset a' hcourse
      obtain ⟨hr, hrs⟩ := List.cons_subset.1 hsubset
      have hmarked := hcourse.trans (.completeUsageOf a' r)
      cases howned : (a.record r).ownedNested with
      | none =>
        obtain ⟨b, hb⟩ := ihRest hrs _ hmarked
        rw [← hcourse.ownedNested] at howned
        exact ⟨b, .plain howned hb⟩
      | some e =>
        obtain ⟨b, hb⟩ := hnext hmarked (.nested hr howned)
        obtain ⟨rs', rfl, -⟩ := hb.marked
        obtain ⟨b', hb'⟩ := ihRest hrs _ (hmarked.trans (.completeUsageOfAll _ rs'))
        rw [← hcourse.ownedNested] at howned
        exact ⟨b', .owner howned hb hb'⟩

theorem Linked.markHasUseInfo?_eq_some (h : a.Linked) (hd : d.index < a.descriptors.size)
    : a.markHasUseInfo? d = some b ↔ MarksUse a d (a.locals d) b := by
  have hmarked {rs : List RecordId} (hrs : a.usageScope? d = some rs) {b : Arena} (hb : MarksUse a d (a.locals d) b)
      : a.markHasUseInfo? d = some b := by
    obtain ⟨rs', rfl, hrs'⟩ := hb.marked
    rw [markHasUseInfo?, hrs, Option.map_some, Option.some_inj]
    apply completeUsageOfAll_congr
    intro s
    rw [hrs', ← inUsageScope_iff, mem_usageScope? hrs]
    rfl
  constructor
  · intro hb
    obtain ⟨rs, hrs, -⟩ := Option.map_eq_some_iff.1 hb
    obtain ⟨b', hb'⟩ := UsageEnds.marksUse (usageScope?.ends_of_go hrs)
    cases hb.symm.trans (hmarked hrs hb')
    exact hb'
  · intro hb
    obtain ⟨rs, hrs⟩ := Option.isSome_iff_exists.1 ((h.usageScope?_isSome hd).2 hb.ends)
    exact hmarked hrs hb

section Circle

def RedirectsTo (a : Arena) (d e : DescriptorId) : Prop := (a.descriptor d).redirect = some e

theorem Linked.mem_chain_of_redirectsTo (h : a.Linked) (hde : Relation.ReflTransGen a.RedirectsTo d e)
    : e ∈ a.chain d := by
  induction hde using Relation.ReflTransGen.head_induction_on with
  | refl =>
    obtain ⟨ds, hds⟩ := a.chain_eq_cons e
    rw [hds]
    exact List.mem_cons_self
  | @head d c hd _ ih =>
    rw [(Redirects.next hd (h.redirects_chain c)).chain_eq]
    exact List.mem_cons_of_mem d ih

theorem nested_or_redirects (h : Relation.ReflTransGen a.Enters d e)
    : (∃ c r f, Relation.ReflTransGen a.Enters d c ∧ r ∈ a.locals c ∧ (a.record r).ownedNested = some f ∧
        Relation.ReflTransGen a.Enters f e)
        ∨
      Relation.ReflTransGen a.RedirectsTo d e := by
  induction h using Relation.ReflTransGen.head_induction_on with
  | refl => exact .inr .refl
  | @head d c' hd hrest ih =>
    cases hd with
    | nested hr howned => exact .inl ⟨d, _, c', .refl, hr, howned, hrest⟩
    | redirect hredirect =>
      rcases ih with ⟨c, r, f, hc, hr, howned, hf⟩ | hredirects
      · exact .inl ⟨c, r, f, .head (.redirect hredirect) hc, hr, howned, hf⟩
      · exact .inr (.head hredirect hredirects)

theorem Linked.nested_of_circle (h : a.Linked) (hd : Relation.TransGen a.Enters d d)
    : ∃ c r f, Relation.ReflTransGen a.Enters d c ∧ r ∈ a.locals c ∧ (a.record r).ownedNested = some f ∧
        Relation.ReflTransGen a.Enters f c := by
  -- Redirects alone do not form a circle.
  obtain ⟨c', hfirst, hback⟩ := Relation.TransGen.head'_iff.1 hd
  cases hfirst with
  | nested hr howned => exact ⟨d, _, c', .refl, hr, howned, hback⟩
  | redirect hredirect =>
    rcases nested_or_redirects hback with ⟨c, r, f, hc, hr, howned, hf⟩ | hredirects
    · have hdc := hc.head (.redirect hredirect)
      exact ⟨c, r, f, hdc, hr, howned, hf.trans hdc⟩
    · have hnodup := (Redirects.next hredirect (h.redirects_chain c')).nodup
      exact absurd (h.mem_chain_of_redirectsTo hredirects) (List.nodup_cons.1 hnodup).1

theorem Owned.redirect_or_newer (h : a.Owned) (hnamed : a.Named) (hde : Relation.ReflTransGen a.Enters d e)
    (howner : (a.descriptor d).owner.isSome)
    : (∃ f t, Relation.ReflTransGen a.Enters d f ∧ (a.descriptor f).owner.isSome ∧
        (a.descriptor f).redirect = some t ∧ Relation.ReflTransGen a.Enters t e)
        ∨
      d.index ≤ e.index := by
  induction hde using Relation.ReflTransGen.head_induction_on with
  | refl => exact .inr (Nat.le_refl _)
  | @head d c hfirst hrest ih =>
    cases hfirst with
    | redirect hredirect => exact .inl ⟨d, c, .refl, howner, hredirect, hrest⟩
    | nested hr howned =>
      obtain ⟨name, hlisted, -⟩ := hnamed.listed_of_mem hr
      have hnewer : d.index < c.index := h.newer (.listed hlisted) howned
      rcases ih (by rw [h.owned howned]; rfl) with ⟨f, t, hf, hfound⟩ | hle
      · exact .inl ⟨f, t, .head (.nested hr howned) hf, hfound⟩
      · exact .inr (Nat.le_trans (Nat.le_of_lt hnewer) hle)

structure ClosesCircle (a : Arena) (f t : DescriptorId) : Prop where
  owner : (a.descriptor f).owner.isSome
  redirect : (a.descriptor f).redirect = some t
  back : Relation.ReflTransGen a.Enters t f

theorem Owned.closesCircle (h : a.Owned) (hlinked : a.Linked) (hnamed : a.Named) (hd : Relation.TransGen a.Enters d d)
    : ∃ f t, Relation.ReflTransGen a.Enters d f ∧ a.ClosesCircle f t := by
  obtain ⟨c, r, e, hc, hr, howned, he⟩ := hlinked.nested_of_circle hd
  have howner : (a.descriptor e).owner.isSome := by
    rw [h.owned howned]
    rfl
  have hce : a.Enters c e := .nested hr howned
  rcases h.redirect_or_newer hnamed he howner with ⟨f, t, hf, hfowner, hredirect, ht⟩ | hle
  · have hcf := hf.head hce
    exact ⟨f, t, hc.trans hcf, hfowner, hredirect, ht.trans hcf⟩
  · -- The descriptor is newer than the one that lists its owner.
    obtain ⟨name, hlisted, -⟩ := hnamed.listed_of_mem hr
    exact absurd hle (Nat.not_le.2 (h.newer (.listed hlisted) howned))

/--
Where no circle is reached, a walk does not go on for ever: there are finitely many descriptors.
-/
theorem Linked.usageEnds_of_acyclic (h : a.Linked) (hd : d.index < a.descriptors.size)
    (hacyclic : ∀ c, Relation.ReflTransGen a.Enters d c → ¬Relation.TransGen a.Enters c c) : a.UsageEnds d := by
  refine acc_of_acyclic ?_ hacyclic
  refine ((Set.finite_lt_nat a.descriptors.size).preimage DescriptorId.index_injective.injOn).subset ?_
  intro c hc
  exact h.lt_of_reaches hd hc

theorem UsageEnds.of_reaches (h : a.UsageEnds d) (hde : Relation.ReflTransGen a.Enters d e) : a.UsageEnds e := by
  induction hde with
  | refl => exact h
  | tail _ he ih => exact ih.inv he

theorem UsageEnds.not_closesCircle (h : a.UsageEnds d) (hf : Relation.ReflTransGen a.Enters d f)
    : ¬a.ClosesCircle f t := by
  intro hcircle
  exact (h.of_reaches hf).not_transGen (.head' (.redirect hcircle.redirect) hcircle.back)

end Circle

/--
The recursion of a usage marking comes to an end, with the arena that is given for it, unless it reaches an owned
descriptor with a redirect that leads it back there. Then it goes on for ever.
-/
theorem usageMarking_ends_iff (h : a.Reachable) (hd : d.index < a.descriptors.size)
    : (∀ b, a.markHasUseInfo? d = some b ↔ MarksUse a d (a.locals d) b) ∧
      ((∃ b, MarksUse a d (a.locals d) b)
        ↔
       ¬∃ f t, Relation.ReflTransGen a.Enters d f ∧ a.ClosesCircle f t) := by
  refine ⟨fun b => h.linked.markHasUseInfo?_eq_some hd, ?_, ?_⟩
  · rintro ⟨b, hb⟩ ⟨f, t, hf, hcircle⟩
    exact hb.ends.not_closesCircle hf hcircle
  · intro hnone
    apply UsageEnds.marksUse
    apply h.linked.usageEnds_of_acyclic hd
    intro c hc hcycle
    obtain ⟨f, t, hf, hcircle⟩ := h.owned.closesCircle h.linked h.named hcycle
    exact hnone ⟨f, t, hc.trans hf, hcircle⟩

end Arena

namespace Sample

/--
The export `self` is linked to the descriptor `0` that lists it, before it gets the descriptor `1` of its own.
-/
def selfLinking : List ArenaOp :=
  [.newDescriptor, .getOrCreate ⟨0⟩ "self", .linkNested ⟨2⟩ ⟨0⟩, .createNested ⟨2⟩, .newDescriptor]

def selfLinked : Arena := selfLinking.foldl ArenaOp.apply {}

theorem selfLinked_reachable : selfLinked.Reachable := by
  simp only [selfLinked, selfLinking, List.foldl_cons, List.foldl_nil]
  iterate 5 refine .step _ ?_ ⟨by decide +kernel, by decide +kernel⟩
  exact .empty

theorem enters_selfLinked : selfLinked.Enters ⟨0⟩ ⟨1⟩ :=
  .nested (r := ⟨2⟩) (by decide +kernel) (by decide +kernel)

theorem closesCircle_selfLinked : selfLinked.ClosesCircle ⟨1⟩ ⟨0⟩ where
  owner := by decide +kernel
  redirect := by decide +kernel
  back := .single enters_selfLinked

end Sample

theorem Arena.usageMarking_ends_iff_sample
    : Sample.selfLinked.Reachable ∧
      (¬∃ b, MarksUse Sample.selfLinked ⟨0⟩ (Sample.selfLinked.locals ⟨0⟩) b) ∧
      Sample.selfLinked.markHasUseInfo? ⟨0⟩ = none ∧
      ∃ b, Sample.selfLinked.markHasUseInfo? ⟨2⟩ = some b ∧ (b.record ⟨5⟩).used = .unused ∧
        MarksUse Sample.selfLinked ⟨2⟩ (Sample.selfLinked.locals ⟨2⟩) b ∧
        ¬∃ f t, Relation.ReflTransGen Sample.selfLinked.Enters ⟨2⟩ f ∧ Sample.selfLinked.ClosesCircle f t := by
  have ⟨hsome, hends⟩ := usageMarking_ends_iff Sample.selfLinked_reachable (d := ⟨0⟩) (by decide +kernel)
  have ⟨hsome', hends'⟩ := usageMarking_ends_iff Sample.selfLinked_reachable (d := ⟨2⟩) (by decide +kernel)
  have hendless : ¬∃ b, MarksUse Sample.selfLinked ⟨0⟩ (Sample.selfLinked.locals ⟨0⟩) b := by
    rw [hends, not_not]
    exact ⟨⟨1⟩, ⟨0⟩, .single Sample.enters_selfLinked, Sample.closesCircle_selfLinked⟩
  have hmarked : (Sample.selfLinked.markHasUseInfo? ⟨2⟩).map (fun b => (b.record ⟨5⟩).used) = some .unused := by
    decide +kernel
  obtain ⟨b, hb, hunused⟩ := Option.map_eq_some_iff.1 hmarked
  have hb' := (hsome' b).1 hb
  refine ⟨Sample.selfLinked_reachable, hendless, ?_, b, hb, hunused, hb', hends'.1 ⟨b, hb'⟩⟩
  rw [Option.eq_none_iff_forall_ne_some]
  intro b hb
  exact hendless ⟨b, (hsome b).1 hb⟩

/--
Operations lead to an arena in which a usage marking goes on for ever.
-/
theorem Arena.usageMarking_endless
    : Sample.selfLinked.Reachable ∧ (⟨0⟩ : DescriptorId).index < Sample.selfLinked.descriptors.size ∧
      ¬∃ b, MarksUse Sample.selfLinked ⟨0⟩ (Sample.selfLinked.locals ⟨0⟩) b := by
  refine ⟨Sample.selfLinked_reachable, by decide +kernel, ?_⟩
  rintro ⟨b, hb⟩
  exact hb.ends.not_closesCircle (.single Sample.enters_selfLinked) Sample.closesCircle_selfLinked

end ModuleLink
