import ModuleLink.Exports.Summary
import ModuleLink.Proofs.Exports.Redirect

/-!
This module contains the proof that redirects are without a circle, and what follows from it: a question about exports
that is passed on along the redirects comes to an end.
-/

namespace ModuleLink
namespace Arena

variable {a : Arena} {d e : DescriptorId} {β : Type}

/--
A recursion along the redirects comes to an end with the answer `b` for `d`. Each descriptor makes its answer from the
one of its redirect, if there is one.
-/
inductive Descends (a : Arena) (step : DescriptorId → Option β → β) : DescriptorId → β → Prop where
  | last {d : DescriptorId} : (a.descriptor d).redirect = none → a.Descends step d (step d none)
  | next {d e : DescriptorId} {b : β} :
      (a.descriptor d).redirect = some e → a.Descends step e b → a.Descends step d (step d (some b))

theorem Linked.chain_induction (h : a.Linked) {motive : DescriptorId → Prop}
    (last : ∀ d, (a.descriptor d).redirect = none → a.chain d = [d] → motive d)
    (next : ∀ d e, (a.descriptor d).redirect = some e → a.chain d = d :: a.chain e → motive e → motive d)
    (d : DescriptorId) : motive d := by
  have hd := h.redirects_chain d
  generalize a.chain d = ds at hd
  induction hd with
  | @last d hd => exact last d hd (Redirects.last hd).chain_eq
  | @next d e _ hd _ ih => exact next d e hd (Redirects.next hd (h.redirects_chain e)).chain_eq ih

theorem Linked.descends (h : a.Linked) {step : DescriptorId → Option β → β} {f : DescriptorId → β}
    (hlast : ∀ d, a.chain d = [d] → f d = step d none)
    (hnext : ∀ d e, a.chain d = d :: a.chain e → f d = step d (some (f e))) (d : DescriptorId)
    : a.Descends step d (f d) := by
  induction d using h.chain_induction with
  | last d hd hchain =>
    rw [hlast d hchain]
    exact .last hd
  | next d e hd hchain ih =>
    rw [hnext d e hchain]
    exact .next hd ih

section Chain

theorem chain_eq_cons (a : Arena) (d : DescriptorId) : ∃ ds, a.chain d = d :: ds := by
  unfold chain
  cases a.descriptors.size with
  | zero => exact ⟨[], rfl⟩
  | succ n =>
    unfold chain.go
    split
    · exact ⟨[], rfl⟩
    · exact ⟨_, rfl⟩

theorem chainEnd_mem (a : Arena) (d : DescriptorId) : a.chainEnd d ∈ a.chain d := by
  obtain ⟨ds, hds⟩ := a.chain_eq_cons d
  rw [chainEnd, hds, List.getLastD_cons]
  exact List.getLastD_mem_cons

theorem chainEnd_last (h : a.chain d = [d]) : a.chainEnd d = d := by
  rw [chainEnd, h]
  rfl

theorem chainEnd_next (h : a.chain d = d :: a.chain e) : a.chainEnd d = a.chainEnd e := by
  -- The chain of `e` is not empty, so that its end does not depend on where the search for it starts.
  obtain ⟨ds, hds⟩ := a.chain_eq_cons e
  rw [chainEnd, chainEnd, h, hds, List.getLastD_cons, List.getLastD_cons, List.getLastD_cons]

theorem mem_scope {r : RecordId} : r ∈ a.scope d ↔ (∃ e ∈ a.chain d, r ∈ a.locals e) ∨ r = a.other d := by
  rw [scope, List.mem_append, List.mem_flatMap, List.mem_singleton]

theorem scope_last (h : a.chain d = [d]) : a.scope d = a.locals d ++ [(a.descriptor d).other] := by
  rw [scope, h, other, chainEnd_last h, List.flatMap_singleton]

theorem scope_next (h : a.chain d = d :: a.chain e) : a.scope d = a.locals d ++ a.scope e := by
  rw [scope, h, other, chainEnd_next h, List.flatMap_cons, List.append_assoc]
  rfl

theorem find?_last (name : String) (h : a.chain d = [d]) : a.find? d name = a.listed? d name := by
  rw [find?, h]
  simp

theorem find?_next (name : String) (h : a.chain d = d :: a.chain e)
    : a.find? d name = (a.listed? d name).or (a.find? e name) := by
  rw [find?, h, List.findSome?_cons]
  cases a.listed? d name with
  | none => rfl
  | some r => rfl

theorem descend_last (step : DescriptorId → Option β → β) (h : a.chain d = [d])
    : a.descend step d = step d none := by
  rw [descend, h]
  rfl

theorem descend_next (step : DescriptorId → Option β → β) (h : a.chain d = d :: a.chain e)
    : a.descend step d = step d (some (a.descend step e)) := by
  obtain ⟨ds, hds⟩ := a.chain_eq_cons e
  rw [descend, descend, h, hds]
  rfl

end Chain

section Step

variable (a : Arena)

def otherStep (d : DescriptorId) (inner : Option RecordId) : RecordId := inner.getD (a.descriptor d).other

def lookupStep (name : String) (d : DescriptorId) (inner : Option RecordId) : RecordId :=
  (a.listed? d name).getD (inner.getD (a.descriptor d).other)

def getOrCreateStep (name : String) (d : DescriptorId) (inner : Option (Arena × RecordId)) : Arena × RecordId :=
  match a.listed? d name with
  | some r => (a, r)
  | none => inner.getD (a.insertLocal d name)

/--
The records that are visible under their names: those of the redirect, and over them those of `d` itself.
-/
def visibleStep (d : DescriptorId) (inner : Option (Dict String RecordId)) : Dict String RecordId :=
  (a.descriptor d).exports.entries.foldl (fun names entry => names.insert entry.1 entry.2) (inner.getD .empty)

def isUsedStep (d : DescriptorId) (inner : Option Bool) : Bool :=
  inner.getD (a.record (a.descriptor d).other).used.isUsed || (a.locals d).any fun r => (a.record r).used.isUsed

end Step

structure Answers (a : Arena) (d : DescriptorId) : Prop where
  getOrCreate : ∀ name, a.Descends (a.getOrCreateStep name) d (a.getOrCreate d name)
  lookup : ∀ name, a.Descends (a.lookupStep name) d (a.lookup d name)
  other : a.Descends a.otherStep d (a.other d)
  visible : ∃ names, a.Descends a.visibleStep d names ∧
    a.visible d = (names.entries.mergeSort fun x y => decide (x.1 ≤ y.1)).map Prod.snd
  isUsed : a.Descends a.isUsedStep d (a.isUsed d)
  usedExports : a.Descends a.usedExportsStep d (a.usedExports d)
  providedExports : a.Descends a.providedExportsStep d (a.providedExports d)

namespace Linked

theorem descends_descend (h : a.Linked) (step : DescriptorId → Option β → β) (d : DescriptorId)
    : a.Descends step d (a.descend step d) :=
  h.descends (fun _ => descend_last step) (fun _ _ => descend_next step) d

theorem descends_other (h : a.Linked) (d : DescriptorId) : a.Descends a.otherStep d (a.other d) := by
  refine h.descends (fun d hd => ?_) (fun d e hd => ?_) d
  · rw [Arena.other, chainEnd_last hd]
    rfl
  · rw [Arena.other, chainEnd_next hd]
    rfl

theorem descends_lookup (h : a.Linked) (name : String) (d : DescriptorId)
    : a.Descends (a.lookupStep name) d (a.lookup d name) := by
  refine h.descends (f := fun d => a.lookup d name) (fun d hd => ?_) (fun d e hd => ?_) d
  · rw [Arena.lookup, find?_last name hd, Arena.other, chainEnd_last hd]
    rfl
  · rw [Arena.lookup, find?_next name hd, Arena.other, chainEnd_next hd, lookupStep]
    cases a.listed? d name with
    | none => rfl
    | some r => rfl

theorem descends_getOrCreate (h : a.Linked) (name : String) (d : DescriptorId)
    : a.Descends (a.getOrCreateStep name) d (a.getOrCreate d name) := by
  refine h.descends (f := fun d => a.getOrCreate d name) (fun d hd => ?_) (fun d e hd => ?_) d
  · rw [Arena.getOrCreate, find?_last name hd, chainEnd_last hd]
    rfl
  · rw [Arena.getOrCreate, find?_next name hd, chainEnd_next hd, getOrCreateStep]
    cases a.listed? d name with
    | none => rfl
    | some r => rfl

theorem descends_visible (h : a.Linked) (d : DescriptorId)
    : a.Descends a.visibleStep d
        ((a.chain d).foldr (fun e names => a.visibleStep e (some names)) (Dict.empty : Dict String RecordId)) := by
  refine h.descends (f := fun d => (a.chain d).foldr (fun e names => a.visibleStep e (some names)) .empty)
    (fun d hd => ?_) (fun d e hd => ?_) d
  · rw [hd]
    rfl
  · rw [hd]
    rfl

theorem descends_isUsed (h : a.Linked) (d : DescriptorId) : a.Descends a.isUsedStep d (a.isUsed d) := by
  refine h.descends (fun d hd => ?_) (fun d e hd => ?_) d
  · simp [Arena.isUsed, scope, Arena.other, chainEnd_last hd, hd, isUsedStep, Bool.or_comm]
  · simp [Arena.isUsed, scope, Arena.other, chainEnd_next hd, hd, isUsedStep, Bool.or_comm]

theorem answers (h : a.Linked) (d : DescriptorId) : a.Answers d where
  getOrCreate name := h.descends_getOrCreate name d
  lookup name := h.descends_lookup name d
  other := h.descends_other d
  visible := ⟨_, h.descends_visible d, rfl⟩
  isUsed := h.descends_isUsed d
  usedExports := h.descends_descend a.usedExportsStep d
  providedExports := h.descends_descend a.providedExportsStep d

end Linked

structure Redirected (a : Arena) (d : DescriptorId) (target : Option DescriptorId) (a' : Arena) : Prop where
  records : a'.records = a.records
  size : a'.descriptors.size = a.descriptors.size
  changed : a'.descriptor d = { a.descriptor d with redirect := target }
  kept : ∀ e, e ≠ d → a'.descriptor e = a.descriptor e

theorem redirected_modifyDescriptor (hd : d.index < a.descriptors.size) (target : Option DescriptorId)
    : a.Redirected d target (a.modifyDescriptor d ({ · with redirect := target })) where
  records := rfl
  size := size_modifyDescriptor ..
  changed := descriptor_modifyDescriptor _ hd
  kept _ he := descriptor_modifyDescriptor_of_ne _ he

theorem Linked.setRedirect_cases (h : a.Linked) {t : DescriptorId} (hd : d.index < a.descriptors.size)
    (hnew : (a.descriptor d).redirect ≠ some t)
    : ((∃ ds, a.Redirects t ds ∧ d ∈ ds) ∧ a.setRedirect d (some t) = (a, .error ⟨d, t⟩))
        ∨
      ((¬∃ ds, a.Redirects t ds ∧ d ∈ ds) ∧
        ∃ a', a.setRedirect d (some t) = (a', .ok true) ∧ a.Redirected d (some t) a') := by
  have hchain : (∃ ds, a.Redirects t ds ∧ d ∈ ds) ↔ d ∈ a.chain t := by
    constructor
    · rintro ⟨ds, hds, hmem⟩
      rw [hds.chain_eq]
      exact hmem
    · exact fun hmem => ⟨_, h.redirects_chain t, hmem⟩
  -- The check of the operation goes along the same chain.
  rw [hchain, Arena.setRedirect, if_neg hnew]
  by_cases hmem : d ∈ a.chain t
  · refine .inl ⟨hmem, ?_⟩
    simp [hmem]
  · refine .inr ⟨hmem, _, ?_, redirected_modifyDescriptor hd (some t)⟩
    simp [hmem]

/--
The redirects of a descriptor come to an end after no more steps than there are descriptors, and so do the questions
that are passed on along them. A new redirect is refused if and only if it would close a circle.
-/
theorem redirects_acyclic (h : a.Reachable)
    : (∀ d : DescriptorId, d.index < a.descriptors.size →
        (∃ ds, a.Redirects d ds ∧ ds.length ≤ a.descriptors.size) ∧ a.Answers d) ∧
      ∀ d t : DescriptorId, d.index < a.descriptors.size → t.index < a.descriptors.size →
        (a.descriptor d).redirect ≠ some t →
        ((∃ ds, a.Redirects t ds ∧ d ∈ ds) ∧ a.setRedirect d (some t) = (a, .error ⟨d, t⟩))
          ∨
        ((¬∃ ds, a.Redirects t ds ∧ d ∈ ds) ∧
          ∃ a', a.setRedirect d (some t) = (a', .ok true) ∧ a.Redirected d (some t) a') := by
  have hlinked := h.linked
  constructor
  · intro d hd
    exact ⟨⟨_, hlinked.redirects_chain d, hlinked.length_chain_le hd⟩, hlinked.answers d⟩
  · intro d t hd _ hnew
    exact hlinked.setRedirect_cases hd hnew

end Arena

namespace Sample

/--
The descriptor `0` is redirected to `1`. An export that `1` lists is linked to `0` before it gets a descriptor of its
own, which is `2`.
-/
def nesting : List ArenaOp := [
  .newDescriptor, .newDescriptor, .setRedirect ⟨0⟩ (some ⟨1⟩), .getOrCreate ⟨0⟩ "x",
  .linkNested ⟨4⟩ ⟨0⟩, .createNested ⟨4⟩, .newDescriptor]

def nested : Arena := nesting.foldl ArenaOp.apply {}

theorem nested_reachable : nested.Reachable := by
  simp only [nested, nesting, List.foldl_cons, List.foldl_nil]
  iterate 7 refine .step _ ?_ ⟨by decide +kernel, by decide +kernel⟩
  exact .empty

end Sample

theorem Arena.redirects_acyclic_sample
    : Sample.nested.Reachable ∧
      (∃ ds, Sample.nested.Redirects ⟨2⟩ ds ∧ ds.length ≤ 4) ∧ Sample.nested.Answers ⟨2⟩ ∧
      Sample.nested.setRedirect ⟨1⟩ (some ⟨2⟩) = (Sample.nested, .error ⟨⟨1⟩, ⟨2⟩⟩) ∧
      ∃ a', Sample.nested.setRedirect ⟨1⟩ (some ⟨3⟩) = (a', .ok true) ∧
        Sample.nested.Redirected ⟨1⟩ (some ⟨3⟩) a' := by
  have ⟨hend, hset⟩ := redirects_acyclic Sample.nested_reachable
  have ⟨hredirects, hanswers⟩ := hend ⟨2⟩ (by decide +kernel)
  have hlast : (Sample.nested.descriptor ⟨1⟩).redirect = none := by decide +kernel
  have hcircle : Sample.nested.Redirects ⟨2⟩ [⟨2⟩, ⟨0⟩, ⟨1⟩] :=
    .next (by decide +kernel) (.next (by decide +kernel) (.last hlast))
  have hfree : Sample.nested.Redirects ⟨3⟩ [⟨3⟩] := .last (by decide +kernel)
  refine ⟨Sample.nested_reachable, hredirects, hanswers, ?_, ?_⟩
  · rcases hset ⟨1⟩ ⟨2⟩ (by decide +kernel) (by decide +kernel) (by simp [hlast]) with ⟨_, hrefused⟩ | ⟨hnone, _⟩
    · exact hrefused
    · exact absurd ⟨_, hcircle, by simp⟩ hnone
  · rcases hset ⟨1⟩ ⟨3⟩ (by decide +kernel) (by decide +kernel) (by simp [hlast]) with ⟨hsome, _⟩ | ⟨_, hset⟩
    · obtain ⟨ds, hds, hmem⟩ := hsome
      rw [hds.unique hfree] at hmem
      cases List.mem_singleton.1 hmem
    · exact hset

end ModuleLink
