import ModuleLink.Proofs.Basic
import ModuleLink.Proofs.Exports.Operation

/-!
This module contains the proof that redirects come to an end in every arena that operations lead to. A
redirect is set by an operation of its own, which refuses to close a circle, and where a record that was
linked to a descriptor gets one of its own; that one is new, so that no redirect leads to it.
-/

namespace ModuleLink

theorem DescriptorId.index_injective : Function.Injective DescriptorId.index := by
  intro d e h
  cases d
  cases e
  exact congrArg DescriptorId.mk h

theorem RecordId.index_injective : Function.Injective RecordId.index := by
  intro r s h
  cases r
  cases s
  exact congrArg RecordId.mk h

namespace Arena

variable {a a' : Arena}

section Frame

variable {α : Type}

@[simp]
theorem size_modifyDescriptor (a : Arena) (d : DescriptorId) (f : Descriptor → Descriptor)
    : (a.modifyDescriptor d f).descriptors.size = a.descriptors.size := Array.size_modify

@[simp]
theorem size_newDescriptorOf (a : Arena) (owner : Option RecordId)
    : (a.newDescriptorOf owner).1.descriptors.size = a.descriptors.size + 1 := Array.size_push _

theorem descriptor_modifyDescriptor {d : DescriptorId} (f : Descriptor → Descriptor)
    (hd : d.index < a.descriptors.size) : (a.modifyDescriptor d f).descriptor d = f (a.descriptor d) := by
  simp only [descriptor, modifyDescriptor, Array.getElem?_modify, if_pos]
  rw [Array.getElem?_eq_getElem hd]
  rfl

theorem descriptor_modifyDescriptor_of_ne {d e : DescriptorId} (f : Descriptor → Descriptor) (h : e ≠ d)
    : (a.modifyDescriptor d f).descriptor e = a.descriptor e := by
  have hindex : d.index ≠ e.index := by
    intro heq
    exact h (DescriptorId.index_injective heq.symm)
  simp [descriptor, modifyDescriptor, Array.getElem?_modify, hindex]

theorem modifyDescriptor_congr (view : Descriptor → α) {f : Descriptor → Descriptor}
    (hf : ∀ x, view (f x) = view x) (d e : DescriptorId)
    : view ((a.modifyDescriptor d f).descriptor e) = view (a.descriptor e) := by
  simp only [descriptor, modifyDescriptor, Array.getElem?_modify]
  split
  · cases a.descriptors[e.index]? with
    | none => rfl
    | some x => exact hf x
  · rfl

theorem record_modifyRecord (a : Arena) (r : RecordId) (f : ExportRecord → ExportRecord) (s : RecordId)
    : (a.modifyRecord r f).record s = a.record s ∨ (a.modifyRecord r f).record s = f (a.record s) := by
  simp only [record, modifyRecord, Array.getElem?_modify]
  split
  · cases a.records[s.index]? with
    | none => exact .inl rfl
    | some x => exact .inr rfl
  · exact .inl rfl

theorem record_modifyRecord_self {r : RecordId} (f : ExportRecord → ExportRecord) (hr : r.index < a.records.size)
    : (a.modifyRecord r f).record r = f (a.record r) := by
  simp only [record, modifyRecord, Array.getElem?_modify, if_pos]
  rw [Array.getElem?_eq_getElem hr]
  rfl

theorem record_modifyRecord_of_ne {r s : RecordId} (f : ExportRecord → ExportRecord) (h : s ≠ r)
    : (a.modifyRecord r f).record s = a.record s := by
  have hindex : r.index ≠ s.index := by
    intro heq
    exact h (RecordId.index_injective heq.symm)
  simp [record, modifyRecord, Array.getElem?_modify, hindex]

theorem descriptors_modifyAll (a : Arena) (rs : List RecordId) (f : ExportRecord → ExportRecord)
    : (rs.foldl (fun a r => a.modifyRecord r f) a).descriptors = a.descriptors := by
  induction rs generalizing a with
  | nil => rfl
  | cons r rs ih => exact ih _

theorem size_modifyAll (a : Arena) (rs : List RecordId) (f : ExportRecord → ExportRecord)
    : (rs.foldl (fun a r => a.modifyRecord r f) a).records.size = a.records.size := by
  induction rs generalizing a with
  | nil => rfl
  | cons r rs ih =>
    rw [List.foldl_cons, ih]
    apply Array.size_modify

/--
A change without effect when it is repeated is made once, however often a record is listed.
-/
theorem record_modifyAll (rs : List RecordId) {f : ExportRecord → ExportRecord} (hf : ∀ x, f (f x) = f x)
    {r : RecordId} (hr : r.index < a.records.size)
    : (rs.foldl (fun a r => a.modifyRecord r f) a).record r = if r ∈ rs then f (a.record r) else a.record r := by
  induction rs generalizing a with
  | nil => rfl
  | cons r' rs ih =>
    rw [List.foldl_cons, ih (Nat.lt_of_lt_of_eq hr Array.size_modify.symm)]
    by_cases heq : r = r'
    · subst heq
      rw [record_modifyRecord_self _ hr, if_pos List.mem_cons_self, hf, ite_self]
    · rw [record_modifyRecord_of_ne _ heq]
      simp [heq]

theorem newDescriptorOf_congr (view : Descriptor → α)
    (hview : ∀ other sideEffects owner, view { other, sideEffects, owner } = view default)
    (owner : Option RecordId) (d : DescriptorId)
    : view ((a.newDescriptorOf owner).1.descriptor d) = view (a.descriptor d) := by
  simp only [descriptor, newDescriptorOf, Array.getElem?_push]
  split
  · next h =>
    rw [Array.getElem?_eq_none (Nat.le_of_eq h.symm)]
    apply hview
  · rfl

theorem redirect_newDescriptorOf (owner : Option RecordId) (d : DescriptorId)
    : ((a.newDescriptorOf owner).1.descriptor d).redirect = (a.descriptor d).redirect :=
  newDescriptorOf_congr Descriptor.redirect (fun _ _ _ => rfl) owner d

theorem record_newDescriptorOf (owner : Option RecordId) (r : RecordId)
    : (a.newDescriptorOf owner).1.record r = a.record r := by
  simp only [record, newDescriptorOf, Array.getElem?_push, Array.size_push]
  split
  · next h =>
    rw [Array.getElem?_eq_none (by omega)]
    rfl
  · split
    · next h =>
      rw [Array.getElem?_eq_none (Nat.le_of_eq h.symm)]
      rfl
    · rfl

theorem record_of_le {r : RecordId} (h : a.records.size ≤ r.index) : a.record r = {} := by
  rw [record, Array.getElem?_eq_none h]
  rfl

theorem record_insertLocal (d : DescriptorId) (name : String) (r : RecordId)
    : (a.insertLocal d name).1.record r
        =
      if r.index = a.records.size then .seeded name (a.record (a.descriptor d).other) else a.record r := by
  simp only [record, insertLocal, modifyDescriptor, Array.getElem?_push]
  split
  · rfl
  · rfl

theorem nested_insertLocal (d : DescriptorId) (name : String) (r : RecordId)
    : ((a.insertLocal d name).1.record r).nested = (a.record r).nested := by
  rw [record_insertLocal]
  split
  · next h =>
    rw [record_of_le (Nat.le_of_eq h.symm)]
    rfl
  · rfl

theorem insertLocal_congr (view : Descriptor → α) (hview : ∀ x exports, view { x with exports } = view x)
    (d : DescriptorId) (name : String) (e : DescriptorId)
    : view ((a.insertLocal d name).1.descriptor e) = view (a.descriptor e) := by
  unfold insertLocal
  apply modifyDescriptor_congr view
  intro x
  apply hview

theorem redirect_insertLocal (d : DescriptorId) (name : String) (e : DescriptorId)
    : ((a.insertLocal d name).1.descriptor e).redirect = (a.descriptor e).redirect :=
  insertLocal_congr Descriptor.redirect (fun _ _ => rfl) d name e

theorem setRedirect_fst (a : Arena) (d : DescriptorId) (target : Option DescriptorId)
    : (a.setRedirect d target).1 = a
        ∨
      (a.setRedirect d target).1 = a.modifyDescriptor d ({ · with redirect := target }) := by
  unfold setRedirect
  split
  · exact .inl rfl
  · cases target with
    | none => exact .inr rfl
    | some t =>
      dsimp only
      split
      · exact .inl rfl
      · exact .inr rfl

theorem StepBy.size_le {P : ExportRecord → ExportRecord → Prop} (h : StepBy P a a')
    : a.descriptors.size ≤ a'.descriptors.size := by
  cases h with
  | modifyRecord => apply Nat.le_refl
  | insertLocal => simp [Arena.insertLocal]
  | newDescriptor => simp [Arena.newDescriptor]
  | setRedirect d target =>
    apply Nat.le_of_eq
    rcases setRedirect_fst a d target with hsame | hnew
    · rw [hsame]
    · rw [hnew, size_modifyDescriptor]
  | createNested r =>
    unfold Arena.createNested
    split
    · apply Nat.le_refl
    · simp [Arena.modifyRecord]
  | linkNested =>
    unfold Arena.linkNested
    split <;> apply Nat.le_refl

theorem StepsBy.size_le {P : ExportRecord → ExportRecord → Prop} (h : StepsBy P a a')
    : a.descriptors.size ≤ a'.descriptors.size := by
  induction h with
  | refl => apply Nat.le_refl
  | tail _ hstep ih => exact Nat.le_trans ih hstep.size_le

end Frame

inductive Redirects (a : Arena) : DescriptorId → List DescriptorId → Prop where
  | last {d : DescriptorId} : (a.descriptor d).redirect = none → a.Redirects d [d]
  | next {d e : DescriptorId} {ds : List DescriptorId} :
      (a.descriptor d).redirect = some e → a.Redirects e ds → a.Redirects d (d :: ds)

namespace Redirects

variable {d : DescriptorId} {ds : List DescriptorId}

theorem congr (h : a.Redirects d ds)
    (hsame : ∀ e ∈ ds, (a'.descriptor e).redirect = (a.descriptor e).redirect) : a'.Redirects d ds := by
  induction h with
  | last hd =>
    apply last
    rw [hsame _ (by simp)]
    exact hd
  | next hd hds ih =>
    apply next
    · rw [hsame _ (by simp)]
      exact hd
    · apply ih
      intro e he
      exact hsame e (by simp [he])

theorem unique {es : List DescriptorId} (h : a.Redirects d ds) (h' : a.Redirects d es) : ds = es := by
  induction h generalizing es with
  | last hd =>
    cases h' with
    | last => rfl
    | next hd' =>
      rw [hd] at hd'
      contradiction
  | next hd hds ih =>
    cases h' with
    | last hd' =>
      rw [hd] at hd'
      contradiction
    | next hd' hes =>
      rw [hd] at hd'
      cases hd'
      rw [ih hes]

theorem of_mem (h : a.Redirects d ds) {e : DescriptorId} (he : e ∈ ds)
    : ∃ es, a.Redirects e es ∧ es.length ≤ ds.length := by
  induction h with
  | last hd =>
    cases List.mem_singleton.1 he
    exact ⟨_, last hd, Nat.le_refl _⟩
  | next hd hds ih =>
    cases List.mem_cons.1 he with
    | inl heq =>
      subst heq
      exact ⟨_, next hd hds, Nat.le_refl _⟩
    | inr htail =>
      obtain ⟨es, hes, hlength⟩ := ih htail
      exact ⟨es, hes, Nat.le_succ_of_le hlength⟩

theorem nodup (h : a.Redirects d ds) : ds.Nodup := by
  induction h with
  | last => apply List.nodup_singleton
  | next hd hds ih =>
    rw [List.nodup_cons]
    refine ⟨?_, ih⟩
    -- A descriptor that comes back would be redirected along two lists of different lengths.
    intro hmem
    obtain ⟨es, hes, hlength⟩ := hds.of_mem hmem
    have heq := hes.unique (next hd hds)
    rw [heq, List.length_cons] at hlength
    omega

theorem lt_size (h : (a.descriptor d).redirect.isSome) : d.index < a.descriptors.size := by
  cases Nat.lt_or_ge d.index a.descriptors.size with
  | inl hlt => exact hlt
  | inr hge =>
    unfold descriptor at h
    rw [Array.getElem?_eq_none hge] at h
    contradiction

theorem mem_dropLast_lt (h : a.Redirects d ds) : ∀ e ∈ ds.dropLast, e.index < a.descriptors.size := by
  induction h with
  | last => simp
  | next hd hds ih =>
    intro e he
    rw [List.dropLast_cons_of_ne_nil (by cases hds <;> simp)] at he
    cases List.mem_cons.1 he with
    | inl heq =>
      subst heq
      apply lt_size
      rw [hd]
      rfl
    | inr htail => exact ih e htail

theorem length_le (h : a.Redirects d ds) : ds.length ≤ a.descriptors.size + 1 := by
  have hnodup := h.nodup.sublist (List.dropLast_sublist ds)
  have := length_le_of_nodup DescriptorId.index_injective hnodup h.mem_dropLast_lt
  rw [List.length_dropLast] at this
  omega

theorem chain_go (h : a.Redirects d ds) {n : Nat} (hn : ds.length ≤ n + 1) : chain.go a n d = ds := by
  induction h generalizing n with
  | last hd =>
    cases n with
    | zero => rfl
    | succ n =>
      unfold chain.go
      rw [hd]
  | next hd hds ih =>
    cases n with
    | zero =>
      rw [List.length_cons] at hn
      cases hds <;> simp at hn
    | succ n =>
      unfold chain.go
      rw [hd]
      dsimp only
      rw [ih (by simpa using hn)]

theorem chain_eq (h : a.Redirects d ds) : a.chain d = ds := h.chain_go h.length_le

end Redirects

/--
Redirects come to an end, and descriptors that are referred to exist.
-/
structure Linked (a : Arena) : Prop where
  redirect : ∀ {d e : DescriptorId}, (a.descriptor d).redirect = some e → e.index < a.descriptors.size
  nested : ∀ {r : RecordId} {d : DescriptorId}, (a.record r).nested = some d → d.index < a.descriptors.size
  ends : ∀ d : DescriptorId, ∃ ds, a.Redirects d ds

namespace Linked

theorem empty : ({} : Arena).Linked where
  redirect := by
    intro d e h
    simp [descriptor] at h
    contradiction
  nested := by
    intro r d h
    simp [record] at h
    contradiction
  ends := fun d => ⟨[d], .last (by simp [descriptor]; rfl)⟩

theorem redirects_chain (h : a.Linked) (d : DescriptorId) : a.Redirects d (a.chain d) := by
  obtain ⟨ds, hds⟩ := h.ends d
  rw [hds.chain_eq]
  exact hds

theorem chain_congr (h : a.Linked) (hsame : ∀ d, (a'.descriptor d).redirect = (a.descriptor d).redirect)
    (d : DescriptorId) : a'.chain d = a.chain d :=
  ((h.redirects_chain d).congr fun e _ => hsame e).chain_eq

theorem lt_of_mem_chain (h : a.Linked) {d e : DescriptorId} (hd : d.index < a.descriptors.size)
    (he : e ∈ a.chain d) : e.index < a.descriptors.size := by
  have hchain := h.redirects_chain d
  generalize a.chain d = ds at hchain he
  induction hchain with
  | last =>
    cases List.mem_singleton.1 he
    exact hd
  | next hredirect hds ih =>
    cases List.mem_cons.1 he with
    | inl heq =>
      rw [heq]
      exact hd
    | inr htail => exact ih (h.redirect hredirect) htail

theorem length_chain_le (h : a.Linked) {d : DescriptorId} (hd : d.index < a.descriptors.size)
    : (a.chain d).length ≤ a.descriptors.size :=
  length_le_of_nodup DescriptorId.index_injective (h.redirects_chain d).nodup fun _ he => h.lt_of_mem_chain hd he

theorem keep (h : a.Linked) (hsize : a.descriptors.size ≤ a'.descriptors.size)
    (hredirect : ∀ d, (a'.descriptor d).redirect = (a.descriptor d).redirect)
    (hnested : ∀ r d, (a'.record r).nested = some d →
      (a.record r).nested = some d ∨ d.index < a'.descriptors.size)
    : a'.Linked where
  redirect := by
    intro d e hd
    rw [hredirect] at hd
    exact Nat.lt_of_lt_of_le (h.redirect hd) hsize
  nested := by
    intro r d hr
    cases hnested r d hr with
    | inl hold => exact Nat.lt_of_lt_of_le (h.nested hold) hsize
    | inr hlt => exact hlt
  ends := by
    intro d
    obtain ⟨ds, hds⟩ := h.ends d
    exact ⟨ds, hds.congr fun e _ => hredirect e⟩

theorem redirectTo (h : a.Linked) {d : DescriptorId} {target : Option DescriptorId}
    (hd : d.index < a.descriptors.size)
    (htarget : ∀ t ∈ target, t.index < a.descriptors.size ∧ d ∉ a.chain t)
    : (a.modifyDescriptor d ({ · with redirect := target })).Linked := by
  have hsame {e : DescriptorId} (he : e ≠ d)
      : ((a.modifyDescriptor d ({ · with redirect := target })).descriptor e).redirect
          = (a.descriptor e).redirect := by
    rw [descriptor_modifyDescriptor_of_ne _ he]
  have hnew : ((a.modifyDescriptor d ({ · with redirect := target })).descriptor d).redirect = target := by
    rw [descriptor_modifyDescriptor _ hd]
  have hstart : ∃ ds, (a.modifyDescriptor d ({ · with redirect := target })).Redirects d ds := by
    cases target with
    | none => exact ⟨[d], .last hnew⟩
    | some t =>
      refine ⟨d :: a.chain t, .next hnew ((h.redirects_chain t).congr ?_)⟩
      intro e he
      apply hsame
      intro heq
      rw [heq] at he
      exact (htarget t rfl).2 he
  constructor
  · intro e t he
    rw [size_modifyDescriptor]
    by_cases heq : e = d
    · rw [heq, hnew] at he
      exact (htarget t he).1
    · rw [hsame heq] at he
      exact h.redirect he
  · intro r e hr
    rw [size_modifyDescriptor]
    exact h.nested hr
  · intro e
    -- Up to `d` the redirects of `e` are what they were.
    obtain ⟨ds, hds⟩ := h.ends e
    induction hds with
    | @last e he =>
      by_cases heq : e = d
      · rw [heq]
        exact hstart
      · refine ⟨[e], .last ?_⟩
        rw [hsame heq]
        exact he
    | @next e e' ds he hds ih =>
      by_cases heq : e = d
      · rw [heq]
        exact hstart
      · obtain ⟨es, hes⟩ := ih
        refine ⟨e :: es, .next ?_ hes⟩
        rw [hsame heq]
        exact he

theorem setRedirect (h : a.Linked) {d : DescriptorId} {target : Option DescriptorId}
    (hd : d.index < a.descriptors.size) (htarget : ∀ t ∈ target, t.index < a.descriptors.size)
    : (a.setRedirect d target).1.Linked := by
  unfold Arena.setRedirect
  split
  · exact h
  · cases target with
    | none => exact h.redirectTo hd (by simp)
    | some t =>
      dsimp only
      split
      · exact h
      · next hchain =>
        apply h.redirectTo hd
        intro t' ht'
        cases ht'
        refine ⟨htarget t rfl, ?_⟩
        simpa using hchain

theorem modifyRecord (h : a.Linked) (r : RecordId) {f : ExportRecord → ExportRecord}
    (hf : ∀ record d, (f record).nested = some d → record.nested = some d ∨ d.index < a.descriptors.size)
    : (a.modifyRecord r f).Linked := by
  apply h.keep
  · apply Nat.le_refl
  · intro d
    rfl
  · intro s d hs
    cases record_modifyRecord a r f s with
    | inl hsame =>
      rw [hsame] at hs
      exact .inl hs
    | inr hnew =>
      rw [hnew] at hs
      exact hf _ d hs

theorem newDescriptorOf (h : a.Linked) (owner : Option RecordId) : (a.newDescriptorOf owner).1.Linked := by
  apply h.keep
  · simp
  · exact redirect_newDescriptorOf owner
  · intro r e hr
    rw [record_newDescriptorOf] at hr
    exact .inl hr

theorem createNested (h : a.Linked) (r : RecordId) : (a.createNested r).1.Linked := by
  unfold Arena.createNested
  split
  · exact h
  · dsimp only
    have hnew : (a.newDescriptorOf (some r)).2.index < (a.newDescriptorOf (some r)).1.descriptors.size := by
      rw [size_newDescriptorOf]
      apply Nat.lt_succ_self
    apply modifyRecord
    · apply redirectTo
      · exact (h.newDescriptorOf (some r)).modifyRecord _ fun _ _ hd => .inl hd
      · exact hnew
      · intro t ht
        have hlt := h.nested ht
        constructor
        · exact Nat.lt_trans hlt hnew
        · -- The redirects of `t` are old, the descriptor is new.
          intro hmem
          rw [h.chain_congr] at hmem
          · exact Nat.lt_irrefl _ (h.lt_of_mem_chain hlt hmem)
          · exact redirect_newDescriptorOf (some r)
    · intro record d hd
      cases hd
      rw [size_modifyDescriptor]
      exact .inr hnew

theorem step (h : a.Linked) (hstep : Step a a') : a'.Linked := by
  cases hstep with
  | modifyRecord r f hf =>
    apply h.modifyRecord
    intro record d hd
    rw [(hf record).nested] at hd
    exact .inl hd
  | insertLocal d name =>
    apply h.keep
    · simp [Arena.insertLocal]
    · exact redirect_insertLocal d name
    · intro r e hr
      rw [nested_insertLocal] at hr
      exact .inl hr
  | newDescriptor => exact h.newDescriptorOf none
  | setRedirect d target hd htarget => exact h.setRedirect hd htarget
  | createNested r => exact h.createNested r
  | linkNested r d hd =>
    unfold Arena.linkNested
    split
    · exact h
    · apply h.modifyRecord
      intro record e he
      cases he
      exact .inr hd

theorem steps (h : a.Linked) (hsteps : Steps a a') : a'.Linked := hsteps.keep step h

end Linked

theorem Reachable.linked (h : a.Reachable) : a.Linked := h.invariant .empty .step

end Arena
end ModuleLink
