import ModuleLink.Proofs.Merge.Complete

/-!
This module contains the proof that the entries of a merge set are in an order in which the modules can be
evaluated: a module stands after those that it imports, except for members that lead back to it.
-/

namespace ModuleLink
namespace MergeSet

variable {g : Graph} {root : ModuleId} {members : List Member} {runtime : Option RuntimeSpec} {s : MergeSet}

def Acyclic (g : Graph) (members : List Member) (runtime : Option RuntimeSpec) : Prop :=
  ∀ a b, Leads (g.Follows runtime) members a b → ¬Reaches (g.Follows runtime) members b a

theorem precedes_of_follows (h : ofGraph g root members runtime = .ok s) {a : ModuleId} (ha : IsMember members a)
    {c : Connection} (hc : g.Follows runtime a c)
    : MergeEntry.Precedes s.entries c.target a
        ∨
      IsMember members c.target ∧ Reaches (g.Follows runtime) members c.target a := by
  rcases ofGraph_cases g root members runtime with ⟨e, he, _⟩ | ⟨_, w, _, hw, hresult⟩
  · rw [he] at h
    cases h
  · rw [hresult] at h
    split at h
    next hempty =>
      cases h
      obtain ⟨m, hm, hmodule⟩ := hw.concatenated_of_entered (hw.entered_of_isEmpty hempty ha)
      rcases hw.order m hm c (hc.congr (BEq.symm hmodule)) with hprecedes | ⟨hentered, hreaches⟩
      · exact .inl (hprecedes.congr_right hmodule)
      · exact .inr ⟨(hw.known _).2 (.inr hentered), hreaches.trans (.of_beq hmodule)⟩
    · cases h

/--
External modules stand before the members that import them, and so do members that do not lead back. If no member leads
back, the entries are in topological order.
-/
theorem ofGraph_ordered (h : ofGraph g root members runtime = .ok s)
    : (∀ a c, IsMember members a → g.Follows runtime a c →
        (¬IsMember members c.target → MergeEntry.Precedes s.entries c.target a) ∧
        (¬Reaches (g.Follows runtime) members c.target a → MergeEntry.Precedes s.entries c.target a))
        ∧
      (Acyclic g members runtime → ∀ a c, IsMember members a → g.Follows runtime a c →
        MergeEntry.Precedes s.entries c.target a) := by
  refine ⟨fun a c ha hc => ⟨fun htarget => ?_, fun hback => ?_⟩, fun hacyclic a c ha hc => ?_⟩
  · exact (precedes_of_follows h ha hc).resolve_right fun ⟨htarget', _⟩ => htarget htarget'
  · exact (precedes_of_follows h ha hc).resolve_right fun ⟨_, hback'⟩ => hback hback'
  · refine (precedes_of_follows h ha hc).resolve_right fun ⟨htarget, hback⟩ => ?_
    exact hacyclic a c.target ⟨ha, htarget, c, hc, BEq.rfl⟩ hback

end MergeSet

namespace Sample

theorem not_isMember_icon : ¬IsMember parts icon := by
  rintro ⟨m, hm, hicon⟩
  have hnone : parts.all fun m => !(m.module == icon) := by decide +kernel
  have hm := List.all_eq_true.1 hnone m hm
  rw [hicon] at hm
  cases hm

theorem not_leads_widget {a b : ModuleId} (ha : a == widget)
    : ¬Leads (bundle.Follows (some runtimes)) parts a b := by
  rintro ⟨_, hb, c, hc, hcb⟩
  obtain ⟨cs, hcs, hmem⟩ := (hc.congr ha).outgoing
  have htargets : (bundle.outgoing widget).map (·.map (·.target)) = .ok [icon] := by decide +kernel
  rw [hcs] at htargets
  have hcs : cs.map (·.target) = [icon] := Except.ok.inj htargets
  have htarget : c.target ∈ [icon] := hcs ▸ List.mem_map_of_mem hmem
  rw [List.mem_singleton.1 htarget] at hcb
  exact not_isMember_icon (hb.congr (BEq.symm hcb))

end Sample

theorem MergeSet.ofGraph_ordered_sample
    : ofGraph Sample.bundle Sample.frame Sample.parts (some Sample.runtimes) = .ok Sample.merged ∧
      MergeEntry.Precedes Sample.merged.entries Sample.icon Sample.widget ∧
      MergeEntry.Precedes Sample.merged.entries Sample.widget Sample.panel := by
  have hordered := (ofGraph_ordered Sample.ofGraph_bundle).1
  have hwidget : IsMember Sample.parts Sample.widget :=
    ⟨{ module := Sample.widget }, by simp [Sample.parts], by decide⟩
  have hpanel : IsMember Sample.parts Sample.panel :=
    ⟨{ module := Sample.panel }, by simp [Sample.parts], by decide⟩
  have ⟨hicon, _⟩ := hordered Sample.widget _ hwidget
    ⟨⟨_, rfl, List.mem_cons_self⟩, rfl, by decide +kernel, by decide +kernel⟩
  have ⟨_, hback⟩ := hordered Sample.panel _ hpanel
    ⟨⟨_, rfl, List.mem_cons_of_mem _ List.mem_cons_self⟩, rfl, by decide +kernel, by decide +kernel⟩
  refine ⟨Sample.ofGraph_bundle, hicon Sample.not_isMember_icon, hback fun hreaches => ?_⟩
  have hsame := hreaches.closed (motive := fun id => id == Sample.widget)
    (fun a b hab ha => BEq.trans (BEq.symm hab) ha)
    (fun a b hab ha => absurd hab (Sample.not_leads_widget ha)) (by decide)
  exact absurd hsame (by decide)

end ModuleLink
