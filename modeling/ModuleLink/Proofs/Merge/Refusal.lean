import ModuleLink.Proofs.Merge.Complete

/-!
This module contains what follows from the refusal of a member that is not imported in every runtime. The walk looks
at one importer at a time, and at each of its connections for itself, so that a member is also refused where several
connections bring it into every runtime together.
-/

namespace ModuleLink

theorem Reaches.exists_importsOver {g : Graph} {runtime : Option RuntimeSpec} {members : List Member}
    {a b : ModuleId} (h : Reaches (g.Follows runtime) members a b)
    : b == a ∨ ∃ c, g.ImportsOver members runtime b c := by
  refine h.closed (motive := fun b => b == a ∨ ∃ c, g.ImportsOver members runtime b c) ?_ ?_ (.inl BEq.rfl)
  · rintro b b' hb (hstart | ⟨c, m, hm, hc, htarget⟩)
    · exact .inl (BEq.trans (BEq.symm hb) hstart)
    · exact .inr ⟨c, m, hm, hc, BEq.trans htarget hb⟩
  · rintro m b ⟨hm, _, c, hc, htarget⟩ _
    exact .inr ⟨c, m, hm, hc, htarget⟩

namespace MergeSet

variable {g : Graph} {root t : ModuleId} {members : List Member} {runtime : Option RuntimeSpec}

theorem refuses_of_ofGraph (h : ofGraph g root members runtime = .error (.conditionalMember t))
    : Walk.Refuses g runtime members root t := by
  rcases ofGraph_run g root members runtime with ⟨e, he, hcause⟩ | ⟨m, imports, fuel, w, _, himports, hw, hrun⟩
  · rw [he] at h
    cases h
    rcases hcause with hcause | ⟨_, hcause⟩
    · cases hcause
    · cases hcause
  · rw [hrun, bind_eq_error] at h
    rcases h with hfold | ⟨w', _, hresult⟩
    · rcases hw.error himports hfold with ⟨_, hcause⟩ | ⟨_, hrefused, hrefuses⟩
      · cases hcause
      · cases hrefused
        exact hrefuses
    · split at hresult
      · cases hresult
      · cases hresult

/--
A member is refused because one that is needed in every runtime imports it over connections of which none carries
bindings in every runtime. There is then a runtime in which the member is out of reach, unless several connections lead
to it.
-/
theorem ofGraph_refused {spec : RuntimeSpec}
    (h : ofGraph g root members (some spec) = .error (.conditionalMember t))
    : IsMember members t ∧ (t == root) = false ∧
      (∃ a, IsMember members a ∧ Reaches (g.FollowsSteadily (some spec)) members root a ∧
        (∃ c, g.Follows (some spec) a c ∧ c.target == t) ∧
        ∀ c, g.Follows (some spec) a c → c.target == t → ¬c.IsSteady (some spec)) ∧
      ((∃ r ∈ spec.names, ¬Reaches (g.Follows (some (.single r))) members root t)
        ∨
      ∃ c c', c ≠ c' ∧ g.ImportsOver members (some spec) t c ∧ g.ImportsOver members (some spec) t c') := by
  have ⟨hmember, hroot, a, imports, ha, hreached, himports, i, hi, htarget, hcondition⟩ := refuses_of_ofGraph h
  subst htarget
  obtain ⟨c, hc, htarget, _⟩ := (Graph.importsOf_imports himports).connection i hi
  have hunsteady : ∀ c, g.Follows (some spec) a c → c.target == i.target → ¬c.IsSteady (some spec) := by
    intro c hc htarget hsteady
    exact hcondition ((Graph.gathered_import himports hi).always.2 ⟨c, ⟨hc, htarget⟩, hsteady⟩)
  refine ⟨hmember, hroot, ⟨a, ha, hreached, ⟨c, hc, htarget⟩, hunsteady⟩, ?_⟩
  obtain ⟨r, hr, hinactive⟩ : ∃ r ∈ spec.names, ¬c.isTargetActive (some (.single r)) := by
    refine Classical.byContradiction fun hnone => hunsteady c hc htarget ?_
    intro spec' hspec' r hr
    cases hspec'
    exact Classical.byContradiction fun hinactive => hnone ⟨r, hr, hinactive⟩
  by_cases hreaches : Reaches (g.Follows (some (.single r))) members root i.target
  · -- The path to the member ends with a connection that is active where `c` is not.
    rcases hreaches.exists_importsOver with hstart | ⟨c', b, hb, hc', htarget'⟩
    · rw [hstart] at hroot
      cases hroot
    · refine .inr ⟨c, c', ?_, ⟨a, ha, hc, htarget⟩, b, hb, hc'.mono (by simp [hr]), htarget'⟩
      rintro rfl
      exact hinactive hc'.active
  · exact .inl ⟨r, hr, hreaches⟩

end MergeSet

namespace Sample

def shared : Graph :=
  importing (importing (.ofModules [{ id := frame }, { id := panel }])
    frame panel inMain) frame panel inWorker

/--
The import of `panel` by `frame` in one runtime comes before the one of `widget`, which always needs `panel`.
-/
def hasty : Graph :=
  importing (importing (importing (.ofModules [{ id := frame }, { id := panel }, { id := widget }])
    frame panel inMain) frame widget .always) widget panel .always

def patient : Graph :=
  importing (importing (importing (.ofModules [{ id := frame }, { id := panel }, { id := widget }])
    frame widget .always) frame panel inMain) widget panel .always

theorem ofGraph_shared : MergeSet.ofGraph shared frame pair (some runtimes) = .error (.conditionalMember panel) := by
  decide +kernel

theorem reaches_shared : ∀ r ∈ runtimes.names, Reaches (shared.Follows (some (.single r))) pair frame panel := by
  intro r hr
  have hframe : IsMember pair frame := ⟨{ module := frame }, by simp [pair], by decide⟩
  have hpanel : IsMember pair panel := ⟨{ module := panel }, by simp [pair], by decide⟩
  have hr : r = "main" ∨ r = "worker" := by simpa [runtimes] using hr
  rcases hr with rfl | rfl
  · refine Reaches.tail .refl ⟨hframe, hpanel, _, ⟨⟨_, rfl, List.mem_cons_self⟩, rfl, ?_, ?_⟩, BEq.rfl⟩
    · decide +kernel
    · decide +kernel
  · refine Reaches.tail .refl
      ⟨hframe, hpanel, _, ⟨⟨_, rfl, List.mem_cons_of_mem _ List.mem_cons_self⟩, rfl, ?_, ?_⟩, BEq.rfl⟩
    · decide +kernel
    · decide +kernel

end Sample

theorem MergeSet.ofGraph_refused_sample
    : ofGraph Sample.shared Sample.frame Sample.pair (some Sample.runtimes) = .error (.conditionalMember Sample.panel) ∧
      IsMember Sample.pair Sample.panel ∧
      ∃ c c', c ≠ c' ∧ Sample.shared.ImportsOver Sample.pair (some Sample.runtimes) Sample.panel c ∧
        Sample.shared.ImportsOver Sample.pair (some Sample.runtimes) Sample.panel c' := by
  have ⟨hmember, _, _, hreason⟩ := ofGraph_refused Sample.ofGraph_shared
  refine ⟨Sample.ofGraph_shared, hmember, hreason.resolve_left ?_⟩
  rintro ⟨r, hr, hunreached⟩
  exact hunreached (Sample.reaches_shared r hr)

/--
A member that is imported in every runtime is refused, and another is refused in one order of the imports only.
-/
theorem MergeSet.ofGraph_refuses_imported
    : ofGraph Sample.shared Sample.frame Sample.pair (some Sample.runtimes) = .error (.conditionalMember Sample.panel) ∧
      (∀ r ∈ Sample.runtimes.names,
        Reaches (Sample.shared.Follows (some (.single r))) Sample.pair Sample.frame Sample.panel) ∧
      ofGraph Sample.hasty Sample.frame Sample.parts (some Sample.runtimes)
        =
      .error (.conditionalMember Sample.panel) ∧
      ofGraph Sample.patient Sample.frame Sample.parts (some Sample.runtimes)
        =
      .ok (Sample.assembled [.concatenated { module := Sample.panel }, .concatenated { module := Sample.widget },
        .concatenated { module := Sample.frame }]) := by
  refine ⟨Sample.ofGraph_shared, Sample.reaches_shared, ?_, ?_⟩
  · decide +kernel
  · decide +kernel

end ModuleLink
