import ModuleLink.Proofs.Binding.Termination
import ModuleLink.Proofs.Binding.Unguarded
import ModuleLink.Proofs.Graph.Edges

/-!
This module compares resolution with resolution without its guards. Both agree wherever the guards do not stop a
request that would be resolved. A guard knows the name that was looked up but not the path behind it, so that the same
lookup is taken for a circle even if it is made with less of the path left.
-/

namespace ModuleLink
namespace Linker

variable {l : Linker} {site : ReferenceSite} {hop hop' next start : NextHop} {x y : Lookup} {r : Resolution}

theorem shapeStep_cons {shape : ExportShape} {id : ModuleId} {first : String} {tail path : List String}
    {deferred : Bool} (h : l.shapeStep shape id (first :: tail) deferred site = .lookup path)
    : (path = first :: tail ∧
        ∀ tail' deferred', l.shapeStep shape id (first :: tail') deferred' site = .lookup (first :: tail')) ∨
      (path = tail ∧ ∀ tail' deferred', l.shapeStep shape id (first :: tail') deferred' site = .lookup tail') := by
  cases shape with
  | namespaceOnly =>
    cases h
    exact .inl ⟨rfl, fun _ _ => rfl⟩
  | defaultOnly =>
    unfold shapeStep at h ⊢
    dsimp only at h ⊢
    split at h
    · cases h
    · next hflag =>
      split at h
      · next hdefault =>
        cases h
        exact .inr ⟨rfl, fun _ _ => by rw [if_neg hflag, if_pos hdefault]⟩
      · cases h
  | defaultWithNamed =>
    unfold shapeStep at h ⊢
    dsimp only at h ⊢
    split at h
    · next hdefault =>
      cases h
      exact .inr ⟨rfl, fun _ _ => if_pos hdefault⟩
    · next hdefault =>
      split at h
      · cases h
      · next hflag =>
        cases h
        exact .inl ⟨rfl, fun _ _ => by rw [if_neg hdefault, if_neg hflag]⟩
  | dynamic =>
    unfold shapeStep at h ⊢
    dsimp only at h ⊢
    split at h
    · cases h
    · next hdefault =>
      split at h
      · cases h
      · next hflag =>
        cases h
        exact .inl ⟨rfl, fun _ _ => by rw [if_neg hdefault, if_neg hflag]⟩

structure Rebased (base base' : List String) (hop hop' : NextHop) : Prop where
  module : hop'.module = hop.module
  strict : hop'.strict = hop.strict
  path : ∃ top, hop.path = top ++ base ∧ hop'.path = top ++ base'

theorem Rebased.locate {base base' : List String} (h : Rebased base base' hop hop')
    (hx : l.locate site hop = .inr x) (hbase : base.length ≤ x.rest.length)
    : ∃ rest, x.rest = rest ++ base ∧ l.locate site hop' = .inr { x with rest := rest ++ base' } := by
  obtain ⟨hentry, hd, shape, hshape, hstep⟩ := locate_eq_inr.1 hx
  obtain ⟨top, htop, htop'⟩ := h.path
  rw [htop] at hstep
  suffices hrest : ∃ rest, x.rest = rest ++ base ∧
      l.shapeStep shape hop.module (top ++ base') hop'.deferred site = .lookup (x.name :: (rest ++ base')) by
    obtain ⟨rest, hrest, hstep'⟩ := hrest
    refine ⟨rest, hrest, locate_eq_inr.2 ?_⟩
    rw [h.module, h.strict, htop']
    exact ⟨hentry, hd, shape, hshape, hstep'⟩
  cases top with
  | nil =>
    have hlength := (shapeStep_suffix hstep).length_le
    rw [List.nil_append, List.length_cons] at hlength
    omega
  | cons first top =>
    rw [List.cons_append] at hstep ⊢
    rcases shapeStep_cons hstep with ⟨hpath, hstep'⟩ | ⟨hpath, hstep'⟩
    · obtain ⟨hname, hrest⟩ := List.cons.inj hpath
      rw [hname]
      exact ⟨top, hrest, hstep' _ _⟩
    · cases top with
      | nil =>
        have hlength := congrArg List.length hpath
        rw [List.nil_append, List.length_cons] at hlength
        omega
      | cons name top =>
        obtain ⟨hname, hrest⟩ := List.cons.inj hpath
        rw [hname]
        exact ⟨top, hrest, hstep' _ _⟩

theorem Proceeds.again (h : l.Proceeds site hop x next) (hg : l.graph.Reachable) (hy : l.locate site hop' = .inr y)
    (hkey : y.key = x.key)
    : ∃ next', l.Proceeds site hop' y next' ∧ Rebased x.rest y.rest next next' := by
  obtain ⟨m, target, hm, hseeks, hnext⟩ := h.target
  obtain ⟨hentry, hprovided, hexports, hraw⟩ := direct_eq_inr.1 hm
  obtain ⟨found, module, htarget, hmodule, hnext⟩ := reexport_eq_inr.1 hnext
  obtain ⟨hx, hxd, -⟩ := locate_eq_inr.1 h.located
  obtain ⟨hy', hyd, -⟩ := locate_eq_inr.1 hy
  obtain ⟨hdescriptor, hname⟩ := Prod.mk.inj hkey
  rw [← hdescriptor] at hxd
  have hid := hg.descriptorOf_injective hxd hyd
  have hentry' : y.entry = x.entry := by
    rw [← EntryTable.get?_congr hid, hx] at hy'
    exact (Option.some.inj hy').symm
  have hnext' := (reexport_eq_inr (x := y) (m := m)).2 ⟨found, module, htarget, Graph.module_congr hid hmodule, rfl⟩
  refine ⟨_, ⟨hy, m, target, ?_, ?_, hnext'⟩, ?_⟩
  · refine direct_eq_inr.2 ⟨hentry'.trans hentry, ?_⟩
    rw [hdescriptor, hname]
    exact ⟨hprovided, hexports, hraw⟩
  · unfold Seeks
    rw [hdescriptor, hname]
    exact hseeks
  · rw [hnext]
    exact ⟨rfl, rfl, _, rfl, rfl⟩

theorem Proceeds.rebase (h : l.Proceeds site hop x next) (hg : l.graph.Reachable) {base base' : List String}
    (hbased : Rebased base base' hop hop') (hbase : base.length ≤ x.rest.length)
    : ∃ x' next', l.Proceeds site hop' x' next' ∧ Rebased base base' next next' := by
  obtain ⟨rest, hrest, hlocated⟩ := hbased.locate h.located hbase
  obtain ⟨next', hnext', hmodule, hstrict, top, htop, htop'⟩ := h.again hg hlocated rfl
  refine ⟨_, next', hnext', hmodule, hstrict, top ++ rest, ?_, ?_⟩
  · rw [htop, hrest, List.append_assoc]
  · rw [htop', List.append_assoc]

/--
A hop that differs from one on the way to `last` in the end of the path only. On that way the end is `base`, and it is
left untouched.
-/
def OnRound (l : Linker) (site : ReferenceSite) (base : List String) (last hop : NextHop) : Prop :=
  ∃ hop' zs base', l.Passes site hop' zs last ∧ (∀ z ∈ zs, base.length ≤ z.rest.length) ∧ Rebased base base' hop' hop

theorem not_reaches_of_repeat (hg : l.graph.Reachable) {between : List Lookup}
    (hx : l.Proceeds site hop x next) (hbetween : l.Passes site next between hop') (hy : l.locate site hop' = .inr y)
    (hkey : y.key = x.key) (hrest : ∀ z ∈ between ++ [y], x.rest.length ≤ z.rest.length) (r : Resolution)
    : ¬ l.Reaches site next r := by
  -- What is put before the path that is left untouched may grow, but is taken off in the same way again and again.
  obtain ⟨hrest, hresty⟩ := List.forall_mem_append.1 hrest
  intro hreaches
  refine hreaches.not_of_closed (P := l.OnRound site x.rest hop') ?_ ?_
  · rintro hop₁ ⟨hop₂, zs, base, hpasses, hzs, hbased⟩
    cases hpasses with
    | nil =>
      -- The round is complete, and the path behind the lookup is the new end.
      obtain ⟨rest, -, hlocated⟩ := hbased.locate hy (hresty y List.mem_cons_self)
      obtain ⟨next', hnext', hbased'⟩ := hx.again hg hlocated hkey
      exact ⟨_, next', hnext', next, between, _, hbetween, hrest, hbased'⟩
    | @cons _ mid _ z zs hz hpasses =>
      obtain ⟨hlength, hzs⟩ := List.forall_mem_cons.1 hzs
      obtain ⟨z', next', hnext', hbased'⟩ := hz.rebase hg hbased hlength
      exact ⟨z', next', hnext', mid, zs, base, hpasses, hzs, hbased'⟩
  · obtain ⟨next', hnext', hbased⟩ := hx.again hg hx.located rfl
    cases (hx.unique hnext').2
    exact ⟨next, between, x.rest, hbetween, hrest, hbased⟩

def Consumes (l : Linker) (site : ReferenceSite) (start : NextHop) : Prop :=
  ∃ before x between hop y, l.Passes site start (before ++ x :: between) hop ∧ l.locate site hop = .inr y ∧
    y.key = x.key ∧ ∃ z ∈ between ++ [y], z.rest.length < x.rest.length

def Forwards (l : Linker) (site : ReferenceSite) (start : NextHop) : Prop :=
  ∃ xs hop x m, l.Passes site start xs hop ∧ l.locate site hop = .inr x ∧ l.direct hop x = .inr m ∧
    l.graph.Forwards l.set.contains (l.graph.exports.lookup x.descriptor x.name, x.name)

variable {visited trail : List (DescriptorId × String)} {m : Member}

theorem isCircular_marker (id : ModuleId) (path : List String) (deferred : Bool)
    : IsCircular (marker id circularReexport [] path deferred) :=
  ⟨_, rfl, rfl, rfl⟩

theorem findTarget_finds (hx : l.locate site hop = .inr x)
    : l.graph.Finds l.set.contains [] (l.graph.exports.lookup x.descriptor x.name) x.name
        (l.graph.findTarget hop.module x.name l.set.contains) :=
  l.graph.findTarget_finds (locate_eq_inr.1 hx).2.1 x.name l.set.contains

theorem advance_of_visited (hx : l.locate site hop = .inr x) (hvisited : x.key ∈ visited)
    : ∃ r, l.advance site visited hop = .inl r ∧ IsCircular r := by
  rw [advance_eq, hx, Sum.elim_inr, if_pos (List.contains_iff_mem.2 hvisited)]
  exact ⟨_, rfl, isCircular_marker ..⟩

theorem advance_of_circular (hx : l.locate site hop = .inr x) (hm : l.direct hop x = .inr m)
    (htarget : l.graph.findTarget hop.module x.name l.set.contains = .ok .circular)
    : ∃ r, l.advance site visited hop = .inl r ∧ IsCircular r := by
  by_cases hvisited : x.key ∈ visited
  · exact advance_of_visited hx hvisited
  · rw [advance_eq, hx, Sum.elim_inr, if_neg (mt List.contains_iff_mem.1 hvisited), hm, Sum.elim_inr, htarget]
    exact ⟨_, rfl, isCircular_marker ..⟩

/--
What an advance comes to: the guards let a hop pass, or one of them stops it.
-/
inductive Advances (l : Linker) (site : ReferenceSite) (visited : List (DescriptorId × String)) (hop : NextHop) :
    Resolution ⊕ (DescriptorId × String) × NextHop → Prop where
  | ends {r : Resolution} : l.Ends site hop r → Advances l site visited hop (.inl r)
  | proceeds {x : Lookup} {next : NextHop} :
      l.Proceeds site hop x next → Advances l site visited hop (.inr (x.key, next))
  | visited {x : Lookup} {r : Resolution} : l.locate site hop = .inr x → x.key ∈ visited → IsCircular r →
      Advances l site visited hop (.inl r)
  | circular {x : Lookup} {m : Member} {r : Resolution} : l.locate site hop = .inr x → l.direct hop x = .inr m →
      l.graph.findTarget hop.module x.name l.set.contains = .ok .circular → IsCircular r →
      Advances l site visited hop (.inl r)

theorem advance_advances (l : Linker) (site : ReferenceSite) (visited : List (DescriptorId × String)) (hop : NextHop)
    : l.Advances site visited hop (l.advance site visited hop) := by
  rw [advance_eq]
  cases hx : l.locate site hop with
  | inl r => exact .ends (.located hx)
  | inr x =>
    rw [Sum.elim_inr]
    split
    · next hvisited => exact .visited hx (List.contains_iff_mem.1 hvisited) (isCircular_marker ..)
    · cases hm : l.direct hop x with
      | inl r => exact .ends (.direct hx hm)
      | inr m =>
        rw [Sum.elim_inr]
        by_cases htarget : l.graph.findTarget hop.module x.name l.set.contains = .ok .circular
        · rw [htarget]
          exact .circular hx hm htarget (isCircular_marker ..)
        · have hseeks := (findTarget_finds hx).seeks htarget
          cases hreexport : l.reexport hop x m (l.graph.findTarget hop.module x.name l.set.contains) with
          | inl r => exact .ends (.reexport hx hm hseeks hreexport)
          | inr next => exact .proceeds ⟨hx, m, _, hm, hseeks, hreexport⟩

theorem Proceeds.advance (h : l.Proceeds site hop x next) (visited : List (DescriptorId × String))
    : (∃ r, l.advance site visited hop = .inl r ∧ IsCircular r) ∨
        l.advance site visited hop = .inr (x.key, next) := by
  have hcases := l.advance_advances site visited hop
  generalize l.advance site visited hop = step at hcases ⊢
  cases hcases with
  | ends hends => exact absurd hends h.not_ends
  | proceeds hnext =>
    obtain ⟨rfl, rfl⟩ := h.unique hnext
    exact .inr rfl
  | visited _ _ hcircular => exact .inl ⟨_, rfl, hcircular⟩
  | circular _ _ _ hcircular => exact .inl ⟨_, rfl, hcircular⟩

theorem Resolves.isCircular (h : l.Resolves site visited hop trail r)
    (hstopped : ∃ r, l.advance site visited hop = .inl r ∧ IsCircular r) : IsCircular r := by
  obtain ⟨r', hr', hcircular⟩ := hstopped
  cases h with
  | done hadvance =>
    cases hadvance.symm.trans hr'
    exact hcircular
  | hop hadvance => cases hadvance.symm.trans hr'

theorem Passes.resolves {xs : List Lookup} (h : l.Passes site hop xs hop')
    (hresolves : l.Resolves site visited hop trail r)
    : IsCircular r ∨ ∃ trail', l.Resolves site ((xs.map Lookup.key).reverse ++ visited) hop' trail' r := by
  induction h generalizing visited trail with
  | nil => exact .inr ⟨trail, hresolves⟩
  | @cons hop mid hop' x xs hnext _ ih =>
    rcases hnext.advance visited with hstopped | hnext
    · exact .inl (hresolves.isCircular hstopped)
    · cases hresolves with
      | done hadvance => cases hadvance.symm.trans hnext
      | hop hadvance hrest =>
        cases hadvance.symm.trans hnext
        rw [List.map_cons, List.reverse_cons, List.append_assoc]
        exact ih hrest

theorem Consumes.isCircular (h : l.Consumes site start) (hresolves : l.Resolves site [] start trail r)
    : IsCircular r := by
  obtain ⟨before, x, between, hop, y, hpasses, hy, hkey, -⟩ := h
  rcases hpasses.resolves hresolves with hcircular | ⟨trail', hresolves'⟩
  · exact hcircular
  · apply hresolves'.isCircular
    apply advance_of_visited hy
    rw [hkey]
    simp

theorem Forwards.isCircular (h : l.Forwards site start) (hresolves : l.Resolves site [] start trail r)
    : IsCircular r := by
  obtain ⟨xs, hop, x, m, hpasses, hx, hm, record, name, name', hsteps, hcircle, -⟩ := h
  rcases hpasses.resolves hresolves with hcircular | ⟨trail', hresolves'⟩
  · exact hcircular
  · apply hresolves'.isCircular
    exact advance_of_circular hx hm ((findTarget_finds hx).eq_circular hsteps hcircle)

theorem not_reaches_or_consumes (hg : l.graph.Reachable) {xs : List Lookup} (hpasses : l.Passes site start xs hop)
    (hx : l.locate site hop = .inr x) (hseen : x.key ∈ xs.map Lookup.key)
    : (∀ r, ¬ l.Reaches site start r) ∨ l.Consumes site start := by
  obtain ⟨x', hx', hkey⟩ := List.mem_map.1 hseen
  obtain ⟨before, between, rfl⟩ := List.append_of_mem hx'
  by_cases hrest : ∀ z ∈ between ++ [x], x'.rest.length ≤ z.rest.length
  · obtain ⟨mid, next, hbefore, hnext, hbetween⟩ := hpasses.split
    left
    intro r hreaches
    exact not_reaches_of_repeat hg hnext hbetween hx hkey.symm hrest r ((hbefore.concat hnext).after hreaches)
  · simp only [not_forall, exists_prop, Nat.not_le] at hrest
    exact .inr ⟨before, x', between, hop, x, hpasses, hx, hkey.symm, hrest⟩

theorem not_reaches_or_forwards {xs : List Lookup} (hpasses : l.Passes site start xs hop)
    (hx : l.locate site hop = .inr x) (hm : l.direct hop x = .inr m)
    (htarget : l.graph.findTarget hop.module x.name l.set.contains = .ok .circular)
    : (∀ r, ¬ l.Reaches site start r) ∨ l.Forwards site start := by
  rcases (findTarget_finds hx).circular_cases htarget .refl (by simp) with hnone | hforwards
  · left
    intro r hreaches
    cases hpasses.after hreaches with
    | ends hends =>
      cases hends with
      | located hlocated => cases hlocated.symm.trans hx
      | direct hlocated hdirect =>
        cases hlocated.symm.trans hx
        cases hdirect.symm.trans hm
      | reexport hlocated _ hseeks =>
        cases hlocated.symm.trans hx
        exact hnone _ hseeks
    | next hnext =>
      cases hnext.located.symm.trans hx
      obtain ⟨_, _, -, hseeks, -⟩ := hnext.target
      exact hnone _ hseeks
  · exact .inr ⟨xs, hop, x, m, hpasses, hx, hm, hforwards⟩

theorem Resolves.reaches (hg : l.graph.Reachable) (h : l.Resolves site visited hop trail r) {xs : List Lookup}
    (hpasses : l.Passes site start xs hop) (hvisited : visited ⊆ xs.map Lookup.key)
    : l.Reaches site hop r ∨
        IsCircular r ∧ ((∀ r, ¬ l.Reaches site start r) ∨ l.Consumes site start ∨ l.Forwards site start) := by
  induction h generalizing xs with
  | @done visited hop r hadvance =>
    have hcases := l.advance_advances site visited hop
    rw [hadvance] at hcases
    cases hcases with
    | ends hends => exact .inl (.ends hends)
    | visited hx hseen hcircular =>
      refine .inr ⟨hcircular, ?_⟩
      rcases not_reaches_or_consumes hg hpasses hx (hvisited hseen) with hnone | hconsumes
      · exact .inl hnone
      · exact .inr (.inl hconsumes)
    | circular hx hm htarget hcircular =>
      refine .inr ⟨hcircular, ?_⟩
      rcases not_reaches_or_forwards hpasses hx hm htarget with hnone | hforwards
      · exact .inl hnone
      · exact .inr (.inr hforwards)
  | @hop visited _ hop next seen _ hadvance _ ih =>
    have hcases := l.advance_advances site visited hop
    rw [hadvance] at hcases
    cases hcases with
    | @proceeds x _ hnext =>
      have hvisited' : x.key :: visited ⊆ (xs ++ [x]).map Lookup.key := by
        rw [List.map_append, List.cons_subset]
        exact ⟨by simp, fun k hk => List.mem_append_left _ (hvisited hk)⟩
      rcases ih (hpasses.concat hnext) hvisited' with hreaches | hstopped
      · exact .inl (.next hnext hreaches)
      · exact .inr hstopped

def NextHop.first (id : ModuleId) (path : List String) (site : ReferenceSite) : NextHop :=
  ⟨id, path, site.strict, site.deferred⟩

/--
A request that would be resolved without guards is resolved in the same way, unless a lookup is made again with less of
the path behind it, or a search passes on different names through one record. Such a request is taken for a circle, as
are all those that would go on for ever.
-/
theorem resolve_unguarded (l : Linker) (hg : l.graph.Reachable) (id : ModuleId) (path : List String)
    (site : ReferenceSite)
    : (∀ r, l.Reaches site (.first id path site) r →
        ¬ l.Consumes site (.first id path site) → ¬ l.Forwards site (.first id path site) → l.resolve id path site = r)
        ∧
      (l.Consumes site (.first id path site) ∨ l.Forwards site (.first id path site) →
        IsCircular (l.resolve id path site))
        ∧
      ((∀ r, ¬ l.Reaches site (.first id path site) r) → IsCircular (l.resolve id path site)) := by
  obtain ⟨trail, hresolves, -, -⟩ := resolve_resolves hg.sound id path site
  have hcases := hresolves.reaches hg (.nil (.first id path site)) (List.nil_subset _)
  refine ⟨?_, ?_, ?_⟩
  · intro r hreaches hconsumes hforwards
    rcases hcases with hreaches' | ⟨-, hnone | hstopped⟩
    · exact hreaches'.unique hreaches
    · exact absurd hreaches (hnone r)
    · exact absurd hstopped (not_or.2 ⟨hconsumes, hforwards⟩)
  · rintro (hconsumes | hforwards)
    · exact hconsumes.isCircular hresolves
    · exact hforwards.isCircular hresolves
  · intro hnone
    rcases hcases with hreaches | ⟨hcircular, -⟩
    · exact absurd hreaches (hnone _)
    · exact hcircular

end Linker

namespace Sample

def gallery : ModuleId := ⟨"./gallery"⟩

/--
A module that exports itself under the name `self`, and under the name `loop` what it exports under that name.
-/
def mirrors : List GraphOp := [
  .addModule { id := gallery, buildMeta := { exportsType := some .namespaced } },
  .addDependency (some gallery) { request := "./gallery" }, .connect (some gallery) ⟨0⟩ gallery,
  .setExportTarget gallery "self" ⟨0⟩ none 0, .setExportTarget gallery "loop" ⟨0⟩ (some ["loop"]) 0]

def galleryMember : Member := { module := gallery, exports := .ofList [("x", "x")] }

def galleryLinker : Linker where
  graph := mirrors.foldl GraphOp.apply {}
  set := ⟨.ofFirst [.concatenated galleryMember], gallery, none⟩
  names := {}

theorem gallery_reachable : galleryLinker.graph.Reachable := by
  simp only [galleryLinker, mirrors, List.foldl_cons, List.foldl_nil]
  iterate 5 refine .step _ ?_ trivial
  exact .empty

def inGallery (path : List String) : Linker.NextHop := .first gallery path {}

def inGalleryLookup (name : String) (rest : List String) : Linker.Lookup :=
  ⟨.concatenated galleryMember, ⟨0⟩, name, rest⟩

theorem gallery_entry : galleryLinker.set.get? gallery = some (.concatenated galleryMember) := by
  decide +kernel

theorem gallery_module : galleryLinker.graph.module gallery
    = .ok { id := gallery, buildMeta := { exportsType := some .namespaced } } := by
  decide +kernel

theorem gallery_shape : galleryLinker.graph.shape gallery false = .ok .namespaceOnly := by
  decide +kernel

theorem gallery_descriptor : galleryLinker.graph.descriptorOf gallery = .ok ⟨0⟩ := by
  decide +kernel

theorem gallery_located (name : String) (rest : List String)
    : galleryLinker.locate {} (inGallery (name :: rest)) = .inr (inGalleryLookup name rest) :=
  Linker.locate_eq_inr.2 ⟨gallery_entry, gallery_descriptor, .namespaceOnly, gallery_shape, rfl⟩

theorem gallery_proceeds (name : String) (path : Option (List String)) (rest : List String)
    (hprovided : (galleryLinker.graph.exports.record
      (galleryLinker.graph.exports.lookup ⟨0⟩ name)).provided ≠ .notProvided)
    (hexports : galleryMember.exports.get? name = none)
    (hhop : galleryLinker.graph.hop? (galleryLinker.graph.exports.lookup ⟨0⟩ name) name = some ⟨gallery, path, false⟩)
    : galleryLinker.Proceeds {} (inGallery (name :: rest)) (inGalleryLookup name rest)
        (inGallery (path.getD [] ++ rest)) where
  located := gallery_located name rest
  target := by
    have haccept := EntryTable.contains_of_get? gallery_entry
    exact ⟨galleryMember, _, Linker.direct_eq_inr.2 ⟨rfl, hprovided, hexports, rfl⟩, .found hhop haccept,
      Linker.reexport_eq_inr.2 ⟨_, _, rfl, gallery_module, rfl⟩⟩

theorem gallery_self (rest : List String)
    : galleryLinker.Proceeds {} (inGallery ("self" :: rest)) (inGalleryLookup "self" rest) (inGallery rest) :=
  gallery_proceeds "self" none rest (by decide +kernel) (by decide +kernel) (by decide +kernel)

theorem gallery_loop (rest : List String)
    : galleryLinker.Proceeds {} (inGallery ("loop" :: rest)) (inGalleryLookup "loop" rest)
        (inGallery ("loop" :: rest)) :=
  gallery_proceeds "loop" (some ["loop"]) rest (by decide +kernel) (by decide +kernel) (by decide +kernel)

def galleryBinding : Binding := { module := gallery, base := .symbol "x", ids := [], path := ["x"], deferred := false }

theorem gallery_ends : galleryLinker.Ends {} (inGallery ["x"]) { result := .ok galleryBinding } := by
  apply Linker.Ends.direct (gallery_located "x" [])
  rfl

theorem gallery_passes {xs : List Linker.Lookup} {hop : Linker.NextHop}
    (h : galleryLinker.Passes {} (inGallery ["self", "x"]) xs hop)
    : (xs = [] ∧ hop = inGallery ["self", "x"]) ∨ (xs = [inGalleryLookup "self" ["x"]] ∧ hop = inGallery ["x"]) := by
  cases h with
  | nil => exact .inl ⟨rfl, rfl⟩
  | cons hnext hrest =>
    obtain ⟨rfl, rfl⟩ := hnext.unique (gallery_self ["x"])
    cases hrest with
    | nil => exact .inr ⟨rfl, rfl⟩
    | cons hnext' => exact absurd gallery_ends hnext'.not_ends

theorem gallery_not_consumes : ¬ galleryLinker.Consumes {} (inGallery ["self", "x"]) := by
  rintro ⟨before, x, between, hop, y, hpasses, hy, hkey, -⟩
  rcases gallery_passes hpasses with ⟨hxs, -⟩ | ⟨hxs, rfl⟩
  · simp at hxs
  · rw [gallery_located] at hy
    cases hy
    cases before with
    | nil =>
      cases hxs
      exact absurd hkey (by decide)
    | cons => simp at hxs

theorem gallery_not_forwards : ¬ galleryLinker.Forwards {} (inGallery ["self", "x"]) := by
  rintro ⟨xs, hop, x, m, hpasses, hx, -, record, name, name', hsteps, hcircle, -⟩
  have hcircular := (Linker.findTarget_finds hx).eq_circular hsteps hcircle
  rcases gallery_passes hpasses with ⟨-, rfl⟩ | ⟨-, rfl⟩
  · rw [gallery_located] at hx
    cases hx
    exact absurd hcircular (by decide +kernel)
  · rw [gallery_located] at hx
    cases hx
    exact absurd hcircular (by decide +kernel)

theorem gallery_consumes (rest : List String) : galleryLinker.Consumes {} (inGallery ("self" :: "self" :: rest)) := by
  refine ⟨[], inGalleryLookup "self" ("self" :: rest), [], inGallery ("self" :: rest), inGalleryLookup "self" rest,
    .cons (gallery_self _) (.nil _), gallery_located _ _, rfl, inGalleryLookup "self" rest, by simp, ?_⟩
  exact Nat.lt_succ_self rest.length

theorem gallery_endless (rest : List String) (r : Resolution)
    : ¬ galleryLinker.Reaches {} (inGallery ("loop" :: rest)) r := by
  intro h
  refine h.not_of_closed (P := fun hop => hop = inGallery ("loop" :: rest)) ?_ rfl
  rintro _ rfl
  exact ⟨_, _, gallery_loop rest, rfl⟩

end Sample

namespace Linker

open Sample

theorem resolve_unguarded_sample
    : galleryLinker.graph.Reachable
        ∧
      galleryLinker.resolve gallery ["self", "x"] {} = { result := .ok galleryBinding }
        ∧
      IsCircular (galleryLinker.resolve gallery ["self", "self", "x"] {})
        ∧
      IsCircular (galleryLinker.resolve gallery ["loop", "x"] {}) := by
  obtain ⟨hreaches, -, -⟩ := resolve_unguarded galleryLinker gallery_reachable gallery ["self", "x"] {}
  obtain ⟨-, hconsumes, -⟩ := resolve_unguarded galleryLinker gallery_reachable gallery ["self", "self", "x"] {}
  obtain ⟨-, -, hnone⟩ := resolve_unguarded galleryLinker gallery_reachable gallery ["loop", "x"] {}
  refine ⟨gallery_reachable, ?_, hconsumes (.inl (gallery_consumes ["x"])), hnone (gallery_endless ["x"])⟩
  exact hreaches _ (.next (gallery_self ["x"]) (.ends gallery_ends)) gallery_not_consumes gallery_not_forwards

/--
A module that re-exports itself may be passed through once, but the second time it is taken for a circle.
-/
theorem resolve_stops_second_self
    : (galleryLinker.resolve gallery ["x"] {}).result = .ok galleryBinding
        ∧
      (galleryLinker.resolve gallery ["self", "x"] {}).result = .ok galleryBinding
        ∧
      galleryLinker.Reaches {} (.first gallery ["self", "self", "x"] {}) { result := .ok galleryBinding }
        ∧
      IsCircular (galleryLinker.resolve gallery ["self", "self", "x"] {}) := by
  refine ⟨by decide +kernel, by decide +kernel, ?_, ?_⟩
  · exact .next (gallery_self _) (.next (gallery_self _) (.ends gallery_ends))
  · obtain ⟨trail, hresolves, -⟩ := resolve_resolves gallery_reachable.sound gallery ["self", "self", "x"] {}
    exact (gallery_consumes ["x"]).isCircular hresolves

end Linker
end ModuleLink
