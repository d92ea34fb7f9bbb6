import ModuleLink.Proofs.Binding.Cycle
import ModuleLink.Proofs.Graph.Loop

/-!
This module contains the proof of when a binding is deferred: the reference has to be, and so has every connection that
the searches on its way cross. An external module where the way ends has a say too, by its own entry, but it is not
asked where an object is provided that presents it in another shape.
-/

namespace ModuleLink

namespace Graph

def Over (g : Graph) (id : ModuleId) (name : String) (c : Connection) : Prop :=
  ∃ d t, g.descriptorOf id = .ok d ∧ (g.exports.record (g.exports.lookup d name)).Leading t ∧
    g.connection? t.connection = some c

/--
The connections that the search for what an export is re-exported from crosses until a module is accepted.
-/
inductive Crosses (g : Graph) (accept : ModuleId → Bool) : ModuleId → String → List Connection → Prop where
  | last {id : ModuleId} {name : String} {c : Connection} :
      g.Over id name c → accept c.target = true → Crosses g accept id name [c]
  | next {id : ModuleId} {name first : String} {rest : List String} {site : TargetSite} {c : Connection}
      {cs : List Connection} :
      g.Over id name c → accept c.target = false → g.Hop id name site → site.path = some (first :: rest) →
      Crosses g accept c.target first cs → Crosses g accept id name (c :: cs)

variable {g : Graph} {accept : ModuleId → Bool} {id : ModuleId} {name : String} {site : TargetSite} {d : DescriptorId}
  {c : Connection} {cs : List Connection}

theorem Over.hop? (h : g.Over id name c) (hd : g.descriptorOf id = .ok d)
    (hhop : g.hop? (g.exports.lookup d name) name = some site)
    : site.module = c.target ∧ site.deferred = c.deferred := by
  obtain ⟨d', t, hd', ht, hc⟩ := h
  cases hd.symm.trans hd'
  rw [hop?_eq, ExportRecord.maxTargets_of_leading ht, Option.bind_some, hc] at hhop
  cases hhop
  exact ⟨rfl, rfl⟩

theorem exists_over (hd : g.descriptorOf id = .ok d) (hhop : g.hop? (g.exports.lookup d name) name = some site)
    : ∃ c, g.Over id name c ∧ site.module = c.target := by
  rw [hop?_eq, Option.bind_eq_some_iff] at hhop
  obtain ⟨t, ht, hsite⟩ := hhop
  obtain ⟨c, hc, rfl⟩ := Option.map_eq_some_iff.1 hsite
  exact ⟨c, ⟨d, t, hd, ExportRecord.leading_of_maxTargets ht, hc⟩, rfl⟩

theorem Crosses.deferred (h : g.Crosses accept id name cs) (hg : g.Sound) (hd : g.descriptorOf id = .ok d)
    (hseeks : g.Seeks accept (g.exports.lookup d name) name (.ok (.found site)))
    : site.deferred = cs.all (·.deferred) := by
  generalize hr : g.exports.lookup d name = r at hseeks
  generalize hresult : Except.ok (FindTarget.found site) = result at hseeks
  induction h generalizing d site r result with
  | last hover haccept =>
    cases hseeks with
    | found hhop =>
      cases hresult
      rw [(hover.hop? hd (hr ▸ hhop)).2, List.all_cons, List.all_nil, Bool.and_true]
    | next hhop hrefused =>
      rw [(hover.hop? hd (hr ▸ hhop)).1, haccept] at hrefused
      cases hrefused
    | _ => cases hresult
  | @next id name first rest site' c cs hover haccept hhop hpath _ ih =>
    obtain ⟨d', hd', hhop⟩ := (hop_iff hg).1 hhop
    cases hd.symm.trans hd'
    have ⟨hmodule, hdeferred⟩ := hover.hop? hd hhop
    rw [hr] at hhop
    cases hseeks with
    | found hhop' haccept' =>
      cases hhop.symm.trans hhop'
      rw [hmodule, haccept] at haccept'
      cases haccept'
    | next hhop' _ hpath' he hseeks =>
      cases hhop.symm.trans hhop'
      cases hpath.symm.trans hpath'
      obtain ⟨inner, rfl, rfl⟩ := Finds.exists_of_through hresult.symm
      rw [hmodule] at he
      have hinner := ih he _ rfl _ rfl hseeks
      rw [TargetSite.extend_eq, List.all_cons, ← hinner, ← hdeferred]
    | _ => cases hresult

theorem Seeks.crosses {r : RecordId} {result : Except GraphError FindTarget} (h : g.Seeks accept r name result)
    (hg : g.Sound) (hd : g.descriptorOf id = .ok d) (hr : g.exports.lookup d name = r)
    (hresult : result = .ok (.found site)) : ∃ cs, g.Crosses accept id name cs := by
  induction h generalizing id d site with
  | found hhop haccept =>
    subst hr
    obtain ⟨c, hover, hmodule⟩ := exists_over hd hhop
    exact ⟨[c], .last hover (hmodule ▸ haccept)⟩
  | @next r name first rest site' e result hhop haccept hpath he _ ih =>
    subst hr
    obtain ⟨c, hover, hmodule⟩ := exists_over hd hhop
    obtain ⟨inner, hinner, -⟩ := Finds.exists_of_through hresult
    obtain ⟨cs, hcs⟩ := ih he rfl hinner
    rw [hmodule] at haccept hcs
    exact ⟨c :: cs, .next hover haccept ((hop_iff hg).2 ⟨d, hd, hhop⟩) hpath hcs⟩
  | _ => cases hresult

end Graph

def Binding.IsMarker (b : Binding) : Prop :=
  ∃ text ∈ [circularReexport, unusedExport, conversionFlagMarker, nonDefaultImport], b.base = .raw text none

def Resolution.usesInterop (r : Resolution) : Bool := r.need.any (·.kind != .namespaceObject)

namespace Linker

inductive Travels (l : Linker) (site : ReferenceSite) : NextHop → List Connection → NextHop → Prop where
  | stay (hop : NextHop) : Travels l site hop [] hop
  | next {hop mid last : NextHop} {x : Lookup} {cs cs' : List Connection} :
      l.Proceeds site hop x mid → l.graph.Crosses l.set.contains hop.module x.name cs → Travels l site mid cs' last →
      Travels l site hop (cs ++ cs') last

/--
Whether the entry of a module is deferred; members are not evaluated on their own.
-/
def entryDeferred (l : Linker) (id : ModuleId) : Bool :=
  match l.set.get? id with
  | some (.external x) => x.deferred
  | _ => true

variable {l : Linker} {site : ReferenceSite} {hop last : NextHop} {x : Lookup} {r : Resolution} {b : Binding}
  {cs : List Connection}

theorem entryDeferred_external {e : External} (h : l.set.get? hop.module = some (.external e))
    : l.entryDeferred hop.module = e.deferred := by
  rw [entryDeferred, h]

theorem entryDeferred_concatenated {m : Member} (h : l.set.get? hop.module = some (.concatenated m))
    : l.entryDeferred hop.module = true := by
  rw [entryDeferred, h]

section Travels

theorem Proceeds.deferred {mid : NextHop} (h : l.Proceeds site hop x mid) (hg : l.graph.Sound)
    (hcs : l.graph.Crosses l.set.contains hop.module x.name cs)
    : mid.deferred = (hop.deferred && cs.all (·.deferred)) := by
  obtain ⟨m, target, -, hseeks, hnext⟩ := h.target
  obtain ⟨found, module, rfl, -, rfl⟩ := reexport_eq_inr.1 hnext
  obtain ⟨-, hd, -⟩ := locate_eq_inr.1 h.located
  rw [← hcs.deferred hg hd hseeks]

theorem Travels.deferred (h : l.Travels site hop cs last) (hg : l.graph.Sound)
    : last.deferred = (hop.deferred && cs.all (·.deferred)) := by
  induction h with
  | stay hop => rw [List.all_nil, Bool.and_true]
  | next hnext hcs _ ih => rw [ih, hnext.deferred hg hcs, List.all_append, Bool.and_assoc]

theorem Reaches.travels (h : l.Reaches site hop r) (hg : l.graph.Sound)
    : ∃ cs last, l.Travels site hop cs last ∧ l.Ends site last r := by
  induction h with
  | @ends hop r hends => exact ⟨[], hop, .stay hop, hends⟩
  | next hnext _ ih =>
    obtain ⟨m, target, -, hseeks, htarget⟩ := hnext.target
    obtain ⟨found, module, hfound, -, -⟩ := reexport_eq_inr.1 htarget
    obtain ⟨-, hd, -⟩ := locate_eq_inr.1 hnext.located
    obtain ⟨cs, hcs⟩ := hseeks.crosses hg hd rfl hfound
    obtain ⟨cs', last, htravels, hends⟩ := ih
    exact ⟨cs ++ cs', last, .next hnext hcs htravels, hends⟩

end Travels

/--
The binding that a resolution ends with is one of the module of the hop, and upholds the deferral of the hop.
-/
def Upholds (l : Linker) (hop : NextHop) (r : Resolution) : Prop :=
  ∀ b, r.result = .ok b → ¬ b.IsMarker →
    b.module = hop.module ∧ b.deferred = (hop.deferred && (l.entryDeferred hop.module || r.usesInterop))

namespace Upholds

theorem error (e : LinkError) (need : Option Need) : l.Upholds hop ⟨.error e, need⟩ := by
  intro b hb
  cases hb

theorem marker {text : String} (h : text ∈ [circularReexport, unusedExport, conversionFlagMarker, nonDefaultImport])
    (ids path : List String) (deferred : Bool) : l.Upholds hop (marker hop.module text ids path deferred) := by
  intro b hb hmarker
  cases hb
  exact absurd ⟨text, h, rfl⟩ hmarker

theorem named {name : Except LinkError String} {f : String → Binding} {need : Option Need}
    (hmodule : ∀ n, (f n).module = hop.module)
    (hdeferred : ∀ n, (f n).deferred
      = (hop.deferred && (l.entryDeferred hop.module || need.any (·.kind != .namespaceObject))))
    : l.Upholds hop ⟨name.map f, need⟩ := by
  intro b hb _
  cases name with
  | error e => cases hb
  | ok n =>
    cases hb
    exact ⟨hmodule n, hdeferred n⟩

theorem interop {kind : NeededKind} (hkind : kind ≠ .namespaceObject) {name : Except LinkError String}
    {f : String → Binding} (hmodule : ∀ n, (f n).module = hop.module) (hdeferred : ∀ n, (f n).deferred = hop.deferred)
    : l.Upholds hop ⟨name.map f, some ⟨kind, hop.module⟩⟩ := by
  refine named hmodule fun n => ?_
  rw [hdeferred n, Option.any_some, bne_iff_ne.2 hkind, Bool.or_true, Bool.and_true]

theorem member {m : Member} (hentry : l.set.get? hop.module = some (.concatenated m))
    {name : Except LinkError String} {f : String → Binding} {need : Option Need}
    (hmodule : ∀ n, (f n).module = hop.module) (hdeferred : ∀ n, (f n).deferred = hop.deferred)
    : l.Upholds hop ⟨name.map f, need⟩ := by
  refine named hmodule fun n => ?_
  rw [hdeferred n, entryDeferred_concatenated hentry, Bool.true_or, Bool.and_true]

theorem own {m : Member} (hentry : l.set.get? hop.module = some (.concatenated m)) (hmodule : b.module = hop.module)
    (hdeferred : b.deferred = hop.deferred) : l.Upholds hop { result := .ok b } := by
  intro b' hb' _
  cases hb'
  rw [hdeferred, entryDeferred_concatenated hentry, Bool.true_or, Bool.and_true]
  exact ⟨hmodule, rfl⟩

theorem external {e : External} (hentry : l.set.get? hop.module = some (.external e))
    {name : Except LinkError String} {f : String → Binding} (hmodule : ∀ n, (f n).module = hop.module)
    (hdeferred : ∀ n, (f n).deferred = (hop.deferred && e.deferred)) : l.Upholds hop ⟨name.map f, none⟩ := by
  refine named hmodule fun n => ?_
  rw [hdeferred n, entryDeferred_external hentry, Option.any_none, Bool.or_false]

end Upholds

theorem upholds_shapeStep {shape : ExportShape}
    (h : l.shapeStep shape hop.module hop.path hop.deferred site = .done r) : l.Upholds hop r := by
  unfold shapeStep at h
  -- The shape decides by itself where an object is provided, whatever the entry of the module says, or for a marker.
  split at h
  · cases h
  · cases h
  · cases h
    exact .interop (by decide) (fun _ => rfl) fun _ => rfl
  · cases h
    exact .interop (by decide) (fun _ => rfl) fun _ => rfl
  · split at h
    · cases h
    · split at h
      · cases h
        exact .marker (by decide) _ _ _
      · cases h
  · split at h
    · cases h
      exact .marker (by decide) _ _ _
    · split at h
      · cases h
      · cases h
        exact .marker (by decide) _ _ _
  · split at h
    · cases h
      exact .interop (by decide) (fun _ => rfl) fun _ => rfl
    · split at h
      · cases h
        exact .marker (by decide) _ _ _
      · cases h

theorem upholds_wholeModule {e : MergeEntry} (hentry : l.set.get? hop.module = some e)
    : l.Upholds hop (l.wholeModule e hop.module hop.deferred) := by
  cases e with
  | concatenated m => exact .member hentry (fun _ => rfl) fun _ => rfl
  | external e => exact .external hentry (fun _ => rfl) fun _ => rfl

theorem upholds_locate (h : l.locate site hop = .inl r) : l.Upholds hop r := by
  unfold locate at h
  split at h
  · cases h
    exact .error _ _
  · next hentry =>
    split at h
    · cases h
      exact .error _ _
    · split at h
      · next hstep =>
        cases h
        exact upholds_shapeStep hstep
      · cases h
        exact upholds_wholeModule hentry
      · split at h
        · cases h
          exact .error _ _
        · cases h

theorem upholds_direct (hx : l.locate site hop = .inr x) (h : l.direct hop x = .inl r) : l.Upholds hop r := by
  obtain ⟨hentry, -⟩ := locate_eq_inr.1 hx
  unfold direct at h
  split at h
  · next e he =>
    rw [he] at hentry
    cases h
    unfold externalExport
    dsimp only
    split
    · exact .marker (by decide) _ _ _
    · exact .external hentry (fun _ => rfl) fun _ => rfl
  · next m hm =>
    rw [hm] at hentry
    dsimp only at h
    split at h
    · cases h
      exact .member hentry (fun _ => rfl) fun _ => rfl
    · split at h
      · split at h
        · cases h
          exact .marker (by decide) _ _ _
        · cases h
          exact .own hentry rfl rfl
      · split at h
        · cases h
          exact .own hentry rfl rfl
        · cases h

theorem upholds_reexport {m : Member} {target : Except GraphError FindTarget} (hx : l.locate site hop = .inr x)
    (hm : l.direct hop x = .inr m) (h : l.reexport hop x m target = .inl r) : l.Upholds hop r := by
  obtain ⟨hentry, -⟩ := locate_eq_inr.1 hx
  rw [(direct_eq_inr.1 hm).1] at hentry
  unfold reexport at h
  dsimp only at h
  split at h
  · cases h
    exact .error _ _
  · cases h
    exact .error _ _
  · cases h
    exact .marker (by decide) _ _ _
  · split at h
    · cases h
      exact .error _ _
    · cases h
  · split at h
    · cases h
      exact .member hentry (fun _ => rfl) fun _ => rfl
    · cases h
      exact .error _ _

theorem Ends.upholds (h : l.Ends site hop r) : l.Upholds hop r := by
  cases h with
  | located hlocated => exact upholds_locate hlocated
  | direct hx hdirect => exact upholds_direct hx hdirect
  | reexport hx hm _ hreexport => exact upholds_reexport hx hm hreexport

/--
A binding that stands for something comes from the hop where the way of the request ends. It is deferred if and only if
the reference is, all connections are that the searches on the way cross, and the entry of the module is where the way
ends; but the entry is not asked if an object is provided that presents the module in another shape.
-/
theorem resolve_deferred (l : Linker) (hg : l.graph.Reachable) (id : ModuleId) (path : List String)
    (site : ReferenceSite) {b : Binding} (h : (l.resolve id path site).result = .ok b) (hb : ¬ b.IsMarker)
    : (∃ cs last, l.Travels site (.first id path site) cs last ∧ l.Ends site last (l.resolve id path site))
        ∧
      ∀ cs last, l.Travels site (.first id path site) cs last → l.Ends site last (l.resolve id path site) →
        b.module = last.module ∧
        b.deferred = (site.deferred && cs.all (·.deferred) &&
          (l.entryDeferred b.module || (l.resolve id path site).usesInterop)) := by
  constructor
  · obtain ⟨trail, hresolves, -, -⟩ := resolve_resolves hg.sound id path site
    rcases hresolves.reaches hg (.nil (.first id path site)) (List.nil_subset _) with hreaches | ⟨hcircular, -⟩
    · exact hreaches.travels hg.sound
    · obtain ⟨b', hb', hbase, -⟩ := hcircular
      cases h.symm.trans hb'
      exact absurd ⟨circularReexport, List.mem_cons_self, hbase⟩ hb
  · intro cs last htravels hends
    have ⟨hmodule, hdeferred⟩ := hends.upholds b h hb
    refine ⟨hmodule, ?_⟩
    rw [hdeferred, hmodule, htravels.deferred hg.sound]
    rfl

end Linker

namespace Sample

def cover : ModuleId := ⟨"./cover"⟩
def legacy : ModuleId := ⟨"./legacy"⟩

/--
A module that re-exports the default and `x` of another over a deferred import, and imports it eagerly too.
-/
def covering : List GraphOp := [
  .addModule { id := cover, buildMeta := { exportsType := some .namespaced } }, .addModule { id := legacy },
  .addDependency (some cover) { request := "./legacy", deferred := true }, .connect (some cover) ⟨0⟩ legacy,
  .setExportTarget cover "bar" ⟨0⟩ (some ["default"]) 0, .setExportTarget cover "baz" ⟨0⟩ (some ["x"]) 0,
  .addDependency (some cover) { request := "./legacy" }, .connect (some cover) ⟨1⟩ legacy]

def coverLinker : Linker where
  graph := covering.foldl GraphOp.apply {}
  set := ⟨.ofFirst [.external { module := legacy }, .concatenated { module := cover }], cover, none⟩
  names := ⟨.ofList [(legacy, { externalName := some "legacy", interopDefault := some "legacy_default" })]⟩

theorem cover_reachable : coverLinker.graph.Reachable := by
  simp only [coverLinker, covering, List.foldl_cons, List.foldl_nil]
  iterate 8 refine .step _ ?_ trivial
  exact .empty

def legacyBinding (text : String) (ids : List String) (deferred : Bool) : Binding :=
  { module := legacy, base := .raw text none, ids, path := ids, deferred }

theorem legacyBinding_not_isMarker (ids : List String) (deferred : Bool)
    : ¬(legacyBinding "legacy" ids deferred).IsMarker := by
  rintro ⟨text, htext, hbase⟩
  cases hbase
  revert htext
  decide

end Sample

namespace Linker

open Sample

theorem resolve_deferred_sample
    : coverLinker.graph.Reachable
        ∧
      (coverLinker.resolve cover ["baz"] { deferred := true }).result = .ok (legacyBinding "legacy" ["x"] false)
        ∧
      ∃ cs last, coverLinker.Travels { deferred := true } (.first cover ["baz"] { deferred := true }) cs last ∧
        coverLinker.Ends { deferred := true } last (coverLinker.resolve cover ["baz"] { deferred := true }) ∧
        last.module = legacy ∧
        false = (true && cs.all (·.deferred) && (coverLinker.entryDeferred legacy ||
          (coverLinker.resolve cover ["baz"] { deferred := true }).usesInterop)) := by
  have hresult : (coverLinker.resolve cover ["baz"] { deferred := true }).result
      = .ok (legacyBinding "legacy" ["x"] false) := by
    decide
  obtain ⟨⟨cs, last, htravels, hends⟩, hdeferred⟩ :=
    resolve_deferred coverLinker cover_reachable cover ["baz"] { deferred := true } hresult
      (legacyBinding_not_isMarker _ _)
  have ⟨hmodule, hfalse⟩ := hdeferred cs last htravels hends
  exact ⟨cover_reachable, hresult, cs, last, htravels, hends, hmodule.symm, hfalse⟩

/--
The default is found out at run time, and its binding is deferred despite the eager import.
-/
theorem resolve_defers_interop
    : coverLinker.graph.Reachable
        ∧
      MergeSet.ofGraph coverLinker.graph cover [{ module := cover }] none = .ok coverLinker.set
        ∧
      coverLinker.entryDeferred legacy = false
        ∧
      (coverLinker.resolve cover ["bar"] { deferred := true }).result
          = .ok (legacyBinding "legacy_default.a" [] true) := by
  refine ⟨cover_reachable, ?_, ?_, ?_⟩ <;> decide

end Linker
end ModuleLink
