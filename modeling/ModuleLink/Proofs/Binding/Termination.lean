import Mathlib.Data.List.ProdSigma
import Mathlib.Data.Prod.Basic
import ModuleLink.Binding.Resolve
import ModuleLink.Proofs.Graph.Tables
import ModuleLink.Proofs.Graph.Target

/-!
This module contains the proof that resolution comes to an end. Every hop looks up a name in a descriptor
where that name was not looked up before, and all names are segments of the request or of re-export targets,
even where paths grow from hop to hop. So the fuel of resolution does not run out, and re-exports that form
a cycle end where the cycle is closed.
-/

namespace ModuleLink
namespace Linker

/--
A resolution that has made the lookups `visited` comes to an end with the given result after the lookups `trail`,
however many there are.
-/
inductive Resolves (l : Linker) (site : ReferenceSite) :
    List (DescriptorId × String) → NextHop → List (DescriptorId × String) → Resolution → Prop where
  | done {visited : List (DescriptorId × String)} {hop : NextHop} {r : Resolution} :
      l.advance site visited hop = .inl r → l.Resolves site visited hop [] r
  | hop {visited trail : List (DescriptorId × String)} {hop next : NextHop} {seen : DescriptorId × String}
      {r : Resolution} :
      l.advance site visited hop = .inr (seen, next) → l.Resolves site (seen :: visited) next trail r →
      l.Resolves site visited hop (seen :: trail) r

variable {l : Linker}

theorem shapeStep_suffix {shape : ExportShape} {id : ModuleId} {path path' : List String} {deferred : Bool}
    {site : ReferenceSite} (h : l.shapeStep shape id path deferred site = .lookup path') : path' <:+ path := by
  unfold shapeStep at h
  split at h
  · cases h
    apply List.suffix_refl
  · cases h
    apply List.suffix_refl
  · contradiction
  · contradiction
  · split at h
    · cases h
      apply List.suffix_cons
    · split at h
      · contradiction
      · cases h
        apply List.suffix_refl
  · split at h
    · contradiction
    · split at h
      · cases h
        apply List.suffix_cons
      · contradiction
  · split at h
    · contradiction
    · split at h
      · contradiction
      · cases h
        apply List.suffix_refl

theorem memberExport_eq_inr {m : Member} {id : ModuleId} {d : DescriptorId} {first : String}
    {rest : List String} {deferred : Bool} {next : NextHop}
    (h : l.memberExport m id d first rest deferred = .inr next)
    : ∃ site, l.graph.findTarget id first l.set.contains = .ok (.found site) ∧
        next.path = site.path.getD [] ++ rest := by
  unfold memberExport at h
  dsimp only at h
  split at h
  · contradiction
  · split at h
    · split at h <;> contradiction
    · split at h
      · contradiction
      · split at h
        · contradiction
        · contradiction
        · contradiction
        · next site hsite =>
          split at h
          · contradiction
          · cases h
            exact ⟨site, hsite, rfl⟩
        · split at h <;> contradiction

theorem advance_eq_inr {site : ReferenceSite} {visited : List (DescriptorId × String)} {hop next : NextHop}
    {seen : DescriptorId × String} (h : l.advance site visited hop = .inr (seen, next))
    : l.graph.descriptorOf hop.module = .ok seen.1 ∧ seen ∉ visited ∧ seen.2 ∈ hop.path ∧
        ∀ name ∈ next.path, name ∈ hop.path ∨ name ∈ l.graph.exports.targetNames := by
  unfold advance at h
  split at h
  · contradiction
  · split at h
    · contradiction
    · split at h
      · contradiction
      · contradiction
      · next first rest hstep =>
        split at h
        · contradiction
        · next d hd =>
          split at h
          · contradiction
          · next hnew =>
            split at h
            · contradiction
            · split at h
              · contradiction
              · next hexport =>
                cases h
                have hsuffix := (shapeStep_suffix hstep).subset
                obtain ⟨target, htarget, hpath⟩ := memberExport_eq_inr hexport
                have hfinds := l.graph.findTarget_finds hd first l.set.contains
                refine ⟨hd, ?_, hsuffix (by simp), ?_⟩
                · intro hmem
                  exact hnew (List.contains_iff_mem.2 hmem)
                · intro name hname
                  rw [hpath] at hname
                  cases List.mem_append.1 hname with
                  | inl hmem =>
                    cases hfinds.mem_path htarget hmem with
                    | inl heq =>
                      rw [heq]
                      exact .inl (hsuffix (by simp))
                    | inr hnames => exact .inr hnames
                  | inr hmem => exact .inl (hsuffix (by simp [hmem]))

def Lookups (a : Arena) (names : List String) (p : DescriptorId × String) : Prop :=
  p.1.index < a.descriptors.size ∧ p.2 ∈ names

theorem length_le_of_lookups {a : Arena} {names : List String} {ps : List (DescriptorId × String)}
    (hnodup : ps.Nodup) (hps : ∀ p ∈ ps, Lookups a names p)
    : ps.length ≤ a.descriptors.size * names.length := by
  have hsubset : ps.map (Prod.map DescriptorId.index id) ⊆ List.range a.descriptors.size ×ˢ names := by
    intro q hq
    obtain ⟨p, hp, rfl⟩ := List.mem_map.1 hq
    obtain ⟨hindex, hname⟩ := hps p hp
    exact List.mem_product.2 ⟨List.mem_range.2 hindex, hname⟩
  have hmapped := hnodup.map (Function.Injective.prodMap DescriptorId.index_injective Function.injective_id)
  have hlength := hmapped.length_le_of_subset hsubset
  rw [List.length_map, List.length_product, List.length_range] at hlength
  exact hlength

theorem follow_resolves (hg : l.graph.Sound) (site : ReferenceSite) {names : List String}
    (hnames : l.graph.exports.targetNames ⊆ names) (fuel : Nat) {visited : List (DescriptorId × String)}
    (hop : NextHop) (hnodup : visited.Nodup) (hvisited : ∀ p ∈ visited, Lookups l.graph.exports names p)
    (hpath : hop.path ⊆ names)
    (hfuel : l.graph.exports.descriptors.size * names.length < fuel + visited.length)
    : ∃ trail, l.Resolves site visited hop trail (l.follow site fuel visited hop) ∧
        trail.Nodup ∧ ∀ p ∈ trail, p ∉ visited ∧ Lookups l.graph.exports names p := by
  induction fuel generalizing visited hop with
  | zero =>
    -- All possible lookups were made, and one more.
    have := length_le_of_lookups hnodup hvisited
    omega
  | succ fuel ih =>
    unfold follow
    cases hadvance : l.advance site visited hop with
    | inl r => exact ⟨[], .done hadvance, by simp, by simp⟩
    | inr step =>
      obtain ⟨seen, next⟩ := step
      obtain ⟨hd, hnew, hname, hnext⟩ := advance_eq_inr hadvance
      have hseen : Lookups l.graph.exports names seen := ⟨hg.descriptorOf_lt hd, hpath hname⟩
      have hvisited' := List.forall_mem_cons.2 ⟨hseen, hvisited⟩
      have hpath' : next.path ⊆ names := by
        intro name hmem
        cases hnext name hmem with
        | inl hold => exact hpath hold
        | inr htarget => exact hnames htarget
      have hfuel' : l.graph.exports.descriptors.size * names.length < fuel + (seen :: visited).length := by
        rw [List.length_cons]
        omega
      have hnodup' := List.nodup_cons.2 ⟨hnew, hnodup⟩
      obtain ⟨trail, hresolves, htrail, hfresh⟩ := ih next hnodup' hvisited' hpath' hfuel'
      refine ⟨seen :: trail, .hop hadvance hresolves, ?_, ?_⟩
      · rw [List.nodup_cons]
        refine ⟨?_, htrail⟩
        intro hmem
        exact (hfresh seen hmem).1 (by simp)
      · rw [List.forall_mem_cons]
        refine ⟨⟨hnew, hseen⟩, ?_⟩
        intro p hp
        obtain ⟨hunseen, hlookup⟩ := hfresh p hp
        exact ⟨fun hmem => hunseen (by simp [hmem]), hlookup⟩

theorem resolve_resolves (hg : l.graph.Sound) (id : ModuleId) (path : List String) (site : ReferenceSite)
    : ∃ trail, l.Resolves site [] ⟨id, path, site.strict, site.deferred⟩ trail (l.resolve id path site) ∧
        trail.Nodup ∧ ∀ p ∈ trail, Lookups l.graph.exports (path ++ l.graph.exports.targetNames) p := by
  have hfuel : l.graph.exports.descriptors.size * (path ++ l.graph.exports.targetNames).length
      < l.graph.exports.descriptors.size * (path.length + l.graph.exports.targetNames.length) + 1 := by
    rw [List.length_append]
    apply Nat.lt_succ_self
  obtain ⟨trail, hresolves, hnodup, htrail⟩ :=
    follow_resolves hg site (List.subset_append_right path _) _ ⟨id, path, site.strict, site.deferred⟩
      List.nodup_nil (by simp) (List.subset_append_left path _) hfuel
  exact ⟨trail, hresolves, hnodup, fun p hp => (htrail p hp).2⟩

/--
A module with a namespace is a member of the merge set, and its export `name`, which may exist, is no symbol and no
expression of its own but a re-export of `name'` in `id'` or of something below that.
-/
structure Reexports (l : Linker) (id : ModuleId) (name : String) (id' : ModuleId) (name' : String) : Prop where
  member : ∃ m, l.set.get? id = some (.concatenated m) ∧
    m.exports.get? name = none ∧ m.rawExports.get? name = none
  module : ∃ m, l.graph.module id = .ok m ∧ m.buildMeta.exportsType = some .namespaced
  target : ∃ d site tail, l.graph.descriptorOf id = .ok d ∧
    (l.graph.exports.record (l.graph.exports.lookup d name)).provided ≠ .notProvided ∧
    l.graph.hop? (l.graph.exports.lookup d name) name = some site ∧
    site.module == id' ∧ site.path = some (name' :: tail)

structure ReexportCycle (l : Linker) (k : Nat) (m : Nat → ModuleId) (x : Nat → String) : Prop where
  pos : 0 < k
  link : ∀ i < k, l.Reexports (m i) (x i) (m ((i + 1) % k)) (x ((i + 1) % k))

def IsCircular (r : Resolution) : Prop :=
  ∃ b, r.result = .ok b ∧ b.base = .raw circularReexport none ∧ b.ids = []

namespace Reexports

variable {id id' : ModuleId} {name name' : String}

theorem congr (h : l.Reexports id name id' name') {k : ModuleId} (hk : id == k)
    : l.Reexports k name id' name' where
  member := by
    rw [← EntryTable.get?_congr hk]
    exact h.member
  module := by
    obtain ⟨m, hm, htype⟩ := h.module
    exact ⟨m, Graph.module_congr hk hm, htype⟩
  target := by
    obtain ⟨d, site, tail, hd, hrest⟩ := h.target
    exact ⟨d, site, tail, Graph.descriptorOf_congr hk hd, hrest⟩

theorem shape (h : l.Reexports id name id' name') (strict : Bool)
    : l.graph.shape id strict = .ok .namespaceOnly := by
  obtain ⟨m, hm, htype⟩ := h.module
  obtain ⟨d, _, _, hd, _⟩ := h.target
  unfold Graph.shape BuildMeta.shape
  rw [hm, hd]
  dsimp only [bind, Except.bind, pure, Except.pure]
  rw [htype]

theorem advance (h : l.Reexports id name id' name') (hid' : l.set.contains id' = true) (site : ReferenceSite)
    (visited : List (DescriptorId × String)) {hop : NextHop} (hid : hop.module = id) {rest : List String}
    (hpath : hop.path = name :: rest)
    : (∃ r, l.advance site visited hop = .inl r ∧ IsCircular r) ∨
        ∃ seen next rest', l.advance site visited hop = .inr (seen, next) ∧ next.module == id' ∧
          next.path = name' :: rest' := by
  obtain ⟨m, hm, hexports, hraw⟩ := h.member
  obtain ⟨module, hmodule, _⟩ := h.module
  obtain ⟨d, target, tail, hd, hprovided, hhop, htarget, htail⟩ := h.target
  have haccept : l.set.contains target.module = true := by
    rw [EntryTable.contains_congr htarget]
    exact hid'
  have hexport : l.memberExport m id d name rest hop.deferred
      = .inr ⟨target.module, target.path.getD [] ++ rest, module.buildMeta.strict,
          hop.deferred && target.deferred⟩ := by
    unfold memberExport
    dsimp only
    rw [if_neg hprovided, hexports, hraw, Graph.findTarget_of_accept hd hhop haccept, hmodule]
  unfold Linker.advance
  rw [hid, hm, h.shape hop.strict, hd, hpath]
  dsimp only [shapeStep]
  split
  · exact .inl ⟨_, rfl, _, rfl, rfl, rfl⟩
  · rw [hexport, htail]
    exact .inr ⟨_, _, tail ++ rest, rfl, htarget, rfl⟩

end Reexports

namespace ReexportCycle

variable {k : Nat} {m : Nat → ModuleId} {x : Nat → String}

theorem contains (h : l.ReexportCycle k m x) {i : Nat} (hi : i < k) : l.set.contains (m i) = true := by
  obtain ⟨member, hmember, _⟩ := (h.link i hi).member
  exact EntryTable.contains_of_get? hmember

theorem isCircular (h : l.ReexportCycle k m x) {site : ReferenceSite}
    {visited trail : List (DescriptorId × String)} {hop : NextHop} {r : Resolution}
    (hresolves : l.Resolves site visited hop trail r) {i : Nat} (hi : i < k) (hid : m i == hop.module)
    {rest : List String} (hpath : hop.path = x i :: rest) : IsCircular r := by
  induction hresolves generalizing i rest with
  | done hadvance =>
    have hlt : (i + 1) % k < k := Nat.mod_lt _ h.pos
    cases ((h.link i hi).congr hid).advance (h.contains hlt) site _ rfl hpath with
    | inl hdone =>
      obtain ⟨r, hr, hcircular⟩ := hdone
      rw [hadvance] at hr
      cases hr
      exact hcircular
    | inr hhop =>
      obtain ⟨_, _, _, hr, _⟩ := hhop
      rw [hadvance] at hr
      contradiction
  | hop hadvance _ ih =>
    have hlt : (i + 1) % k < k := Nat.mod_lt _ h.pos
    cases ((h.link i hi).congr hid).advance (h.contains hlt) site _ rfl hpath with
    | inl hdone =>
      obtain ⟨_, hr, _⟩ := hdone
      rw [hadvance] at hr
      contradiction
    | inr hhop =>
      obtain ⟨_, _, rest, hr, hmodule, hnext⟩ := hhop
      rw [hadvance] at hr
      cases hr
      exact ih hlt (BEq.symm hmodule) hnext

end ReexportCycle

/--
Resolution comes to an end: redirects do, searches for the module that a binding comes from do, and every hop looks up a
segment of the request or of a target in a descriptor where it was not looked up before. Along a cycle of re-exports the
end is always the expression that stands for a circle.
-/
theorem resolve_terminates (l : Linker) (hg : l.graph.Reachable)
    : (∀ d, l.graph.exports.Redirects d (l.graph.exports.chain d))
        ∧
      (∀ id d name accept, l.graph.descriptorOf id = .ok d →
        l.graph.Finds accept [] (l.graph.exports.lookup d name) name (l.graph.findTarget id name accept))
        ∧
      (∀ id path site, ∃ trail,
        l.Resolves site [] ⟨id, path, site.strict, site.deferred⟩ trail (l.resolve id path site) ∧ trail.Nodup ∧
        ∀ p ∈ trail, p.1.index < l.graph.exports.descriptors.size ∧ p.2 ∈ path ++ l.graph.exports.targetNames)
        ∧
      ∀ k m x, l.ReexportCycle k m x → ∀ rest site, ∃ b,
        (l.resolve (m 0) (x 0 :: rest) site).result = .ok b ∧
        b.base = .raw circularReexport none ∧ b.ids = [] := by
  have hsound := hg.sound
  refine ⟨hsound.exports.redirects_chain, ?_, resolve_resolves hsound, ?_⟩
  · intro id d name accept hd
    exact Graph.findTarget_finds hd name accept
  · intro k m x hcycle rest site
    obtain ⟨trail, hresolves, _⟩ := resolve_resolves hsound (m 0) (x 0 :: rest) site
    exact hcycle.isCircular hresolves hcycle.pos BEq.rfl rfl

end Linker

namespace Sample

def left : ModuleId := ⟨"./left"⟩
def right : ModuleId := ⟨"./right"⟩

def circle : List GraphOp := [
  .addModule { id := left, buildMeta := { exportsType := some .namespaced } },
  .addModule { id := right, buildMeta := { exportsType := some .namespaced } },
  .addDependency (some left) { request := "./right" }, .connect (some left) ⟨0⟩ right,
  .addDependency (some right) { request := "./left" }, .connect (some right) ⟨1⟩ left,
  .setExportTarget left "x" ⟨0⟩ (some ["y"]) 0, .setExportTarget right "y" ⟨1⟩ (some ["x", "x"]) 0]

def circleLinker : Linker where
  graph := circle.foldl GraphOp.apply {}
  set := ⟨.ofFirst [.concatenated { module := right }, .concatenated { module := left }], left, none⟩
  names := {}

theorem circle_reachable : circleLinker.graph.Reachable := by
  simp only [circleLinker, circle, List.foldl_cons, List.foldl_nil]
  iterate 8 refine .step _ ?_ trivial
  exact .empty

def stop : Nat → ModuleId
  | 0 => left
  | _ => right

def segment : Nat → String
  | 0 => "x"
  | _ => "y"

theorem circle_cycle : circleLinker.ReexportCycle 2 stop segment where
  pos := by decide
  link := by
    intro i hi
    match i with
    | 0 =>
      refine ⟨⟨{ module := left }, ?_⟩,
        ⟨{ id := left, buildMeta := { exportsType := some .namespaced } }, ?_⟩,
        ⟨0⟩, ⟨right, some ["y"], false⟩, [], ?_⟩ <;> decide +kernel
    | 1 =>
      refine ⟨⟨{ module := right }, ?_⟩,
        ⟨{ id := right, buildMeta := { exportsType := some .namespaced } }, ?_⟩,
        ⟨1⟩, ⟨left, some ["x", "x"], false⟩, ["x"], ?_⟩ <;> decide +kernel

end Sample

theorem Linker.resolve_terminates_sample
    : Sample.circleLinker.graph.Reachable
        ∧
      ∀ rest site, ∃ b, (Sample.circleLinker.resolve Sample.left ("x" :: rest) site).result = .ok b ∧
        b.base = .raw circularReexport none ∧ b.ids = [] := by
  obtain ⟨_, _, _, hcycles⟩ := resolve_terminates Sample.circleLinker Sample.circle_reachable
  have hcircle := hcycles 2 Sample.stop Sample.segment Sample.circle_cycle
  rw [show Sample.stop 0 = Sample.left from rfl, show Sample.segment 0 = "x" from rfl] at hcircle
  exact ⟨Sample.circle_reachable, hcircle⟩

end ModuleLink
