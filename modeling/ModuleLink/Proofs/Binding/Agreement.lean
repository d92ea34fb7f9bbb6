import ModuleLink.Binding.Render
import ModuleLink.Proofs.Graph.Hops
import ModuleLink.Proofs.Rename.Allocation

/-!
This module contains the proof that resolution only asks for names that were allocated. The names of an
entry serve both of its shapes, and re-exports lead from entry to entry, so a reference has a text unless
its re-export leaves the merge set or the graph, or the export is unknown.
-/

namespace ModuleLink
namespace Linker

structure Ready (l : Linker) : Prop where
  set : l.set.Indexed
  names : ∀ {id : ModuleId} {e : MergeEntry}, l.set.get? id = some e →
    ∃ n, l.names.module? id = some n ∧ n.Fits l.set.visibility e ∧
      ∀ strict, ∃ shape, l.graph.shape id strict = .ok shape ∧ n.Serves shape
  exports : ∀ m ∈ l.set.members, ∀ symbol ∈ m.exports.values, ∃ d ∈ m.scope.declarations, d.name = symbol

/--
The result is a binding that has a text, or it says that there is no such export, or it says where a connection leads
out of the graph.
-/
inductive Settles (l : Linker) : Except LinkError Binding → Prop where
  | bound {b : Binding} {text : String} : l.reference b = .ok text → l.Settles (.ok b)
  | unresolvable (m : ModuleId) (path members : List String) :
      l.Settles (.error (.unresolvableReexport m path members))
  | unknown (m : ModuleId) (path : List String) : l.Settles (.error (.unknownExport m path))
  | dangling {m : ModuleId} : l.graph.Dangles m → l.Settles (.error (.graph (.moduleNotFound m)))

inductive Continues (l : Linker) : Resolution ⊕ NextHop → Prop where
  | done {r : Resolution} : l.Settles r.result → l.Continues (.inl r)
  | hop {next : NextHop} : l.set.contains next.module = true → l.Continues (.inr next)

variable {l : Linker}

namespace Settles

theorem raw {b : Binding} {text : String} {comment : Option String} (h : b.base = .raw text comment)
    : l.Settles (.ok b) := by
  apply bound
  unfold reference
  rw [h]

theorem marker (id : ModuleId) (text : String) (ids path : List String) (deferred : Bool)
    : l.Settles (marker id text ids path deferred).result := raw rfl

theorem objectName {id : ModuleId} {n : ModuleNames} (hn : l.names.module? id = some n)
    {pick : ModuleNames → Option String} (hpick : (pick n).isSome) (what : String) {build : String → Binding}
    (hbuild : ∀ name, ∃ text comment, (build name).base = .raw text comment)
    : l.Settles ((l.objectName id pick what).map build) := by
  obtain ⟨name, hname⟩ := Option.isSome_iff_exists.1 hpick
  unfold Linker.objectName
  rw [hn, Option.bind_some, hname]
  obtain ⟨text, comment, hbase⟩ := hbuild name
  exact raw hbase

end Settles

section Entry

variable {id : ModuleId} {e : MergeEntry} {n : ModuleNames}

theorem shapeStep_settles (hn : l.names.module? id = some n) {shape : ExportShape} (hserves : n.Serves shape)
    {path : List String} {deferred : Bool} {site : ReferenceSite} {r : Resolution}
    (h : l.shapeStep shape id path deferred site = .done r) : l.Settles r.result := by
  unfold shapeStep at h
  split at h
  · contradiction
  · contradiction
  · cases h
    exact .objectName hn (hserves.interopNamespace2 rfl) _ fun _ => ⟨_, _, rfl⟩
  · cases h
    exact .objectName hn (hserves.interopNamespace rfl) _ fun _ => ⟨_, _, rfl⟩
  · split at h
    · contradiction
    · split at h
      · cases h
        apply Settles.marker
      · contradiction
  · split at h
    · cases h
      apply Settles.marker
    · split at h
      · contradiction
      · cases h
        apply Settles.marker
  · split at h
    · cases h
      exact .objectName hn (hserves.interopDefault rfl) _ fun _ => ⟨_, _, rfl⟩
    · split at h
      · cases h
        apply Settles.marker
      · contradiction

theorem wholeModule_settles (hn : l.names.module? id = some n) (hfits : n.Fits l.set.visibility e)
    (deferred : Bool) : l.Settles (l.wholeModule e id deferred).result := by
  cases e with
  | concatenated m => exact .objectName hn (hfits.object m rfl) _ fun _ => ⟨_, _, rfl⟩
  | external x => exact .objectName hn (hfits.external x rfl) _ fun _ => ⟨_, _, rfl⟩

theorem externalExport_settles {x : External} (hn : l.names.module? id = some n)
    (hfits : n.Fits l.set.visibility (.external x)) (d : DescriptorId) (first : String) (rest : List String)
    (deferred : Bool) : l.Settles (l.externalExport x id d first rest deferred).result := by
  unfold externalExport
  dsimp only
  split
  · apply Settles.marker
  · exact .objectName hn (hfits.external x rfl) _ fun _ => ⟨_, _, rfl⟩

theorem symbol_settles (hl : l.Ready) {m : Member} (hm : l.set.get? id = some (.concatenated m)) {b : Binding}
    {first symbol : String} (hsymbol : m.exports.get? first = some symbol) (hid : b.module = id)
    (hbase : b.base = .symbol symbol) : l.Settles (.ok b) := by
  obtain ⟨n, hn, hfits, _⟩ := hl.names hm
  have hmember : m ∈ l.set.members := MergeSet.mem_members.2 (hl.set.mem_of_get? hm).1
  obtain ⟨d, hd, rfl⟩ := hl.exports m hmember symbol (Dict.mem_values_of_get? hsymbol)
  obtain ⟨name, hname⟩ := Option.isSome_iff_exists.1 (hfits.declared m rfl d hd)
  apply Settles.bound
  unfold reference NameTable.internalName?
  rw [hbase, hid, hn]
  dsimp only [Option.bind_some]
  rw [hname]

theorem memberExport_continues (hl : l.Ready) {m : Member} (hm : l.set.get? id = some (.concatenated m))
    {d : DescriptorId} (hd : l.graph.descriptorOf id = .ok d)
    (hmodule : ∃ module, l.graph.module id = .ok module) (first : String) (rest : List String) (deferred : Bool)
    : l.Continues (l.memberExport m id d first rest deferred) := by
  obtain ⟨n, hn, hfits, _⟩ := hl.names hm
  have hfinds := l.graph.findTarget_finds hd first l.set.contains
  unfold memberExport
  dsimp only
  split
  · exact .done (.objectName hn (hfits.object m rfl) _ fun _ => ⟨_, _, rfl⟩)
  · split
    · next symbol hsymbol =>
      split
      · exact .done (.marker ..)
      · exact .done (symbol_settles hl hm hsymbol rfl rfl)
    · split
      · exact .done (.marker ..)
      · split
        · next e herror =>
          obtain ⟨m, rfl, hdangles⟩ := hfinds.dangles_of_error herror
          exact .done (.dangling hdangles)
        · exact .done (.unresolvable ..)
        · exact .done (.marker ..)
        · next site hsite =>
          obtain ⟨module, hmodule⟩ := hmodule
          rw [hmodule]
          exact .hop (hfinds.accept_of_found hsite)
        · split
          · exact .done (.objectName hn (hfits.object m rfl) _ fun _ => ⟨_, _, rfl⟩)
          · exact .done (.unknown ..)

end Entry

theorem shape_eq_ok {g : Graph} {id : ModuleId} {strict : Bool} {shape : ExportShape}
    (h : g.shape id strict = .ok shape) : (∃ m, g.module id = .ok m) ∧ ∃ d, g.descriptorOf id = .ok d := by
  unfold Graph.shape at h
  rw [bind_eq_ok] at h
  obtain ⟨m, hm, h⟩ := h
  rw [bind_eq_ok] at h
  obtain ⟨d, hd, _⟩ := h
  exact ⟨⟨m, hm⟩, d, hd⟩

theorem shape_congr {g : Graph} {a b : ModuleId} (hid : a == b) {strict : Bool} {shape : ExportShape}
    (h : g.shape a strict = .ok shape) : g.shape b strict = .ok shape := by
  obtain ⟨⟨m, hm⟩, d, hd⟩ := shape_eq_ok h
  unfold Graph.shape at h ⊢
  rw [hm, hd] at h
  rw [Graph.module_congr hid hm, Graph.descriptorOf_congr hid hd]
  exact h

theorem advance_continues (hl : l.Ready) (site : ReferenceSite) (visited : List (DescriptorId × String))
    {hop : NextHop} (hhop : l.set.contains hop.module = true)
    : l.Continues ((l.advance site visited hop).map id Prod.snd) := by
  obtain ⟨e, he⟩ := hl.set.exists_of_contains hhop
  obtain ⟨n, hn, hfits, hshapes⟩ := hl.names he
  obtain ⟨shape, hshape, hserves⟩ := hshapes hop.strict
  obtain ⟨hmodule, d, hd⟩ := shape_eq_ok hshape
  unfold advance
  rw [he, hshape]
  dsimp only
  split
  · next r hstep => exact .done (shapeStep_settles hn hserves hstep)
  · exact .done (wholeModule_settles hn hfits _)
  · next first rest _ =>
    rw [hd]
    dsimp only
    split
    · exact .done (.marker ..)
    · cases e with
      | external x => exact .done (externalExport_settles hn hfits ..)
      | concatenated m =>
        have hcontinues := memberExport_continues hl he hd hmodule first rest hop.deferred
        dsimp only
        cases hexport : l.memberExport m hop.module d first rest hop.deferred with
        | inl r =>
          rw [hexport] at hcontinues
          exact hcontinues
        | inr next =>
          rw [hexport] at hcontinues
          exact hcontinues

theorem follow_settles (hl : l.Ready) (site : ReferenceSite) (fuel : Nat)
    (visited : List (DescriptorId × String)) {hop : NextHop} (hhop : l.set.contains hop.module = true)
    : l.Settles (l.follow site fuel visited hop).result := by
  induction fuel generalizing visited hop with
  | zero => apply Settles.marker
  | succ fuel ih =>
    have hcontinues := advance_continues hl site visited hhop
    unfold follow
    cases hadvance : l.advance site visited hop with
    | inl r =>
      rw [hadvance] at hcontinues
      cases hcontinues with
      | done hr => exact hr
    | inr step =>
      rw [hadvance] at hcontinues
      cases hcontinues with
      | hop hnext => exact ih (step.1 :: visited) hnext

theorem resolve_settles (hl : l.Ready) {id : ModuleId} (hid : l.set.contains id = true) (path : List String)
    (site : ReferenceSite) : l.Settles (l.resolve id path site).result := by
  unfold resolve
  apply follow_settles hl
  exact hid

theorem render_eq_ok {b : Binding} {text : String} (h : l.reference b = .ok text) (site : ReferenceSite)
    : ∃ text, l.render b site = .ok text := by
  unfold render
  rw [h]
  exact ⟨_, rfl⟩

def Supplied (l : Linker) : Prop :=
  ∀ {id : ModuleId} {e : MergeEntry}, l.set.get? id = some e →
    ∃ n, l.names.module? id = some n ∧ n.Fits l.set.visibility e ∧
      ∀ strict, ∃ shape, l.graph.shape id strict = .ok shape ∧ n.Serves shape

theorem supplied_of_allocate {o : NameOptions} (hs : l.set.Built) (h : o.allocate l.graph l.set = .ok l.names)
    : l.Supplied := by
  intro id e he
  obtain ⟨al, _, hnames⟩ := NameOptions.allocate_allocated hs h
  obtain ⟨hmem, hid⟩ := hs.indexed.mem_of_get? he
  obtain ⟨n, hn, hfits, hshapes⟩ := hnames e hmem
  refine ⟨n, ?_, hfits, ?_⟩
  · unfold NameTable.module? at hn ⊢
    rw [← Dict.get?_congr hid]
    exact hn
  · intro strict
    obtain ⟨shape, hshape, hserves⟩ := hshapes strict
    exact ⟨shape, shape_congr hid hshape, hserves⟩

theorem ready_of_allocate {o : NameOptions} (hs : l.set.Built) (h : o.allocate l.graph l.set = .ok l.names)
    (hexports : ∀ m ∈ l.set.members, ∀ symbol ∈ m.exports.values, ∃ d ∈ m.scope.declarations, d.name = symbol)
    : l.Ready where
  set := hs.indexed
  names := supplied_of_allocate hs h
  exports := hexports

/--
The reference has a text, or it goes through a re-export that leaves the merge set or asks for an export that is not
known.
-/
inductive Answers : Except LinkError String → Prop where
  | text (text : String) : Answers (.ok text)
  | unresolvable (m : ModuleId) (path members : List String) : Answers (.error (.unresolvableReexport m path members))
  | unknown (m : ModuleId) (path : List String) : Answers (.error (.unknownExport m path))

/--
A reference to an entry of the merge set is answered, unless a connection on its way leads out of the graph. No
connection does so if the ends of connections are left to the graph.
-/
theorem finalName_agrees (l : Linker) (hs : l.set.Built)
    (hexports : ∀ m ∈ l.set.members, ∀ symbol ∈ m.exports.values, ∃ d ∈ m.scope.declarations, d.name = symbol)
    (o : NameOptions) (h : o.allocate l.graph l.set = .ok l.names) (id : ModuleId)
    (hid : l.set.contains id = true) (path : List String) (site : ReferenceSite)
    : (Answers (l.finalName id path site)
          ∨
        ∃ m, l.finalName id path site = .error (.graph (.moduleNotFound m)) ∧ l.graph.Dangles m)
        ∧
      (l.graph.Maintained → Answers (l.finalName id path site)) := by
  have hanswers : Answers (l.finalName id path site) ∨
      ∃ m, l.finalName id path site = .error (.graph (.moduleNotFound m)) ∧ l.graph.Dangles m := by
    have hsettles := resolve_settles (ready_of_allocate hs h hexports) hid path site
    unfold finalName
    generalize (l.resolve id path site).result = result at hsettles
    cases hsettles with
    | bound htext =>
      obtain ⟨text, htext⟩ := render_eq_ok htext site
      dsimp only
      rw [htext]
      exact .inl (.text text)
    | unresolvable m p members => exact .inl (.unresolvable m p members)
    | unknown m p => exact .inl (.unknown m p)
    | dangling hdangles => exact .inr ⟨_, rfl, hdangles⟩
  refine ⟨hanswers, fun hmaintained => ?_⟩
  rcases hanswers with hanswers | ⟨m, -, hdangles⟩
  · exact hanswers
  · exact absurd hdangles (hmaintained.not_dangles m)

end Linker

namespace Sample

def reexport : List GraphOp := [
  .addModule { id := a, buildMeta := { exportsType := some .namespaced } },
  .addModule { id := b }, .addModule { id := c },
  .addDependency (some c) { request := "./a" }, .connect (some c) ⟨0⟩ a,
  .setExportTarget c "w" ⟨0⟩ (some ["v"]) 0]

def linker : Linker where
  graph := reexport.foldl GraphOp.apply {}
  set
  names := table

theorem maintained : linker.graph.Maintained := by
  simp only [linker, reexport, List.foldl_cons, List.foldl_nil]
  iterate 6 refine .step _ ?_ trivial trivial
  exact .empty

theorem exports_declared
    : ∀ m ∈ linker.set.members, ∀ symbol ∈ m.exports.values, ∃ d ∈ m.scope.declarations, d.name = symbol := by
  decide +kernel

def strayLinker : Linker :=
  { linker with graph := (GraphOp.updateConnection ⟨0⟩ ({ · with target := ⟨"./ghost"⟩ })).apply linker.graph }

theorem stray_reachable : strayLinker.graph.Reachable :=
  .step (.updateConnection ..) maintained.reachable fun _ => id

end Sample

theorem Linker.finalName_agrees_sample
    : Sample.linker.graph.Maintained ∧ Sample.linker.finalName Sample.c ["w"] {} = .ok "a_value_0" ∧
      ∀ path site, Answers (Sample.linker.finalName Sample.c path site) := by
  refine ⟨Sample.maintained, by decide +kernel, fun path site => ?_⟩
  have hnames : ({} : NameOptions).allocate Sample.linker.graph Sample.linker.set
      = .ok Sample.linker.names := by decide +kernel
  have hcontains : Sample.linker.set.contains Sample.c = true := by decide +kernel
  exact (finalName_agrees Sample.linker Sample.built Sample.exports_declared {} hnames Sample.c hcontains path site).2
    Sample.maintained

/--
The names are allocated, but the re-export is an error of the graph.
-/
theorem Linker.finalName_leaves_graph
    : Sample.strayLinker.graph.Reachable ∧ Sample.strayLinker.set.Built ∧
      (∀ m ∈ Sample.strayLinker.set.members, ∀ symbol ∈ m.exports.values,
        ∃ d ∈ m.scope.declarations, d.name = symbol) ∧
      ({} : NameOptions).allocate Sample.strayLinker.graph Sample.strayLinker.set = .ok Sample.strayLinker.names ∧
      Sample.strayLinker.set.contains Sample.c = true ∧
      Sample.strayLinker.finalName Sample.c ["w"] {} = .error (.graph (.moduleNotFound ⟨"./ghost"⟩)) :=
  ⟨Sample.stray_reachable, Sample.built, Sample.exports_declared, by decide +kernel, by decide +kernel,
    by decide +kernel⟩

end ModuleLink
