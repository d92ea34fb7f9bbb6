import ModuleLink.Graph.Binary
import ModuleLink.Proofs.Binary.Codec
import ModuleLink.Proofs.Condition

/-!
This module contains the proof that the parts of a graph are read back as they were written, but for the identities of
modules, of which only the texts are kept. Numbers have to fit into 32 bits, and lists and maps that are read without
repetitions must not have any.
-/

namespace ModuleLink

open Binary

def ModuleId.reread (id : ModuleId) : ModuleId := .ofSaved id.text

def Module.reread (m : Module) : Module := { m with id := m.id.reread }

def Node.reread (n : Node) : Node := { n with issuer := n.issuer.map (·.reread) }

def DeclaredDependency.reread (d : DeclaredDependency) : DeclaredDependency := { d with parent := d.parent.map (·.reread) }

def Connection.reread (c : Connection) : Connection :=
  { c with
    origin := c.origin.map (·.reread)
    resolvedOrigin := c.resolvedOrigin.map (·.reread)
    target := c.target.reread
    resolvedTarget := c.resolvedTarget.reread }

/--
The graph that is read back for one that was saved. Modules whose identities are read back as the same become one.
-/
def Graph.reread (g : Graph) : Graph :=
  { g with
    modules := .ofList (g.modules.entries.map (Prod.map (·.reread) (·.reread)))
    nodes := .ofList (g.nodes.entries.map (Prod.map (·.reread) (·.reread)))
    dependencies := g.dependencies.map (·.reread)
    connections := g.connections.map (·.map (·.reread)) }

structure Node.Storable (n : Node) : Prop where
  incoming : n.incoming.Nodup ∧ ∀ c ∈ n.incoming, c.index < wordLimit
  outgoing : ∀ cs ∈ n.outgoing, cs.Nodup ∧ ∀ c ∈ cs, c.index < wordLimit
  exports : n.exports.index < wordLimit
  dependencies : ∀ d ∈ n.dependencies, d.index < wordLimit
  preOrder : ∀ i ∈ n.preOrder, i < wordLimit
  postOrder : ∀ i ∈ n.postOrder, i < wordLimit
  depth : ∀ i ∈ n.depth, i < wordLimit

structure Connection.Storable (c : Connection) : Prop where
  id : c.id.index < wordLimit
  dependency : ∀ d ∈ c.dependency, d.index < wordLimit
  explanations : c.explanations.Nodup

structure ExportTarget.Storable (t : ExportTarget) : Prop where
  connection : t.connection.index < wordLimit
  priority : -0x80000000 ≤ t.priority ∧ t.priority < 0x80000000

structure ExportRecord.Storable (r : ExportRecord) : Prop where
  keys : r.targets.DistinctKeys
  targets : ∀ x ∈ r.targets.entries, x.1.index < wordLimit ∧ x.2.Storable
  nested : ∀ d ∈ r.nested, d.index < wordLimit

structure Descriptor.Storable (d : Descriptor) : Prop where
  keys : d.exports.DistinctKeys
  exports : ∀ x ∈ d.exports.entries, x.2.index < wordLimit
  other : d.other.index < wordLimit
  sideEffects : d.sideEffects.index < wordLimit
  redirect : ∀ e ∈ d.redirect, e.index < wordLimit
  owner : ∀ r ∈ d.owner, r.index < wordLimit

structure Graph.Storable (g : Graph) : Prop where
  node : ∀ x ∈ g.nodes.entries, x.2.Storable
  connection : ∀ c, some c ∈ g.connections → c.Storable
  keys : g.current.DistinctKeys
  current : ∀ x ∈ g.current.entries, x.1.index < wordLimit ∧ x.2.index < wordLimit
  descriptor : ∀ d ∈ g.exports.descriptors, d.Storable
  record : ∀ r ∈ g.exports.records, r.Storable

namespace Binary.Codec

theorem encodeCondition_ne_nil (c : Condition) : encodeCondition c ≠ [] := by
  cases c with
  | always => exact encodeNat_ne_nil 0
  | never => exact encodeNat_ne_nil 1
  | inRuntimes spec => exact List.append_ne_nil_of_left_ne_nil (encodeNat_ne_nil 2) _
  | transitiveOnly => exact encodeNat_ne_nil 3
  | all cs => simp [encodeCondition, encodeNat_ne_nil]

theorem encodeConditions_eq_flatMap (cs : List Condition) : encodeConditions cs = cs.flatMap encodeCondition := by
  induction cs with
  | nil => rfl
  | cons c cs ih => rw [encodeConditions, ih, List.flatMap_cons]

theorem length_encodeCondition_le {c : Condition} {cs : List Condition} (h : c ∈ cs)
    : (encodeCondition c).length ≤ (encodeConditions cs).length := by
  rw [encodeConditions_eq_flatMap]
  exact (List.sublist_flatten_of_mem (List.mem_map_of_mem h)).length_le

def conditionWithin (fuel : Nat) : Codec Condition := ⟨encodeCondition, decodeCondition fuel⟩

namespace Restores

theorem dependencyId {d : DependencyId} (h : d.index < wordLimit) : Codec.dependencyId.Restores d := map (word h) rfl

theorem connectionId {c : ConnectionId} (h : c.index < wordLimit) : Codec.connectionId.Restores c := map (word h) rfl

theorem descriptorId {d : DescriptorId} (h : d.index < wordLimit) : Codec.descriptorId.Restores d := map (word h) rfl

theorem recordId {r : RecordId} (h : r.index < wordLimit) : Codec.recordId.Restores r := map (word h) rfl

theorem exportsType (e : ExportsType) : Codec.exportsType.Restores e := choice (by cases e <;> decide) (by decide)

theorem defaultObject (o : DefaultObject) : Codec.defaultObject.Restores o := choice (by cases o <;> decide) (by decide)

theorem usage (u : Usage) : Codec.usage.Restores u := choice (by cases u <;> decide) (by decide)

theorem provision (p : Provision) : Codec.provision.Restores p := choice (by cases p <;> decide) (by decide)

theorem runtimes (s : RuntimeSpec) : Codec.runtimes.Restores s :=
  map (list fun name _ => text name) (RuntimeSpec.eq_of_mem_iff fun _ => RuntimeSpec.mem_ofNames)

theorem outputName (o : OutputName) : Codec.outputName.Restores o where
  nonempty := by cases o <;> simp [Codec.outputName, encodeNat_ne_nil]
  decode rest hlen := by
    cases o with
    | kept => exact (word (n := 0) (by decide)).step hlen fun _ => rfl
    | virtual => exact (word (n := 2) (by decide)).step hlen fun _ => rfl
    | renamed name =>
      simp only [Codec.outputName, List.append_assoc] at hlen ⊢
      refine (word (n := 1) (by decide)).step hlen fun hlen => ?_
      exact (text name).step hlen fun _ => rfl

theorem conditionWithin {c : Condition} {fuel : Nat} (hfuel : (encodeCondition c).length ≤ fuel)
    : (Codec.conditionWithin fuel).Restores c := by
  -- A condition is nested less deep than it takes bytes.
  have hpos := List.length_pos_iff.2 (encodeCondition_ne_nil c)
  refine ⟨encodeCondition_ne_nil c, fun rest hlen => ?_⟩
  induction fuel generalizing c rest with
  | zero => omega
  | succ n ih =>
    cases c with
    | always => exact (word (n := 0) (by decide)).step hlen fun _ => rfl
    | never => exact (word (n := 1) (by decide)).step hlen fun _ => rfl
    | transitiveOnly => exact (word (n := 3) (by decide)).step hlen fun _ => rfl
    | inRuntimes spec =>
      simp only [Codec.conditionWithin, encodeCondition, List.append_assoc] at hlen ⊢
      refine (word (n := 2) (by decide)).step hlen fun hlen => ?_
      exact (runtimes spec).step hlen fun _ => rfl
    | all cs =>
      have hcs : ∀ c ∈ cs, (Codec.conditionWithin n).Rereads c (id c) := by
        intro c hc
        have hne := encodeCondition_ne_nil c
        have hinner := length_encodeCondition_le hc
        have hmark := List.length_pos_iff.2 (encodeNat_ne_nil 4)
        simp only [encodeCondition, List.length_append] at hfuel
        exact ⟨hne, ih (by omega) (List.length_pos_iff.2 hne)⟩
      have hcount := Rereads.length_le_flatMap hcs
      simp only [Codec.conditionWithin, encodeCondition, encodeConditions_eq_flatMap, List.append_assoc]
        at hlen hcount ⊢
      refine (word (n := 4) (by decide)).step hlen fun hlen => ?_
      have hlength : cs.length < lengthLimit := by
        simp only [List.length_append] at hlen
        omega
      refine (length hlength).step hlen fun hlen => ?_
      refine (bind_eq_of_some (Rereads.decodeMany hcs hlen)).trans ?_
      rw [List.map_id]
      rfl

theorem condition (c : Condition) : Codec.condition.Restores c where
  nonempty := encodeCondition_ne_nil c
  decode rest hlen := by
    refine (conditionWithin ?_).decode rest hlen
    rw [List.length_append]
    apply Nat.le_add_right

theorem buildMeta (m : BuildMeta) : Codec.buildMeta.Restores m where
  nonempty := List.append_ne_nil_of_right_ne_nil _ (bool _).nonempty
  decode rest hlen := by
    simp only [Codec.buildMeta, List.append_assoc] at hlen ⊢
    refine (option fun e _ => exportsType e).step hlen fun hlen => ?_
    refine (defaultObject m.defaultObject).step hlen fun hlen => ?_
    exact (bool m.strict).step hlen fun _ => rfl

theorem texts (names : List String) : Codec.text.list.Restores names := list fun name _ => text name

theorem connectionIds {cs : List ConnectionId} (hcs : cs.Nodup ∧ ∀ c ∈ cs, c.index < wordLimit)
    : Codec.connectionId.distinct.Restores cs :=
  distinct (fun c hc => connectionId (hcs.2 c hc)) hcs.1

theorem dependency (d : Dependency) : Codec.dependency.Restores d where
  nonempty := List.append_ne_nil_of_right_ne_nil _ (condition _).nonempty
  decode rest hlen := by
    simp only [Codec.dependency, List.append_assoc] at hlen ⊢
    refine (text d.request).step hlen fun hlen => ?_
    refine (texts d.ids).step hlen fun hlen => ?_
    refine (bool d.weak).step hlen fun hlen => ?_
    refine (bool d.deferred).step hlen fun hlen => ?_
    exact (condition d.condition).step hlen fun _ => rfl

theorem exportTarget {t : ExportTarget} (h : t.Storable) : Codec.exportTarget.Restores t where
  nonempty := List.append_ne_nil_of_right_ne_nil _ (encodeNat_ne_nil _)
  decode rest hlen := by
    simp only [Codec.exportTarget, List.append_assoc] at hlen ⊢
    refine (connectionId h.connection).step hlen fun hlen => ?_
    refine (option fun path _ => texts path).step hlen fun hlen => ?_
    exact (signed h.priority.1 h.priority.2).step hlen fun _ => rfl

theorem exportRecord {r : ExportRecord} (h : r.Storable) : Codec.exportRecord.Restores r where
  nonempty := List.append_ne_nil_of_right_ne_nil _ (bool _).nonempty
  decode rest hlen := by
    have htargets : (Codec.dependencyId.dict Codec.exportTarget).Restores r.targets :=
      dict (fun x hx => dependencyId (h.targets x hx).1) (fun x hx => exportTarget (h.targets x hx).2) h.keys
    simp only [Codec.exportRecord, List.append_assoc] at hlen ⊢
    refine (option fun name _ => text name).step hlen fun hlen => ?_
    refine (usage r.used).step hlen fun hlen => ?_
    refine (provision r.provided).step hlen fun hlen => ?_
    refine (option fun b _ => bool b).step hlen fun hlen => ?_
    refine (option fun b _ => bool b).step hlen fun hlen => ?_
    refine (outputName r.outputName).step hlen fun hlen => ?_
    refine (bool r.terminal).step hlen fun hlen => ?_
    refine htargets.step hlen fun hlen => ?_
    refine (option fun d hd => descriptorId (h.nested d hd)).step hlen fun hlen => ?_
    exact (bool r.nestedOwned).step hlen fun _ => rfl

theorem descriptor {d : Descriptor} (h : d.Storable) : Codec.descriptor.Restores d where
  nonempty := List.append_ne_nil_of_right_ne_nil _ (option fun r hr => recordId (h.owner r hr)).nonempty
  decode rest hlen := by
    have hexports : (Codec.text.dict Codec.recordId).Restores d.exports :=
      dict (fun x _ => text x.1) (fun x hx => recordId (h.exports x hx)) h.keys
    simp only [Codec.descriptor, List.append_assoc] at hlen ⊢
    refine hexports.step hlen fun hlen => ?_
    refine (recordId h.other).step hlen fun hlen => ?_
    refine (recordId h.sideEffects).step hlen fun hlen => ?_
    refine (option fun e he => descriptorId (h.redirect e he)).step hlen fun hlen => ?_
    exact (option fun r hr => recordId (h.owner r hr)).step hlen fun _ => rfl

theorem arena {a : Arena} (hdescriptors : ∀ d ∈ a.descriptors, d.Storable) (hrecords : ∀ r ∈ a.records, r.Storable)
    : Codec.arena.Restores a where
  nonempty := List.append_ne_nil_of_right_ne_nil _ (array fun r hr => exportRecord (hrecords r hr)).nonempty
  decode rest hlen := by
    simp only [Codec.arena, List.append_assoc] at hlen ⊢
    refine (array fun d hd => descriptor (hdescriptors d hd)).step hlen fun hlen => ?_
    exact (array fun r hr => exportRecord (hrecords r hr)).step hlen fun _ => rfl

end Restores

namespace Rereads

theorem moduleId (id : ModuleId) : Codec.moduleId.Rereads id id.reread := map (Restores.text id.text) rfl

theorem optionalModule (id : Option ModuleId) : Codec.moduleId.option.Rereads id (id.map (·.reread)) :=
  option fun id _ => moduleId id

theorem module (m : Module) : Codec.module.Rereads m m.reread where
  nonempty := List.append_ne_nil_of_right_ne_nil _ (Restores.bool _).nonempty
  decode rest hlen := by
    simp only [Codec.module, List.append_assoc] at hlen ⊢
    refine (moduleId m.id).step hlen fun hlen => ?_
    refine (Restores.buildMeta m.buildMeta).step hlen fun hlen => ?_
    refine (Restores.bool m.hasSideEffects).step hlen fun hlen => ?_
    exact (Restores.bool m.isExternal).step hlen fun _ => rfl

theorem node {n : Node} (h : n.Storable) : Codec.node.Rereads n n.reread where
  nonempty := List.append_ne_nil_of_right_ne_nil _ (Restores.texts _).nonempty
  decode rest hlen := by
    simp only [Codec.node, List.append_assoc] at hlen ⊢
    refine (Restores.connectionIds h.incoming).step hlen fun hlen => ?_
    refine (Restores.option fun cs hcs => Restores.connectionIds (h.outgoing cs hcs)).step hlen fun hlen => ?_
    refine (Restores.descriptorId h.exports).step hlen fun hlen => ?_
    refine (Restores.list fun d hd => Restores.dependencyId (h.dependencies d hd)).step hlen fun hlen => ?_
    refine (optionalModule n.issuer).step hlen fun hlen => ?_
    refine (Restores.option fun i hi => Restores.word (h.preOrder i hi)).step hlen fun hlen => ?_
    refine (Restores.option fun i hi => Restores.word (h.postOrder i hi)).step hlen fun hlen => ?_
    refine (Restores.option fun i hi => Restores.word (h.depth i hi)).step hlen fun hlen => ?_
    refine (Restores.bool n.isAsync).step hlen fun hlen => ?_
    exact (Restores.texts n.bailouts).step hlen fun _ => rfl

theorem declared (d : DeclaredDependency) : Codec.declared.Rereads d d.reread where
  nonempty := List.append_ne_nil_of_right_ne_nil _ (optionalModule _).nonempty
  decode rest hlen := by
    simp only [Codec.declared, List.append_assoc] at hlen ⊢
    refine (Restores.dependency d.dependency).step hlen fun hlen => ?_
    exact (optionalModule d.parent).step hlen fun _ => rfl

theorem connection {c : Connection} (h : c.Storable) : Codec.connection.Rereads c c.reread where
  nonempty :=
    List.append_ne_nil_of_right_ne_nil _ (Restores.distinct (fun name _ => Restores.text name) h.explanations).nonempty
  decode rest hlen := by
    simp only [Codec.connection, List.append_assoc] at hlen ⊢
    refine (Restores.connectionId h.id).step hlen fun hlen => ?_
    refine (optionalModule c.origin).step hlen fun hlen => ?_
    refine (optionalModule c.resolvedOrigin).step hlen fun hlen => ?_
    refine (Restores.option fun d hd => Restores.dependencyId (h.dependency d hd)).step hlen fun hlen => ?_
    refine (moduleId c.target).step hlen fun hlen => ?_
    refine (moduleId c.resolvedTarget).step hlen fun hlen => ?_
    refine (Restores.bool c.weak).step hlen fun hlen => ?_
    refine (Restores.bool c.deferred).step hlen fun hlen => ?_
    refine (Restores.bool c.active).step hlen fun hlen => ?_
    refine (Restores.option fun condition _ => Restores.condition condition).step hlen fun hlen => ?_
    exact (Restores.distinct (fun name _ => Restores.text name) h.explanations).step hlen fun _ => rfl

theorem graph {g : Graph} (h : g.Storable) : Codec.graph.Rereads g g.reread where
  nonempty := List.append_ne_nil_of_right_ne_nil _ (Restores.arena h.descriptor h.record).nonempty
  decode rest hlen := by
    have hmodules := dict (m := g.modules) (fun x _ => moduleId x.1) (fun x _ => module x.2)
    have hnodes := dict (m := g.nodes) (fun x _ => moduleId x.1) (fun x hx => node (h.node x hx))
    have hconnections : Codec.connection.option.array.Rereads g.connections
        (g.connections.map (·.map (·.reread))) := by
      refine array fun slot hslot => option ?_
      rintro c rfl
      exact connection (h.connection c hslot)
    have hcurrent : (Codec.dependencyId.dict Codec.connectionId).Restores g.current :=
      .dict (fun x hx => .dependencyId (h.current x hx).1) (fun x hx => .connectionId (h.current x hx).2) h.keys
    simp only [Codec.graph, List.append_assoc] at hlen ⊢
    refine hmodules.step hlen fun hlen => ?_
    refine hnodes.step hlen fun hlen => ?_
    refine (array fun d _ => declared d).step hlen fun hlen => ?_
    refine hconnections.step hlen fun hlen => ?_
    refine hcurrent.step hlen fun hlen => ?_
    exact (Restores.arena h.descriptor h.record).step hlen fun _ => rfl

end Rereads
end Binary.Codec

theorem Graph.Storable.ofBytes_eq {g : Graph} (h : g.Storable) (hlen : g.toBytes.length < lengthLimit)
    : Graph.ofBytes g.toBytes = .ok g.reread := by
  have hreads : (Codec.word.pair Codec.graph).Rereads (formatVersion, g) (formatVersion, g.reread) :=
    .pair (Codec.Restores.word (n := formatVersion) (by decide)) (.graph h)
  have hdecode := hreads.decode [] (by rw [List.append_nil]; exact hlen)
  rw [List.append_nil] at hdecode
  have hbytes : g.toBytes = (Codec.word.pair Codec.graph).encode (formatVersion, g) := rfl
  unfold Graph.ofBytes
  rw [hbytes, hdecode]
  rfl

end ModuleLink
