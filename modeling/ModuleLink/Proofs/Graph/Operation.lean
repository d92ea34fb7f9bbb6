import ModuleLink.Graph.Attributes
import ModuleLink.Graph.Edit
import ModuleLink.Proofs.Exports.Ownership
import ModuleLink.Proofs.MergeSet

/-!
This module contains the operations on a module graph and the graphs that they lead to. A connection can be changed in
any way; the graphs for which this never touched the ends of a connection are told apart.
-/

namespace ModuleLink

inductive ConnectionEdit where
  | setActive (active : Bool)
  | addCondition (condition : Condition)
  | addExplanation (explanation : String)

def ConnectionEdit.apply (c : Connection) : ConnectionEdit → Connection
  | .setActive active => c.setActive active
  | .addCondition condition => c.addCondition condition
  | .addExplanation explanation => c.addExplanation explanation

structure Connection.SameEdge (x y : Connection) : Prop where
  id : y.id = x.id := by rfl
  dependency : y.dependency = x.dependency := by rfl
  origin : y.origin = x.origin := by rfl
  target : y.target = x.target := by rfl

theorem Connection.SameEdge.edits (edits : List ConnectionEdit) (x : Connection)
    : x.SameEdge (edits.foldl ConnectionEdit.apply x) := by
  refine List.foldlRecOn edits _ {} ?_
  intro y hy e _
  have he : y.SameEdge (e.apply y) := by
    cases e with
    | setActive active => exact {}
    | addExplanation explanation => exact {}
    | addCondition condition =>
      simp only [ConnectionEdit.apply, Connection.addCondition]
      split
      · exact {}
      · split <;> exact {}
  exact ⟨he.id.trans hy.id, he.dependency.trans hy.dependency, he.origin.trans hy.origin, he.target.trans hy.target⟩

theorem Connection.nodup_edits (edits : List ConnectionEdit) {x : Connection} (h : x.explanations.Nodup)
    : (edits.foldl ConnectionEdit.apply x).explanations.Nodup := by
  refine List.foldlRecOn edits _ (motive := fun y : Connection => y.explanations.Nodup) h ?_
  intro y hy e _
  cases e with
  | setActive active => exact hy
  | addExplanation explanation => exact nodup_addDistinct hy explanation
  | addCondition condition =>
    simp only [ConnectionEdit.apply, Connection.addCondition]
    split
    · exact hy
    · split <;> exact hy

inductive GraphOp where
  | addModule (m : Module)
  | addDependency (parent : Option ModuleId) (dependency : Dependency)
  | connect (origin : Option ModuleId) (d : DependencyId) (target : ModuleId)
  | updateModule (d : DependencyId) (target : ModuleId)
  | removeConnection (d : DependencyId)
  | addExplanation (d : DependencyId) (explanation : String)
  | updateConnection (d : DependencyId) (f : Connection → Connection)
  | moveConnections (old new : ModuleId) (accept : Connection → Bool)
  | copyOutgoing (old new : ModuleId) (accept : Connection → Bool)
  | setIssuer (id : ModuleId) (issuer : Option ModuleId)
  | setIssuerIfUnset (id issuer : ModuleId)
  | setPreOrderIfUnset (id : ModuleId) (index : Nat)
  | setPostOrderIfUnset (id : ModuleId) (index : Nat)
  | setDepthIfLower (id : ModuleId) (depth : Nat)
  | setAsync (id : ModuleId)
  | addBailout (id : ModuleId) (reason : String)
  | markExportUsed (id : ModuleId) (path : List String) (state : Usage)
  | setExportTarget (id : ModuleId) (name : String) (d : DependencyId) (path : Option (List String))
      (priority : Int)
  | exports (op : ArenaOp)

namespace GraphOp

def apply (g : Graph) : GraphOp → Graph
  | .addModule m => (g.addModule m).1
  | .addDependency parent dependency => (g.addDependency parent dependency).graph
  | .connect origin d target => (g.connect origin d target).graph
  | .updateModule d target => (g.updateModule d target).graph
  | .removeConnection d => (g.removeConnection d).graph
  | .addExplanation d explanation => (g.addExplanation d explanation).graph
  | .updateConnection d f => (g.updateConnection d f).graph
  | .moveConnections old new accept => (g.moveConnections old new accept).graph
  | .copyOutgoing old new accept => (g.copyOutgoing old new accept).graph
  | .setIssuer id issuer => (g.setIssuer id issuer).graph
  | .setIssuerIfUnset id issuer => (g.setIssuerIfUnset id issuer).graph
  | .setPreOrderIfUnset id index => (g.setPreOrderIfUnset id index).graph
  | .setPostOrderIfUnset id index => (g.setPostOrderIfUnset id index).graph
  | .setDepthIfLower id depth => (g.setDepthIfLower id depth).graph
  | .setAsync id => (g.setAsync id).graph
  | .addBailout id reason => (g.addBailout id reason).graph
  | .markExportUsed id path state => (g.markExportUsed id path state).graph
  | .setExportTarget id name d path priority => (g.setExportTarget id name d path priority).graph
  | .exports op => { g with exports := op.apply g.exports }

def Valid (g : Graph) : GraphOp → Prop
  | .updateConnection _ f => ∀ x, x.explanations.Nodup → (f x).explanations.Nodup
  | .exports op => op.Valid g.exports
  | _ => True

/--
The operation does not change the ends of a connection behind the back of the graph.
-/
def KeepsEdges : GraphOp → Prop
  | .updateConnection _ f => ∀ x : Connection, x.SameEdge (f x)
  | _ => True

end GraphOp

namespace Graph

inductive Reachable : Graph → Prop where
  | empty : Reachable {}
  | step {g : Graph} (op : GraphOp) : Reachable g → op.Valid g → Reachable (op.apply g)

/--
The graphs that operations lead to which leave the ends of connections to the graph.
-/
inductive Maintained : Graph → Prop where
  | empty : Maintained {}
  | step {g : Graph} (op : GraphOp) : Maintained g → op.Valid g → op.KeepsEdges → Maintained (op.apply g)

def Knows (g : Graph) (id : ModuleId) : Prop := (g.nodes.get? id).isSome

variable {g : Graph}

theorem Maintained.reachable (h : g.Maintained) : g.Reachable := by
  induction h with
  | empty => exact .empty
  | step op _ hvalid _ ih => exact .step op ih hvalid

theorem Knows.modifyNode {id : ModuleId} (h : g.Knows id) (k : ModuleId) (f : Node → Node)
    : (g.modifyNode k f).Knows id := by
  unfold Knows Graph.modifyNode
  dsimp only
  rw [Dict.get?_modify]
  split
  · rw [Option.isSome_map]
    exact h
  · exact h

theorem knows_of_node {id : ModuleId} {n : Node} (h : g.nodes.get? id = some n) : g.Knows id := by
  unfold Knows
  rw [h]
  rfl

theorem Knows.descriptorOf {id : ModuleId} (h : g.Knows id) : ∃ d, g.descriptorOf id = .ok d := by
  obtain ⟨n, hn⟩ := Option.isSome_iff_exists.1 h
  refine ⟨n.exports, ?_⟩
  unfold Graph.descriptorOf node
  rw [hn]
  rfl

theorem module_congr {a b : ModuleId} (hid : a == b) {m : Module} (h : g.module a = .ok m)
    : g.module b = .ok m := by
  unfold Graph.module at h ⊢
  rw [Dict.get?_congr hid] at h
  split at h
  · exact h
  · contradiction

theorem descriptorOf_congr {a b : ModuleId} (hid : a == b) {d : DescriptorId} (h : g.descriptorOf a = .ok d)
    : g.descriptorOf b = .ok d := by
  unfold Graph.descriptorOf Graph.node at h ⊢
  rw [Dict.get?_congr hid] at h
  split at h
  · exact h
  · contradiction

theorem withNode_induction {α : Type} (motive : Graph → Prop) {id : ModuleId} {f : Node → Outcome α}
    (h : motive g) (hf : ∀ n, g.nodes.get? id = some n → motive (f n).graph)
    : motive (g.withNode id f).graph := by
  unfold withNode node
  cases hnode : g.nodes.get? id with
  | none => exact h
  | some n => exact hf n hnode

/--
The arena is one that operations on exports can have led to, and it has the descriptors of all modules.
-/
structure Sound (g : Graph) : Prop where
  arena : g.exports.Sound
  node : ∀ {id : ModuleId} {n : Node}, g.nodes.get? id = some n → n.exports.index < g.exports.descriptors.size

namespace Sound

theorem exports (h : g.Sound) : g.exports.Linked := h.arena.linked

theorem descriptorOf_lt (h : g.Sound) {id : ModuleId} {d : DescriptorId} (hd : g.descriptorOf id = .ok d)
    : d.index < g.exports.descriptors.size := by
  unfold Graph.descriptorOf Graph.node at hd
  cases hn : g.nodes.get? id with
  | none =>
    rw [hn] at hd
    contradiction
  | some n =>
    rw [hn] at hd
    cases hd
    exact h.node hn

end Sound

end Graph
end ModuleLink
