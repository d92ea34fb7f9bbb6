import ModuleLink.Proofs.Graph.Edges

/-!
This module contains what an operation that fails leaves behind. Most operations look up all that they need before they
change anything. Some look up the ends of a connection after changes were made. These are modules of the graph as long
as the ends of connections are left to it; otherwise such an operation may fail half-way.
-/

namespace ModuleLink
namespace Outcome

variable {α : Type} {g : Graph} {late : GraphError → Prop}

/--
If the operation failed, it left the graph `g` behind, unless the failure is a late one.
-/
def Keeps (g : Graph) (late : GraphError → Prop) (o : Outcome α) : Prop :=
  ∀ e, o.result = .error e → o.graph = g ∨ late e

def discard (o : Outcome α) : Outcome Unit := ⟨o.graph, o.result.map fun _ => ()⟩

namespace Keeps

theorem ok (g' : Graph) (a : α) : (Outcome.ok g' a).Keeps g late := by
  intro e h
  cases h

theorem fail (e : GraphError) : (Outcome.fail g e : Outcome α).Keeps g late := by
  intro _ _
  exact .inl rfl

theorem discard {o : Outcome α} (h : o.Keeps g late) : o.discard.Keeps g late := by
  intro e he
  apply h e
  cases hresult : o.result with
  | error e' =>
    unfold Outcome.discard at he
    rw [hresult] at he
    cases he
    rfl
  | ok a =>
    unfold Outcome.discard at he
    rw [hresult] at he
    cases he

theorem withNode {id : ModuleId} {f : Node → Outcome α} (hf : ∀ n, g.nodes.get? id = some n → (f n).Keeps g late)
    : (g.withNode id f).Keeps g late := by
  unfold Graph.withNode Graph.node
  cases hnode : g.nodes.get? id with
  | none => exact fail _
  | some n => exact hf n hnode

theorem withNode_late {g' : Graph} {id : ModuleId} {f : Node → Outcome α}
    (hunknown : ¬g'.Knows id → late (.moduleNotFound id)) (hf : ∀ n, (f n).Keeps g late)
    : (g'.withNode id f).Keeps g late := by
  unfold Graph.withNode Graph.node
  cases hnode : g'.nodes.get? id with
  | none =>
    intro e he
    cases he
    refine .inr (hunknown ?_)
    unfold Graph.Knows
    rw [hnode]
    exact nofun
  | some n => exact hf n

end Keeps
end Outcome

namespace GraphOp

/--
What an operation comes to: the graph that it leaves behind, and the error if it fails.
-/
def outcome (g : Graph) : GraphOp → Outcome Unit
  | .addModule m => .ok (g.addModule m).1 ()
  | .addDependency parent dependency => (g.addDependency parent dependency).discard
  | .connect origin d target => (g.connect origin d target).discard
  | .updateModule d target => (g.updateModule d target).discard
  | .removeConnection d => (g.removeConnection d).discard
  | .addExplanation d explanation => (g.addExplanation d explanation).discard
  | .updateConnection d f => (g.updateConnection d f).discard
  | .moveConnections old new accept => (g.moveConnections old new accept).discard
  | .copyOutgoing old new accept => (g.copyOutgoing old new accept).discard
  | .setIssuer id issuer => (g.setIssuer id issuer).discard
  | .setIssuerIfUnset id issuer => (g.setIssuerIfUnset id issuer).discard
  | .setPreOrderIfUnset id index => (g.setPreOrderIfUnset id index).discard
  | .setPostOrderIfUnset id index => (g.setPostOrderIfUnset id index).discard
  | .setDepthIfLower id depth => (g.setDepthIfLower id depth).discard
  | .setAsync id => (g.setAsync id).discard
  | .addBailout id reason => (g.addBailout id reason).discard
  | .markExportUsed id path state => (g.markExportUsed id path state).discard
  | .setExportTarget id name d path priority => (g.setExportTarget id name d path priority).discard
  | .exports (.setRedirect d target) =>
    { graph := { g with exports := (g.exports.setRedirect d target).1 }
      result := ((g.exports.setRedirect d target).2.map fun _ => ()).mapError .redirectCycle }
  | .exports op => .ok { g with exports := op.apply g.exports } ()

theorem graph_outcome (g : Graph) (op : GraphOp) : (op.outcome g).graph = op.apply g := by
  cases op with
  | exports op => cases op <;> rfl
  | _ => rfl

/--
The operation looks up the ends of a connection after it has made changes.
-/
def LooksBack : GraphOp → Prop
  | .updateModule _ _ | .removeConnection _ | .copyOutgoing _ _ _ => True
  | _ => False

end GraphOp

namespace Graph

variable {g : Graph} {late : GraphError → Prop}

/--
A connection has the module at one of its ends, and the graph does not have it.
-/
def Strays (g : Graph) (m : ModuleId) : Prop :=
  ¬g.Knows m ∧ ∃ c x, ∃ e : ConnectionEnd, g.connection? c = some x ∧ e.module? x = some m

theorem Maintained.not_strays (h : g.Maintained) (m : ModuleId) : ¬g.Strays m := by
  rintro ⟨hunknown, c, x, e, hx, hm⟩
  refine hunknown (h.consistent.ended (e := e) (c := c) ?_)
  rw [ends_of_connection? hx, hm]

theorem addDependency_keeps (g : Graph) (parent : Option ModuleId) (dependency : Dependency)
    : (g.addDependency parent dependency).Keeps g late := by
  unfold addDependency
  cases parent with
  | none => exact .ok _ _
  | some p => exact .withNode fun _ _ => .ok _ _

theorem connect_keeps (g : Graph) (origin : Option ModuleId) (d : DependencyId) (target : ModuleId)
    : (g.connect origin d target).Keeps g late := by
  unfold connect
  dsimp only
  split
  · exact .fail _
  · exact .ok _ _

theorem addExplanation_keeps (g : Graph) (d : DependencyId) (explanation : String)
    : (g.addExplanation d explanation).Keeps g late := by
  unfold addExplanation
  split
  · exact .fail _
  · exact .ok _ _

theorem updateConnection_keeps (g : Graph) (d : DependencyId) (f : Connection → Connection)
    : (g.updateConnection d f).Keeps g late := by
  unfold updateConnection
  split
  · exact .fail _
  · split
    · exact .fail _
    · exact .ok _ _

theorem moveConnections_keeps (g : Graph) (old new : ModuleId) (accept : Connection → Bool)
    : (g.moveConnections old new accept).Keeps g late := by
  unfold moveConnections
  split
  · exact .ok _ _
  · exact .withNode fun _ _ => .withNode fun _ _ => .ok _ _

theorem editNode_keeps {α : Type} (g : Graph) (id : ModuleId) (f : Node → Node) (result : Node → α)
    : (g.editNode id f result).Keeps g late :=
  .withNode fun _ _ => .ok _ _

theorem markExportUsed_keeps (g : Graph) (id : ModuleId) (path : List String) (state : Usage)
    : (g.markExportUsed id path state).Keeps g late :=
  .withNode fun _ _ => .ok _ _

theorem setExportTarget_keeps (g : Graph) (id : ModuleId) (name : String) (d : DependencyId)
    (path : Option (List String)) (priority : Int) : (g.setExportTarget id name d path priority).Keeps g late := by
  unfold setExportTarget
  split
  · exact .fail _
  · exact .withNode fun _ _ => .ok _ _

theorem setRedirect_keeps (a : Arena) (d : DescriptorId) (target : Option DescriptorId) {e : RedirectCycle}
    (h : (a.setRedirect d target).2 = .error e) : (a.setRedirect d target).1 = a := by
  unfold Arena.setRedirect at h ⊢
  split at h
  · cases h
  · next hchange =>
    rw [if_neg hchange]
    cases target with
    | none => cases h
    | some t =>
      dsimp only at h ⊢
      split at h
      · next hcycle => rw [if_pos hcycle]
      · cases h

section Late

variable (hlate : ∀ m, g.Strays m → late (.moduleNotFound m))

include hlate

theorem updateModule_keeps (d : DependencyId) (target : ModuleId) : (g.updateModule d target).Keeps g late := by
  -- The origin of the connection that is replaced is looked up when the new connection is already there.
  apply Outcome.Keeps.withNode
  intro n hn
  split
  · exact .fail _
  · next old hold =>
    split
    · exact .fail _
    · next x hx =>
      split
      · exact .ok _ _
      · dsimp only
        split
        · exact .ok _ _
        · next origin horigin =>
          refine .withNode_late (fun hunknown => ?_) fun _ => .ok _ _
          exact hlate _ ⟨hunknown, old, x, .outgoing, hx, horigin⟩

theorem removeConnection_keeps (h : g.Tables) (d : DependencyId) : (g.removeConnection d).Keeps g late := by
  -- A connection is removed before its ends are looked up.
  unfold Graph.removeConnection
  cases hcurrent : g.current.get? d with
  | none => exact .ok _ _
  | some c =>
    obtain ⟨_, x, hx⟩ := h.current hcurrent
    have hx' : { g with current := g.current.erase d }.connection? c = some x := hx
    simp only [hx']
    split
    · refine .withNode_late (fun hunknown => ?_) fun _ => .ok _ _
      exact hlate _ ⟨hunknown, c, x, .incoming, hx, rfl⟩
    · next origin horigin =>
      refine .withNode_late (fun hunknown => ?_) fun _ => .withNode_late (fun hunknown => ?_) fun _ => .ok _ _
      · exact hlate _ ⟨hunknown, c, x, .outgoing, hx, horigin⟩
      · refine hlate _ ⟨fun hknown => hunknown ?_, c, x, .incoming, hx, rfl⟩
        exact .modifyNode hknown _ _

omit hlate in
theorem copyOutgoing_go_keeps {g' : Graph} {new : ModuleId} {count : Nat} {xs : List Connection}
    (hxs : ∀ x ∈ xs, ¬g'.Knows x.target → late (.moduleNotFound x.target))
    : (copyOutgoing.go new count g' xs).Keeps g late := by
  -- Copies are made one after the other, and none of them makes a module known or unknown.
  induction xs generalizing g' with
  | nil => exact .ok _ _
  | cons x xs ih =>
    have ⟨hx, hxs⟩ := List.forall_mem_cons.1 hxs
    refine .withNode_late (fun hunknown => hx fun hknown => hunknown ?_) fun n => ih fun y hy hunknown => ?_
    · exact .modifyNode hknown _ _
    · refine hxs y hy fun hknown => hunknown ?_
      have hknown : g'.Knows y.target := hknown
      exact .modifyNode (.modifyNode hknown _ _) _ _

theorem copyOutgoing_keeps (old new : ModuleId) (accept : Connection → Bool)
    : (g.copyOutgoing old new accept).Keeps g late := by
  unfold Graph.copyOutgoing
  split
  · exact .ok _ _
  · refine .withNode fun _ _ => .withNode fun n _ => copyOutgoing_go_keeps fun x hx hunknown => ?_
    obtain ⟨c, -, hc⟩ := List.mem_filterMap.1 (List.mem_filter.1 hx).1
    exact hlate _ ⟨hunknown, c, x, .incoming, hc, rfl⟩

end Late

theorem outcome_keeps (h : g.Tables) (op : GraphOp)
    : (op.outcome g).Keeps g fun e => op.LooksBack ∧ ∃ m, e = .moduleNotFound m ∧ g.Strays m := by
  cases op with
  | addModule m => exact .ok _ _
  | addDependency parent dependency => exact (addDependency_keeps g parent dependency).discard
  | connect origin d target => exact (connect_keeps g origin d target).discard
  | updateModule d target =>
    exact (updateModule_keeps (fun m hm => ⟨trivial, m, rfl, hm⟩) d target).discard
  | removeConnection d =>
    exact (removeConnection_keeps (fun m hm => ⟨trivial, m, rfl, hm⟩) h d).discard
  | addExplanation d explanation => exact (addExplanation_keeps g d explanation).discard
  | updateConnection d f => exact (updateConnection_keeps g d f).discard
  | moveConnections old new accept => exact (moveConnections_keeps g old new accept).discard
  | copyOutgoing old new accept =>
    exact (copyOutgoing_keeps (fun m hm => ⟨trivial, m, rfl, hm⟩) old new accept).discard
  | markExportUsed id path state => exact (markExportUsed_keeps g id path state).discard
  | setExportTarget id name d path priority => exact (setExportTarget_keeps g id name d path priority).discard
  | exports op =>
    cases op with
    | setRedirect d target =>
      intro e he
      cases hresult : (g.exports.setRedirect d target).2 with
      | error e' =>
        have hkept := setRedirect_keeps g.exports d target hresult
        exact .inl (congrArg (fun exports => { g with exports }) hkept)
      | ok changed =>
        simp only [GraphOp.outcome, hresult] at he
        cases he
    | _ => exact .ok _ _
  | _ => exact (editNode_keeps g _ _ _).discard

/--
An operation that fails leaves the graph as it was, if the ends of connections are left to the graph. If they are not,
this is still so for all operations but three, and for these unless a connection ends at a module that is missing.
-/
theorem failure_keeps_graph (h : g.Reachable) {op : GraphOp} {e : GraphError}
    (hresult : (op.outcome g).result = .error e)
    : (op.apply g = g ∨ op.LooksBack ∧ ∃ m, e = .moduleNotFound m ∧ g.Strays m)
        ∧
      (g.Maintained → op.apply g = g) := by
  have hkeeps := outcome_keeps h.tables op e hresult
  rw [GraphOp.graph_outcome] at hkeeps
  refine ⟨hkeeps, fun hmaintained => ?_⟩
  rcases hkeeps with hsame | ⟨-, m, -, hstrays⟩
  · exact hsame
  · exact absurd hstrays (hmaintained.not_strays m)

end Graph

namespace Sample

def ghost : ModuleId := ⟨"./ghost"⟩

def haunted : Graph := (GraphOp.updateConnection ⟨0⟩ ({ · with target := ghost })).apply rewired

theorem haunted_reachable : haunted.Reachable :=
  .step _ rewired_maintained.reachable fun _ => id

end Sample

theorem Graph.failure_keeps_graph_sample
    : Sample.rewired.Maintained ∧
      ((GraphOp.updateModule ⟨1⟩ Sample.page).outcome Sample.rewired).result = .error (.notConnected ⟨1⟩) ∧
      (GraphOp.updateModule ⟨1⟩ Sample.page).apply Sample.rewired = Sample.rewired ∧
      ((GraphOp.exports (.setRedirect ⟨1⟩ (some ⟨1⟩))).outcome Sample.rewired).result
        = .error (.redirectCycle ⟨⟨1⟩, ⟨1⟩⟩) ∧
      (GraphOp.exports (.setRedirect ⟨1⟩ (some ⟨1⟩))).apply Sample.rewired = Sample.rewired ∧
      Sample.haunted.Reachable ∧
      ((GraphOp.connect none ⟨0⟩ Sample.ghost).outcome Sample.haunted).result
        = .error (.moduleNotFound Sample.ghost) ∧
      (GraphOp.connect none ⟨0⟩ Sample.ghost).apply Sample.haunted = Sample.haunted := by
  have hreachable := Sample.rewired_maintained.reachable
  have hmodule : ((GraphOp.updateModule ⟨1⟩ Sample.page).outcome Sample.rewired).result
      = .error (.notConnected ⟨1⟩) := by decide +kernel
  have hredirect : ((GraphOp.exports (.setRedirect ⟨1⟩ (some ⟨1⟩))).outcome Sample.rewired).result
      = .error (.redirectCycle ⟨⟨1⟩, ⟨1⟩⟩) := by decide +kernel
  have hconnect : ((GraphOp.connect none ⟨0⟩ Sample.ghost).outcome Sample.haunted).result
      = .error (.moduleNotFound Sample.ghost) := by decide +kernel
  exact ⟨Sample.rewired_maintained, hmodule, (failure_keeps_graph hreachable hmodule).2 Sample.rewired_maintained,
    hredirect, (failure_keeps_graph hreachable hredirect).2 Sample.rewired_maintained, Sample.haunted_reachable,
    hconnect, (failure_keeps_graph Sample.haunted_reachable hconnect).1.resolve_right And.left⟩

/--
A connection that ends at a missing module is removed, although the operation fails.
-/
theorem Graph.failure_changes_graph
    : Sample.haunted.Reachable ∧
      ((GraphOp.removeConnection ⟨0⟩).outcome Sample.haunted).result = .error (.moduleNotFound Sample.ghost) ∧
      (Sample.haunted.currentConnection? ⟨0⟩).isSome ∧
      ((GraphOp.removeConnection ⟨0⟩).apply Sample.haunted).currentConnection? ⟨0⟩ = none ∧
      (GraphOp.removeConnection ⟨0⟩).apply Sample.haunted ≠ Sample.haunted := by
  have hbefore : (Sample.haunted.currentConnection? ⟨0⟩).isSome := by decide +kernel
  have hafter : ((GraphOp.removeConnection ⟨0⟩).apply Sample.haunted).currentConnection? ⟨0⟩ = none := by
    decide +kernel
  refine ⟨Sample.haunted_reachable, by decide +kernel, hbefore, hafter, fun hsame => ?_⟩
  rw [hsame] at hafter
  rw [hafter] at hbefore
  cases hbefore

end ModuleLink
