import ModuleLink.Proofs.Graph.Lists

/-!
This module contains the proof that the tables of a module graph agree with each other in every graph that operations
lead to which leave the ends of connections to the graph: a connection is listed by the modules where it starts and
ends and by no others, the current connection of a dependency is one that was made for it, and no two modules share a
descriptor.
-/

namespace ModuleLink
namespace Graph

variable {g : Graph}

theorem withNode_of_knows {α : Type} {id : ModuleId} (h : g.Knows id) (r : Outcome α)
    : (g.withNode id fun _ => r) = r := by
  obtain ⟨n, hn⟩ := Option.isSome_iff_exists.1 h
  unfold withNode node
  rw [hn]

theorem Knows.listOutgoing {id : ModuleId} (h : g.Knows id) (origin : Option ModuleId) (c : ConnectionId)
    : (g.listOutgoing origin c).Knows id := by
  unfold Graph.listOutgoing
  split
  · exact h
  · exact h.modifyNode _ _

def Consistent (g : Graph) : Prop := g.Lists g.ends

theorem Consistent.of_ends {ends : ConnectionEnds} (h : g.Lists ends) (hends : g.ends = ends)
    : g.Consistent := by
  unfold Consistent
  rw [hends]
  exact h

theorem ends_new (g : Graph) (e : ConnectionEnd) : g.ends (e, ⟨g.connections.size⟩) = none := by
  unfold ends
  rw [connection?_new]
  rfl

theorem ends_modifyNode (id : ModuleId) (f : Node → Node) : (g.modifyNode id f).ends = g.ends := rfl

theorem ends_setCurrent (d : DependencyId) (c : ConnectionId) : (g.setCurrent d c).ends = g.ends := rfl

theorem ends_listOutgoing (origin : Option ModuleId) (c : ConnectionId)
    : (g.listOutgoing origin c).ends = g.ends := by
  cases origin <;> rfl

theorem connections_listOutgoing (origin : Option ModuleId) (c : ConnectionId)
    : (g.listOutgoing origin c).connections = g.connections := by
  cases origin <;> rfl

theorem ends_unlistOutgoing (origin : Option ModuleId) (c : ConnectionId)
    : (g.unlistOutgoing origin c).ends = g.ends := by
  cases origin <;> rfl

theorem ends_move {e : ConnectionEnd} {old new : ModuleId} {c : ConnectionId} {m : ModuleId}
    (hm : g.ends (e, c) = some m) : (move e old new g c).ends = Function.update g.ends (e, c) (some new) := by
  obtain ⟨x, hx, _⟩ := Option.bind_eq_some_iff.1 hm
  exact ends_redirect hx new

def copyConnection (new : ModuleId) (g : Graph) (x : Connection) : Graph :=
  ((g.pushConnection (x.copied new)).1.modifyNode new
    (ConnectionEnd.outgoing.add ⟨g.connections.size⟩ ·)).modifyNode x.target
      (ConnectionEnd.incoming.add ⟨g.connections.size⟩ ·)

theorem copyOutgoing_go_cons {x : Connection} (h : g.Knows x.target) (new : ModuleId) (count : Nat)
    (xs : List Connection)
    : copyOutgoing.go new count g (x :: xs) = copyOutgoing.go new count (copyConnection new g x) xs := by
  refine (withNode_of_knows ?_ _).trans rfl
  exact .modifyNode h _ _

namespace Consistent

theorem known_target (h : g.Consistent) {c : ConnectionId} {x : Connection} (hx : g.connection? c = some x)
    : g.Knows x.target :=
  h.ended (ends_of_connection? hx .incoming)

theorem known_origin (h : g.Consistent) {c : ConnectionId} {x : Connection} (hx : g.connection? c = some x)
    {o : ModuleId} (ho : x.origin = some o) : g.Knows o := by
  apply h.ended (e := .outgoing) (c := c)
  rw [ends_of_connection? hx]
  exact ho

theorem updateModule_cases (h : g.Consistent) (d : DependencyId) (target : ModuleId)
    : (g.updateModule d target).graph = g
        ∨
      ∃ old x, g.current.get? d = some old ∧ g.connection? old = some x ∧ g.Knows target ∧
        (x.target == target) = false ∧
        (g.updateModule d target).graph
          =
        ((((g.pushConnection (x.retargeted target)).1.modifyConnection old (·.setActive false)).setCurrent d
            ⟨g.connections.size⟩).listOutgoing x.origin ⟨g.connections.size⟩).modifyNode target
          (ConnectionEnd.incoming.add ⟨g.connections.size⟩ ·) := by
  by_cases htarget : g.Knows target
  · unfold Graph.updateModule
    rw [withNode_of_knows htarget]
    cases hold : g.current.get? d with
    | none => exact .inl rfl
    | some old =>
      obtain ⟨_, x, hx⟩ := h.current hold
      simp only [hx]
      split
      · exact .inl rfl
      · next hsame =>
        refine .inr ⟨old, x, rfl, hx, htarget, by simpa using hsame, ?_⟩
        obtain ⟨_, origin⟩ := x
        cases origin with
        | none => rfl
        | some o =>
          refine (congrArg Outcome.graph (withNode_of_knows ?_ _)).trans rfl
          exact h.known_origin hx rfl
  · left
    apply withNode_induction (· = g) rfl
    intro n hn
    exact absurd (knows_of_node hn) htarget

theorem removeConnection_cases (h : g.Consistent) (d : DependencyId)
    : (g.removeConnection d).graph = g
        ∨
      ∃ c x, g.current.get? d = some c ∧ g.connection? c = some x ∧
        (g.removeConnection d).graph
          =
        ((g.dropConnection d c).unlistOutgoing x.origin c).modifyNode x.target
          (ConnectionEnd.incoming.remove c ·) := by
  unfold Graph.removeConnection
  cases hc : g.current.get? d with
  | none => exact .inl rfl
  | some c =>
    obtain ⟨_, x, hx⟩ := h.current hc
    refine .inr ⟨c, x, rfl, hx, ?_⟩
    have hx' : { g with current := g.current.erase d }.connection? c = some x := hx
    have htarget := h.known_target hx
    simp only [hx']
    cases horigin : x.origin with
    | none =>
      refine (congrArg Outcome.graph (withNode_of_knows ?_ _)).trans rfl
      exact htarget
    | some o =>
      refine (congrArg Outcome.graph (withNode_of_knows ?_ _)).trans ?_
      · exact h.known_origin hx horigin
      · refine (congrArg Outcome.graph (withNode_of_knows ?_ _)).trans rfl
        exact .modifyNode htarget _ _

theorem connect (h : g.Consistent) (origin : Option ModuleId) (d : DependencyId) (target : ModuleId)
    : (g.connect origin d target).graph.Consistent := by
  rcases connect_cases g origin d target with ⟨_, hsame⟩ | ⟨decl, hdecl, htarget, horigin, hgraph⟩
  · rw [hsame]
    exact h
  · rw [hgraph]
    have hpushed := h.push (fun c => .resolve c origin d decl.dependency target) (fun _ => rfl)
      fun _ => List.nodup_nil
    have hnew : (g.pushConnection fun c => .resolve c origin d decl.dependency target).1.connection?
        ⟨g.connections.size⟩ = some (.resolve ⟨g.connections.size⟩ origin d decl.dependency target) := by
      rw [connection?_push, if_pos rfl]
    have hlt := connection?_lt hnew
    have hcurrent := hpushed.setCurrent
      (hpushed.toTables.setCurrent_new h.toTables rfl (declared_lt hdecl) ⟨_, hnew⟩) hnew rfl
    have hincoming := hcurrent.add hlt (g.ends_new .incoming) target htarget
    have houtgoing := hincoming.listOutgoing hlt
      (by rw [Function.update_of_ne (by simp)]; exact g.ends_new .outgoing) origin
      fun o ho => .modifyNode (horigin o ho) _ _
    apply of_ends houtgoing
    rw [ends_listOutgoing, ends_modifyNode, ends_setCurrent, ends_push]
    rfl

theorem updateModule (h : g.Consistent) (d : DependencyId) (target : ModuleId)
    : (g.updateModule d target).graph.Consistent := by
  rcases h.updateModule_cases d target with hsame | ⟨old, x, hold, hx, htarget, _, hgraph⟩
  · rw [hsame]
    exact h
  · rw [hgraph]
    have hne : old ≠ ⟨g.connections.size⟩ := by
      rintro rfl
      rw [connection?_new] at hx
      contradiction
    have hpushed := h.push (x.retargeted target) (fun _ => rfl) fun _ => h.explanations (x := x) hx
    have hswitched := hpushed.modifyConnection old (f := (·.setActive false)) (fun _ => rfl) (fun _ => rfl) fun _ => id
    have hnew : ((g.pushConnection (x.retargeted target)).1.modifyConnection old (·.setActive false)).connection?
        ⟨g.connections.size⟩ = some (x.retargeted target ⟨g.connections.size⟩) := by
      rw [connection?_modify, if_neg hne, connection?_push, if_pos rfl]
    have hlt := connection?_lt hnew
    have hdependency : x.dependency = some d := h.dependency hold hx
    have hcurrent := hswitched.setCurrent
      (hswitched.toTables.setCurrent_new h.toTables rfl (h.current hold).1 ⟨_, hnew⟩) hnew hdependency
    have houtgoing := hcurrent.listOutgoing hlt (g.ends_new .outgoing) x.origin fun o ho => h.known_origin hx ho
    have hincoming := houtgoing.add (e := .incoming) (c := ⟨g.connections.size⟩)
      (by rw [connections_listOutgoing]; exact hlt)
      (by rw [Function.update_of_ne (by simp)]; exact g.ends_new .incoming) target
      (by apply Knows.listOutgoing; exact htarget)
    apply of_ends hincoming
    rw [ends_modifyNode, ends_listOutgoing, ends_setCurrent, ends_modify fun e x => e.module?_setActive x false]
    rw [ends_push, Function.update_comm (by simp)]
    rfl

theorem removeConnection (h : g.Consistent) (d : DependencyId) : (g.removeConnection d).graph.Consistent := by
  rcases h.removeConnection_cases d with hsame | ⟨c, x, hc, hx, hgraph⟩
  · rw [hsame]
    exact h
  · rw [hgraph]
    have hends := ends_of_connection? hx
    have hdropped := h.dropConnection hc
    have houtgoing := hdropped.unlistOutgoing (hends .outgoing)
    have hincoming := houtgoing.remove (e := .incoming) (c := c) (m := x.target)
      (by rw [Function.update_of_ne (by simp)]; exact hends .incoming) BEq.rfl
    apply of_ends hincoming
    rw [ends_modifyNode, ends_unlistOutgoing, ends_drop]

theorem editConnection (h : g.Consistent) (c : ConnectionId) {f : Connection → Connection}
    (hf : ∀ x : Connection, x.SameEdge (f x)) (hexplanations : ∀ x, x.explanations.Nodup → (f x).explanations.Nodup)
    : (g.modifyConnection c f).Consistent := by
  apply of_ends (h.modifyConnection c (fun x => (hf x).id) (fun x => (hf x).dependency) hexplanations)
  rw [ends_modify]
  intro e x
  cases e with
  | incoming => exact congrArg some (hf x).target
  | outgoing => exact (hf x).origin

theorem addExplanation (h : g.Consistent) (d : DependencyId) (explanation : String)
    : (g.addExplanation d explanation).graph.Consistent := by
  unfold Graph.addExplanation
  split
  · exact h
  · exact h.editConnection _ (fun _ => {}) fun x hx => nodup_addDistinct hx explanation

theorem updateConnection (h : g.Consistent) (d : DependencyId) {f : Connection → Connection}
    (hf : ∀ x : Connection, x.SameEdge (f x)) (hexplanations : ∀ x, x.explanations.Nodup → (f x).explanations.Nodup)
    : (g.updateConnection d f).graph.Consistent := by
  unfold Graph.updateConnection
  split
  · exact h
  · split
    · exact h
    · exact h.editConnection _ hf hexplanations

theorem move_step (h : g.Consistent) {e : ConnectionEnd} {old new : ModuleId} (hnew : g.Knows new)
    {c : ConnectionId} {m : ModuleId} (hm : g.ends (e, c) = some m) (hold : m == old)
    : (move e old new g c).Consistent := by
  have hredirected := h.modifyConnection c (f := (e.redirect new ·)) (fun x => by cases e <;> rfl)
    (fun x => by cases e <;> rfl) fun x hx => by cases e <;> exact hx
  have hremoved := hredirected.remove hm hold
  have hlt : c.index < ((g.modifyConnection c (e.redirect new ·)).modifyNode old (e.remove c ·)).connections.size := by
    obtain ⟨x, hx, -⟩ := Option.bind_eq_some_iff.1 hm
    simpa [Graph.modifyConnection, Graph.modifyNode] using connection?_lt hx
  have hadded := hremoved.add (e := e) (c := c) hlt (Function.update_self ..) new (.modifyNode hnew _ _)
  apply of_ends hadded
  rw [Function.update_idem]
  exact ends_move hm

theorem move_run {e : ConnectionEnd} {old new : ModuleId} {cs : List ConnectionId} (hcs : cs.Nodup)
    (h : g.Consistent) (hnew : g.Knows new) (hends : ∀ c ∈ cs, ∃ m, g.ends (e, c) = some m ∧ m == old)
    : (cs.foldl (move e old new) g).Consistent ∧ (cs.foldl (move e old new) g).Knows new ∧
      ∀ p, p.1 ≠ e → (cs.foldl (move e old new) g).ends p = g.ends p := by
  -- All connections that are still to be moved end at `old`, since none is listed twice.
  induction cs generalizing g with
  | nil => exact ⟨h, hnew, fun _ _ => rfl⟩
  | cons c cs ih =>
    have ⟨hc, hcs'⟩ := List.nodup_cons.1 hcs
    obtain ⟨m, hm, hold⟩ := hends c List.mem_cons_self
    rw [List.foldl_cons]
    have hmoved : (move e old new g c).ends = _ := ends_move hm
    have hrest : ∀ c' ∈ cs, ∃ m, (move e old new g c).ends (e, c') = some m ∧ m == old := by
      intro c' hc'
      have hne : (e, c') ≠ (e, c) := by
        rintro ⟨⟩
        exact hc hc'
      rw [hmoved, Function.update_of_ne hne]
      exact hends c' (List.mem_cons_of_mem _ hc')
    have ⟨hconsistent, hknows, hothers⟩ := ih hcs' (h.move_step hnew hm hold)
      (.modifyNode (.modifyNode hnew _ _) _ _) hrest
    refine ⟨hconsistent, hknows, ?_⟩
    intro p hp
    rw [hothers p hp, hmoved, Function.update_of_ne]
    rintro rfl
    exact hp rfl

theorem moveConnections (h : g.Consistent) (old new : ModuleId) (accept : Connection → Bool)
    : (g.moveConnections old new accept).graph.Consistent := by
  unfold Graph.moveConnections
  split
  · exact h
  · apply withNode_induction Consistent h
    intro n hn
    apply withNode_induction Consistent h
    intro m hm
    have hends : ∀ (e : ConnectionEnd), ∀ c ∈ e.listed m, ∃ k, g.ends (e, c) = some k ∧ k == old :=
      fun e c hc => (h.listed hm e c).1 hc
    have ⟨hmoved, hnew, hothers⟩ := move_run ((h.nodup hm .outgoing).filter fun c => (g.connection? c).any accept) h
      (knows_of_node hn) fun c hc => hends .outgoing c (List.mem_filter.1 hc).1
    refine (move_run (e := .incoming) ((h.nodup hm .incoming).filter _) hmoved hnew ?_).1
    intro c hc
    rw [hothers _ (by simp)]
    exact hends .incoming c (List.mem_filter.1 hc).1

theorem copyConnection (h : g.Consistent) {new : ModuleId} (hnew : g.Knows new) {x : Connection}
    (hx : g.Knows x.target) (hexplanations : x.explanations.Nodup) : (copyConnection new g x).Consistent := by
  have hpushed := h.push (x.copied new) (fun _ => rfl) fun _ => hexplanations
  have hlt : g.connections.size < (g.pushConnection (x.copied new)).1.connections.size := by
    simp [Graph.pushConnection]
  have houtgoing := hpushed.add (e := .outgoing) (c := ⟨g.connections.size⟩) hlt (g.ends_new .outgoing) new hnew
  have hincoming := houtgoing.add (e := .incoming) (c := ⟨g.connections.size⟩) hlt
    (by rw [Function.update_of_ne (by simp)]; exact g.ends_new .incoming) x.target (.modifyNode hx _ _)
  apply of_ends hincoming
  rw [Function.update_comm (by simp)]
  exact ends_push _

theorem copyOutgoing_go {new : ModuleId} {count : Nat} {xs : List Connection} (h : g.Consistent)
    (hnew : g.Knows new) (hxs : ∀ x ∈ xs, g.Knows x.target) (hexplanations : ∀ x ∈ xs, x.explanations.Nodup)
    : (copyOutgoing.go new count g xs).graph.Consistent := by
  induction xs generalizing g with
  | nil => exact h
  | cons x xs ih =>
    have ⟨hx, hxs⟩ := List.forall_mem_cons.1 hxs
    have ⟨hfirst, hrest⟩ := List.forall_mem_cons.1 hexplanations
    rw [copyOutgoing_go_cons hx]
    refine ih (h.copyConnection hnew hx hfirst) ?_ (fun y hy => ?_) hrest
    · exact .modifyNode (.modifyNode hnew _ _) _ _
    · have hknows : g.Knows y.target := hxs y hy
      exact .modifyNode (.modifyNode hknows _ _) _ _

theorem known_copied (h : g.Consistent) (accept : Connection → Bool) (cs : List ConnectionId)
    : ∀ x ∈ (cs.filterMap g.connection?).filter accept, g.Knows x.target := by
  intro x hx
  obtain ⟨c, _, hc⟩ := List.mem_filterMap.1 (List.mem_filter.1 hx).1
  exact h.known_target hc

theorem copyOutgoing (h : g.Consistent) (old new : ModuleId) (accept : Connection → Bool)
    : (g.copyOutgoing old new accept).graph.Consistent := by
  unfold Graph.copyOutgoing
  split
  · exact h
  · apply withNode_induction Consistent h
    intro n hn
    apply withNode_induction Consistent h
    intro m hm
    refine h.copyOutgoing_go (knows_of_node hn) (h.known_copied accept _) fun x hx => ?_
    obtain ⟨c, _, hc⟩ := List.mem_filterMap.1 (List.mem_filter.1 hx).1
    exact h.explanations hc

theorem addDependency (h : g.Consistent) (parent : Option ModuleId) (dependency : Dependency)
    : (g.addDependency parent dependency).graph.Consistent := by
  have htables := h.toTables.addDependency parent dependency
  have hadded : ({ g with dependencies := g.dependencies.push ⟨dependency, parent⟩ } : Graph).Consistent :=
    { h.toTables.declare ⟨dependency, parent⟩ with
      number := h.number, dependency := h.dependency, listed := h.listed, ended := h.ended }
  unfold Graph.addDependency at htables ⊢
  dsimp only at htables ⊢
  split at htables
  · exact hadded
  · next p =>
    unfold Graph.withNode at htables ⊢
    split at htables
    · refine hadded.modifyNode p htables fun e n => ?_
      cases e <;> rfl
    · exact h

theorem addModule (h : g.Consistent) (m : Module) : (g.addModule m).1.Consistent := by
  have htables := h.toTables.addModule m
  unfold Graph.addModule at htables ⊢
  dsimp only at htables ⊢
  split at htables
  · exact { htables with number := h.number, dependency := h.dependency, listed := h.listed, ended := h.ended }
  · next hnode =>
    exact { htables with
      number := h.number
      dependency := h.dependency
      listed := by
        intro id n hn e c
        dsimp only at hn
        rw [Dict.get?_insert] at hn
        split at hn
        · next hid =>
          -- A new module lists nothing, and nothing ends at it.
          cases hn
          constructor
          · intro hc
            cases e <;> cases hc
          · rintro ⟨k, hk, hkid⟩
            have hknows := h.ended hk
            unfold Knows at hknows
            rw [Dict.get?_congr (BEq.trans hkid (BEq.symm hid)), hnode] at hknows
            contradiction
        · exact h.listed hn e c
      ended := by
        intro e c k hk
        unfold Knows
        rw [Dict.get?_insert]
        split
        · rfl
        · exact h.ended hk }

theorem editNode {α : Type} (h : g.Consistent) (id : ModuleId) {f : Node → Node} (result : Node → α)
    (hexports : ∀ n, (f n).exports = n.exports) (hlisted : ∀ (e : ConnectionEnd) n, e.listed (f n) = e.listed n)
    (hdependencies : ∀ n, (f n).dependencies = n.dependencies) : (g.editNode id f result).graph.Consistent := by
  apply withNode_induction Consistent h
  intro n hn
  exact h.modifyNode id (h.toTables.editNode id hexports hlisted hdependencies) hlisted

theorem withExports (h : g.Consistent) {exports : Arena} (htables : ({ g with exports } : Graph).Tables)
    : ({ g with exports } : Graph).Consistent :=
  { htables with number := h.number, dependency := h.dependency, listed := h.listed, ended := h.ended }

theorem step (h : g.Consistent) (op : GraphOp) (hop : op.Valid g) (hkeeps : op.KeepsEdges)
    : (op.apply g).Consistent := by
  cases op with
  | addModule m => exact h.addModule m
  | addDependency parent dependency => exact h.addDependency parent dependency
  | connect origin d target => exact h.connect origin d target
  | updateModule d target => exact h.updateModule d target
  | removeConnection d => exact h.removeConnection d
  | addExplanation d explanation => exact h.addExplanation d explanation
  | updateConnection d f => exact h.updateConnection d hkeeps hop
  | moveConnections old new accept => exact h.moveConnections old new accept
  | copyOutgoing old new accept => exact h.copyOutgoing old new accept
  | setDepthIfLower id depth =>
    apply h.editNode
    · intro n
      split <;> rfl
    · intro e n
      split <;> cases e <;> rfl
    · intro n
      split <;> rfl
  | markExportUsed id path state =>
    have htables := h.toTables.markExportUsed id path state
    simp only [GraphOp.apply, Graph.markExportUsed, Graph.withNode] at htables ⊢
    split at htables
    · exact h.withExports htables
    · exact h
  | setExportTarget id name d path priority =>
    have htables := h.toTables.setExportTarget id name d path priority
    simp only [GraphOp.apply, Graph.setExportTarget, Graph.withNode] at htables ⊢
    split at htables
    · exact h
    · split at htables
      · exact h.withExports htables
      · exact h
  | exports op => exact h.withExports (h.toTables.exportsOp op hop)
  | _ => exact h.editNode _ _ (fun _ => rfl) (fun e _ => by cases e <;> rfl) fun _ => rfl

end Consistent

theorem consistent_empty : ({} : Graph).Consistent where
  toTables := .empty
  number := by simp [connection?]
  dependency := by simp
  listed := by simp
  ended := by simp [ends, connection?]

theorem Maintained.consistent (h : g.Maintained) : g.Consistent := by
  induction h with
  | empty => exact consistent_empty
  | step op _ hvalid hkeeps ih => exact ih.step op hvalid hkeeps

structure AgreeingTables (g : Graph) : Prop where
  connection : ∀ c x, g.connection? c = some x →
    x.id = c ∧
    (∃ n, g.nodes.get? x.target = some n ∧ c ∈ n.incoming) ∧
    ∀ o, x.origin = some o → ∃ n, g.nodes.get? o = some n ∧ c ∈ n.outgoing.getD []
  incoming : ∀ id n, g.nodes.get? id = some n → ∀ c ∈ n.incoming,
    ∃ x, g.connection? c = some x ∧ x.target == id
  outgoing : ∀ id n, g.nodes.get? id = some n → ∀ c ∈ n.outgoing.getD [],
    ∃ x o, g.connection? c = some x ∧ x.origin = some o ∧ o == id
  current : ∀ d c, g.current.get? d = some c →
    d.index < g.dependencies.size ∧ ∃ x, g.connection? c = some x ∧ x.dependency = some d
  modules : ∀ id, g.modules.contains id = g.nodes.contains id
  descriptors : ∀ a b m n, g.nodes.get? a = some m → g.nodes.get? b = some n → (a == b) = false →
    m.exports ≠ n.exports

theorem edges_agree (h : g.Maintained) : g.AgreeingTables where
  connection := by
    intro c x hx
    have hlisted : ∀ {e : ConnectionEnd} {id : ModuleId}, e.module? x = some id →
        ∃ n, g.nodes.get? id = some n ∧ c ∈ e.listed n := by
      intro e id hid
      have hends : g.ends (e, c) = some id := (ends_of_connection? hx e).trans hid
      obtain ⟨n, hn⟩ := Option.isSome_iff_exists.1 (h.consistent.ended hends)
      exact ⟨n, hn, (h.consistent.listed hn e c).2 ⟨id, hends, BEq.rfl⟩⟩
    exact ⟨h.consistent.number hx, hlisted (e := .incoming) rfl, fun o ho => hlisted (e := .outgoing) ho⟩
  incoming := by
    intro id n hn c hc
    obtain ⟨m, hm, hid⟩ := (h.consistent.listed hn .incoming c).1 hc
    obtain ⟨x, hx, hxm⟩ := Option.bind_eq_some_iff.1 hm
    cases hxm
    exact ⟨x, hx, hid⟩
  outgoing := by
    intro id n hn c hc
    obtain ⟨m, hm, hid⟩ := (h.consistent.listed hn .outgoing c).1 hc
    obtain ⟨x, hx, hxm⟩ := Option.bind_eq_some_iff.1 hm
    exact ⟨x, m, hx, hxm, hid⟩
  current := by
    intro d c hc
    obtain ⟨hd, x, hx⟩ := h.consistent.current hc
    exact ⟨hd, x, hx, h.consistent.dependency hc hx⟩
  modules := h.consistent.known
  descriptors := by
    intro a b m n hm hn hab heq
    rw [h.consistent.descriptors hm hn heq] at hab
    cases hab

end Graph

namespace Sample

def page : ModuleId := ⟨"./page"⟩
def store : ModuleId := ⟨"./store"⟩

def limits : List ConnectionEdit := [.addCondition (.inRuntimes (.single "main")), .addExplanation "limited"]

/--
A module that imports itself is resolved anew, moved and copied, and loses one of its connections. The other one is
limited before that.
-/
def rewiring : List GraphOp := [
  .addModule { id := page }, .addModule { id := store },
  .addDependency (some page) { request := "./page" }, .connect (some page) ⟨0⟩ page,
  .addDependency (some page) { request := "./store" }, .connect (some page) ⟨1⟩ store,
  .updateConnection ⟨0⟩ fun c => limits.foldl ConnectionEdit.apply c,
  .updateModule ⟨0⟩ store, .moveConnections page store fun _ => true,
  .copyOutgoing store page fun c => c.active, .removeConnection ⟨1⟩]

def rewired : Graph := rewiring.foldl GraphOp.apply {}

theorem rewired_maintained : rewired.Maintained := by
  simp only [rewired, rewiring, List.foldl_cons, List.foldl_nil]
  iterate 4 refine .step _ ?_ trivial trivial
  refine .step _ ?_ (fun _ => Connection.nodup_edits limits) (Connection.SameEdge.edits limits)
  iterate 6 refine .step _ ?_ trivial trivial
  exact .empty

end Sample

theorem Graph.edges_agree_sample
    : Sample.rewired.Maintained ∧ Sample.rewired.AgreeingTables ∧
      ((Sample.rewired.nodes.get? Sample.store).map fun n => (n.incoming, n.outgoing))
        =
      some ([⟨2⟩, ⟨0⟩, ⟨3⟩, ⟨4⟩], some [⟨0⟩, ⟨2⟩]) :=
  ⟨Sample.rewired_maintained, edges_agree Sample.rewired_maintained, by decide +kernel⟩

end ModuleLink
