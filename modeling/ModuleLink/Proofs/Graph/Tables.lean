import ModuleLink.Proofs.Exports.Forest
import ModuleLink.Proofs.Graph.Operation

/-!
This module contains what holds of the tables of every graph that operations lead to, whatever they did to
connections: nothing is listed twice where it must not be, what is listed has been there, no two dependencies share
their current connection, and no two modules share a descriptor.
-/

namespace ModuleLink

theorem ConnectionId.index_injective : Function.Injective ConnectionId.index := by
  intro c c' h
  cases c
  cases c'
  exact congrArg ConnectionId.mk h

/--
The two ends of a connection, each with the list that a module keeps of the connections it has there.
-/
inductive ConnectionEnd where
  | incoming
  | outgoing
deriving DecidableEq

namespace ConnectionEnd

def module? (x : Connection) : ConnectionEnd → Option ModuleId
  | .incoming => some x.target
  | .outgoing => x.origin

def listed (n : Node) : ConnectionEnd → List ConnectionId
  | .incoming => n.incoming
  | .outgoing => n.outgoing.getD []

def add (c : ConnectionId) (n : Node) : ConnectionEnd → Node
  | .incoming => n.addIncoming c
  | .outgoing => n.addOutgoing c

def remove (c : ConnectionId) (n : Node) : ConnectionEnd → Node
  | .incoming => n.removeIncoming c
  | .outgoing => n.removeOutgoing c

def redirect (id : ModuleId) (x : Connection) : ConnectionEnd → Connection
  | .incoming => { x with target := id }
  | .outgoing => { x with origin := some id }

theorem listed_add (e e' : ConnectionEnd) (c : ConnectionId) (n : Node)
    : e'.listed (e.add c n) = if e' = e then addDistinct (e.listed n) c else e'.listed n := by
  cases e <;> cases e' <;> rfl

theorem listed_remove (e e' : ConnectionEnd) (c : ConnectionId) (n : Node)
    : e'.listed (e.remove c n) = if e' = e then (e.listed n).erase c else e'.listed n := by
  cases e with
  | incoming => cases e' <;> rfl
  | outgoing =>
    cases e' with
    | incoming => rfl
    | outgoing => cases h : n.outgoing <;> simp [listed, remove, Node.removeOutgoing, h]

@[simp]
theorem exports_add (e : ConnectionEnd) (c : ConnectionId) (n : Node) : (e.add c n).exports = n.exports := by
  cases e <;> rfl

@[simp]
theorem exports_remove (e : ConnectionEnd) (c : ConnectionId) (n : Node)
    : (e.remove c n).exports = n.exports := by
  cases e <;> rfl

theorem module?_setActive (e : ConnectionEnd) (x : Connection) (active : Bool)
    : e.module? (x.setActive active) = e.module? x := by
  cases e <;> rfl

theorem module?_redirect (e e' : ConnectionEnd) (id : ModuleId) (x : Connection)
    : e'.module? (e.redirect id x) = if e' = e then some id else e'.module? x := by
  cases e <;> cases e' <;> rfl

end ConnectionEnd

def Connection.retargeted (x : Connection) (target : ModuleId) (id : ConnectionId) : Connection :=
  { x with id, target }

def Connection.copied (x : Connection) (origin : ModuleId) (id : ConnectionId) : Connection :=
  { x with id, origin := some origin }

theorem Arena.Sound.lt_getOrCreate {a : Arena} (h : a.Sound) (d : DescriptorId) (name : String)
    : (a.getOrCreate d name).2.index < (a.getOrCreate d name).1.records.size := by
  unfold Arena.getOrCreate
  split
  · next r hr =>
    obtain ⟨e, -, hlisted⟩ := List.exists_of_findSome?_eq_some hr
    exact h.tidy.lt (.listed hlisted)
  · simp [Arena.insertLocal, Arena.modifyDescriptor]

structure Node.Within (connections dependencies descriptors : Nat) (n : Node) : Prop where
  nodup : ∀ e : ConnectionEnd, (e.listed n).Nodup
  connections : ∀ e : ConnectionEnd, ∀ c ∈ e.listed n, c.index < connections
  dependencies : ∀ d ∈ n.dependencies, d.index < dependencies
  exports : n.exports.index < descriptors

namespace Graph

variable {g : Graph}

def setCurrent (g : Graph) (d : DependencyId) (c : ConnectionId) : Graph :=
  { g with current := g.current.insert d c }

def dropConnection (g : Graph) (d : DependencyId) (c : ConnectionId) : Graph :=
  { g with current := g.current.erase d, connections := g.connections.setIfInBounds c.index none }

def unlistOutgoing (g : Graph) (origin : Option ModuleId) (c : ConnectionId) : Graph :=
  match origin with
  | none => g
  | some o => g.modifyNode o (ConnectionEnd.outgoing.remove c ·)

theorem connection?_lt {c : ConnectionId} {x : Connection} (h : g.connection? c = some x)
    : c.index < g.connections.size := by
  cases Nat.lt_or_ge c.index g.connections.size with
  | inl hlt => exact hlt
  | inr hge =>
    unfold connection? at h
    rw [Array.getElem?_eq_none hge] at h
    contradiction

theorem connection?_new : g.connection? ⟨g.connections.size⟩ = none := by
  unfold connection?
  rw [Array.getElem?_eq_none (Nat.le_refl _)]
  rfl

theorem connection?_push (build : ConnectionId → Connection) (c : ConnectionId)
    : (g.pushConnection build).1.connection? c
        =
      if c = ⟨g.connections.size⟩ then some (build ⟨g.connections.size⟩) else g.connection? c := by
  unfold connection? pushConnection
  rw [Array.getElem?_push]
  by_cases hc : c = ⟨g.connections.size⟩
  · subst hc
    simp
  · have hindex : c.index ≠ g.connections.size := fun h => hc (ConnectionId.index_injective h)
    simp [hc, hindex]

theorem connection?_modify (c : ConnectionId) (f : Connection → Connection) (c' : ConnectionId)
    : (g.modifyConnection c f).connection? c'
        =
      if c = c' then (g.connection? c').map f else g.connection? c' := by
  unfold connection? modifyConnection
  rw [Array.getElem?_modify]
  by_cases hc : c = c'
  · subst hc
    cases g.connections[c.index]? <;> simp
  · have hindex : c.index ≠ c'.index := fun h => hc (ConnectionId.index_injective h)
    simp [hc, hindex]

theorem connection?_emptied {g' : Graph} {c : ConnectionId}
    (h : g'.connections = g.connections.setIfInBounds c.index none) (c' : ConnectionId)
    : g'.connection? c' = if c = c' then none else g.connection? c' := by
  unfold connection?
  rw [h, Array.getElem?_setIfInBounds]
  by_cases hc : c = c'
  · subst hc
    rw [if_pos rfl, if_pos rfl]
    split <;> rfl
  · have hindex : c.index ≠ c'.index := fun h => hc (ConnectionId.index_injective h)
    rw [if_neg hindex, if_neg hc]

theorem node_modifyNode {id k : ModuleId} {f : Node → Node} {n : Node}
    (h : (g.modifyNode id f).nodes.get? k = some n)
    : (∃ n', g.nodes.get? k = some n' ∧ id == k ∧ n = f n')
        ∨
      g.nodes.get? k = some n ∧ (id == k) = false := by
  unfold Graph.modifyNode at h
  dsimp only at h
  rw [Dict.get?_modify] at h
  split at h
  · next hk =>
    obtain ⟨n', hn', rfl⟩ := Option.map_eq_some_iff.1 h
    exact .inl ⟨n', hn', hk, rfl⟩
  · next hk => exact .inr ⟨h, by simpa using hk⟩

theorem connect_cases (g : Graph) (origin : Option ModuleId) (d : DependencyId) (target : ModuleId)
    : (∃ e, g.connect origin d target = .fail g e)
        ∨
      ∃ decl, g.declaration d = .ok decl ∧ g.Knows target ∧ (∀ o, origin = some o → g.Knows o) ∧
        g.connect origin d target
          =
        .ok ((((g.pushConnection fun c => .resolve c origin d decl.dependency target).1.setCurrent d
            ⟨g.connections.size⟩).modifyNode target
          (ConnectionEnd.incoming.add ⟨g.connections.size⟩ ·)).listOutgoing origin ⟨g.connections.size⟩)
          ⟨g.connections.size⟩ := by
  unfold connect
  dsimp only
  cases htarget : g.nodes.get? target with
  | none =>
    simp only [node, htarget]
    exact .inl ⟨_, rfl⟩
  | some n =>
    cases origin with
    | none =>
      simp only [node, htarget]
      cases hdecl : g.declaration d with
      | error e => exact .inl ⟨e, rfl⟩
      | ok decl => exact .inr ⟨decl, rfl, knows_of_node htarget, by simp, rfl⟩
    | some o =>
      cases horigin : g.nodes.get? o with
      | none =>
        simp only [node, htarget, horigin]
        exact .inl ⟨_, rfl⟩
      | some m =>
        simp only [node, htarget, horigin]
        cases hdecl : g.declaration d with
        | error e => exact .inl ⟨e, rfl⟩
        | ok decl =>
          refine .inr ⟨decl, rfl, knows_of_node htarget, ?_, rfl⟩
          rintro _ ⟨⟩
          exact knows_of_node horigin

theorem declared_lt {d : DependencyId} {decl : DeclaredDependency} (h : g.declaration d = .ok decl)
    : d.index < g.dependencies.size := by
  unfold declaration at h
  split at h
  · next hdecl => exact (Array.getElem?_eq_some_iff.1 hdecl).1
  · cases h

def move (e : ConnectionEnd) (old new : ModuleId) (g : Graph) (c : ConnectionId) : Graph :=
  ((g.modifyConnection c (e.redirect new ·)).modifyNode old (e.remove c ·)).modifyNode new (e.add c ·)

structure Tables (g : Graph) : Prop where
  modules : g.modules.DistinctKeys
  nodes : g.nodes.DistinctKeys
  known : ∀ id, (g.modules.get? id).isSome = (g.nodes.get? id).isSome
  node : ∀ {id : ModuleId} {n : Node}, g.nodes.get? id = some n →
    n.Within g.connections.size g.dependencies.size g.exports.descriptors.size
  descriptors : ∀ {a b : ModuleId} {m n : Node}, g.nodes.get? a = some m → g.nodes.get? b = some n →
    m.exports = n.exports → a == b
  explanations : ∀ {c : ConnectionId} {x : Connection}, g.connection? c = some x → x.explanations.Nodup
  keys : g.current.DistinctKeys
  current : ∀ {d : DependencyId} {c : ConnectionId}, g.current.get? d = some c →
    d.index < g.dependencies.size ∧ ∃ x, g.connection? c = some x
  injective : ∀ {d d' : DependencyId} {c : ConnectionId}, g.current.get? d = some c → g.current.get? d' = some c →
    d = d'
  exports : g.exports.Reachable

namespace Tables

theorem empty : ({} : Graph).Tables where
  modules := Dict.distinctKeys_empty
  nodes := Dict.distinctKeys_empty
  known _ := rfl
  node := by simp
  descriptors := by simp
  explanations := by simp [connection?]
  keys := Dict.distinctKeys_empty
  current := by simp
  injective := by simp
  exports := .empty

theorem index_lt (h : g.Tables) {d : DependencyId} {c : ConnectionId} (hc : g.current.get? d = some c)
    : c.index < g.connections.size := by
  obtain ⟨-, x, hx⟩ := h.current hc
  exact connection?_lt hx

theorem modifyNode (h : g.Tables) (id : ModuleId) {f : Node → Node}
    (hf : ∀ n, n.Within g.connections.size g.dependencies.size g.exports.descriptors.size →
      (f n).Within g.connections.size g.dependencies.size g.exports.descriptors.size)
    (hexports : ∀ n, (f n).exports = n.exports) : (g.modifyNode id f).Tables where
  modules := h.modules
  nodes := h.nodes.modify id f
  known := by
    intro k
    unfold Graph.modifyNode
    dsimp only
    rw [Dict.get?_modify, h.known]
    split
    · rw [Option.isSome_map]
    · rfl
  node := by
    intro k n hn
    rcases node_modifyNode hn with ⟨n', hn', -, rfl⟩ | ⟨hn', -⟩
    · exact hf n' (h.node hn')
    · exact h.node hn'
  descriptors := by
    have hold : ∀ {k : ModuleId} {n : Node}, (g.modifyNode id f).nodes.get? k = some n →
        ∃ n', g.nodes.get? k = some n' ∧ n'.exports = n.exports := by
      intro k n hn
      rcases node_modifyNode hn with ⟨n', hn', -, rfl⟩ | ⟨hn', -⟩
      · exact ⟨n', hn', (hexports n').symm⟩
      · exact ⟨n, hn', rfl⟩
    intro a b m n hm hn heq
    obtain ⟨m', hm', hmexports⟩ := hold hm
    obtain ⟨n', hn', hnexports⟩ := hold hn
    exact h.descriptors hm' hn' (by rw [hmexports, hnexports, heq])
  explanations := h.explanations
  keys := h.keys
  current := h.current
  injective := h.injective
  exports := h.exports

theorem add (h : g.Tables) (e : ConnectionEnd) {c : ConnectionId} (hc : c.index < g.connections.size) (id : ModuleId)
    : (g.modifyNode id (e.add c ·)).Tables := by
  refine h.modifyNode id (fun n hn => ?_) (e.exports_add c)
  refine ⟨fun e' => ?_, fun e' c' hc' => ?_, ?_, ?_⟩
  · rw [ConnectionEnd.listed_add]
    split
    · exact nodup_addDistinct (hn.nodup e) c
    · exact hn.nodup e'
  · rw [ConnectionEnd.listed_add] at hc'
    split at hc'
    · rcases mem_addDistinct.1 hc' with hold | rfl
      · exact hn.connections e c' hold
      · exact hc
    · exact hn.connections e' c' hc'
  · cases e <;> exact hn.dependencies
  · rw [e.exports_add]
    exact hn.exports

theorem remove (h : g.Tables) (e : ConnectionEnd) (c : ConnectionId) (id : ModuleId)
    : (g.modifyNode id (e.remove c ·)).Tables := by
  refine h.modifyNode id (fun n hn => ?_) (e.exports_remove c)
  refine ⟨fun e' => ?_, fun e' c' hc' => ?_, ?_, ?_⟩
  · rw [ConnectionEnd.listed_remove]
    split
    · exact (hn.nodup e).erase c
    · exact hn.nodup e'
  · rw [ConnectionEnd.listed_remove] at hc'
    split at hc'
    · exact hn.connections e c' (List.mem_of_mem_erase hc')
    · exact hn.connections e' c' hc'
  · cases e <;> exact hn.dependencies
  · rw [e.exports_remove]
    exact hn.exports

theorem editNode (h : g.Tables) (id : ModuleId) {f : Node → Node} (hexports : ∀ n, (f n).exports = n.exports)
    (hlisted : ∀ (e : ConnectionEnd) n, e.listed (f n) = e.listed n)
    (hdependencies : ∀ n, (f n).dependencies = n.dependencies) : (g.modifyNode id f).Tables := by
  refine h.modifyNode id (fun n hn => ⟨fun e => ?_, fun e => ?_, ?_, ?_⟩) hexports
  · rw [hlisted]
    exact hn.nodup e
  · rw [hlisted]
    exact hn.connections e
  · rw [hdependencies]
    exact hn.dependencies
  · rw [hexports]
    exact hn.exports

theorem pushConnection (h : g.Tables) {build : ConnectionId → Connection}
    (hbuild : ∀ c, (build c).explanations.Nodup) : (g.pushConnection build).1.Tables := by
  have hsize : g.connections.size ≤ (g.pushConnection build).1.connections.size := by
    simp [Graph.pushConnection]
  exact { h with
    node := fun hn => { h.node hn with
      connections := fun e c hc => Nat.lt_of_lt_of_le ((h.node hn).connections e c hc) hsize }
    explanations := by
      intro c x hx
      rw [connection?_push] at hx
      split at hx
      · cases hx
        apply hbuild
      · exact h.explanations hx
    current := by
      intro d c hc
      obtain ⟨hd, x, hx⟩ := h.current hc
      refine ⟨hd, x, ?_⟩
      rw [connection?_push, if_neg]
      · exact hx
      · rintro rfl
        rw [connection?_new] at hx
        contradiction }

theorem modifyConnection (h : g.Tables) (c : ConnectionId) {f : Connection → Connection}
    (hf : ∀ x, x.explanations.Nodup → (f x).explanations.Nodup) : (g.modifyConnection c f).Tables := by
  have hsize : (g.modifyConnection c f).connections.size = g.connections.size := by
    simp [Graph.modifyConnection]
  exact { h with
    node := fun hn => { h.node hn with
      connections := fun e c' hc' => Nat.lt_of_lt_of_eq ((h.node hn).connections e c' hc') hsize.symm }
    explanations := by
      intro c' x hx
      rw [connection?_modify] at hx
      split at hx
      · obtain ⟨y, hy, rfl⟩ := Option.map_eq_some_iff.1 hx
        exact hf y (h.explanations hy)
      · exact h.explanations hx
    current := by
      intro d c' hc'
      obtain ⟨hd, x, hx⟩ := h.current hc'
      refine ⟨hd, ?_⟩
      rw [connection?_modify, hx]
      split
      · exact ⟨f x, rfl⟩
      · exact ⟨x, rfl⟩ }

theorem setCurrent (h : g.Tables) {d : DependencyId} {c : ConnectionId} (hd : d.index < g.dependencies.size)
    (hc : ∃ x, g.connection? c = some x) (hnew : ∀ d', g.current.get? d' ≠ some c) : (g.setCurrent d c).Tables := by
  have hget {d' : DependencyId} {c' : ConnectionId} (hc' : (g.setCurrent d c).current.get? d' = some c')
      : d = d' ∧ c = c' ∨ g.current.get? d' = some c' := by
    unfold Graph.setCurrent at hc'
    rw [Dict.get?_insert] at hc'
    split at hc'
    · next heq =>
      cases hc'
      exact .inl ⟨eq_of_beq heq, rfl⟩
    · exact .inr hc'
  exact { h with
    keys := h.keys.insert d c
    current := by
      intro d' c' hc'
      rcases hget hc' with ⟨rfl, rfl⟩ | hold
      · exact ⟨hd, hc⟩
      · exact h.current hold
    injective := by
      intro d' d'' c' hc' hc''
      rcases hget hc' with ⟨rfl, rfl⟩ | hold
      · rcases hget hc'' with ⟨rfl, -⟩ | hold'
        · rfl
        · exact absurd hold' (hnew d'')
      · rcases hget hc'' with ⟨rfl, rfl⟩ | hold'
        · exact absurd hold (hnew d')
        · exact h.injective hold hold' }

theorem dropConnection (h : g.Tables) {d : DependencyId} {c : ConnectionId} (hc : g.current.get? d = some c)
    : (g.dropConnection d c).Tables := by
  -- A connection is current for one dependency only, so that no other one loses its connection.
  have hsize : (g.dropConnection d c).connections.size = g.connections.size := by
    simp [Graph.dropConnection]
  have hget {d' : DependencyId} {c' : ConnectionId} (hc' : (g.dropConnection d c).current.get? d' = some c')
      : d ≠ d' ∧ g.current.get? d' = some c' := by
    unfold Graph.dropConnection at hc'
    rw [Dict.get?_erase h.keys] at hc'
    split at hc'
    · cases hc'
    · next hne => exact ⟨by simpa using hne, hc'⟩
  exact { h with
    node := fun hn => { h.node hn with
      connections := fun e c' hc' => Nat.lt_of_lt_of_eq ((h.node hn).connections e c' hc') hsize.symm }
    explanations := by
      intro c' x hx
      rw [connection?_emptied rfl] at hx
      split at hx
      · cases hx
      · exact h.explanations hx
    keys := h.keys.erase d
    current := by
      intro d' c' hc'
      have ⟨hne, hold⟩ := hget hc'
      obtain ⟨hd', x, hx⟩ := h.current hold
      refine ⟨hd', x, ?_⟩
      rw [connection?_emptied rfl, if_neg]
      · exact hx
      · rintro rfl
        exact hne (h.injective hc hold)
    injective := fun hc' hc'' => h.injective (hget hc').2 (hget hc'').2 }

theorem withExports (h : g.Tables) {exports : Arena} (hexports : exports.Reachable)
    (hsize : g.exports.descriptors.size ≤ exports.descriptors.size) : ({ g with exports } : Graph).Tables :=
  { h with
    node := fun hn => { h.node hn with exports := Nat.lt_of_lt_of_le (h.node hn).exports hsize }
    exports := hexports }

theorem listOutgoing (h : g.Tables) (origin : Option ModuleId) {c : ConnectionId} (hc : c.index < g.connections.size)
    : (g.listOutgoing origin c).Tables := by
  cases origin with
  | none => exact h
  | some o => exact h.add .outgoing hc o

theorem declare (h : g.Tables) (decl : DeclaredDependency)
    : ({ g with dependencies := g.dependencies.push decl } : Graph).Tables := by
  have hlt {d : DependencyId} (hd : d.index < g.dependencies.size) : d.index < (g.dependencies.push decl).size := by
    rw [Array.size_push]
    exact Nat.lt_succ_of_lt hd
  exact { h with
    node := fun hn => { h.node hn with dependencies := fun d hd => hlt ((h.node hn).dependencies d hd) }
    current := fun hc => ⟨hlt (h.current hc).1, (h.current hc).2⟩ }

theorem within_new {connections dependencies descriptors : Nat} {d : DescriptorId} (hd : d.index < descriptors)
    : Node.Within connections dependencies descriptors { exports := d } where
  nodup e := by cases e <;> exact List.nodup_nil
  connections e c hc := by cases e <;> cases hc
  dependencies _ hd := by cases hd
  exports := hd

theorem addModule (h : g.Tables) (m : Module) : (g.addModule m).1.Tables := by
  -- A module that is replaced keeps its lists, and a new one lists nothing and has a descriptor of its own.
  unfold Graph.addModule
  dsimp only
  split
  · next n hn =>
    exact { h with
      modules := h.modules.insert m.id m
      known := by
        intro id
        dsimp only
        rw [Dict.get?_insert]
        split
        · next hid =>
          rw [← Dict.get?_congr hid, hn]
          rfl
        · exact h.known id }
  · next hnode =>
    have hgrown := h.withExports (.step .newDescriptor h.exports ⟨nofun, nofun⟩) (by
      simp [ArenaOp.apply, Arena.newDescriptor, Arena.newDescriptorOf])
    have hget : ∀ {id n}, (g.nodes.insert m.id { exports := g.exports.newDescriptor.2 }).get? id = some n →
        m.id == id ∧ n = { exports := g.exports.newDescriptor.2 } ∨ g.nodes.get? id = some n := by
      intro id n hn
      rw [Dict.get?_insert] at hn
      split at hn
      · next hid =>
        cases hn
        exact .inl ⟨hid, rfl⟩
      · exact .inr hn
    have hnew : ∀ {id n}, g.nodes.get? id = some n → n.exports ≠ g.exports.newDescriptor.2 := by
      intro id n hn heq
      have hlt := (h.node hn).exports
      rw [heq] at hlt
      exact Nat.lt_irrefl _ hlt
    exact { hgrown with
      modules := h.modules.insert m.id m
      nodes := h.nodes.insert _ _
      known := by
        intro id
        dsimp only
        rw [Dict.get?_insert, Dict.get?_insert]
        split
        · rfl
        · exact h.known id
      node := by
        intro id n hn
        rcases hget hn with ⟨-, rfl⟩ | hold
        · exact within_new (by simp [Arena.newDescriptor, Arena.newDescriptorOf])
        · exact hgrown.node hold
      descriptors := by
        intro a b x y hx hy heq
        rcases hget hx with ⟨ha, rfl⟩ | hx
        · rcases hget hy with ⟨hb, rfl⟩ | hy
          · exact BEq.trans (BEq.symm ha) hb
          · exact absurd heq.symm (hnew hy)
        · rcases hget hy with ⟨hb, rfl⟩ | hy
          · exact absurd heq (hnew hx)
          · exact h.descriptors hx hy heq }

theorem addDependency (h : g.Tables) (parent : Option ModuleId) (dependency : Dependency)
    : (g.addDependency parent dependency).graph.Tables := by
  have hdeclared := h.declare ⟨dependency, parent⟩
  unfold Graph.addDependency
  dsimp only
  split
  · exact hdeclared
  · apply withNode_induction Tables h
    intro n hn
    refine hdeclared.modifyNode _ (fun n hn => ?_) fun _ => rfl
    refine ⟨fun e => ?_, fun e => ?_, fun d hd => ?_, hn.exports⟩
    · cases e with
      | incoming => exact hn.nodup .incoming
      | outgoing => exact hn.nodup .outgoing
    · cases e with
      | incoming => exact hn.connections .incoming
      | outgoing => exact hn.connections .outgoing
    · rcases List.mem_append.1 hd with hold | hnew
      · exact hn.dependencies d hold
      · rw [List.mem_singleton.1 hnew, Array.size_push]
        exact Nat.lt_succ_self _

theorem setCurrent_new {g' : Graph} (h : g'.Tables) (hg : g.Tables) (hcurrent : g'.current = g.current)
    {d : DependencyId} (hd : d.index < g'.dependencies.size) (hc : ∃ x, g'.connection? ⟨g.connections.size⟩ = some x)
    : (g'.setCurrent d ⟨g.connections.size⟩).Tables := by
  refine h.setCurrent hd hc fun d' hd' => ?_
  rw [hcurrent] at hd'
  exact Nat.lt_irrefl _ (hg.index_lt hd')

theorem connect (h : g.Tables) (origin : Option ModuleId) (d : DependencyId) (target : ModuleId)
    : (g.connect origin d target).graph.Tables := by
  rcases connect_cases g origin d target with ⟨_, hsame⟩ | ⟨decl, hdecl, -, -, hgraph⟩
  · rw [hsame]
    exact h
  · rw [hgraph]
    have hpushed : (g.pushConnection fun c => .resolve c origin d decl.dependency target).1.Tables :=
      h.pushConnection fun _ => List.nodup_nil
    have hcurrent := hpushed.setCurrent_new h rfl (declared_lt hdecl) ⟨_, by rw [connection?_push, if_pos rfl]⟩
    have hlt : g.connections.size < (g.connections.push (some (Connection.resolve ⟨g.connections.size⟩ origin d
        decl.dependency target))).size := by simp
    exact (hcurrent.add .incoming hlt target).listOutgoing origin hlt

theorem updateModule (h : g.Tables) (d : DependencyId) (target : ModuleId)
    : (g.updateModule d target).graph.Tables := by
  unfold Graph.updateModule
  apply withNode_induction Tables h
  intro n hn
  cases hold : g.current.get? d with
  | none => exact h
  | some old =>
    obtain ⟨hd, x, hx⟩ := h.current hold
    simp only [hx]
    split
    · exact h
    · have hpushed : (g.pushConnection (x.retargeted target)).1.Tables :=
        h.pushConnection fun _ => h.explanations (x := x) hx
      have hswitched := hpushed.modifyConnection old (f := (·.setActive false)) fun _ hy => hy
      have hne : old ≠ ⟨g.connections.size⟩ := by
        rintro rfl
        rw [connection?_new] at hx
        contradiction
      have hcurrent := hswitched.setCurrent_new h rfl hd
        ⟨_, by rw [connection?_modify, if_neg hne, connection?_push, if_pos rfl]⟩
      have hlt : g.connections.size < ((g.pushConnection (x.retargeted target)).1.modifyConnection old
          (·.setActive false)).connections.size := by
        simp [Graph.pushConnection, Graph.modifyConnection]
      split
      · exact hcurrent.add .incoming hlt target
      · next origin _ =>
        apply withNode_induction Tables hcurrent
        intro n hn
        exact (hcurrent.add .outgoing hlt origin).add .incoming hlt target

theorem removeConnection (h : g.Tables) (d : DependencyId) : (g.removeConnection d).graph.Tables := by
  unfold Graph.removeConnection
  cases hc : g.current.get? d with
  | none => exact h
  | some c =>
    obtain ⟨-, x, hx⟩ := h.current hc
    have hx' : { g with current := g.current.erase d }.connection? c = some x := hx
    have hdropped := h.dropConnection hc
    simp only [hx']
    split
    · apply withNode_induction Tables hdropped
      intro n hn
      exact hdropped.remove .incoming c x.target
    · next origin _ =>
      apply withNode_induction Tables hdropped
      intro n hn
      have hlisted := hdropped.remove .outgoing c origin
      apply withNode_induction Tables hlisted
      intro n hn
      exact hlisted.remove .incoming c x.target

theorem addExplanation (h : g.Tables) (d : DependencyId) (explanation : String)
    : (g.addExplanation d explanation).graph.Tables := by
  unfold Graph.addExplanation
  split
  · exact h
  · exact h.modifyConnection _ fun x hx => nodup_addDistinct hx explanation

theorem updateConnection (h : g.Tables) (d : DependencyId) {f : Connection → Connection}
    (hf : ∀ x, x.explanations.Nodup → (f x).explanations.Nodup) : (g.updateConnection d f).graph.Tables := by
  unfold Graph.updateConnection
  split
  · exact h
  · split
    · exact h
    · exact h.modifyConnection _ hf

theorem move (h : g.Tables) (e : ConnectionEnd) (old new : ModuleId) {c : ConnectionId}
    (hc : c.index < g.connections.size) : (move e old new g c).Tables := by
  have hmoved : (g.modifyConnection c (e.redirect new ·)).Tables :=
    h.modifyConnection c fun x hx => by cases e <;> exact hx
  refine (hmoved.remove e c old).add e ?_ new
  simpa [Graph.modifyConnection, Graph.modifyNode] using hc

theorem move_run (h : g.Tables) (e : ConnectionEnd) (old new : ModuleId) {cs : List ConnectionId}
    (hcs : ∀ c ∈ cs, c.index < g.connections.size)
    : (cs.foldl (Graph.move e old new) g).Tables ∧
      (cs.foldl (Graph.move e old new) g).connections.size = g.connections.size := by
  induction cs generalizing g with
  | nil => exact ⟨h, rfl⟩
  | cons c cs ih =>
    have ⟨hc, hcs⟩ := List.forall_mem_cons.1 hcs
    have hsize : (Graph.move e old new g c).connections.size = g.connections.size := by
      simp [Graph.move, Graph.modifyConnection, Graph.modifyNode]
    have ⟨hrun, hrunSize⟩ := ih (h.move e old new hc) fun c' hc' => Nat.lt_of_lt_of_eq (hcs c' hc') hsize.symm
    exact ⟨hrun, hrunSize.trans hsize⟩

theorem moveConnections (h : g.Tables) (old new : ModuleId) (accept : Connection → Bool)
    : (g.moveConnections old new accept).graph.Tables := by
  unfold Graph.moveConnections
  split
  · exact h
  · apply withNode_induction Tables h
    intro n hn
    apply withNode_induction Tables h
    intro m hm
    have hlisted := (h.node hm).connections
    have houtgoing : ∀ c ∈ g.accepted accept (m.outgoing.getD []), c.index < g.connections.size :=
      fun c hc => hlisted .outgoing c (List.mem_filter.1 hc).1
    have ⟨hmoved, hsize⟩ := h.move_run .outgoing old new houtgoing
    refine (hmoved.move_run .incoming old new fun c hc => ?_).1
    exact Nat.lt_of_lt_of_eq (hlisted .incoming c (List.mem_filter.1 hc).1) hsize.symm

theorem copyOutgoing_go {new : ModuleId} {count : Nat} {xs : List Connection} (h : g.Tables)
    (hxs : ∀ x ∈ xs, x.explanations.Nodup) : (copyOutgoing.go new count g xs).graph.Tables := by
  induction xs generalizing g with
  | nil => exact h
  | cons x xs ih =>
    have ⟨hx, hxs⟩ := List.forall_mem_cons.1 hxs
    have hpushed : (g.pushConnection (x.copied new)).1.Tables := h.pushConnection fun _ => hx
    have hlt : g.connections.size < (g.pushConnection (x.copied new)).1.connections.size := by
      simp [Graph.pushConnection]
    have hlisted := hpushed.add .outgoing (c := ⟨g.connections.size⟩) hlt new
    apply withNode_induction Tables hlisted
    intro n hn
    exact ih (hlisted.add .incoming hlt x.target) hxs

theorem copyOutgoing (h : g.Tables) (old new : ModuleId) (accept : Connection → Bool)
    : (g.copyOutgoing old new accept).graph.Tables := by
  unfold Graph.copyOutgoing
  split
  · exact h
  · apply withNode_induction Tables h
    intro n hn
    apply withNode_induction Tables h
    intro m hm
    apply h.copyOutgoing_go
    intro x hx
    obtain ⟨c, -, hc⟩ := List.mem_filterMap.1 (List.mem_filter.1 hx).1
    exact h.explanations hc

theorem exportsOp (h : g.Tables) (op : ArenaOp) (hop : op.Valid g.exports)
    : ({ g with exports := op.apply g.exports } : Graph).Tables :=
  h.withExports (.step op h.exports hop) (Arena.Steps.ofOp op h.exports.sound.listsExisting hop).size_le

theorem markExportUsed (h : g.Tables) (id : ModuleId) (path : List String) (state : Usage)
    : (g.markExportUsed id path state).graph.Tables := by
  apply withNode_induction Tables h
  intro n hn
  refine h.exportsOp (.markExportUsed n.exports path state) ⟨?_, nofun⟩
  simpa [ArenaOp.descriptors] using (h.node hn).exports

theorem setExportTarget (h : g.Tables) (id : ModuleId) (name : String) (d : DependencyId)
    (path : Option (List String)) (priority : Int) : (g.setExportTarget id name d path priority).graph.Tables := by
  unfold Graph.setExportTarget
  split
  · exact h
  · next connection _ =>
    apply withNode_induction Tables h
    intro n hn
    have hcreated := h.exportsOp (.getOrCreate n.exports name) (by
      refine ⟨?_, fun _ hr => absurd hr List.not_mem_nil⟩
      simpa [ArenaOp.descriptors] using (h.node hn).exports)
    refine hcreated.exportsOp (.edit _ (.setTarget d ⟨connection, path, priority⟩)) ⟨?_, ?_⟩
    · exact fun _ hd => absurd hd List.not_mem_nil
    · intro r hr
      rw [List.mem_singleton.1 hr]
      exact h.exports.sound.lt_getOrCreate n.exports name

theorem step (h : g.Tables) (op : GraphOp) (hop : op.Valid g) : (op.apply g).Tables := by
  cases op with
  | addModule m => exact h.addModule m
  | addDependency parent dependency => exact h.addDependency parent dependency
  | connect origin d target => exact h.connect origin d target
  | updateModule d target => exact h.updateModule d target
  | removeConnection d => exact h.removeConnection d
  | addExplanation d explanation => exact h.addExplanation d explanation
  | updateConnection d f => exact h.updateConnection d hop
  | moveConnections old new accept => exact h.moveConnections old new accept
  | copyOutgoing old new accept => exact h.copyOutgoing old new accept
  | setDepthIfLower id depth =>
    apply withNode_induction Tables h
    intro n hn
    apply h.editNode
    · intro n
      split <;> rfl
    · intro e n
      split <;> cases e <;> rfl
    · intro n
      split <;> rfl
  | markExportUsed id path state => exact h.markExportUsed id path state
  | setExportTarget id name d path priority => exact h.setExportTarget id name d path priority
  | exports op => exact h.exportsOp op hop
  | _ =>
    apply withNode_induction Tables h
    intro n hn
    exact h.editNode _ (fun _ => rfl) (fun e _ => by cases e <;> rfl) fun _ => rfl

end Tables

theorem Reachable.tables (h : g.Reachable) : g.Tables := by
  induction h with
  | empty => exact .empty
  | step op _ hop ih => exact ih.step op hop

theorem Reachable.sound (h : g.Reachable) : g.Sound where
  arena := h.tables.exports.sound
  node hn := (h.tables.node hn).exports

theorem Reachable.descriptorOf_injective (h : g.Reachable) {a b : ModuleId} {d : DescriptorId}
    (ha : g.descriptorOf a = .ok d) (hb : g.descriptorOf b = .ok d) : a == b := by
  unfold Graph.descriptorOf Graph.node at ha hb
  cases hm : g.nodes.get? a with
  | none =>
    rw [hm] at ha
    cases ha
  | some m =>
    cases hn : g.nodes.get? b with
    | none =>
      rw [hn] at hb
      cases hb
    | some n =>
      rw [hm] at ha
      rw [hn] at hb
      exact h.tables.descriptors hm hn (Except.ok.inj (ha.trans hb.symm))

end Graph
end ModuleLink
