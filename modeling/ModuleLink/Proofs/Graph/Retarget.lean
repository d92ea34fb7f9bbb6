import ModuleLink.Graph.Query
import ModuleLink.Proofs.Connection
import ModuleLink.Proofs.Graph.Reexport

/-!
This module contains the proof that a dependency has at most one live connection, however often it is resolved anew and
its connections are moved. That one is as the dependency was declared, and remembers where the dependency was resolved
to at first.
-/

namespace ModuleLink

namespace Connection

def stripped (x : Connection) : Connection :=
  { x with id := ⟨0⟩, origin := none, resolvedOrigin := none, target := x.resolvedTarget, explanations := [] }

structure Honours (x : Connection) (dependency : Dependency) : Prop where
  weak : x.weak = dependency.weak
  deferred : x.deferred = dependency.deferred
  activity : ∀ runtime, x.activity runtime = dependency.condition.evaluate runtime

theorem Honours.resolve (id : ConnectionId) (origin : Option ModuleId) (number : DependencyId)
    (dependency : Dependency) (target : ModuleId)
    : (Connection.resolve id origin number dependency target).stripped.Honours dependency where
  weak := rfl
  deferred := rfl
  activity := fun _ => activity_resolve id origin number dependency target

theorem stripped_redirect (e : ConnectionEnd) (id : ModuleId) (x : Connection)
    : (e.redirect id x).stripped = x.stripped := by
  cases e <;> rfl

end Connection

namespace GraphOp

/--
The operation does not copy or edit connections, and it resolves only dependencies without a connection.
-/
def Redraws (g : Graph) : GraphOp → Prop
  | .connect _ d _ => g.current.get? d = none
  | .copyOutgoing _ _ _ | .updateConnection _ _ => False
  | op => op.Valid g

def connects? (d : DependencyId) (g : Graph) : GraphOp → Option ModuleId
  | .connect origin d' target => if d' = d ∧ (g.connect origin d' target).result.isOk then some target else none
  | _ => none

theorem connects?_connect (d k : DependencyId) (g : Graph) (origin : Option ModuleId) (target : ModuleId)
    : (connect origin k target).connects? d g
        =
      if k = d ∧ (g.connect origin k target).result.isOk then some target else none :=
  rfl

theorem Redraws.valid {g : Graph} {op : GraphOp} (h : op.Redraws g) : op.Valid g := by
  cases op with
  | exports op => exact h
  | updateConnection => exact h.elim
  | _ => trivial

theorem Redraws.keepsEdges {g : Graph} {op : GraphOp} (h : op.Redraws g) : op.KeepsEdges := by
  cases op with
  | updateConnection => exact h.elim
  | _ => trivial

end GraphOp

namespace Graph

variable {g g' : Graph}

def Admits (g : Graph) : List GraphOp → Prop
  | [] => True
  | op :: ops => op.Redraws g ∧ (op.apply g).Admits ops

def lastTarget? (d : DependencyId) (g : Graph) : List GraphOp → Option ModuleId
  | [] => none
  | op :: ops => (lastTarget? d (op.apply g) ops).or (op.connects? d g)

theorem admits_concat (ops : List GraphOp) (op : GraphOp)
    : g.Admits (ops ++ [op]) ↔ g.Admits ops ∧ op.Redraws (ops.foldl GraphOp.apply g) := by
  induction ops generalizing g with
  | nil => simp [Admits]
  | cons first ops ih => rw [List.cons_append, Admits, ih, Admits, List.foldl_cons, and_assoc]

theorem lastTarget?_concat (d : DependencyId) (ops : List GraphOp) (op : GraphOp)
    : lastTarget? d g (ops ++ [op]) = (op.connects? d (ops.foldl GraphOp.apply g)).or (lastTarget? d g ops) := by
  induction ops generalizing g with
  | nil => simp [lastTarget?]
  | cons first ops ih => rw [List.cons_append, lastTarget?, ih, lastTarget?, List.foldl_cons, Option.or_assoc]

def stripped (g : Graph) (c : ConnectionId) : Option Connection := (g.connection? c).map Connection.stripped

theorem stripped_of_connection? {c : ConnectionId} {x : Connection} (hx : g.connection? c = some x)
    : g.stripped c = some x.stripped := by
  unfold stripped
  rw [hx]
  rfl

theorem stripped_push (build : ConnectionId → Connection)
    : (g.pushConnection build).1.stripped
        =
      Function.update g.stripped ⟨g.connections.size⟩ (some (build ⟨g.connections.size⟩).stripped) := by
  funext c
  unfold stripped
  rw [connection?_push, Function.update_apply]
  split <;> rfl

theorem stripped_modify (c : ConnectionId) {f : Connection → Connection} (hf : ∀ x, (f x).stripped = x.stripped)
    : (g.modifyConnection c f).stripped = g.stripped := by
  funext c'
  unfold stripped
  rw [connection?_modify]
  split
  · rw [Option.map_map]
    congr 1
    funext x
    exact hf x
  · rfl

theorem stripped_setActive {c : ConnectionId} {x : Connection} (hx : g.connection? c = some x) (active : Bool)
    : (g.modifyConnection c (·.setActive active)).stripped
        =
      Function.update g.stripped c (some (x.stripped.setActive active)) := by
  funext c'
  unfold stripped
  rw [connection?_modify, Function.update_apply]
  by_cases hc : c = c'
  · subst hc
    rw [if_pos rfl, if_pos rfl, hx]
    rfl
  · rw [if_neg hc, if_neg (Ne.symm hc)]

theorem stripped_drop (d : DependencyId) (c : ConnectionId)
    : (g.dropConnection d c).stripped = Function.update g.stripped c none := by
  funext c'
  unfold stripped
  rw [connection?_emptied rfl, Function.update_apply]
  by_cases hc : c = c'
  · rw [if_pos hc, if_pos hc.symm]
    rfl
  · rw [if_neg hc, if_neg (Ne.symm hc)]

theorem stripped_listOutgoing (origin : Option ModuleId) (c : ConnectionId)
    : (g.listOutgoing origin c).stripped = g.stripped := by
  cases origin <;> rfl

theorem stripped_unlistOutgoing (origin : Option ModuleId) (c : ConnectionId)
    : (g.unlistOutgoing origin c).stripped = g.stripped := by
  cases origin <;> rfl

theorem declaration_of_dependencies {d : DependencyId} (h : g'.dependencies = g.dependencies)
    : g'.declaration d = g.declaration d := by
  unfold declaration
  rw [h]

theorem dependencies_listOutgoing (origin : Option ModuleId) (c : ConnectionId)
    : (g.listOutgoing origin c).dependencies = g.dependencies := by
  cases origin <;> rfl

theorem dependencies_unlistOutgoing (origin : Option ModuleId) (c : ConnectionId)
    : (g.unlistOutgoing origin c).dependencies = g.dependencies := by
  cases origin <;> rfl

theorem declaration_push {d : DependencyId} {decl : DeclaredDependency} (h : g.declaration d = .ok decl)
    (new : DeclaredDependency)
    : ({ g with dependencies := g.dependencies.push new } : Graph).declaration d = .ok decl := by
  have hlt := declared_lt h
  unfold declaration at h ⊢
  dsimp only
  rw [Array.getElem?_push, if_neg (Nat.ne_of_lt hlt)]
  exact h

structure Spares (d : DependencyId) (g g' : Graph) : Prop where
  current : g'.current.get? d = g.current.get? d
  carried : ∀ {c : ConnectionId} {x : Connection}, x.dependency = some d →
    (g'.stripped c = some x ↔ g.stripped c = some x)
  declared : ∀ {decl : DeclaredDependency}, g.declaration d = .ok decl → g'.declaration d = .ok decl

namespace Spares

variable {d : DependencyId}

theorem same (hcurrent : g'.current = g.current := by rfl) (hstripped : g'.stripped = g.stripped := by rfl)
    (hdependencies : g'.dependencies = g.dependencies := by rfl) : Spares d g g' where
  current := by rw [hcurrent]
  carried := by
    intro c x _
    rw [hstripped]
  declared := by
    intro decl h
    rw [declaration_of_dependencies hdependencies]
    exact h

theorem insert {k : DependencyId} {c : ConnectionId} (hkd : k ≠ d) (hcurrent : g'.current = g.current.insert k c)
    (hdependencies : g'.dependencies = g.dependencies)
    (hcarried : ∀ {c : ConnectionId} {x : Connection}, x.dependency = some d →
      (g'.stripped c = some x ↔ g.stripped c = some x)) : Spares d g g' where
  current := by rw [hcurrent, Dict.get?_insert, if_neg (by simpa using hkd)]
  carried := hcarried
  declared := by
    intro decl h
    rw [declaration_of_dependencies hdependencies]
    exact h

theorem trans {g'' : Graph} (h : Spares d g g') (h' : Spares d g' g'') : Spares d g g'' where
  current := h'.current.trans h.current
  carried := fun hd => (h'.carried hd).trans (h.carried hd)
  declared := fun hdecl => h'.declared (h.declared hdecl)

theorem declare (g : Graph) (decl : DeclaredDependency)
    : Spares d g { g with dependencies := g.dependencies.push decl } where
  current := rfl
  carried := fun _ => Iff.rfl
  declared := fun h => declaration_push h decl

theorem move_run (e : ConnectionEnd) (old new : ModuleId) (cs : List ConnectionId) (g : Graph)
    : Spares d g (cs.foldl (move e old new) g) := by
  induction cs generalizing g with
  | nil => exact same
  | cons c cs ih =>
    have hmoved : (move e old new g c).stripped = g.stripped :=
      stripped_modify c fun x => Connection.stripped_redirect e new x
    have hstep : Spares d g (move e old new g c) := same rfl hmoved
    exact hstep.trans (ih _)

theorem moveConnections (g : Graph) (old new : ModuleId) (accept : Connection → Bool)
    : Spares d g (g.moveConnections old new accept).graph := by
  unfold Graph.moveConnections
  split
  · exact same
  · apply withNode_induction (Spares d g) same
    intro n hn
    apply withNode_induction (Spares d g) same
    intro m hm
    exact (move_run .outgoing old new _ g).trans (move_run .incoming old new _ _)

theorem editNode {α : Type} (g : Graph) (id : ModuleId) (f : Node → Node) (result : Node → α)
    : Spares d g (g.editNode id f result).graph := by
  apply withNode_induction (Spares d g) same
  intro n hn
  exact same

end Spares

theorem carried_update {stripped : ConnectionId → Option Connection} {k d : DependencyId} (hkd : k ≠ d)
    {c : ConnectionId} {y : Option Connection} (hold : ∀ x ∈ stripped c, x.dependency = some k)
    (hnew : ∀ x ∈ y, x.dependency = some k) {c' : ConnectionId} {x : Connection} (hd : x.dependency = some d)
    : Function.update stripped c y c' = some x ↔ stripped c' = some x := by
  have hne : x.dependency ≠ some k := by
    rw [hd]
    exact fun h => hkd (Option.some.inj h).symm
  rw [Function.update_apply]
  split
  · next hc =>
    subst hc
    exact ⟨fun h => absurd (hnew x h) hne, fun h => absurd (hold x h) hne⟩
  · exact Iff.rfl

theorem Consistent.carries (h : g.Consistent) {d : DependencyId} {c : ConnectionId} {x : Connection}
    (hc : g.current.get? d = some c) (hx : g.stripped c = some x) : x.dependency = some d := by
  obtain ⟨_, y, hy⟩ := h.current hc
  rw [stripped_of_connection? hy] at hx
  cases hx
  have hdependency := h.dependency hc hy
  exact hdependency

theorem stripped_new : g.stripped ⟨g.connections.size⟩ = none := by
  unfold stripped
  rw [connection?_new]
  rfl

inductive Redrawing (d : DependencyId) (g g' : Graph) : Option ModuleId → Prop where
  | spare (h : Spares d g g') : Redrawing d g g' none
  | connect (new : ConnectionId) (x : Connection) (decl : DeclaredDependency)
      (hd : g.current.get? d = none) (hcurrent : g'.current.get? d = some new)
      (hstripped : g'.stripped = Function.update g.stripped new (some x))
      (hdecl : g'.declaration d = .ok decl) (hx : x.Honours decl.dependency)
      : Redrawing d g g' (some x.resolvedTarget)
  | retarget (old new : ConnectionId) (x : Connection) (hold : g.current.get? d = some old)
      (hx : g.stripped old = some x) (hcurrent : g'.current.get? d = some new)
      (hne : old ≠ new)
      (hstripped : g'.stripped
        = Function.update (Function.update g.stripped new (some x)) old (some (x.setActive false)))
      (hdecl : g'.declaration d = g.declaration d) : Redrawing d g g' none
  | remove (c : ConnectionId) (hc : g.current.get? d = some c) (hcurrent : g'.current.get? d = none)
      (hstripped : g'.stripped = Function.update g.stripped c none) : Redrawing d g g' none

namespace Redrawing

variable {d : DependencyId}

theorem connectOp {origin : Option ModuleId} {k : DependencyId} {target : ModuleId} (hk : g.current.get? k = none)
    : Redrawing d g (g.connect origin k target).graph ((GraphOp.connect origin k target).connects? d g) := by
  rw [GraphOp.connects?_connect]
  rcases connect_cases g origin k target with ⟨e, hsame⟩ | ⟨decl, hdecl, _, _, hgraph⟩
  · rw [hsame, if_neg]
    · exact .spare .same
    · rintro ⟨_, h⟩
      cases h
  · have hcurrent : (g.connect origin k target).graph.current = g.current.insert k ⟨g.connections.size⟩ := by
      rw [hgraph]
      exact current_listOutgoing ..
    have hstripped : (g.connect origin k target).graph.stripped
        = Function.update g.stripped ⟨g.connections.size⟩
          (some (Connection.resolve ⟨g.connections.size⟩ origin k decl.dependency target).stripped) := by
      rw [hgraph]
      refine (stripped_listOutgoing ..).trans ?_
      exact stripped_push (g := g) fun c => .resolve c origin k decl.dependency target
    have hdependencies : (g.connect origin k target).graph.dependencies = g.dependencies := by
      rw [hgraph]
      exact dependencies_listOutgoing ..
    by_cases hkd : k = d
    · subst hkd
      have hok : (g.connect origin k target).result.isOk := by
        rw [hgraph]
        rfl
      rw [if_pos ⟨rfl, hok⟩]
      refine .connect ⟨g.connections.size⟩ _ decl hk ?_ hstripped ?_ (.resolve ..)
      · rw [hcurrent, Dict.get?_insert, if_pos BEq.rfl]
      · rw [declaration_of_dependencies hdependencies, hdecl]
    · rw [if_neg fun h => hkd h.1]
      refine .spare (.insert hkd hcurrent hdependencies ?_)
      intro c x hx
      rw [hstripped]
      refine carried_update hkd ?_ ?_ hx
      · simp [stripped_new]
      · rintro _ ⟨⟩
        rfl

theorem updateModule (hg : g.Consistent) (k : DependencyId) (target : ModuleId)
    : Redrawing d g (g.updateModule k target).graph none := by
  rcases hg.updateModule_cases k target with hsame | ⟨old, x, hold, hx, _, _, hgraph⟩
  · rw [hsame]
    exact .spare .same
  · have hne : old ≠ ⟨g.connections.size⟩ := by
      rintro rfl
      rw [connection?_new] at hx
      cases hx
    have hcurrent : (g.updateModule k target).graph.current = g.current.insert k ⟨g.connections.size⟩ := by
      rw [hgraph]
      exact current_listOutgoing ..
    have hstripped : (g.updateModule k target).graph.stripped
        = Function.update (Function.update g.stripped ⟨g.connections.size⟩ (some x.stripped)) old
          (some (x.stripped.setActive false)) := by
      have hpushed : (g.pushConnection (x.retargeted target)).1.connection? old = some x := by
        rw [connection?_push, if_neg hne, hx]
      rw [hgraph]
      refine (stripped_listOutgoing ..).trans ((stripped_setActive hpushed false).trans ?_)
      rw [stripped_push]
      rfl
    have hdependencies : (g.updateModule k target).graph.dependencies = g.dependencies := by
      rw [hgraph]
      exact dependencies_listOutgoing ..
    by_cases hkd : k = d
    · subst hkd
      refine .retarget old ⟨g.connections.size⟩ x.stripped hold (stripped_of_connection? hx) ?_ hne hstripped ?_
      · rw [hcurrent, Dict.get?_insert, if_pos BEq.rfl]
      · exact declaration_of_dependencies hdependencies
    · refine .spare (.insert hkd hcurrent hdependencies ?_)
      intro c y hy
      have hk : x.stripped.dependency = some k := hg.carries hold (stripped_of_connection? hx)
      rw [hstripped]
      refine (carried_update hkd ?_ ?_ hy).trans (carried_update hkd ?_ ?_ hy)
      · rw [Function.update_of_ne hne, stripped_of_connection? hx]
        rintro _ ⟨⟩
        exact hk
      · rintro _ ⟨⟩
        exact hk
      · simp [stripped_new]
      · rintro _ ⟨⟩
        exact hk

theorem removeConnection (hg : g.Consistent) (k : DependencyId)
    : Redrawing d g (g.removeConnection k).graph none := by
  rcases hg.removeConnection_cases k with hsame | ⟨c, x, hc, hx, hgraph⟩
  · rw [hsame]
    exact .spare .same
  · have hcurrent : (g.removeConnection k).graph.current = g.current.erase k := by
      rw [hgraph]
      cases x.origin <;> rfl
    have hstripped : (g.removeConnection k).graph.stripped = Function.update g.stripped c none := by
      rw [hgraph]
      exact (stripped_unlistOutgoing ..).trans (stripped_drop k c)
    by_cases hkd : k = d
    · subst hkd
      refine .remove c hc ?_ hstripped
      rw [hcurrent, Dict.get?_erase hg.keys, if_pos BEq.rfl]
    · refine .spare ⟨?_, ?_, ?_⟩
      · rw [hcurrent, Dict.get?_erase hg.keys, if_neg (by simpa using hkd)]
      · intro c' y hy
        rw [hstripped]
        refine carried_update hkd ?_ ?_ hy
        · exact fun z hz => hg.carries hc hz
        · simp
      · intro decl hdecl
        rw [declaration_of_dependencies, hdecl]
        rw [hgraph]
        exact dependencies_unlistOutgoing ..

theorem ofOp (hg : g.Consistent) {op : GraphOp} (hop : op.Redraws g)
    : Redrawing d g (op.apply g) (op.connects? d g) := by
  cases op with
  | connect origin k target => exact connectOp hop
  | updateModule k target => exact updateModule hg k target
  | removeConnection k => exact removeConnection hg k
  | copyOutgoing old new accept => cases hop
  | updateConnection k edits => cases hop
  | addModule m =>
    simp only [GraphOp.apply, Graph.addModule]
    split
    · exact .spare .same
    · exact .spare .same
  | addDependency parent dependency =>
    simp only [GraphOp.apply, Graph.addDependency]
    split
    · exact .spare (.declare g _)
    · apply withNode_induction (Redrawing d g · none) (.spare .same)
      intro n hn
      exact .spare ((Spares.declare g _).trans .same)
  | addExplanation k explanation =>
    simp only [GraphOp.apply, Graph.addExplanation]
    split
    · exact .spare .same
    · exact .spare (.same rfl (stripped_modify _ fun _ => rfl))
  | moveConnections old new accept => exact .spare (.moveConnections g old new accept)
  | markExportUsed id path state =>
    apply withNode_induction (Redrawing d g · none) (.spare .same)
    intro n hn
    exact .spare .same
  | setExportTarget id name k path priority =>
    simp only [GraphOp.apply, Graph.setExportTarget]
    split
    · exact .spare .same
    · apply withNode_induction (Redrawing d g · none) (.spare .same)
      intro n hn
      exact .spare .same
  | exports op => exact .spare .same
  | _ => exact .spare (.editNode ..)

end Redrawing

/--
The connection of a dependency is as it was declared and remembers the given target, and all others that were made for
it are inactive.
-/
structure Orderly (g : Graph) (d : DependencyId) (target : Option ModuleId) : Prop where
  current : ∀ {c : ConnectionId} {x : Connection}, g.current.get? d = some c → g.stripped c = some x →
    ∃ decl, g.declaration d = .ok decl ∧ x.Honours decl.dependency ∧ target = some x.resolvedTarget
  other : ∀ {c : ConnectionId} {x : Connection}, g.stripped c = some x → x.dependency = some d →
    g.current.get? d ≠ some c → ∀ runtime, x.activity runtime = .inactive

namespace Orderly

variable {d : DependencyId} {target new : Option ModuleId}

theorem empty (d : DependencyId) : ({} : Graph).Orderly d none where
  current := by
    intro c x hc
    cases hc
  other := by
    intro c x hx
    cases hx

theorem spare (h : g.Orderly d target) (hg : g.Consistent) (hspares : Spares d g g') : g'.Orderly d target where
  current := by
    intro c x hc hx
    rw [hspares.current] at hc
    obtain ⟨_, y, hy⟩ := hg.current hc
    have hold := stripped_of_connection? hy
    have hkept := (hspares.carried (hg.carries hc hold)).2 hold
    cases hx.symm.trans hkept
    obtain ⟨decl, hdecl, hhonours, htarget⟩ := h.current hc hold
    exact ⟨decl, hspares.declared hdecl, hhonours, htarget⟩
  other := by
    intro c x hx hd hc
    rw [hspares.current] at hc
    exact h.other ((hspares.carried hd).1 hx) hd hc

theorem redraw (h : g.Orderly d target) (hg : g.Consistent) (hdraw : Redrawing d g g' new)
    : g'.Orderly d (new.or target) := by
  cases hdraw with
  | spare hspares => exact h.spare hg hspares
  | connect new x decl hd hcurrent hstripped hdecl hx =>
    refine ⟨?_, ?_⟩
    · intro c y hc hy
      rw [hcurrent] at hc
      cases hc
      rw [hstripped, Function.update_self] at hy
      cases hy
      exact ⟨decl, hdecl, hx, rfl⟩
    · intro c y hy hyd hc
      have hne : c ≠ new := by
        rintro rfl
        exact hc hcurrent
      rw [hstripped, Function.update_of_ne hne] at hy
      apply h.other hy hyd
      rw [hd]
      intro hnone
      cases hnone
  | retarget old new x hold hx hcurrent hne hstripped hdecl =>
    refine ⟨?_, ?_⟩
    · intro c y hc hy
      rw [hcurrent] at hc
      cases hc
      rw [hstripped, Function.update_of_ne hne.symm, Function.update_self] at hy
      cases hy
      rw [hdecl]
      exact h.current hold hx
    · intro c y hy hyd hc
      have hcnew : c ≠ new := by
        rintro rfl
        exact hc hcurrent
      rw [hstripped] at hy
      by_cases hcold : c = old
      · subst hcold
        rw [Function.update_self] at hy
        cases hy
        exact fun _ => rfl
      · rw [Function.update_of_ne hcold, Function.update_of_ne hcnew] at hy
        apply h.other hy hyd
        rw [hold]
        exact fun heq => hcold (Option.some.inj heq).symm
  | remove c hc hcurrent hstripped =>
    refine ⟨?_, ?_⟩
    · intro c' y hc'
      rw [hcurrent] at hc'
      cases hc'
    · intro c' y hy hyd _
      rw [hstripped, Function.update_apply] at hy
      split at hy
      · cases hy
      · next hne =>
        apply h.other hy hyd
        rw [hc]
        exact fun heq => hne (Option.some.inj heq).symm

end Orderly

theorem Admits.orderly {ops : List GraphOp} (h : ({} : Graph).Admits ops)
    : (ops.foldl GraphOp.apply {}).Maintained
        ∧
      ∀ d, (ops.foldl GraphOp.apply {}).Orderly d (lastTarget? d {} ops) := by
  induction ops using List.reverseRecOn with
  | nil => exact ⟨.empty, Orderly.empty⟩
  | append_singleton ops op ih =>
    have ⟨hops, hop⟩ := (admits_concat ops op).1 h
    have ⟨hmaintained, horderly⟩ := ih hops
    rw [List.foldl_concat]
    refine ⟨.step op hmaintained hop.valid hop.keepsEdges, fun d => ?_⟩
    rw [lastTarget?_concat]
    exact (horderly d).redraw hmaintained.consistent (.ofOp hmaintained.consistent hop)

theorem Consistent.updateModule_of_target (h : g.Consistent) {d : DependencyId} {c : ConnectionId} {x : Connection}
    (hc : g.current.get? d = some c) (hx : g.connection? c = some x) {target : ModuleId} (htarget : x.target == target)
    : g.updateModule d target = .ok g c := by
  have hknows : g.Knows target := by
    have := h.known_target hx
    unfold Knows at this ⊢
    rw [← Dict.get?_congr htarget]
    exact this
  unfold Graph.updateModule
  rw [withNode_of_knows hknows]
  simp only [hc, hx]
  rw [if_pos htarget]

/--
A dependency that is resolved has one live connection. It is as the dependency was declared and remembers the target
that the dependency was last connected to, through all changes since.
-/
theorem one_live_connection {ops : List GraphOp} (hops : ({} : Graph).Admits ops)
    (hg : ops.foldl GraphOp.apply {} = g) {d : DependencyId} {c : ConnectionId} (hc : g.current.get? d = some c)
    : ∃ x decl, g.connection? c = some x ∧ g.declaration d = .ok decl ∧
        x.weak = decl.dependency.weak ∧ x.deferred = decl.dependency.deferred ∧
        (∀ runtime, x.activity runtime = decl.dependency.condition.evaluate runtime) ∧
        (∃ target, lastTarget? d {} ops = some target ∧ g.resolvedTarget? d = some target) ∧
        (∀ c' x', g.connection? c' = some x' → x'.dependency = some d → c' ≠ c →
          ∀ runtime, x'.activity runtime = .inactive) ∧
        ∀ target, x.target == target → g.updateModule d target = .ok g c := by
  have ⟨hmaintained, horderly⟩ := hops.orderly
  rw [hg] at hmaintained horderly
  obtain ⟨_, x, hx⟩ := hmaintained.consistent.current hc
  obtain ⟨decl, hdecl, hhonours, htarget⟩ := (horderly d).current hc (stripped_of_connection? hx)
  refine ⟨x, decl, hx, hdecl, hhonours.weak, hhonours.deferred, hhonours.activity, ⟨_, htarget, ?_⟩, ?_, ?_⟩
  · unfold Graph.resolvedTarget? currentConnection?
    rw [hc, Option.bind_some, hx]
    rfl
  · intro c' x' hx' hd hne
    apply (horderly d).other (stripped_of_connection? hx') hd
    rw [hc]
    exact fun heq => hne (Option.some.inj heq).symm
  · intro target
    exact hmaintained.consistent.updateModule_of_target hc hx

end Graph

namespace Sample

def rerouting : List GraphOp := [
  .addModule { id := page }, .addModule { id := store }, .addModule { id := cart },
  .addDependency (some page) { request := "./store", deferred := true, condition := .transitiveOnly },
  .connect (some page) ⟨0⟩ store, .updateModule ⟨0⟩ page, .removeConnection ⟨0⟩,
  .connect (some page) ⟨0⟩ cart, .updateModule ⟨0⟩ store, .moveConnections store page fun _ => true]

def rerouted : Graph := rerouting.foldl GraphOp.apply {}

theorem rerouting_admitted : ({} : Graph).Admits rerouting := by
  refine ⟨trivial, trivial, trivial, trivial, ?_, trivial, trivial, ?_, trivial, trivial, trivial⟩
  · change Dict.get? _ _ = none
    decide
  · change Dict.get? _ _ = none
    decide +kernel

end Sample

theorem Graph.one_live_connection_sample
    : ({} : Graph).Admits Sample.rerouting ∧ Sample.rerouted.current.get? ⟨0⟩ = some ⟨3⟩ ∧
      Graph.lastTarget? ⟨0⟩ {} Sample.rerouting = some Sample.cart ∧
      Sample.rerouted.resolvedTarget? ⟨0⟩ = some Sample.cart ∧
      Sample.rerouted.resolve? ⟨0⟩ = some Sample.page ∧
      (∃ x, Sample.rerouted.connection? ⟨3⟩ = some x ∧ x.deferred = true ∧
        ∀ runtime, x.activity runtime = .transitiveOnly) ∧
      (∃ x, Sample.rerouted.connection? ⟨0⟩ = some x ∧ ∀ runtime, x.activity runtime = .inactive) ∧
      Sample.rerouted.updateModule ⟨0⟩ Sample.page = .ok Sample.rerouted ⟨3⟩ := by
  have hdrawn : Sample.rerouting.foldl GraphOp.apply {} = Sample.rerouted := rfl
  have hc : Sample.rerouted.current.get? ⟨0⟩ = some ⟨3⟩ := by decide +kernel
  have hlast : Graph.lastTarget? ⟨0⟩ {} Sample.rerouting = some Sample.cart := by decide +kernel
  have hresolve : Sample.rerouted.resolve? ⟨0⟩ = some Sample.page := by decide +kernel
  have hold : (Sample.rerouted.connection? ⟨0⟩).map (·.dependency) = some (some ⟨0⟩) := by decide +kernel
  have hdeclared : Sample.rerouted.declaration ⟨0⟩
      = .ok ⟨{ request := "./store", deferred := true, condition := .transitiveOnly }, some Sample.page⟩ := rfl
  obtain ⟨x, decl, hx, hdecl, _, hdeferred, hactivity, ⟨target, htarget, hresolved⟩, hothers, hupdate⟩ :=
    one_live_connection Sample.rerouting_admitted hdrawn hc
  cases hdecl.symm.trans hdeclared
  cases htarget.symm.trans hlast
  obtain ⟨y, hy, hyd⟩ := Option.map_eq_some_iff.1 hold
  have htarget : x.target = Sample.page := by
    unfold resolve? currentConnection? at hresolve
    rw [hc, Option.bind_some, hx] at hresolve
    exact Option.some.inj hresolve
  refine ⟨Sample.rerouting_admitted, hc, hlast, hresolved, hresolve, ⟨x, hx, hdeferred, hactivity⟩,
    ⟨y, hy, hothers _ y hy hyd (by decide)⟩, hupdate _ ?_⟩
  rw [htarget]
  exact BEq.rfl

end ModuleLink
