import ModuleLink.Proofs.Graph.Edges
import ModuleLink.Proofs.Graph.Target

/-!
This module contains what operations do to the connections of a graph, and what that means for a re-export. A
re-export is registered for a dependency but remembers the connection that the dependency has at that time. It
follows the dependency as long as this gets no other connection.
-/

namespace ModuleLink.Graph

variable {g g' g'' : Graph}

structure KeepsConnections (g g' : Graph) : Prop where
  size : g.connections.size ≤ g'.connections.size
  live : ∀ c : ConnectionId, c.index < g.connections.size →
    (g'.connection? c).isSome = (g.connection? c).isSome

namespace KeepsConnections

theorem same (h : g'.connections = g.connections) : KeepsConnections g g' where
  size := Nat.le_of_eq (congrArg Array.size h.symm)
  live := by
    intro c _
    unfold connection?
    rw [h]

theorem trans (h : KeepsConnections g g') (h' : KeepsConnections g' g'') : KeepsConnections g g'' where
  size := Nat.le_trans h.size h'.size
  live := by
    intro c hc
    rw [h'.live c (Nat.lt_of_lt_of_le hc h.size), h.live c hc]

theorem push (g : Graph) (build : ConnectionId → Connection) : KeepsConnections g (g.pushConnection build).1 where
  size := by
    unfold pushConnection
    rw [Array.size_push]
    exact Nat.le_succ _
  live := by
    intro c hc
    rw [connection?_push, if_neg]
    rintro rfl
    exact Nat.lt_irrefl _ hc

theorem modifyConnection (g : Graph) (c : ConnectionId) (f : Connection → Connection)
    : KeepsConnections g (g.modifyConnection c f) where
  size := Nat.le_of_eq Array.size_modify.symm
  live := by
    intro c' _
    rw [connection?_modify]
    split
    · rw [Option.isSome_map]
    · rfl

end KeepsConnections

theorem current_listOutgoing (origin : Option ModuleId) (c : ConnectionId)
    : (g.listOutgoing origin c).current = g.current := by
  cases origin <;> rfl

theorem current_setExportTarget (id : ModuleId) (name : String) (d : DependencyId) (path : Option (List String))
    (priority : Int) : (g.setExportTarget id name d path priority).graph.current = g.current := by
  unfold setExportTarget
  split
  · rfl
  · apply withNode_induction (fun g' => g'.current = g.current) rfl
    intro n hn
    rfl

inductive Effect (g g' : Graph) : Prop where
  | edit (hcurrent : g'.current = g.current) (hkeeps : KeepsConnections g g')
  | connect (d : DependencyId) (hcurrent : g'.current = g.current.insert d ⟨g.connections.size⟩)
      (hkeeps : KeepsConnections g g')
  | remove (d : DependencyId) (c : ConnectionId) (hc : g.current.get? d = some c)
      (hcurrent : g'.current = g.current.erase d) (hsize : g'.connections.size = g.connections.size)
      (hconnection : ∀ c', g'.connection? c' = if c = c' then none else g.connection? c')

namespace Effect

theorem same (hcurrent : g'.current = g.current := by rfl) (h : g'.connections = g.connections := by rfl)
    : Effect g g' :=
  .edit hcurrent (.same h)

theorem editNode {α : Type} (g : Graph) (id : ModuleId) (f : Node → Node) (result : Node → α)
    : Effect g (g.editNode id f result).graph := by
  apply withNode_induction (Effect g) .same
  intro n hn
  exact .same

theorem move_run (e : ConnectionEnd) (old new : ModuleId) (cs : List ConnectionId) (g : Graph)
    : (cs.foldl (move e old new) g).current = g.current ∧ KeepsConnections g (cs.foldl (move e old new) g) := by
  induction cs generalizing g with
  | nil => exact ⟨rfl, .same rfl⟩
  | cons c cs ih =>
    have hredirected : KeepsConnections g (g.modifyConnection c (e.redirect new ·)) :=
      .modifyConnection g c _
    have hmoved : KeepsConnections g (move e old new g c) := hredirected.trans (.same rfl)
    have ⟨hcurrent, hkeeps⟩ := ih (move e old new g c)
    exact ⟨hcurrent, hmoved.trans hkeeps⟩

theorem moveConnections (g : Graph) (old new : ModuleId) (accept : Connection → Bool)
    : Effect g (g.moveConnections old new accept).graph := by
  unfold Graph.moveConnections
  split
  · exact .same
  · apply withNode_induction (Effect g) .same
    intro n hn
    apply withNode_induction (Effect g) .same
    intro m hm
    have ⟨houtgoing, hkept⟩ := move_run .outgoing old new (g.accepted accept (m.outgoing.getD [])) g
    exact .edit ((move_run .incoming old new _ _).1.trans houtgoing)
      (hkept.trans (move_run .incoming old new _ _).2)

theorem copyOutgoing_go (new : ModuleId) (count : Nat) (xs : List Connection) (g : Graph)
    : (copyOutgoing.go new count g xs).graph.current = g.current
        ∧
      KeepsConnections g (copyOutgoing.go new count g xs).graph := by
  induction xs generalizing g with
  | nil => exact ⟨rfl, .same rfl⟩
  | cons x xs ih =>
    have hcopied : KeepsConnections g (g.pushConnection (x.copied new)).1 := .push g _
    apply withNode_induction (fun g' => g'.current = g.current ∧ KeepsConnections g g')
    · exact ⟨rfl, hcopied.trans (.same rfl)⟩
    · intro n hn
      refine ⟨(ih _).1, .trans ?_ (ih _).2⟩
      exact hcopied.trans (.same rfl)

theorem copyOutgoing (g : Graph) (old new : ModuleId) (accept : Connection → Bool)
    : Effect g (g.copyOutgoing old new accept).graph := by
  unfold Graph.copyOutgoing
  split
  · exact .same
  · apply withNode_induction (Effect g) .same
    intro n hn
    apply withNode_induction (Effect g) .same
    intro m hm
    exact .edit (copyOutgoing_go ..).1 (copyOutgoing_go ..).2

-- The current connection changes before the lists of modules do, and remains so if one of them is not there.
theorem updateModule (h : g.Tables) (d : DependencyId) (target : ModuleId)
    : Effect g (g.updateModule d target).graph := by
  unfold Graph.updateModule
  apply withNode_induction (Effect g) .same
  intro n hn
  cases hold : g.current.get? d with
  | none => exact .same
  | some old =>
    obtain ⟨-, x, hx⟩ := h.current hold
    simp only [hx]
    split
    · exact .same
    · have hkeeps := (KeepsConnections.push g (x.retargeted target)).trans (.modifyConnection _ old (·.setActive false))
      split
      · exact .connect d rfl (hkeeps.trans (.same rfl))
      · apply withNode_induction (Effect g)
        · exact .connect d rfl (hkeeps.trans (.same rfl))
        · intro n hn
          exact .connect d rfl (hkeeps.trans (.same rfl))

theorem removeConnection (h : g.Tables) (d : DependencyId) : Effect g (g.removeConnection d).graph := by
  unfold Graph.removeConnection
  cases hc : g.current.get? d with
  | none => exact .same
  | some c =>
    obtain ⟨-, x, hx⟩ := h.current hc
    have hx' : { g with current := g.current.erase d }.connection? c = some x := hx
    have hdropped {g' : Graph} (hcurrent : g'.current = g.current.erase d)
        (hconnections : g'.connections = g.connections.setIfInBounds c.index none) : Effect g g' := by
      refine .remove d c hc hcurrent ?_ (connection?_emptied hconnections)
      rw [hconnections, Array.size_setIfInBounds]
    simp only [hx']
    split
    · apply withNode_induction (Effect g) (hdropped rfl rfl)
      intro n hn
      exact hdropped rfl rfl
    · apply withNode_induction (Effect g) (hdropped rfl rfl)
      intro n hn
      apply withNode_induction (Effect g) (hdropped rfl rfl)
      intro n hn
      exact hdropped rfl rfl

theorem ofOp (h : g.Tables) (op : GraphOp) : Effect g (op.apply g) := by
  cases op with
  | addModule m =>
    simp only [GraphOp.apply, Graph.addModule]
    split
    · exact .same
    · exact .same
  | addDependency parent dependency =>
    simp only [GraphOp.apply, Graph.addDependency]
    split
    · exact .same
    · apply withNode_induction (Effect g) .same
      intro n hn
      exact .same
  | connect origin d target =>
    simp only [GraphOp.apply]
    rcases connect_cases g origin d target with ⟨_, hsame⟩ | ⟨decl, _, _, _, hgraph⟩
    · rw [hsame]
      exact .same
    · rw [hgraph]
      refine .connect d (current_listOutgoing ..) ?_
      have hpushed := KeepsConnections.push g fun c => .resolve c origin d decl.dependency target
      exact hpushed.trans (.same (connections_listOutgoing ..))
  | updateModule d target => exact updateModule h d target
  | removeConnection d => exact removeConnection h d
  | addExplanation d explanation =>
    simp only [GraphOp.apply, Graph.addExplanation]
    split
    · exact .same
    · exact .edit rfl (.modifyConnection g ..)
  | updateConnection d f =>
    simp only [GraphOp.apply, Graph.updateConnection]
    split
    · exact .same
    · split
      · exact .same
      · exact .edit rfl (.modifyConnection g ..)
  | moveConnections old new accept => exact moveConnections g old new accept
  | copyOutgoing old new accept => exact copyOutgoing g old new accept
  | markExportUsed id path state =>
    apply withNode_induction (Effect g) .same
    intro n hn
    exact .same
  | setExportTarget id name d path priority =>
    simp only [GraphOp.apply, Graph.setExportTarget]
    split
    · exact .same
    · apply withNode_induction (Effect g) .same
      intro n hn
      exact .same
  | exports op => exact .same
  | _ => exact editNode ..

end Effect

end ModuleLink.Graph

namespace ModuleLink

def GraphOp.Reconnects (d : DependencyId) (g : Graph) (op : GraphOp) : Prop :=
  ∃ c, (op.apply g).current.get? d = some c ∧ g.current.get? d ≠ some c

namespace Graph

variable {g g' : Graph} {d : DependencyId} {c : ConnectionId}

inductive Run (allowed : Graph → GraphOp → Prop) (start : Graph) : Graph → Prop where
  | refl : Run allowed start start
  | step {g : Graph} (op : GraphOp) : Run allowed start g → op.Valid g → allowed g op →
      Run allowed start (op.apply g)

theorem Reachable.run {allowed : Graph → GraphOp → Prop} (h : g.Reachable) (hrun : g.Run allowed g')
    : g'.Reachable := by
  induction hrun with
  | refl => exact h
  | step op _ hvalid _ ih => exact .step op ih hvalid

def Removed (g : Graph) (c : ConnectionId) : Prop :=
  c.index < g.connections.size ∧ g.connection? c = none

def Abandoned (g : Graph) (c : ConnectionId) : Prop :=
  (∃ x, g.connection? c = some x) ∧ ∀ d, g.current.get? d ≠ some c

namespace KeepsConnections

theorem removed (h : KeepsConnections g g') (hc : g.Removed c) : g'.Removed c := by
  refine ⟨Nat.lt_of_lt_of_le hc.1 h.size, ?_⟩
  have hlive := h.live c hc.1
  rw [hc.2] at hlive
  exact Option.isSome_eq_false_iff.1 hlive |> Option.isNone_iff_eq_none.1

theorem exists_connection (h : KeepsConnections g g') (hc : ∃ x, g.connection? c = some x)
    : ∃ x, g'.connection? c = some x := by
  obtain ⟨x, hx⟩ := hc
  have hlive := h.live c (connection?_lt hx)
  rw [hx] at hlive
  exact Option.isSome_iff_exists.1 hlive

end KeepsConnections

inductive Last (g : Graph) (d : DependencyId) (c : ConnectionId) : Prop where
  | current (h : g.current.get? d = some c)
  | removed (h : g.current.get? d = none) (hc : g.Removed c)

theorem Last.step (h : g.Last d c) (hg : g.Tables) (op : GraphOp) (hop : ¬op.Reconnects d g)
    : (op.apply g).Last d c := by
  cases Effect.ofOp hg op with
  | edit hcurrent hkeeps =>
    cases h with
    | current hc => exact .current (hcurrent ▸ hc)
    | removed hd hc => exact .removed (hcurrent ▸ hd) (hkeeps.removed hc)
  | connect d' hcurrent hkeeps =>
    have hget := Dict.get?_insert g.current d' d ⟨g.connections.size⟩
    rw [← hcurrent] at hget
    split at hget
    · -- The dependency gets a connection of a new number.
      refine absurd ⟨_, hget, ?_⟩ hop
      intro hnew
      exact Nat.lt_irrefl _ (hg.index_lt hnew)
    · cases h with
      | current hc => exact .current (hget.trans hc)
      | removed hd hc => exact .removed (hget.trans hd) (hkeeps.removed hc)
  | remove d' c' hc' hcurrent hsize hconnection =>
    have hget := Dict.get?_erase hg.keys d' d
    rw [← hcurrent] at hget
    split at hget
    · next hd =>
      cases eq_of_beq hd
      cases h with
      | current hc =>
        rw [hc'] at hc
        cases hc
        refine .removed hget ⟨?_, ?_⟩
        · rw [hsize]
          exact hg.index_lt hc'
        · rw [hconnection, if_pos rfl]
      | removed hd _ =>
        rw [hc'] at hd
        contradiction
    · cases h with
      | current hc => exact .current (hget.trans hc)
      | removed hd hc =>
        refine .removed (hget.trans hd) ⟨?_, ?_⟩
        · rw [hsize]
          exact hc.1
        · rw [hconnection, hc.2, ite_self]

theorem Last.run (h : g.Last d c) (hg : g.Reachable) (hrun : g.Run (fun g op => ¬op.Reconnects d g) g')
    : g'.Last d c := by
  induction hrun with
  | refl => exact h
  | step op hrun _ hop ih => exact ih.step (hg.run hrun).tables op hop

theorem Abandoned.step (h : g.Abandoned c) (hg : g.Tables) (op : GraphOp) : (op.apply g).Abandoned c := by
  have ⟨hc, hother⟩ := h
  cases Effect.ofOp hg op with
  | edit hcurrent hkeeps =>
    refine ⟨hkeeps.exists_connection hc, ?_⟩
    rw [hcurrent]
    exact hother
  | connect d' hcurrent hkeeps =>
    refine ⟨hkeeps.exists_connection hc, fun d => ?_⟩
    rw [hcurrent, Dict.get?_insert]
    split
    · rintro ⟨⟩
      obtain ⟨x, hx⟩ := hc
      exact Nat.lt_irrefl _ (connection?_lt hx)
    · exact hother d
  | remove d' c' hc' hcurrent hsize hconnection =>
    have hne : c' ≠ c := by
      rintro rfl
      exact hother d' hc'
    refine ⟨?_, fun d => ?_⟩
    · rw [hconnection, if_neg hne]
      exact hc
    · rw [hcurrent, Dict.get?_erase hg.keys]
      split
      · exact nofun
      · exact hother d

theorem Abandoned.of_reconnects (hg : g.Tables) (hc : g.current.get? d = some c) {op : GraphOp}
    (hop : op.Reconnects d g) : (op.apply g).Abandoned c := by
  obtain ⟨c', hnew, hold⟩ := hop
  obtain ⟨_, x, hx⟩ := hg.current hc
  cases Effect.ofOp hg op with
  | edit hcurrent _ =>
    rw [hcurrent] at hnew
    contradiction
  | connect d' hcurrent hkeeps =>
    refine ⟨hkeeps.exists_connection ⟨x, hx⟩, fun k => ?_⟩
    rw [hcurrent, Dict.get?_insert] at hnew ⊢
    split
    · rintro ⟨⟩
      exact Nat.lt_irrefl _ (connection?_lt hx)
    · next hk =>
      intro hkc
      cases hg.injective hc hkc
      rw [if_neg hk] at hnew
      contradiction
  | remove d' c' hc' hcurrent _ _ =>
    rw [hcurrent, Dict.get?_erase hg.keys] at hnew
    split at hnew
    · contradiction
    · contradiction

theorem Abandoned.run (h : g.Abandoned c) (hg : g.Reachable) {allowed : Graph → GraphOp → Prop}
    (hrun : g.Run allowed g') : g'.Abandoned c := by
  induction hrun with
  | refl => exact h
  | step op hrun _ _ ih => exact ih.step (hg.run hrun).tables op

def OnlyTarget (g : Graph) (id : ModuleId) (name : String) (d : DependencyId) (t : ExportTarget) : Prop :=
  ∃ desc, g.descriptorOf id = .ok desc ∧
    (g.exports.record (g.exports.lookup desc name)).targets.entries = [(d, t)]

def LeadsTo (g : Graph) (id : ModuleId) (name : String) : Option ModuleId → Prop
  | some target => ∃ site, g.findTarget id name (fun _ => true) = .ok (.found site) ∧ site.module = target
  | none => g.findTarget id name (fun _ => true) = .ok .noTarget

theorem findTarget_of_hop?_eq_none {id : ModuleId} {desc : DescriptorId} (hdesc : g.descriptorOf id = .ok desc)
    {name : String} (hhop : g.hop? (g.exports.lookup desc name) name = none) (accept : ModuleId → Bool)
    : g.findTarget id name accept = .ok .noTarget := by
  unfold findTarget
  rw [hdesc]
  dsimp only [bind, Except.bind]
  unfold follow
  rw [hhop]

theorem maxTargets_of_entries {r : ExportRecord} {t : ExportTarget} (h : r.targets.entries = [(d, t)])
    : r.maxTargets = [t] := by
  have hvalues : r.targets.values = [t] := by
    unfold Dict.values
    rw [h]
    rfl
  unfold ExportRecord.maxTargets
  rw [hvalues]
  simp

theorem OnlyTarget.leadsTo {id : ModuleId} {name : String} {t : ExportTarget} (h : g.OnlyTarget id name d t)
    : g.LeadsTo id name ((g.connection? t.connection).map (·.target)) := by
  obtain ⟨desc, hdesc, hentries⟩ := h
  have hmax := maxTargets_of_entries hentries
  cases hconnection : g.connection? t.connection with
  | none =>
    apply findTarget_of_hop?_eq_none hdesc
    simp [hop?, hmax, hconnection]
  | some x =>
    have hhop : ∃ site, g.hop? (g.exports.lookup desc name) name = some site ∧ site.module = x.target := by
      simp [hop?, hmax, hconnection]
    obtain ⟨site, hhop, hsite⟩ := hhop
    exact ⟨site, findTarget_of_accept hdesc hhop rfl, hsite⟩

theorem Last.resolve? (h : g.Last d c) : g.resolve? d = (g.connection? c).map (·.target) := by
  unfold Graph.resolve? currentConnection?
  cases h with
  | current h =>
    rw [h]
    rfl
  | removed h hc =>
    rw [h, hc.2]
    rfl

/--
A re-export leads to where the connection ends that its dependency had when it was registered. That is where the
dependency is resolved to as long as no operation gives it another connection. One that does so while the first is there
leaves the re-export with the first for ever.
-/
theorem reexport_follows_until_reconnected {start registered : Graph} {id : ModuleId} {name : String}
    {path : Option (List String)} {priority : Int} (hstart : start.Reachable) (hc : start.current.get? d = some c)
    (hregistered : (start.setExportTarget id name d path priority).graph = registered)
    (honly : g.OnlyTarget id name d ⟨c, path, priority⟩)
    : g.LeadsTo id name ((g.connection? c).map (·.target))
        ∧
      (registered.Run (fun g op => ¬op.Reconnects d g) g → g.LeadsTo id name (g.resolve? d))
        ∧
      ∀ (allowed : Graph → GraphOp → Prop) (g' : Graph) (op : GraphOp), registered.Run allowed g' →
        g'.current.get? d = some c → op.Valid g' → op.Reconnects d g' → (op.apply g').Run allowed g →
        ∃ x, g.connection? c = some x ∧ g.LeadsTo id name (some x.target) := by
  have hop := hstart.step (.setExportTarget id name d path priority) trivial
  have hreachable : registered.Reachable := hregistered ▸ hop
  have hlast : registered.Last d c := by
    refine hregistered ▸ Last.step (.current hc) hstart.tables (.setExportTarget id name d path priority) ?_
    rintro ⟨c', hnew, hold⟩
    rw [GraphOp.apply, current_setExportTarget] at hnew
    exact hold hnew
  refine ⟨honly.leadsTo, ?_, ?_⟩
  · intro hrun
    rw [(hlast.run hreachable hrun).resolve?]
    exact honly.leadsTo
  · intro allowed g' op hrun hc' hvalid hop hrun'
    have hg' := hreachable.run hrun
    have habandoned := (Abandoned.of_reconnects hg'.tables hc' hop).run (hg'.step op hvalid) hrun'
    obtain ⟨x, hx⟩ := habandoned.1
    have hleads := honly.leadsTo
    rw [hx] at hleads
    exact ⟨x, hx, hleads⟩

end Graph

namespace Sample

def cart : ModuleId := ⟨"./cart"⟩

def shop : Graph := [
  .addModule { id := page }, .addModule { id := store }, .addModule { id := cart },
  .addDependency (some page) { request := "./store" }, .connect (some page) ⟨0⟩ store].foldl GraphOp.apply {}

theorem shop_reachable : shop.Reachable := by
  simp only [shop, List.foldl_cons, List.foldl_nil]
  iterate 5 refine .step _ ?_ trivial
  exact .empty

def facade : Graph := (shop.setExportTarget page "item" ⟨0⟩ (some ["thing"]) 0).graph

def moved : Graph := GraphOp.apply facade (.moveConnections store cart fun _ => true)

def resolvedAnew : Graph := GraphOp.apply facade (.updateModule ⟨0⟩ cart)

end Sample

theorem Graph.reexport_follows_until_reconnected_sample
    : Sample.shop.Reachable ∧ Sample.shop.current.get? ⟨0⟩ = some ⟨0⟩ ∧
      Sample.moved.OnlyTarget Sample.page "item" ⟨0⟩ ⟨⟨0⟩, some ["thing"], 0⟩ ∧
      Sample.moved.resolve? ⟨0⟩ = some Sample.cart ∧
      Sample.moved.LeadsTo Sample.page "item" (some Sample.cart) := by
  have hc : Sample.shop.current.get? ⟨0⟩ = some ⟨0⟩ := by decide +kernel
  have honly : Sample.moved.OnlyTarget Sample.page "item" ⟨0⟩ ⟨⟨0⟩, some ["thing"], 0⟩ :=
    ⟨⟨0⟩, rfl, by decide +kernel⟩
  have hcurrent : Sample.moved.current.get? ⟨0⟩ = Sample.facade.current.get? ⟨0⟩ := by decide +kernel
  have hrun : Sample.facade.Run (fun g op => ¬op.Reconnects ⟨0⟩ g) Sample.moved := by
    refine .step _ .refl trivial ?_
    rintro ⟨c, hnew, hold⟩
    exact hold (hcurrent ▸ hnew)
  have hresolve : Sample.moved.resolve? ⟨0⟩ = some Sample.cart := by decide +kernel
  have hleads := (reexport_follows_until_reconnected Sample.shop_reachable hc rfl honly).2.1 hrun
  exact ⟨Sample.shop_reachable, hc, honly, hresolve, hresolve ▸ hleads⟩

/--
A re-export does not lead to where its dependency is resolved to anew.
-/
theorem Graph.reexport_misses_update
    : Sample.shop.Reachable ∧ Sample.shop.current.get? ⟨0⟩ = some ⟨0⟩ ∧
      Sample.facade.Run (fun _ _ => True) Sample.resolvedAnew ∧
      Sample.resolvedAnew.OnlyTarget Sample.page "item" ⟨0⟩ ⟨⟨0⟩, some ["thing"], 0⟩ ∧
      Sample.resolvedAnew.resolve? ⟨0⟩ = some Sample.cart ∧
      ¬Sample.resolvedAnew.LeadsTo Sample.page "item" (Sample.resolvedAnew.resolve? ⟨0⟩) := by
  have hresolve : Sample.resolvedAnew.resolve? ⟨0⟩ = some Sample.cart := by decide +kernel
  refine ⟨Sample.shop_reachable, by decide +kernel, .step _ .refl trivial trivial, ⟨⟨0⟩, rfl, by decide +kernel⟩,
    hresolve, ?_⟩
  rw [hresolve]
  rintro ⟨site, hfound, hsite⟩
  have hstale : Sample.resolvedAnew.findTarget Sample.page "item" (fun _ => true)
      = .ok (.found ⟨Sample.store, some ["thing"], false⟩) := by decide +kernel
  rw [hstale] at hfound
  cases hfound
  exact absurd hsite (by decide)

end ModuleLink
