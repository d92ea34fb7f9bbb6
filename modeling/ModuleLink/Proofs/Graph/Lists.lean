import Mathlib.Logic.Function.Basic
import ModuleLink.Proofs.Graph.Tables

/-!
This module contains what changes of a graph do to the lists that modules keep of their connections. Such a list
is compared with the ends that the connections should have at that time.
-/

namespace ModuleLink

abbrev ConnectionEnds := ConnectionEnd × ConnectionId → Option ModuleId

namespace Graph

variable {g : Graph}

def ends (g : Graph) : ConnectionEnds := fun p => (g.connection? p.2).bind fun x => p.1.module? x

theorem ends_push (build : ConnectionId → Connection)
    : (g.pushConnection build).1.ends
        =
      Function.update
        (Function.update g.ends (.incoming, ⟨g.connections.size⟩) (some (build ⟨g.connections.size⟩).target))
        (.outgoing, ⟨g.connections.size⟩) (build ⟨g.connections.size⟩).origin := by
  funext ⟨e, c⟩
  unfold ends
  rw [connection?_push]
  by_cases hc : c = ⟨g.connections.size⟩
  · subst hc
    cases e <;> simp [ConnectionEnd.module?]
  · simp [hc]

theorem ends_modify {c : ConnectionId} {f : Connection → Connection}
    (hf : ∀ (e : ConnectionEnd) x, e.module? (f x) = e.module? x) : (g.modifyConnection c f).ends = g.ends := by
  funext ⟨e, c'⟩
  unfold ends
  rw [connection?_modify]
  split
  · cases g.connection? c' with
    | none => rfl
    | some x => exact hf e x
  · rfl

theorem ends_redirect {e : ConnectionEnd} {c : ConnectionId} {x : Connection} (hx : g.connection? c = some x)
    (id : ModuleId)
    : (g.modifyConnection c (e.redirect id ·)).ends = Function.update g.ends (e, c) (some id) := by
  funext ⟨e', c'⟩
  unfold ends
  rw [connection?_modify]
  by_cases hc : c = c'
  · subst hc
    simp [hx, Function.update_apply, ConnectionEnd.module?_redirect]
  · simp [hc, Ne.symm hc]

theorem ends_drop (d : DependencyId) (c : ConnectionId)
    : (g.dropConnection d c).ends
        =
      Function.update (Function.update g.ends (.outgoing, c) none) (.incoming, c) none := by
  funext ⟨e, c'⟩
  unfold ends
  rw [connection?_emptied rfl]
  by_cases hc : c = c'
  · subst hc
    cases e <;> simp
  · simp [hc, Ne.symm hc]

theorem ends_of_connection? {c : ConnectionId} {x : Connection} (hx : g.connection? c = some x)
    (e : ConnectionEnd) : g.ends (e, c) = e.module? x := by
  unfold ends
  rw [hx]
  rfl

/--
The modules of the graph list connections as they would if these had the given ends. In the middle of an operation these
need not be the ends that the connections have.
-/
structure Lists (g : Graph) (ends : ConnectionEnds) : Prop extends g.Tables where
  number : ∀ {c : ConnectionId} {x : Connection}, g.connection? c = some x → x.id = c
  dependency : ∀ {d : DependencyId} {c : ConnectionId} {x : Connection}, g.current.get? d = some c →
    g.connection? c = some x → x.dependency = some d
  listed : ∀ {id : ModuleId} {n : Node}, g.nodes.get? id = some n → ∀ (e : ConnectionEnd) (c : ConnectionId),
    c ∈ e.listed n ↔ ∃ m, ends (e, c) = some m ∧ m == id
  ended : ∀ {e : ConnectionEnd} {c : ConnectionId} {m : ModuleId}, ends (e, c) = some m → g.Knows m

namespace Lists

variable {ends : ConnectionEnds}

theorem nodup (h : g.Lists ends) {id : ModuleId} {n : Node} (hn : g.nodes.get? id = some n) (e : ConnectionEnd)
    : (e.listed n).Nodup :=
  (h.node hn).nodup e

theorem modifyNode (h : g.Lists ends) (id : ModuleId) {f : Node → Node} (htables : (g.modifyNode id f).Tables)
    (hlisted : ∀ (e : ConnectionEnd) n, e.listed (f n) = e.listed n) : (g.modifyNode id f).Lists ends where
  toTables := htables
  number := h.number
  dependency := h.dependency
  listed := by
    intro k n hn e c
    rcases node_modifyNode hn with ⟨n', hn', _, rfl⟩ | ⟨hn', _⟩
    · rw [hlisted]
      exact h.listed hn' e c
    · exact h.listed hn' e c
  ended := fun hm => (h.ended hm).modifyNode id f

theorem add (h : g.Lists ends) {e : ConnectionEnd} {c : ConnectionId} (hlt : c.index < g.connections.size)
    (hc : ends (e, c) = none) (id : ModuleId) (hid : g.Knows id)
    : (g.modifyNode id (e.add c ·)).Lists (Function.update ends (e, c) (some id)) where
  toTables := h.toTables.add e hlt id
  number := h.number
  dependency := h.dependency
  listed := by
    intro k n hn e' c'
    by_cases hp : (e', c') = (e, c)
    · cases hp
      rw [Function.update_self]
      rcases node_modifyNode hn with ⟨n', hn', hk, rfl⟩ | ⟨hn', hk⟩
      · rw [ConnectionEnd.listed_add, if_pos rfl, mem_addDistinct]
        exact ⟨fun _ => ⟨id, rfl, hk⟩, fun _ => .inr rfl⟩
      · rw [h.listed hn', hc]
        simp [hk]
    · rw [Function.update_of_ne hp]
      rcases node_modifyNode hn with ⟨n', hn', hk, rfl⟩ | ⟨hn', hk⟩
      · rw [← h.listed hn', ConnectionEnd.listed_add]
        split
        · next he =>
          subst he
          have hne : c' ≠ c := fun heq => hp (by rw [heq])
          rw [mem_addDistinct]
          simp [hne]
        · rfl
      · exact h.listed hn' e' c'
  ended := by
    intro e' c' m hm
    rw [Function.update_apply] at hm
    split at hm
    · cases hm
      exact hid.modifyNode id _
    · exact (h.ended hm).modifyNode id _

theorem remove (h : g.Lists ends) {e : ConnectionEnd} {c : ConnectionId} {m id : ModuleId}
    (hm : ends (e, c) = some m) (hid : m == id)
    : (g.modifyNode id (e.remove c ·)).Lists (Function.update ends (e, c) none) where
  toTables := h.toTables.remove e c id
  number := h.number
  dependency := h.dependency
  listed := by
    intro k n hn e' c'
    by_cases hp : (e', c') = (e, c)
    · cases hp
      rw [Function.update_self]
      rcases node_modifyNode hn with ⟨n', hn', hk, rfl⟩ | ⟨hn', hk⟩
      · rw [ConnectionEnd.listed_remove, if_pos rfl, (h.nodup hn' e).mem_erase_iff]
        simp
      · rw [h.listed hn', hm]
        simp [BEq.congr_left hid, hk]
    · rw [Function.update_of_ne hp]
      rcases node_modifyNode hn with ⟨n', hn', hk, rfl⟩ | ⟨hn', hk⟩
      · rw [← h.listed hn', ConnectionEnd.listed_remove]
        split
        · next he =>
          subst he
          have hne : c' ≠ c := fun heq => hp (by rw [heq])
          rw [(h.nodup hn' e').mem_erase_iff]
          simp [hne]
        · rfl
      · exact h.listed hn' e' c'
  ended := by
    intro e' c' m' hm'
    rw [Function.update_apply] at hm'
    split at hm'
    · cases hm'
    · exact (h.ended hm').modifyNode id _

theorem push (h : g.Lists ends) (build : ConnectionId → Connection) (hbuild : ∀ c, (build c).id = c)
    (hexplanations : ∀ c, (build c).explanations.Nodup) : (g.pushConnection build).1.Lists ends where
  toTables := h.toTables.pushConnection hexplanations
  number := by
    intro c x hx
    rw [connection?_push] at hx
    split at hx
    · next hc =>
      cases hx
      rw [hbuild, hc]
    · exact h.number hx
  dependency := by
    intro d c x hc hx
    rw [connection?_push, if_neg] at hx
    · exact h.dependency hc hx
    · rintro rfl
      exact Nat.lt_irrefl _ (h.index_lt hc)
  listed := h.listed
  ended := h.ended

theorem modifyConnection (h : g.Lists ends) (c : ConnectionId) {f : Connection → Connection}
    (hid : ∀ x, (f x).id = x.id) (hf : ∀ x, (f x).dependency = x.dependency)
    (hexplanations : ∀ x, x.explanations.Nodup → (f x).explanations.Nodup)
    : (g.modifyConnection c f).Lists ends where
  toTables := h.toTables.modifyConnection c hexplanations
  number := by
    intro c' x hx
    rw [connection?_modify] at hx
    split at hx
    · obtain ⟨y, hy, rfl⟩ := Option.map_eq_some_iff.1 hx
      rw [hid]
      exact h.number hy
    · exact h.number hx
  dependency := by
    intro d c' x hc' hx
    rw [connection?_modify] at hx
    split at hx
    · obtain ⟨y, hy, rfl⟩ := Option.map_eq_some_iff.1 hx
      rw [hf]
      exact h.dependency hc' hy
    · exact h.dependency hc' hx
  listed := h.listed
  ended := h.ended

theorem setCurrent (h : g.Lists ends) {d : DependencyId} {c : ConnectionId} (htables : (g.setCurrent d c).Tables)
    {x : Connection} (hx : g.connection? c = some x) (hdependency : x.dependency = some d)
    : (g.setCurrent d c).Lists ends where
  toTables := htables
  number := h.number
  dependency := by
    intro d' c' x' hc' hx'
    unfold Graph.setCurrent at hc'
    rw [Dict.get?_insert] at hc'
    split at hc'
    · next heq =>
      cases hc'
      cases eq_of_beq heq
      cases hx.symm.trans hx'
      exact hdependency
    · exact h.dependency hc' hx'
  listed := h.listed
  ended := h.ended

theorem dropConnection (h : g.Lists ends) {d : DependencyId} {c : ConnectionId}
    (hc : g.current.get? d = some c) : (g.dropConnection d c).Lists ends where
  toTables := h.toTables.dropConnection hc
  number := by
    intro c' x hx
    rw [connection?_emptied rfl] at hx
    split at hx
    · cases hx
    · exact h.number hx
  dependency := by
    intro d' c' x' hc' hx'
    unfold Graph.dropConnection at hc'
    rw [Dict.get?_erase h.keys] at hc'
    rw [connection?_emptied rfl] at hx'
    split at hc'
    · cases hc'
    · split at hx'
      · cases hx'
      · exact h.dependency hc' hx'
  listed := h.listed
  ended := h.ended

theorem update_none {p : ConnectionEnd × ConnectionId} (hp : ends p = none)
    : Function.update ends p none = ends := by
  rw [← hp, Function.update_eq_self]

theorem listOutgoing (h : g.Lists ends) {c : ConnectionId} (hlt : c.index < g.connections.size)
    (hc : ends (.outgoing, c) = none) (origin : Option ModuleId) (horigin : ∀ o, origin = some o → g.Knows o)
    : (g.listOutgoing origin c).Lists (Function.update ends (.outgoing, c) origin) := by
  cases origin with
  | none =>
    rw [update_none hc]
    exact h
  | some o => exact h.add (e := .outgoing) hlt hc o (horigin o rfl)

theorem unlistOutgoing (h : g.Lists ends) {c : ConnectionId} {origin : Option ModuleId}
    (horigin : ends (.outgoing, c) = origin)
    : (g.unlistOutgoing origin c).Lists (Function.update ends (.outgoing, c) none) := by
  cases origin with
  | none =>
    rw [update_none horigin]
    exact h
  | some o => exact h.remove (e := .outgoing) horigin BEq.rfl

end Lists

end Graph
end ModuleLink
