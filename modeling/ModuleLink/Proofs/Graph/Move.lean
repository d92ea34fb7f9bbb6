import ModuleLink.Proofs.Graph.Storage

/-!
This module contains the proof of what the move of connections between modules comes to: one change of all connections
that are taken. The connections that end at the old module are judged when those that start there have been moved. This
makes a difference for those that do both, and only if their new origin does.
-/

namespace ModuleLink

namespace ConnectionEnd

def removeAll (cs : List ConnectionId) (n : Node) : ConnectionEnd → Node
  | .incoming => { n with incoming := n.incoming.filter (· ∉ cs) }
  | .outgoing => { n with outgoing := n.outgoing.map (·.filter (· ∉ cs)) }

def addAll (cs : List ConnectionId) (n : Node) : ConnectionEnd → Node
  | .incoming => { n with incoming := n.incoming ++ cs }
  | .outgoing => { n with outgoing := if cs = [] then n.outgoing else some (n.outgoing.getD [] ++ cs) }

variable {n : Node} {cs : List ConnectionId}

@[simp]
theorem removeAll_nil (e : ConnectionEnd) (n : Node) : e.removeAll [] n = n := by
  cases e <;> simp [removeAll]

@[simp]
theorem addAll_nil (e : ConnectionEnd) (n : Node) : e.addAll [] n = n := by
  cases e <;> simp [addAll]

theorem remove_removeAll {e : ConnectionEnd} {c : ConnectionId} (h : (e.listed n).Nodup)
    : e.removeAll cs (e.remove c n) = e.removeAll (c :: cs) n := by
  have hlist {as : List ConnectionId} (has : as.Nodup)
      : (as.erase c).filter (· ∉ cs) = as.filter (· ∉ c :: cs) := by
    rw [has.erase_eq_filter, List.filter_filter]
    apply List.filter_congr
    intro c' _
    simp [bne, beq_eq_decide, Bool.and_comm]
  cases e with
  | incoming => exact congrArg (fun incoming => { n with incoming }) (hlist h)
  | outgoing =>
    cases houtgoing : n.outgoing with
    | none => simp [removeAll, remove, Node.removeOutgoing, houtgoing]
    | some as =>
      have has : as.Nodup := by
        simpa [listed, houtgoing] using h
      simp only [removeAll, remove, Node.removeOutgoing, houtgoing, Option.map_some, hlist has]

theorem foldl_remove {e : ConnectionEnd} (h : (e.listed n).Nodup)
    : cs.foldl (fun n c => e.remove c n) n = e.removeAll cs n := by
  induction cs generalizing n with
  | nil => rw [List.foldl_nil, removeAll_nil]
  | cons c cs ih =>
    rw [List.foldl_cons, ih, remove_removeAll h]
    rw [listed_remove, if_pos rfl]
    exact h.erase c

theorem addAll_add {e : ConnectionEnd} {c : ConnectionId} (h : c ∉ e.listed n)
    : e.addAll cs (e.add c n) = e.addAll (c :: cs) n := by
  have hlist : addDistinct (e.listed n) c = e.listed n ++ [c] := by
    simp [addDistinct, h]
  cases e with
  | incoming =>
    refine congrArg (fun incoming => { n with incoming }) ?_
    refine (congrArg (· ++ cs) hlist).trans ?_
    simp [listed]
  | outgoing =>
    have hlist : addDistinct (n.outgoing.getD []) c = n.outgoing.getD [] ++ [c] := hlist
    cases cs with
    | nil => simp [addAll, add, Node.addOutgoing, hlist]
    | cons c' cs => simp [addAll, add, Node.addOutgoing, hlist]

theorem foldl_add {e : ConnectionEnd} (hcs : cs.Nodup) (h : ∀ c ∈ cs, c ∉ e.listed n)
    : cs.foldl (fun n c => e.add c n) n = e.addAll cs n := by
  induction cs generalizing n with
  | nil => rw [List.foldl_nil, addAll_nil]
  | cons c cs ih =>
    have ⟨hc, hrest⟩ := List.nodup_cons.1 hcs
    rw [List.foldl_cons, ih hrest, addAll_add (h c List.mem_cons_self)]
    intro c' hc'
    rw [listed_add, if_pos rfl, mem_addDistinct]
    rintro (hold | rfl)
    · exact h c' (List.mem_cons_of_mem c hc') hold
    · exact hc hc'

end ConnectionEnd

def Connection.redrawn (old new : ModuleId) (moves : ConnectionEnd → Connection → Bool) (x : Connection) : Connection :=
  { x with
    origin := if moves .outgoing x && x.origin.any (· == old) then some new else x.origin
    target := if moves .incoming x && x.target == old then new else x.target }

def Node.relisted (old new : ModuleId) (moved : ConnectionEnd → List ConnectionId) (id : ModuleId) (n : Node) : Node :=
  if id == old then
    ConnectionEnd.incoming.removeAll (moved .incoming) (ConnectionEnd.outgoing.removeAll (moved .outgoing) n)
  else if id == new then
    ConnectionEnd.incoming.addAll (moved .incoming) (ConnectionEnd.outgoing.addAll (moved .outgoing) n)
  else
    n

namespace Graph

variable {g : Graph} {old new : ModuleId} {accept : Connection → Bool} {n : Node}

def movable (g : Graph) (old : ModuleId) (moves : ConnectionEnd → Connection → Bool) (e : ConnectionEnd)
    : List ConnectionId :=
  g.accepted (moves e) (((g.nodes.get? old).map (e.listed ·)).getD [])

/--
Move connections from `old` to `new`, all at the same time: what is taken at which end is decided before any of them is
changed.
-/
def redrawn (g : Graph) (old new : ModuleId) (moves : ConnectionEnd → Connection → Bool) : Graph :=
  { g with
    connections := g.connections.map (Option.map (Connection.redrawn old new moves))
    nodes := g.nodes.mapValues (Node.relisted old new (g.movable old moves)) }

def takenAt (e : ConnectionEnd) (accept : Connection → Bool) (e' : ConnectionEnd) (x : Connection) : Bool :=
  e' = e && accept x

theorem takenAt_self (e : ConnectionEnd) (accept : Connection → Bool) : takenAt e accept e = accept := by
  funext x
  simp [takenAt]

theorem takenAt_of_ne {e e' : ConnectionEnd} (h : e' ≠ e) (accept : Connection → Bool)
    : takenAt e accept e' = fun _ => false := by
  funext x
  simp [takenAt, h]

theorem redrawn_takenAt (x : Connection) (e : ConnectionEnd)
    : x.redrawn old new (takenAt e accept)
        =
      if accept x && (e.module? x).any (· == old) then e.redirect new x else x := by
  cases e with
  | incoming =>
    have hmoved (b : Bool)
        : { x with target := if b then new else x.target } = if b then { x with target := new } else x := by
      cases b <;> rfl
    rw [Connection.redrawn, takenAt_self, takenAt_of_ne (by simp)]
    exact hmoved (accept x && x.target == old)
  | outgoing =>
    have hmoved (b : Bool)
        : { x with origin := if b then some new else x.origin } = if b then { x with origin := some new } else x := by
      cases b <;> rfl
    rw [Connection.redrawn, takenAt_self, takenAt_of_ne (by simp)]
    exact hmoved (accept x && x.origin.any (· == old))

/--
Connections are taken at their origins first. At their targets they are judged as they are then.
-/
def inTurn (old new : ModuleId) (accept : Connection → Bool) : ConnectionEnd → Connection → Bool
  | .outgoing, x => accept x
  | .incoming, x => accept (x.redrawn old new (takenAt .outgoing accept))

theorem inTurn_incoming (x : Connection)
    : inTurn old new accept .incoming x
        =
      accept (if accept x && x.origin.any (· == old) then { x with origin := some new } else x) := by
  rw [inTurn, redrawn_takenAt]
  rfl

theorem connection?_redrawn (moves : ConnectionEnd → Connection → Bool) (c : ConnectionId)
    : (g.redrawn old new moves).connection? c = (g.connection? c).map (Connection.redrawn old new moves) := by
  unfold connection? redrawn
  rw [Array.getElem?_map]
  cases g.connections[c.index]? with
  | none => rfl
  | some x => rfl

theorem foldl_move (e : ConnectionEnd) (cs : List ConnectionId)
    : cs.foldl (move e old new) g
        =
      { g with
        connections := cs.foldl (fun xs c => xs.modify c.index (Option.map (e.redirect new ·))) g.connections
        nodes := cs.foldl (fun ns c => (ns.modify old (e.remove c ·)).modify new (e.add c ·)) g.nodes } := by
  induction cs generalizing g with
  | nil => rfl
  | cons c cs ih => exact ih

theorem getElem?_foldl_redirect (e : ConnectionEnd) (cs : List ConnectionId) (xs : Array (Option Connection)) (i : Nat)
    : (cs.foldl (fun xs c => xs.modify c.index (Option.map (e.redirect new ·))) xs)[i]?
        =
      if (⟨i⟩ : ConnectionId) ∈ cs then xs[i]?.map (Option.map (e.redirect new ·)) else xs[i]? := by
  have htwice (x : Option Connection)
      : (x.map (e.redirect new ·)).map (e.redirect new ·) = x.map (e.redirect new ·) := by
    cases x with
    | none => rfl
    | some x => cases e <;> rfl
  induction cs generalizing xs with
  | nil => rfl
  | cons c cs ih =>
    rw [List.foldl_cons, ih, Array.getElem?_modify]
    by_cases hc : c = ⟨i⟩
    · subst hc
      rw [if_pos rfl, if_pos List.mem_cons_self, Option.map_map]
      split
      · congr 1
        funext x
        exact htwice x
      · rfl
    · have hindex : c.index ≠ i := fun h => hc (ConnectionId.index_injective h)
      rw [if_neg hindex]
      simp [Ne.symm hc]

section Relist

variable {ns : Dict ModuleId Node} (hne : (old == new) = false) (h : ns.DistinctKeys)
include hne h

theorem modify_modify (f f' : Node → Node)
    : (ns.modify old f).modify new f'
        =
      ns.mapValues fun id n => if id == old then f n else if id == new then f' n else n := by
  rw [Dict.modify_eq_mapValues (h.modify old f), Dict.modify_eq_mapValues h, Dict.mapValues_mapValues]
  congr 1
  funext id n
  by_cases hold : id == old
  · have hnew : (id == new) = false := by
      refine Bool.eq_false_iff.2 fun hnew => ?_
      rw [BEq.trans (BEq.symm hold) hnew] at hne
      cases hne
    simp [hold, hnew]
  · simp [hold]

theorem foldl_relist (e : ConnectionEnd) (cs : List ConnectionId)
    : cs.foldl (fun ns c => (ns.modify old (e.remove c ·)).modify new (e.add c ·)) ns
        =
      ns.mapValues fun id n =>
        if id == old then cs.foldl (fun n c => e.remove c n) n
        else if id == new then cs.foldl (fun n c => e.add c n) n
        else n := by
  induction cs generalizing ns with
  | nil =>
    simp only [List.foldl_nil, ite_self]
    exact congrArg Dict.mk (List.map_id _).symm
  | cons c cs ih =>
    rw [List.foldl_cons, modify_modify hne h, ih (h.mapValues _), Dict.mapValues_mapValues]
    congr 1
    funext id n
    split
    · rfl
    · split <;> rfl

end Relist

theorem movable_of_node (hn : g.nodes.get? old = some n) (moves : ConnectionEnd → Connection → Bool)
    (e : ConnectionEnd) : g.movable old moves e = g.accepted (moves e) (e.listed n) := by
  rw [movable, hn]
  rfl

theorem movable_takenAt (hn : g.nodes.get? old = some n) (e e' : ConnectionEnd)
    : g.movable old (takenAt e accept) e' = if e' = e then g.accepted accept (e.listed n) else [] := by
  rw [movable_of_node hn]
  split
  next he =>
    subst he
    rw [takenAt_self]
  next he =>
    rw [takenAt_of_ne he]
    simp [accepted]

theorem relisted_single (e : ConnectionEnd) (cs : List ConnectionId) (id : ModuleId) (n : Node)
    : Node.relisted old new (fun e' => if e' = e then cs else []) id n
        =
      if id == old then e.removeAll cs n else if id == new then e.addAll cs n else n := by
  cases e <;> simp [Node.relisted]

namespace Consistent

variable (h : g.Consistent) (hn : g.nodes.get? old = some n) (e : ConnectionEnd)
include h hn

theorem mem_accepted {c : ConnectionId} {x : Connection} (hx : g.connection? c = some x)
    : c ∈ g.accepted accept (e.listed n) ↔ accept x && (e.module? x).any (· == old) := by
  unfold accepted
  rw [List.mem_filter, h.listed hn, ends_of_connection? hx, hx]
  cases e.module? x <;> simp [and_comm]

theorem redirect_accepted
    : (g.accepted accept (e.listed n)).foldl (fun xs c => xs.modify c.index (Option.map (e.redirect new ·)))
        g.connections
        =
      g.connections.map (Option.map (Connection.redrawn old new (takenAt e accept))) := by
  apply Array.ext_getElem?
  intro i
  rw [getElem?_foldl_redirect, Array.getElem?_map]
  cases hi : g.connections[i]? with
  | none =>
    split
    · rfl
    · rfl
  | some x =>
    cases x with
    | none =>
      split
      · rfl
      · rfl
    | some x =>
      have hx : g.connection? ⟨i⟩ = some x := by
        rw [connection?, hi]
        rfl
      simp only [h.mem_accepted hn e hx, Option.map_some, redrawn_takenAt]
      split
      · rfl
      · rfl

theorem relist_accepted (hkeys : g.nodes.DistinctKeys) (hne : (old == new) = false)
    : (g.accepted accept (e.listed n)).foldl (fun ns c => (ns.modify old (e.remove c ·)).modify new (e.add c ·)) g.nodes
        =
      g.nodes.mapValues (Node.relisted old new (g.movable old (takenAt e accept))) := by
  have hmovable : g.movable old (takenAt e accept)
      = fun e' => if e' = e then g.accepted accept (e.listed n) else [] := funext fun e' => movable_takenAt hn e e'
  rw [foldl_relist hne hkeys, hmovable]
  apply Dict.mapValues_congr hkeys
  intro id m hm
  rw [relisted_single]
  split
  next hid =>
    exact ConnectionEnd.foldl_remove (h.nodup hm e)
  · split
    next hid =>
      apply ConnectionEnd.foldl_add
      · exact (h.nodup hn e).filter _
      · intro c hc hlisted
        obtain ⟨k, hk, hold⟩ := (h.listed hn e c).1 (List.mem_filter.1 hc).1
        obtain ⟨k', hk', hnew⟩ := (h.listed hm e c).1 hlisted
        rw [hk] at hk'
        cases hk'
        rw [BEq.trans (BEq.symm hold) (BEq.trans hnew hid)] at hne
        cases hne
    · rfl

theorem move_accepted (accept : Connection → Bool) (hkeys : g.nodes.DistinctKeys) (hne : (old == new) = false)
    : (g.accepted accept (e.listed n)).foldl (move e old new) g = g.redrawn old new (takenAt e accept) := by
  rw [foldl_move, h.redirect_accepted hn, h.relist_accepted hn e hkeys hne]
  rfl

end Consistent

theorem redrawn_connection (x : Connection)
    : (x.redrawn old new (takenAt .outgoing accept)).redrawn old new (takenAt .incoming accept)
        =
      x.redrawn old new (inTurn old new accept) := rfl

theorem accepted_redrawn (cs : List ConnectionId)
    : (g.redrawn old new (takenAt .outgoing accept)).accepted accept cs
        =
      g.accepted (inTurn old new accept .incoming) cs := by
  apply List.filter_congr
  intro c _
  rw [connection?_redrawn, Option.any_map]
  rfl

section InTurn

variable (hn : g.nodes.get? old = some n)
include hn

theorem node_redrawn (moves : ConnectionEnd → Connection → Bool)
    : (g.redrawn old new moves).nodes.get? old = some (n.relisted old new (g.movable old moves) old) := by
  have hkey : ∀ id m, id == old →
      Node.relisted old new (g.movable old moves) id m = Node.relisted old new (g.movable old moves) old m := by
    intro id m hid
    rw [Node.relisted, Node.relisted, if_pos hid, if_pos BEq.rfl]
  refine (g.nodes.get?_mapValues_of_key hkey).trans ?_
  rw [hn]
  rfl

theorem incoming_redrawn
    : (n.relisted old new (g.movable old (takenAt .outgoing accept)) old).incoming = n.incoming := by
  rw [Node.relisted, if_pos BEq.rfl, movable_takenAt hn, movable_takenAt hn, if_neg (by simp), if_pos rfl,
    ConnectionEnd.removeAll_nil]
  rfl

theorem movable_inTurn
    : (g.redrawn old new (takenAt .outgoing accept)).movable old (takenAt .incoming accept)
        =
      fun e => if e = .incoming then g.movable old (inTurn old new accept) .incoming else [] := by
  funext e
  rw [movable_takenAt (node_redrawn hn _), accepted_redrawn, movable_of_node hn]
  exact congrArg (fun cs => if e = .incoming then g.accepted _ cs else []) (incoming_redrawn hn)

theorem redrawn_redrawn
    : (g.redrawn old new (takenAt .outgoing accept)).redrawn old new (takenAt .incoming accept)
        =
      g.redrawn old new (inTurn old new accept) := by
  have houtgoing : g.movable old (takenAt .outgoing accept)
      = fun e => if e = .outgoing then g.movable old (inTurn old new accept) .outgoing else [] := by
    funext e
    rw [movable_takenAt hn, movable_of_node hn]
    rfl
  have hnodes : (g.redrawn old new (takenAt .outgoing accept)).nodes.mapValues
        (Node.relisted old new ((g.redrawn old new (takenAt .outgoing accept)).movable old (takenAt .incoming accept)))
      = g.nodes.mapValues (Node.relisted old new (g.movable old (inTurn old new accept))) := by
    refine (Dict.mapValues_mapValues ..).trans (congrArg g.nodes.mapValues ?_)
    funext id m
    rw [movable_inTurn hn, houtgoing, relisted_single, relisted_single, Node.relisted]
    split
    · rfl
    · split <;> rfl
  have hconnections : (g.redrawn old new (takenAt .outgoing accept)).connections.map
        (Option.map (Connection.redrawn old new (takenAt .incoming accept)))
      = g.connections.map (Option.map (Connection.redrawn old new (inTurn old new accept))) := by
    refine Array.map_map.trans (congrArg g.connections.map ?_)
    funext x
    refine (Option.map_map ..).trans (congrArg (Option.map · x) ?_)
    exact funext redrawn_connection
  rw [redrawn, hnodes, hconnections]
  rfl

end InTurn

namespace Consistent

theorem redrawn_congr (h : g.Consistent) {moves moves' : ConnectionEnd → Connection → Bool}
    (hmoves : ∀ c x, g.connection? c = some x → ∀ e : ConnectionEnd, (e.module? x).any (· == old) →
      moves e x = moves' e x)
    : g.redrawn old new moves = g.redrawn old new moves' := by
  have hconnections : g.connections.map (Option.map (Connection.redrawn old new moves))
      = g.connections.map (Option.map (Connection.redrawn old new moves')) := by
    apply Array.map_congr_left
    intro x hx
    cases x with
    | none => rfl
    | some x =>
      obtain ⟨i, hi⟩ := Array.mem_iff_getElem?.1 hx
      have hx : g.connection? ⟨i⟩ = some x := by
        rw [connection?, hi]
        rfl
      have hmoved (e : ConnectionEnd)
          : (moves e x && (e.module? x).any (· == old)) = (moves' e x && (e.module? x).any (· == old)) := by
        cases hany : (e.module? x).any (· == old) with
        | false => rw [Bool.and_false, Bool.and_false]
        | true => rw [hmoves _ x hx e hany]
      have hincoming : (moves .incoming x && x.target == old)
          = (moves' .incoming x && x.target == old) := hmoved .incoming
      have houtgoing : (moves .outgoing x && x.origin.any (· == old))
          = (moves' .outgoing x && x.origin.any (· == old)) := hmoved .outgoing
      simp only [Option.map_some, Connection.redrawn, hincoming, houtgoing]
  have hmovable : g.movable old moves = g.movable old moves' := by
    funext e
    cases hn : g.nodes.get? old with
    | none =>
      rw [movable, movable, hn]
      rfl
    | some n =>
      rw [movable_of_node hn, movable_of_node hn]
      apply List.filter_congr
      intro c hc
      obtain ⟨m, hm, hold⟩ := (h.listed hn e c).1 hc
      obtain ⟨x, hx, hxm⟩ := Option.bind_eq_some_iff.1 hm
      rw [hx, Option.any_some, Option.any_some, hmoves c x hx e]
      rw [hxm]
      exact hold
  rw [redrawn, hconnections, hmovable]
  rfl

end Consistent

section Move

variable (h : g.Maintained) (hold : g.Knows old) (hnew : g.Knows new) (hne : (old == new) = false)
include h hold hnew hne

theorem Maintained.moveConnections_eq (accept : Connection → Bool)
    : g.moveConnections old new accept
        =
      .ok (g.redrawn old new (inTurn old new accept))
        ((g.movable old (inTurn old new accept) .outgoing).length
          + (g.movable old (inTurn old new accept) .incoming).length) := by
  obtain ⟨n, hn⟩ := Option.isSome_iff_exists.1 hold
  have houtgoing := h.consistent.move_accepted hn .outgoing accept h.consistent.nodes hne
  have hconsistent : (g.redrawn old new (takenAt .outgoing accept)).Consistent := by
    rw [← houtgoing]
    refine (Consistent.move_run ((h.consistent.nodup hn .outgoing).filter _) h.consistent hnew ?_).1
    intro c hc
    exact (h.consistent.listed hn .outgoing c).1 (List.mem_filter.1 hc).1
  have hincoming := hconsistent.move_accepted (node_redrawn hn _) .incoming accept (h.consistent.nodes.mapValues _) hne
  have hmoved : g.moveConnections old new accept
      = .ok
        (((g.redrawn old new (takenAt .outgoing accept)).accepted accept n.incoming).foldl (move .incoming old new)
          (g.redrawn old new (takenAt .outgoing accept)))
        ((g.accepted accept (n.outgoing.getD [])).length
          + ((g.redrawn old new (takenAt .outgoing accept)).accepted accept n.incoming).length) := by
    unfold Graph.moveConnections
    rw [if_neg (by rw [hne]; exact Bool.false_ne_true), withNode_of_knows hnew, ← houtgoing]
    unfold withNode node
    rw [hn]
    rfl
  rw [hmoved, ← incoming_redrawn hn]
  refine congr (congrArg Outcome.ok (hincoming.trans (redrawn_redrawn hn))) ?_
  rw [movable_of_node hn, movable_of_node hn, incoming_redrawn hn, accepted_redrawn]
  rfl

/--
A move comes to one change of all connections, in which those that end at `old` are judged with their new origins. It is
the change that follows from the connections as they were before if and only if no connection of `old` with itself is
taken where it starts, but not where it ends.
-/
theorem moveConnections_redrawn (accept : Connection → Bool)
    : g.moveConnections old new accept
        =
      .ok (g.redrawn old new (inTurn old new accept))
        ((g.movable old (inTurn old new accept) .outgoing).length
          + (g.movable old (inTurn old new accept) .incoming).length) ∧
      ((g.moveConnections old new accept).graph = g.redrawn old new (fun _ => accept)
          ↔
        ∀ c x, g.connection? c = some x → x.origin.any (· == old) → x.target == old → accept x →
          accept { x with origin := some new }) := by
  have hmoved := h.moveConnections_eq hold hnew hne accept
  refine ⟨hmoved, ?_⟩
  rw [hmoved]
  change g.redrawn old new (inTurn old new accept) = _ ↔ _
  constructor
  · intro hsame c x hx horigin htarget haccept
    have hconnection : x.redrawn old new (inTurn old new accept) = x.redrawn old new fun _ => accept := by
      have hc := congrArg (connection? · c) hsame
      simp only [connection?_redrawn, hx] at hc
      exact Option.some.inj hc
    have hends := congrArg Connection.target hconnection
    simp only [Connection.redrawn, inTurn_incoming, haccept, horigin, htarget, Bool.and_self, if_true, Bool.and_true]
      at hends
    -- A connection that still ends at `old` does not end at `new`.
    refine Bool.of_not_eq_false fun hrejected => ?_
    rw [hrejected] at hends
    have hnew : x.target = new := hends
    rw [hnew, BEq.comm, hne] at htarget
    cases htarget
  · intro hloops
    apply h.consistent.redrawn_congr
    intro c x hx e hend
    cases e with
    | outgoing => rfl
    | incoming =>
      rw [inTurn_incoming]
      split
      next hloop =>
        have ⟨haccept, horigin⟩ := Bool.and_eq_true_iff.1 hloop
        rw [hloops c x hx horigin hend haccept, haccept]
      · rfl

end Move

end Graph

namespace Sample

def mirroring : List GraphOp := [
  .addModule { id := page }, .addModule { id := store },
  .addDependency (some page) { request := "./page" }, .connect (some page) ⟨0⟩ page,
  .addDependency (some page) { request := "./store" }, .connect (some page) ⟨1⟩ store,
  .addDependency (some store) { request := "./page" }, .connect (some store) ⟨2⟩ page]

def mirrored : Graph := mirroring.foldl GraphOp.apply {}

theorem mirrored_maintained : mirrored.Maintained := by
  simp only [mirrored, mirroring, List.foldl_cons, List.foldl_nil]
  iterate 8 refine .step _ ?_ trivial trivial
  exact .empty

theorem mirrored_knows : mirrored.Knows page ∧ mirrored.Knows store := by
  unfold Graph.Knows
  decide

def startsAtPage (x : Connection) : Bool := x.origin.any (· == page)

end Sample

theorem Graph.moveConnections_redrawn_sample
    : Sample.mirrored.Maintained ∧ Sample.mirrored.Knows Sample.page ∧ Sample.mirrored.Knows Sample.store ∧
      (Sample.page == Sample.store) = false ∧
      (Sample.mirrored.moveConnections Sample.page Sample.store (·.active)).graph
        =
      Sample.mirrored.redrawn Sample.page Sample.store (fun _ => (·.active)) ∧
      ((Sample.mirrored.moveConnections Sample.page Sample.store (·.active)).graph.connection? ⟨0⟩).map
          (fun x => (x.origin, x.target))
        =
      some (some Sample.store, Sample.store) := by
  have ⟨hpage, hstore⟩ := Sample.mirrored_knows
  have hne : (Sample.page == Sample.store) = false := by decide
  have hmoved := moveConnections_redrawn Sample.mirrored_maintained hpage hstore hne (·.active)
  refine ⟨Sample.mirrored_maintained, hpage, hstore, hne, hmoved.2.2 ?_, by decide⟩
  intro c x _ _ _ hactive
  exact hactive

/--
The connection of `page` with itself starts at `page`, is taken and moved, but ends at `page` afterwards.
-/
theorem Graph.moveConnections_keeps_target
    : Sample.mirrored.Maintained ∧ Sample.mirrored.Knows Sample.page ∧ Sample.mirrored.Knows Sample.store ∧
      (Sample.page == Sample.store) = false ∧
      (Sample.mirrored.connection? ⟨0⟩).any Sample.startsAtPage ∧
      (Sample.mirrored.connection? ⟨0⟩).map (fun x => (x.origin, x.target)) = some (some Sample.page, Sample.page) ∧
      ((Sample.mirrored.moveConnections Sample.page Sample.store Sample.startsAtPage).graph.connection? ⟨0⟩).map
          (fun x => (x.origin, x.target))
        =
      some (some Sample.store, Sample.page) ∧
      (Sample.mirrored.moveConnections Sample.page Sample.store Sample.startsAtPage).graph
        ≠
      Sample.mirrored.redrawn Sample.page Sample.store (fun _ => Sample.startsAtPage) := by
  have ⟨hpage, hstore⟩ := Sample.mirrored_knows
  refine ⟨Sample.mirrored_maintained, hpage, hstore, by decide, by decide, by decide,
    by decide, ?_⟩
  intro hsame
  have hends := congrArg (fun g => (g.connection? ⟨0⟩).map fun x => x.target) hsame
  simp only [connection?_redrawn] at hends
  revert hends
  decide

end ModuleLink
