import ModuleLink.Graph.Basic

/-!
This module contains the operations that build a module graph and redraw its connections.
-/

namespace ModuleLink.Graph

/--
Add a module. A module that is already there is replaced, and what is recorded about it stays.
-/
def addModule (g : Graph) (m : Module) : Graph × DescriptorId :=
  let g := { g with modules := g.modules.insert m.id m }
  match g.nodes.get? m.id with
  | some n => (g, n.exports)
  | none =>
    let (exports, d) := g.exports.newDescriptor
    ({ g with exports, nodes := g.nodes.insert m.id { exports := d } }, d)

def ofModules (ms : List Module) : Graph :=
  ms.foldl (fun g m => (g.addModule m).1) {}

def addDependency (g : Graph) (parent : Option ModuleId) (dependency : Dependency) :
    Outcome DependencyId :=
  let d : DependencyId := ⟨g.dependencies.size⟩
  let registered := { g with dependencies := g.dependencies.push ⟨dependency, parent⟩ }
  match parent with
  | none => .ok registered d
  | some p =>
    g.withNode p fun _ =>
      .ok (registered.modifyNode p fun n => { n with dependencies := n.dependencies ++ [d] }) d

def pushConnection (g : Graph) (build : ConnectionId → Connection) : Graph × ConnectionId :=
  let c : ConnectionId := ⟨g.connections.size⟩
  ({ g with connections := g.connections.push (some (build c)) }, c)

def listOutgoing (g : Graph) (origin : Option ModuleId) (c : ConnectionId) : Graph :=
  match origin with
  | none => g
  | some o => g.modifyNode o (·.addOutgoing c)

def connect (g : Graph) (origin : Option ModuleId) (d : DependencyId) (target : ModuleId) :
    Outcome ConnectionId :=
  let checked : Except GraphError DeclaredDependency := do
    let _ ← g.node target
    if let some o := origin then
      let _ ← g.node o
    g.declaration d
  match checked with
  | .error e => .fail g e
  | .ok decl =>
    let (g, c) := g.pushConnection fun c => .resolve c origin d decl.dependency target
    let g := (g.modifyNode target (·.addIncoming c)).listOutgoing origin c
    .ok { g with current := g.current.insert d c } c

/--
Resolve a dependency that is already resolved to another module. The connection that it had is switched off and stays
listed.
-/
def updateModule (g : Graph) (d : DependencyId) (target : ModuleId) : Outcome ConnectionId :=
  g.withNode target fun _ =>
    match g.current.get? d with
    | none => .fail g (.notConnected d)
    | some old =>
      match g.connection? old with
      | none => .fail g (.notConnected d)
      | some c =>
        if c.target == target then
          .ok g old
        else
          let (g, new) := g.pushConnection fun id => { c with id, target }
          let g := g.modifyConnection old (·.setActive false)
          let g := { g with current := g.current.insert d new }
          let finish (g : Graph) : Outcome ConnectionId :=
            .ok (g.modifyNode target (·.addIncoming new)) new
          match c.origin with
          | none => finish g
          | some o => g.withNode o fun _ => finish (g.modifyNode o (·.addOutgoing new))

def removeConnection (g : Graph) (d : DependencyId) : Outcome (Option ConnectionId) :=
  match g.current.get? d with
  | none => .ok g none
  | some id =>
    let g := { g with current := g.current.erase d }
    match g.connection? id with
    | none => .ok g none
    | some c =>
      let g := { g with connections := g.connections.setIfInBounds id.index none }
      let finish (g : Graph) : Outcome (Option ConnectionId) :=
        g.withNode c.target fun _ =>
          .ok (g.modifyNode c.target (·.removeIncoming id)) (some id)
      match c.origin with
      | none => finish g
      | some o => g.withNode o fun _ => finish (g.modifyNode o (·.removeOutgoing id))

def addExplanation (g : Graph) (d : DependencyId) (explanation : String) : Outcome Unit :=
  match g.current.get? d with
  | none => .fail g (.notConnected d)
  | some c => .ok (g.modifyConnection c (·.addExplanation explanation)) ()

def updateConnection (g : Graph) (d : DependencyId) (f : Connection → Connection) :
    Outcome Connection :=
  match g.current.get? d with
  | none => .fail g (.notConnected d)
  | some id =>
    match g.connection? id with
    | none => .fail g (.notConnected d)
    | some c => .ok (g.modifyConnection id f) (f c)

def accepted (g : Graph) (accept : Connection → Bool) (ids : List ConnectionId) :
    List ConnectionId :=
  ids.filter fun c => (g.connection? c).any accept

def moveOrigin (old new : ModuleId) (g : Graph) (c : ConnectionId) : Graph :=
  ((g.modifyConnection c ({ · with origin := some new })).modifyNode old (·.removeOutgoing c)).modifyNode
    new (·.addOutgoing c)

def moveTarget (old new : ModuleId) (g : Graph) (c : ConnectionId) : Graph :=
  ((g.modifyConnection c ({ · with target := new })).modifyNode old (·.removeIncoming c)).modifyNode
    new (·.addIncoming c)

/--
Move the connections that `accept` takes from one module to another: first those that start there, then those that end
there. The result is the number of moves.
-/
def moveConnections (g : Graph) (old new : ModuleId) (accept : Connection → Bool) : Outcome Nat :=
  if old == new then
    .ok g 0
  else
    g.withNode new fun _ =>
      g.withNode old fun n =>
        let outgoing := g.accepted accept (n.outgoing.getD [])
        let g := outgoing.foldl (moveOrigin old new) g
        let incoming := g.accepted accept n.incoming
        let g := incoming.foldl (moveTarget old new) g
        .ok g (outgoing.length + incoming.length)

/--
Copy the connections that start at `old` and that `accept` takes to `new`. The copies are not those of any dependency.
-/
def copyOutgoing (g : Graph) (old new : ModuleId) (accept : Connection → Bool) : Outcome Nat :=
  if old == new then
    .ok g 0
  else
    g.withNode new fun _ =>
      g.withNode old fun n =>
        let accepted := ((n.outgoing.getD []).filterMap g.connection?).filter accept
        go new accepted.length g accepted
where
  go (new : ModuleId) (count : Nat) (g : Graph) : List Connection → Outcome Nat
    | [] => .ok g count
    | c :: cs =>
      let (g, id) := g.pushConnection fun id => { c with id, origin := some new }
      let g := g.modifyNode new (·.addOutgoing id)
      g.withNode c.target fun _ => go new count (g.modifyNode c.target (·.addIncoming id)) cs

end ModuleLink.Graph
