import ModuleLink.Graph.Error
import ModuleLink.Module

/-!
This module contains the module graph: modules, the connections between them, and what is recorded per
module. Dependencies and connections are numbered in the order of their creation; a removed connection
leaves an empty place.
-/

namespace ModuleLink

structure Node where
  incoming : List ConnectionId := []
  /--
  The connections from the module, in order of registration; `none` before the first.
  -/
  outgoing : Option (List ConnectionId) := none
  exports : DescriptorId
  dependencies : List DependencyId := []
  issuer : Option ModuleId := none
  preOrder : Option Nat := none
  postOrder : Option Nat := none
  depth : Option Nat := none
  isAsync : Bool := false
  bailouts : List String := []
deriving DecidableEq, Repr, Inhabited

structure DeclaredDependency where
  dependency : Dependency
  parent : Option ModuleId
deriving Repr, Inhabited

structure Graph where
  modules : Dict ModuleId Module := .empty
  nodes : Dict ModuleId Node := .empty
  dependencies : Array DeclaredDependency := #[]
  connections : Array (Option Connection) := #[]
  current : Dict DependencyId ConnectionId := .empty
  exports : Arena := {}
deriving Repr, Inhabited

structure Outcome (α : Type) where
  graph : Graph
  result : Except GraphError α

namespace Outcome

variable {α β : Type}

def ok (g : Graph) (a : α) : Outcome α := ⟨g, .ok a⟩

def fail (g : Graph) (e : GraphError) : Outcome α := ⟨g, .error e⟩

end Outcome

namespace Graph

def connection? (g : Graph) (c : ConnectionId) : Option Connection :=
  g.connections[c.index]?.join

def modifyConnection (g : Graph) (c : ConnectionId) (f : Connection → Connection) : Graph :=
  { g with connections := g.connections.modify c.index (Option.map f) }

def modifyNode (g : Graph) (id : ModuleId) (f : Node → Node) : Graph :=
  { g with nodes := g.nodes.modify id f }

def node (g : Graph) (id : ModuleId) : Except GraphError Node :=
  match g.nodes.get? id with
  | some n => .ok n
  | none => .error (.moduleNotFound id)

def module (g : Graph) (id : ModuleId) : Except GraphError Module :=
  match g.modules.get? id with
  | some m => .ok m
  | none => .error (.moduleNotFound id)

def declaration (g : Graph) (d : DependencyId) : Except GraphError DeclaredDependency :=
  match g.dependencies[d.index]? with
  | some decl => .ok decl
  | none => .error (.unknownDependency d)

def currentConnection? (g : Graph) (d : DependencyId) : Option Connection :=
  (g.current.get? d).bind g.connection?

def descriptorOf (g : Graph) (id : ModuleId) : Except GraphError DescriptorId :=
  (g.node id).map (·.exports)

/--
Do `f` with what is recorded about a module; fail if the module is unknown.
-/
def withNode {α : Type} (g : Graph) (id : ModuleId) (f : Node → Outcome α) : Outcome α :=
  match g.node id with
  | .ok n => f n
  | .error e => .fail g e

end Graph

namespace Node

def addIncoming (n : Node) (c : ConnectionId) : Node :=
  { n with incoming := addDistinct n.incoming c }

def addOutgoing (n : Node) (c : ConnectionId) : Node :=
  { n with outgoing := some (addDistinct (n.outgoing.getD []) c) }

def removeIncoming (n : Node) (c : ConnectionId) : Node :=
  { n with incoming := n.incoming.erase c }

def removeOutgoing (n : Node) (c : ConnectionId) : Node :=
  { n with outgoing := n.outgoing.map (·.erase c) }

end Node
end ModuleLink
