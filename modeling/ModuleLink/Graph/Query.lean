import ModuleLink.Exports.Summary
import ModuleLink.Graph.Basic

/-!
This module contains the questions that are asked of a module graph.
-/

namespace ModuleLink.Graph

def sortedModules (g : Graph) : List Module :=
  g.modules.values.mergeSort fun m n => (compare m.id n.id).isLE

def contains (g : Graph) (id : ModuleId) : Bool := g.modules.contains id

def dependency (g : Graph) (d : DependencyId) : Except GraphError Dependency :=
  (g.declaration d).map (·.dependency)

def parent (g : Graph) (d : DependencyId) : Except GraphError (Option ModuleId) :=
  (g.declaration d).map (·.parent)

def dependenciesOf (g : Graph) (id : ModuleId) : Except GraphError (List DependencyId) :=
  (g.node id).map (·.dependencies)

def collect (g : Graph) (ids : List ConnectionId) : List Connection := ids.filterMap g.connection?

def incoming (g : Graph) (id : ModuleId) : Except GraphError (List Connection) :=
  (g.node id).map fun n => g.collect n.incoming

def outgoing (g : Graph) (id : ModuleId) : Except GraphError (List Connection) :=
  (g.node id).map fun n => g.collect (n.outgoing.getD [])

def incomingByOrigin (g : Graph) (id : ModuleId) :
    Except GraphError (Dict (Option ModuleId) (List Connection)) :=
  (g.incoming id).map (Dict.groupBy (·.origin))

def outgoingByTarget (g : Graph) (id : ModuleId) :
    Except GraphError (Dict ModuleId (List Connection)) :=
  (g.outgoing id).map (Dict.groupBy (·.target))

def resolve? (g : Graph) (d : DependencyId) : Option ModuleId :=
  (g.currentConnection? d).map (·.target)

def resolvedTarget? (g : Graph) (d : DependencyId) : Option ModuleId :=
  (g.currentConnection? d).map (·.resolvedTarget)

def origin? (g : Graph) (d : DependencyId) : Option ModuleId :=
  (g.currentConnection? d).bind (·.origin)

/--
Every connection to the module is deferred; that is never so for a module that is asynchronous.
-/
def isDeferred (g : Graph) (id : ModuleId) : Except GraphError Bool :=
  (g.node id).map fun n =>
    let cs := g.collect n.incoming
    !n.isAsync && !cs.isEmpty && cs.all (·.deferred)

def usedExports (g : Graph) (id : ModuleId) : Except GraphError UsedExports :=
  (g.descriptorOf id).map g.exports.usedExports

def providedExports (g : Graph) (id : ModuleId) : Except GraphError ProvidedExports :=
  (g.descriptorOf id).map g.exports.providedExports

def conversionFlag : String := "__esModule"

def shape (g : Graph) (id : ModuleId) (strict : Bool) : Except GraphError ExportShape := do
  let m ← g.module id
  let d ← g.descriptorOf id
  let flag := g.exports.record (g.exports.lookup d conversionFlag)
  return m.buildMeta.shape strict (flag.provided == .notProvided)

end ModuleLink.Graph
