import ModuleLink.Exports.Marking
import ModuleLink.Graph.Basic

/-!
This module contains the operations that record facts about single modules of a graph: issuer, order of
visits, depth, and facts about exports.
-/

namespace ModuleLink.Graph

def editNode {α : Type} (g : Graph) (id : ModuleId) (f : Node → Node) (result : Node → α) :
    Outcome α :=
  g.withNode id fun n => .ok (g.modifyNode id f) (result n)

def setIssuer (g : Graph) (id : ModuleId) (issuer : Option ModuleId) : Outcome Unit :=
  g.editNode id ({ · with issuer }) fun _ => ()

def setIssuerIfUnset (g : Graph) (id : ModuleId) (issuer : ModuleId) : Outcome Bool :=
  g.editNode id (fun n => { n with issuer := n.issuer.or (some issuer) }) (·.issuer.isNone)

def setPreOrderIfUnset (g : Graph) (id : ModuleId) (index : Nat) : Outcome Bool :=
  g.editNode id (fun n => { n with preOrder := n.preOrder.or (some index) }) (·.preOrder.isNone)

def setPostOrderIfUnset (g : Graph) (id : ModuleId) (index : Nat) : Outcome Bool :=
  g.editNode id (fun n => { n with postOrder := n.postOrder.or (some index) }) (·.postOrder.isNone)

def isLower (depth : Nat) (recorded : Option Nat) : Bool :=
  match recorded with
  | none => true
  | some d => decide (depth < d)

def setDepthIfLower (g : Graph) (id : ModuleId) (depth : Nat) : Outcome Bool :=
  g.editNode id
    (fun n => if isLower depth n.depth then { n with depth := some depth } else n)
    fun n => isLower depth n.depth

def setAsync (g : Graph) (id : ModuleId) : Outcome Bool :=
  g.editNode id ({ · with isAsync := true }) (!·.isAsync)

def addBailout (g : Graph) (id : ModuleId) (reason : String) : Outcome Unit :=
  g.editNode id (fun n => { n with bailouts := n.bailouts ++ [reason] }) fun _ => ()

def markExportUsed (g : Graph) (id : ModuleId) (path : List String) (state : Usage) :
    Outcome Bool :=
  g.withNode id fun n =>
    let (exports, changed) := g.exports.markExportUsed n.exports path state
    .ok { g with exports } changed

/--
The export `name` of a module is re-exported from whatever a dependency is resolved to.
-/
def setExportTarget (g : Graph) (id : ModuleId) (name : String) (d : DependencyId)
    (path : Option (List String)) (priority : Int) : Outcome Bool :=
  match g.current.get? d with
  | none => .fail g (.notConnected d)
  | some connection =>
    g.withNode id fun n =>
      let (exports, r) := g.exports.getOrCreate n.exports name
      let (exports, changed) := exports.updateRecord r (·.setTarget d ⟨connection, path, priority⟩)
      .ok { g with exports } changed

end ModuleLink.Graph
