import ModuleLink.Exports.Arena

/-!
This module contains snapshots of the provision of a descriptor. A snapshot holds the catch-all record's
provision and, by name, the records that differ from it; replaying it assigns provision, where analyses
only promote it.
-/

namespace ModuleLink

structure ProvisionFacts where
  provided : Provision
  mangleProvide : Option Bool
  terminal : Bool
deriving DecidableEq, Repr, Inhabited

namespace ExportRecord

def provisionFacts (r : ExportRecord) : ProvisionFacts := ⟨r.provided, r.mangleProvide, r.terminal⟩

def assignProvision (r : ExportRecord) (f : ProvisionFacts) : ExportRecord :=
  { r with provided := f.provided, mangleProvide := f.mangleProvide, terminal := f.terminal }

end ExportRecord

inductive ProvisionSnapshot where
  | mk (other : ProvisionFacts)
      (exports : List (String × ProvisionFacts × Option ProvisionSnapshot))
deriving Repr, Inhabited

namespace Arena

/--
The provision of `d` itself, redirects aside. Descriptors own each other without circles, so their number bounds the
depth.
-/
def snapshot (a : Arena) (d : DescriptorId) : ProvisionSnapshot :=
  go a.descriptors.size d
where
  go : Nat → DescriptorId → ProvisionSnapshot
    | 0, d => .mk (a.record (a.descriptor d).other).provisionFacts []
    | n + 1, d =>
      let other := (a.record (a.descriptor d).other).provisionFacts
      .mk other <| (a.orderedLocals d).filterMap fun r =>
        let facts := (a.record r).provisionFacts
        let nested := (a.record r).ownedNested.map (go n)
        if facts = other ∧ nested.isNone then
          none
        else
          some ((a.record r).name.getD "", facts, nested)

/--
The record that the descriptor itself lists under `name`; it is created if need be.
-/
def getOrInsertLocal (a : Arena) (d : DescriptorId) (name : String) : Arena × RecordId :=
  match a.listed? d name with
  | some r => (a, r)
  | none => a.insertLocal d name

def assignLocal (a : Arena) (d : DescriptorId) (name : String) (facts : ProvisionFacts) : Arena × RecordId :=
  let (a, r) := a.getOrInsertLocal d name
  (a.modifyRecord r (·.assignProvision facts), r)

mutual

/--
Replay a snapshot: records that it does not mention get the provision of its catch-all record.
-/
def restore (a : Arena) (d : DescriptorId) : ProvisionSnapshot → Arena
  | .mk other exports =>
    let a := (a.locals d ++ [(a.descriptor d).other]).foldl
      (fun a r => a.modifyRecord r (·.assignProvision other)) a
    a.restoreExports d exports

def restoreExports (a : Arena) (d : DescriptorId) :
    List (String × ProvisionFacts × Option ProvisionSnapshot) → Arena
  | [] => a
  | (name, facts, none) :: rest => (a.assignLocal d name facts).1.restoreExports d rest
  | (name, facts, some inner) :: rest =>
    let (a, r) := a.assignLocal d name facts
    let (a, e) := a.createNested r
    (a.restore e inner).restoreExports d rest

end

end Arena
end ModuleLink
