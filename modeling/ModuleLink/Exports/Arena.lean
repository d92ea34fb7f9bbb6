import ModuleLink.Exports.Record

/-!
This module contains the arena of export descriptors and records. A descriptor lists the known exports
of a module (or of an export that is itself a namespace), has a catch-all record for all others, and
may redirect lookups to another descriptor. Descriptors and records refer to each other by number;
numbers are never reused.
-/

namespace ModuleLink

structure Descriptor where
  exports : Dict String RecordId := .empty
  other : RecordId
  sideEffects : RecordId
  redirect : Option DescriptorId := none
  owner : Option RecordId := none
deriving DecidableEq, Repr, Inhabited

structure Arena where
  descriptors : Array Descriptor := #[]
  records : Array ExportRecord := #[]
deriving DecidableEq, Repr, Inhabited

structure RedirectCycle where
  descriptor : DescriptorId
  target : DescriptorId
deriving DecidableEq, Repr

def RedirectCycle.message (e : RedirectCycle) : String :=
  "Redirecting " ++ e.descriptor.render ++ " to " ++ e.target.render ++ " would create a cycle"

namespace Arena

def descriptor (a : Arena) (d : DescriptorId) : Descriptor := a.descriptors[d.index]?.getD default

def record (a : Arena) (r : RecordId) : ExportRecord := a.records[r.index]?.getD default

def modifyDescriptor (a : Arena) (d : DescriptorId) (f : Descriptor → Descriptor) : Arena :=
  { a with descriptors := a.descriptors.modify d.index f }

def modifyRecord (a : Arena) (r : RecordId) (f : ExportRecord → ExportRecord) : Arena :=
  { a with records := a.records.modify r.index f }

def updateRecord (a : Arena) (r : RecordId) (f : ExportRecord → ExportRecord × Bool) :
    Arena × Bool :=
  (a.modifyRecord r fun rec => (f rec).1, (f (a.record r)).2)

def updateRecords (a : Arena) (rs : List RecordId) (f : ExportRecord → ExportRecord × Bool) :
    Arena × Bool :=
  rs.foldl (fun (a, changed) r =>
    let (a, c) := a.updateRecord r f
    (a, changed || c)) (a, false)

def newDescriptorOf (a : Arena) (owner : Option RecordId) : Arena × DescriptorId :=
  ({ descriptors := a.descriptors.push
       { other := ⟨a.records.size⟩, sideEffects := ⟨a.records.size + 1⟩, owner }
     records := (a.records.push {}).push {} },
    ⟨a.descriptors.size⟩)

def newDescriptor (a : Arena) : Arena × DescriptorId := a.newDescriptorOf none

def insertLocal (a : Arena) (d : DescriptorId) (name : String) : Arena × RecordId :=
  let r : RecordId := ⟨a.records.size⟩
  let a := { a with records := a.records.push (.seeded name (a.record (a.descriptor d).other)) }
  (a.modifyDescriptor d fun desc => { desc with exports := desc.exports.insert name r }, r)

def listed? (a : Arena) (d : DescriptorId) (name : String) : Option RecordId :=
  (a.descriptor d).exports.get? name

def locals (a : Arena) (d : DescriptorId) : List RecordId := (a.descriptor d).exports.values

def orderedLocals (a : Arena) (d : DescriptorId) : List RecordId :=
  ((a.descriptor d).exports.entries.mergeSort fun x y => decide (x.1 ≤ y.1)).map Prod.snd

/--
The descriptors that a lookup goes through, from `d` along the redirects. Redirects never form a cycle, so a chain is
not longer than the number of descriptors.
-/
def chain (a : Arena) (d : DescriptorId) : List DescriptorId :=
  go a.descriptors.size d
where
  go : Nat → DescriptorId → List DescriptorId
    | 0, d => [d]
    | n + 1, d =>
      match (a.descriptor d).redirect with
      | none => [d]
      | some e => d :: go n e

def chainEnd (a : Arena) (d : DescriptorId) : DescriptorId := (a.chain d).getLastD d

/--
The answer for `d` to a question that goes along the redirects: `step` makes it from the answer for the descriptor that
`d` is redirected to, if there is one.
-/
def descend (a : Arena) (step : DescriptorId → Option β → β) (d : DescriptorId) : β :=
  go d (a.chain d).tail
where
  go (d : DescriptorId) : List DescriptorId → β
    | [] => step d none
    | e :: rest => step d (some (go e rest))

def other (a : Arena) (d : DescriptorId) : RecordId := (a.descriptor (a.chainEnd d)).other

def find? (a : Arena) (d : DescriptorId) (name : String) : Option RecordId :=
  (a.chain d).findSome? (a.listed? · name)

def lookup (a : Arena) (d : DescriptorId) (name : String) : RecordId :=
  (a.find? d name).getD (a.other d)

def ownRecord (a : Arena) (d : DescriptorId) (name : String) : RecordId :=
  (a.listed? d name).getD (a.descriptor d).other

/--
The record that lists `name`; if there is none, it is created where the redirects end.
-/
def getOrCreate (a : Arena) (d : DescriptorId) (name : String) : Arena × RecordId :=
  match a.find? d name with
  | some r => (a, r)
  | none => a.insertLocal (a.chainEnd d) name

/--
Redirect the lookups of `d`, and report whether that is a change. A redirect that would close a cycle is refused.
-/
def setRedirect (a : Arena) (d : DescriptorId) (target : Option DescriptorId) :
    Arena × Except RedirectCycle Bool :=
  if (a.descriptor d).redirect = target then
    (a, .ok false)
  else
    match target with
    | none => (a.modifyDescriptor d ({ · with redirect := none }), .ok true)
    | some t =>
      if (a.chain t).contains d then
        (a, .error ⟨d, t⟩)
      else
        (a.modifyDescriptor d ({ · with redirect := some t }), .ok true)

/--
The descriptor that a record owns; it is created if need be. A descriptor that the record was linked to before becomes
the redirect of the new one.
-/
def createNested (a : Arena) (r : RecordId) : Arena × DescriptorId :=
  match (a.record r).ownedNested with
  | some d => (a, d)
  | none =>
    let linked := (a.record r).nested
    let (a, d) := a.newDescriptorOf (some r)
    let a := a.modifyRecord (a.descriptor d).other ExportRecord.completeProvision
    let a := a.modifyDescriptor d ({ · with redirect := linked })
    (a.modifyRecord r ({ · with nested := some d, nestedOwned := true }), d)

/--
Link a record to a descriptor that it does not own. An owned descriptor is never replaced.
-/
def linkNested (a : Arena) (r : RecordId) (d : DescriptorId) : Arena × Bool :=
  if (a.record r).nestedOwned ∨ (a.record r).nested = some d then
    (a, false)
  else
    (a.modifyRecord r ({ · with nested := some d }), true)

def visible (a : Arena) (d : DescriptorId) : List RecordId :=
  let names := (a.chain d).foldr (fun e names =>
    (a.descriptor e).exports.entries.foldl (fun names (n, r) => names.insert n r) names)
    (Dict.empty : Dict String RecordId)
  (names.entries.mergeSort fun x y => decide (x.1 ≤ y.1)).map Prod.snd

def targetNames (a : Arena) : List String :=
  a.records.toList.flatMap fun r => r.targets.values.flatMap fun t => t.path.getD []

end Arena
end ModuleLink
