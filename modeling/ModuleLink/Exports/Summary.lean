import ModuleLink.Data.Distinct
import ModuleLink.Exports.Marking

/-!
This module contains the questions that are asked of a descriptor: which exports are consumed, which
exist, and what holds for an export that a property path leads to.
-/

namespace ModuleLink.Arena

def isUsed (a : Arena) (d : DescriptorId) : Bool :=
  (a.scope d).any fun r => (a.record r).used.isUsed

def isModuleUsed (a : Arena) (d : DescriptorId) : Bool :=
  a.isUsed d || (a.record (a.descriptor d).sideEffects).used.isUsed

/--
The names of the used ones among the records; the first that settles the answer stops the scan.
-/
def scanUsed : List ExportRecord → Except UsedExports (List String)
  | [] => .ok []
  | r :: rs =>
    match r.used with
    | .noInfo => .error .unknown
    | .unused => scanUsed rs
    | .unknown => .error .everything
    | .propertiesUsed | .used => (scanUsed rs).map (r.name.getD "" :: ·)

def scanOtherUsed (r : ExportRecord) : Except UsedExports Unit :=
  match r.used with
  | .noInfo => .error .unknown
  | .unused => .ok ()
  | .unknown | .propertiesUsed | .used => .error .everything

def usedNames (a : Arena) (d : DescriptorId) (inner : Option UsedExports) :
    Except UsedExports (List String) := do
  if inner.isNone then
    scanOtherUsed (a.record (a.descriptor d).other)
  let own ← scanUsed ((a.orderedLocals d).map a.record)
  match inner with
  | none | some .never => return own
  | some (.names inner) => return own ++ inner
  | some settled => throw settled

/--
Which exports are consumed, given the answer for the redirect. An empty answer is for the side-effects record of `d` to
decide.
-/
def usedExportsStep (a : Arena) (d : DescriptorId) (inner : Option UsedExports) : UsedExports :=
  match a.usedNames d inner with
  | .error settled => settled
  | .ok [] =>
    match (a.record (a.descriptor d).sideEffects).used with
    | .noInfo => .unknown
    | .unused => .never
    | .unknown | .propertiesUsed | .used => .names []
  | .ok names => .names (increasing names)

def usedExports (a : Arena) (d : DescriptorId) : UsedExports := a.descend a.usedExportsStep d

/--
The names of the existing ones among the records; the first that settles the answer stops the scan.
-/
def scanProvided : List ExportRecord → Except ProvidedExports (List String)
  | [] => .ok []
  | r :: rs =>
    match r.provided with
    | .undetermined => .error .unknown
    | .notProvided => scanProvided rs
    | .maybeProvided => .error .everything
    | .provided => (scanProvided rs).map (r.name.getD "" :: ·)

def scanOtherProvided (r : ExportRecord) : Except ProvidedExports Unit :=
  match r.provided with
  | .undetermined => .error .unknown
  | .notProvided => .ok ()
  | .maybeProvided | .provided => .error .everything

def providedNames (a : Arena) (d : DescriptorId) (inner : Option ProvidedExports) :
    Except ProvidedExports (List String) := do
  if inner.isNone then
    scanOtherProvided (a.record (a.descriptor d).other)
  let own ← scanProvided ((a.orderedLocals d).map a.record)
  match inner with
  | none => return own
  | some (.names inner) => return addAllDistinct own inner
  | some settled => throw settled

def providedExportsStep (a : Arena) (d : DescriptorId) (inner : Option ProvidedExports) :
    ProvidedExports :=
  match a.providedNames d inner with
  | .error settled => settled
  | .ok names => .names (names.mergeSort fun x y => decide (x ≤ y))

def providedExports (a : Arena) (d : DescriptorId) : ProvidedExports :=
  a.descend a.providedExportsStep d

/--
The record matters for the output: it may be consumed and is not known to be absent.
-/
def isRelevant (a : Arena) (r : RecordId) : Bool :=
  (a.record r).used.isUsed && (a.record r).provided != .notProvided

/--
The records that matter for the output, given those of the redirect; one that is shadowed does not.
-/
def relevantExportsStep (a : Arena) (d : DescriptorId) (inner : Option (List RecordId)) : List RecordId :=
  let own := (a.orderedLocals d).filter a.isRelevant
  match inner with
  | none => own ++ [(a.descriptor d).other].filter a.isRelevant
  | some rs =>
    own ++ rs.filter fun r =>
      match (a.record r).name with
      | none => true
      | some name => (a.listed? d name).isNone

def relevantExports (a : Arena) (d : DescriptorId) : List RecordId := a.descend a.relevantExportsStep d

def recordAt? (a : Arena) (d : DescriptorId) : List String → Option RecordId
  | [] => none
  | first :: rest =>
    let r := a.lookup d first
    if rest.isEmpty then
      some r
    else
      match (a.record r).nested with
      | none => none
      | some e => a.recordAt? e rest

def nestedAt? (a : Arena) (d : DescriptorId) : List String → Option DescriptorId
  | [] => some d
  | first :: rest =>
    match (a.record (a.lookup d first)).nested with
    | none => none
    | some e => a.nestedAt? e rest

def usedState (a : Arena) (d : DescriptorId) : List String → Usage
  | [] => (a.record (a.other d)).used
  | first :: rest =>
    let r := a.record (a.lookup d first)
    match if rest.isEmpty then none else r.nested with
    | none => r.used
    | some e => a.usedState e rest

def isExportUsed (a : Arena) (d : DescriptorId) (path : List String) : Bool :=
  if path.isEmpty then a.isUsed d else (a.usedState d path).isUsed

def isProvided? (a : Arena) (d : DescriptorId) : List String → Option Bool
  | [] => none
  | first :: rest =>
    let r := a.record (a.lookup d first)
    match if rest.isEmpty then none else r.nested with
    | some e => a.isProvided? e rest
    | none => if r.provided = .provided ∧ ¬ rest.isEmpty then none else r.provided.toOption

def outputPath? (a : Arena) (d : DescriptorId) : List String → Option (List String)
  | [] => if a.isUsed d then some [] else none
  | first :: rest =>
    let r := a.record (a.lookup d first)
    match r.outputSegment? first with
    | none => none
    | some segment =>
      if rest.isEmpty then
        some segment.toList
      else
        match if r.used = .propertiesUsed then r.nested else none with
        | some e => (a.outputPath? e rest).map (segment.toList ++ ·)
        | none => some (segment.toList ++ rest)

end ModuleLink.Arena
