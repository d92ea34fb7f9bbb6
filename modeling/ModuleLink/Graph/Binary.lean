import ModuleLink.Binary.Codec
import ModuleLink.Graph.Basic

/-!
This module contains the binary form in which a module graph is saved. It begins with the version of the
format and holds all of the graph.
-/

namespace ModuleLink.Binary

open Codec

def formatVersion : Nat := 1

namespace Codec

def moduleId : Codec ModuleId := text.map .ofSaved (·.text)

def dependencyId : Codec DependencyId := word.map .mk (·.index)

def connectionId : Codec ConnectionId := word.map .mk (·.index)

def descriptorId : Codec DescriptorId := word.map .mk (·.index)

def recordId : Codec RecordId := word.map .mk (·.index)

def exportsType : Codec ExportsType := choice [.namespaced, .flagged, .object, .dynamic]

def defaultObject : Codec DefaultObject := choice [.unrelated, .redirect, .redirectWarn]

def usage : Codec Usage := choice [.noInfo, .unused, .unknown, .propertiesUsed, .used]

def provision : Codec Provision := choice [.undetermined, .notProvided, .maybeProvided, .provided]

def runtimes : Codec RuntimeSpec := text.list.map .ofNames (·.names)

def outputName : Codec OutputName where
  encode
    | .kept => encodeNat 0
    | .renamed name => encodeNat 1 ++ text.encode name
    | .virtual => encodeNat 2
  decode := do
    match ← decodeNat 4 with
    | 0 => return .kept
    | 1 => return .renamed (← text.decode)
    | 2 => return .virtual
    | _ => failure

mutual

def encodeCondition : Condition → Bytes
  | .always => encodeNat 0
  | .never => encodeNat 1
  | .inRuntimes spec => encodeNat 2 ++ runtimes.encode spec
  | .transitiveOnly => encodeNat 3
  | .all cs => encodeNat 4 ++ length.encode cs.length ++ encodeConditions cs

def encodeConditions : List Condition → Bytes
  | [] => []
  | c :: cs => encodeCondition c ++ encodeConditions cs

end

def decodeCondition : (fuel : Nat) → Decoder Condition
  | 0 => failure
  | n + 1 => do
    match ← decodeNat 4 with
    | 0 => return .always
    | 1 => return .never
    | 2 => return .inRuntimes (← runtimes.decode)
    | 3 => return .transitiveOnly
    | 4 => return .all (← decodeMany (decodeCondition n) (← length.decode))
    | _ => failure

/--
Conditions. Every level of nesting takes a byte, so that the number of bytes bounds the depth.
-/
def condition : Codec Condition where
  encode := encodeCondition
  decode bs := decodeCondition bs.length bs

def buildMeta : Codec BuildMeta where
  encode m := exportsType.option.encode m.exportsType ++ defaultObject.encode m.defaultObject ++
    bool.encode m.strict
  decode := do
    return { exportsType := ← exportsType.option.decode
             defaultObject := ← defaultObject.decode
             strict := ← bool.decode }

def module : Codec Module where
  encode m := moduleId.encode m.id ++ buildMeta.encode m.buildMeta ++
    bool.encode m.hasSideEffects ++ bool.encode m.isExternal
  decode := do
    return { id := ← moduleId.decode
             buildMeta := ← buildMeta.decode
             hasSideEffects := ← bool.decode
             isExternal := ← bool.decode }

def node : Codec Node where
  encode n := connectionId.distinct.encode n.incoming ++
    connectionId.distinct.option.encode n.outgoing ++ descriptorId.encode n.exports ++
    dependencyId.list.encode n.dependencies ++ moduleId.option.encode n.issuer ++
    word.option.encode n.preOrder ++ word.option.encode n.postOrder ++ word.option.encode n.depth ++
    bool.encode n.isAsync ++ text.list.encode n.bailouts
  decode := do
    return { incoming := ← connectionId.distinct.decode
             outgoing := ← connectionId.distinct.option.decode
             exports := ← descriptorId.decode
             dependencies := ← dependencyId.list.decode
             issuer := ← moduleId.option.decode
             preOrder := ← word.option.decode
             postOrder := ← word.option.decode
             depth := ← word.option.decode
             isAsync := ← bool.decode
             bailouts := ← text.list.decode }

def dependency : Codec Dependency where
  encode d := text.encode d.request ++ text.list.encode d.ids ++ bool.encode d.weak ++
    bool.encode d.deferred ++ condition.encode d.condition
  decode := do
    return { request := ← text.decode
             ids := ← text.list.decode
             weak := ← bool.decode
             deferred := ← bool.decode
             condition := ← condition.decode }

def declared : Codec DeclaredDependency where
  encode d := dependency.encode d.dependency ++ moduleId.option.encode d.parent
  decode := do
    return { dependency := ← dependency.decode, parent := ← moduleId.option.decode }

def connection : Codec Connection where
  encode c := connectionId.encode c.id ++ moduleId.option.encode c.origin ++
    moduleId.option.encode c.resolvedOrigin ++ dependencyId.option.encode c.dependency ++
    moduleId.encode c.target ++ moduleId.encode c.resolvedTarget ++ bool.encode c.weak ++
    bool.encode c.deferred ++ bool.encode c.active ++ condition.option.encode c.condition ++
    text.distinct.encode c.explanations
  decode := do
    return { id := ← connectionId.decode
             origin := ← moduleId.option.decode
             resolvedOrigin := ← moduleId.option.decode
             dependency := ← dependencyId.option.decode
             target := ← moduleId.decode
             resolvedTarget := ← moduleId.decode
             weak := ← bool.decode
             deferred := ← bool.decode
             active := ← bool.decode
             condition := ← condition.option.decode
             explanations := ← text.distinct.decode }

def exportTarget : Codec ExportTarget where
  encode t := connectionId.encode t.connection ++ text.list.option.encode t.path ++
    signed.encode t.priority
  decode := do
    return { connection := ← connectionId.decode
             path := ← text.list.option.decode
             priority := ← signed.decode }

def exportRecord : Codec ExportRecord where
  encode r := text.option.encode r.name ++ usage.encode r.used ++ provision.encode r.provided ++
    bool.option.encode r.mangleProvide ++ bool.option.encode r.mangleUse ++
    outputName.encode r.outputName ++ bool.encode r.terminal ++
    (dependencyId.dict exportTarget).encode r.targets ++ descriptorId.option.encode r.nested ++
    bool.encode r.nestedOwned
  decode := do
    return { name := ← text.option.decode
             used := ← usage.decode
             provided := ← provision.decode
             mangleProvide := ← bool.option.decode
             mangleUse := ← bool.option.decode
             outputName := ← outputName.decode
             terminal := ← bool.decode
             targets := ← (dependencyId.dict exportTarget).decode
             nested := ← descriptorId.option.decode
             nestedOwned := ← bool.decode }

def descriptor : Codec Descriptor where
  encode d := (text.dict recordId).encode d.exports ++ recordId.encode d.other ++
    recordId.encode d.sideEffects ++ descriptorId.option.encode d.redirect ++
    recordId.option.encode d.owner
  decode := do
    return { exports := ← (text.dict recordId).decode
             other := ← recordId.decode
             sideEffects := ← recordId.decode
             redirect := ← descriptorId.option.decode
             owner := ← recordId.option.decode }

def arena : Codec Arena where
  encode a := descriptor.array.encode a.descriptors ++ exportRecord.array.encode a.records
  decode := do
    return { descriptors := ← descriptor.array.decode, records := ← exportRecord.array.decode }

def graph : Codec Graph where
  encode g := (moduleId.dict module).encode g.modules ++ (moduleId.dict node).encode g.nodes ++
    declared.array.encode g.dependencies ++ connection.option.array.encode g.connections ++
    (dependencyId.dict connectionId).encode g.current ++ arena.encode g.exports
  decode := do
    return { modules := ← (moduleId.dict module).decode
             nodes := ← (moduleId.dict node).decode
             dependencies := ← declared.array.decode
             connections := ← connection.option.array.decode
             current := ← (dependencyId.dict connectionId).decode
             exports := ← arena.decode }

end Codec
end ModuleLink.Binary

namespace ModuleLink.Graph

open Binary

def toBytes (g : Graph) : Bytes := Codec.word.encode formatVersion ++ Codec.graph.encode g

def ofBytes (bytes : Bytes) : Except GraphError Graph :=
  match (Codec.word.pair Codec.graph).decode bytes with
  | none => .error .malformed
  | some ((version, g), _) =>
    if version = formatVersion then .ok g
    else .error (.incompatibleFormat formatVersion version)

end ModuleLink.Graph
