import ModuleLink.Graph.Query

/-!
This module contains the drawing of a module graph as a DOT digraph: modules in order, then connections
in order of creation. Inactive connections are dashed, conditional ones are labelled.
-/

namespace ModuleLink.Graph

def dotLabel (text : String) : String :=
  "\"" ++ String.ofList (text.toList.flatMap fun c => if c = '"' then ['\\', '"'] else [c]) ++ "\""

def dotAttributes (c : Connection) : String :=
  let attributes :=
    (if c.isActive none then [] else ["style=dashed"]) ++
    (if c.isConditional then ["label=\"conditional\""] else [])
  if attributes.isEmpty then "" else " [" ++ String.intercalate ", " attributes ++ "]"

def dotEdge (c : Connection) : String :=
  match c.origin with
  | none => ""
  | some o =>
    "    " ++ dotLabel o.text ++ " -> " ++ dotLabel c.target.text ++ dotAttributes c ++ ";\n"

def dot (g : Graph) : String :=
  let ids := g.modules.keys.mergeSort fun a b => (compare a b).isLE
  let nodes := ids.map fun id => "    " ++ dotLabel id.text ++ ";\n"
  let edges := g.connections.toList.reduceOption.map dotEdge
  "digraph ModuleGraph \x7b\n" ++ String.join nodes ++ String.join edges ++ "\x7d\n"

end ModuleLink.Graph
