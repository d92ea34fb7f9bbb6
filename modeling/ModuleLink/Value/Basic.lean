/-!
This module contains the values of configuration and exchange formats.
-/

namespace ModuleLink

inductive Value where
  | null
  | bool (b : Bool)
  | int (n : Int)
  | float (x : Float)
  | string (s : String)
  | list (items : List Value)
  | map (fields : List (String × Value))
deriving Repr, Inhabited

def Value.setField (fields : List (String × Value)) (name : String) (v : Value) :
    List (String × Value) :=
  match fields with
  | [] => [(name, v)]
  | (n, w) :: rest => if n = name then (n, v) :: rest else (n, w) :: setField rest name v

namespace Value

mutual

def depth : Value → Nat
  | .list items => depthOfItems items + 1
  | .map fields => depthOfFields fields + 1
  | _ => 1

def depthOfItems : List Value → Nat
  | [] => 0
  | v :: vs => max v.depth (depthOfItems vs)

def depthOfFields : List (String × Value) → Nat
  | [] => 0
  | (_, v) :: fields => max v.depth (depthOfFields fields)

end

end Value
end ModuleLink
