import ModuleLink.Data.Dict
import ModuleLink.Merge.Error
import ModuleLink.Scope

/-!
This module contains merge sets: the modules that are emitted into one scope. Members are inlined; other
modules that they import stay outside and are referred to by a name. Every module has one entry.
-/

namespace ModuleLink

structure Member where
  module : ModuleId
  exports : Dict String String := .empty
  rawExports : Dict String String := .empty
  namespaceSymbol : Option String := none
  scope : ModuleScope := {}
deriving DecidableEq, Repr, Inhabited

structure External where
  module : ModuleId
  /--
  The runtimes in which the module is needed; `none` for all.
  -/
  condition : Option RuntimeSpec := none
  deferred : Bool := false
deriving DecidableEq, Repr, Inhabited

inductive MergeEntry where
  | concatenated (member : Member)
  | external (external : External)
deriving DecidableEq, Repr, Inhabited

namespace MergeEntry

def module : MergeEntry → ModuleId
  | .concatenated m => m.module
  | .external e => e.module

def isConcatenated : MergeEntry → Bool
  | .concatenated _ => true
  | .external _ => false

def member? : MergeEntry → Option Member
  | .concatenated m => some m
  | .external _ => none

def describe : MergeEntry → String
  | .concatenated m => " * " ++ m.module.readable
  | .external e => " * " ++ e.module.readable ++ " (external)"

end MergeEntry

structure EntryTable where
  entries : List MergeEntry := []
  index : Dict ModuleId Nat := .empty
deriving DecidableEq, Repr, Inhabited

namespace EntryTable

def push (t : EntryTable) (e : MergeEntry) : EntryTable where
  entries := t.entries ++ [e]
  index := t.index.insert e.module t.entries.length

def get? (t : EntryTable) (id : ModuleId) : Option MergeEntry := (t.index.get? id).bind (t.entries[·]?)

def contains (t : EntryTable) (id : ModuleId) : Bool := t.index.contains id

def ofFirst (entries : List MergeEntry) : EntryTable :=
  entries.foldl (fun t e => if t.contains e.module then t else t.push e) {}

end EntryTable

/--
The modules of a merged scope, dependencies first. The scope is made for `runtime`, or for all runtimes.
-/
structure MergeSet extends EntryTable where
  root : ModuleId
  runtime : Option RuntimeSpec
deriving DecidableEq, Repr, Inhabited

namespace MergeSet

def members (s : MergeSet) : List Member := s.entries.filterMap MergeEntry.member?

def memberNames (s : MergeSet) : List String := s.entries.map MergeEntry.describe

def ofEntries (root : ModuleId) (runtime : Option RuntimeSpec) (entries : List MergeEntry) :
    Except LinkError MergeSet :=
  let table := EntryTable.ofFirst entries
  match table.get? root with
  | some (.concatenated _) => .ok { table with root, runtime }
  | _ => .error (.notInMergeSet root)

end MergeSet
end ModuleLink
