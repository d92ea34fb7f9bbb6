import ModuleLink.Path

/-!
This module contains the identities of modules. An identity is a path-like raw text such as
`./src/a/value.mod`, cleaned of redundant components; synthetic modules are marked by a leading
`virtual:` and are not cleaned.
-/

namespace ModuleLink

/--
The identity of a module. Identities are equal, and ordered, by the components of their paths, so that repeated or
trailing slashes and inner `.` components do not count.
-/
structure ModuleId where
  path : RawText
deriving DecidableEq, Repr, Inhabited

inductive ModuleIdError where
  | emptyPath
  | noFileComponent (path : RawText)
deriving DecidableEq, Repr

def ModuleIdError.message : ModuleIdError → String
  | .emptyPath => "module id path is empty"
  | .noFileComponent path => "module id '" ++ path.toText ++ "' does not name a module"

namespace ModuleId

def syntheticMark : String := "virtual:"

def components (id : ModuleId) : List Component := Path.components id.path

instance : BEq ModuleId := ⟨fun a b => a.components == b.components⟩

instance : Ord ModuleId := ⟨fun a b => compare a.components b.components⟩

/--
The text that is shown and saved. Identities of different paths may have the same text.
-/
def text (id : ModuleId) : String := id.path.toText

def isMarked (text : String) : Bool :=
  syntheticMark.toList.isPrefixOf text.toList

def isSynthetic (id : ModuleId) : Bool := isMarked id.text

def synthetic (text : String) : ModuleId :=
  if isMarked text then ⟨text⟩ else ⟨syntheticMark ++ text⟩

def ofSaved (text : String) : ModuleId := ⟨text⟩

def keepsCurrent (given cleaned : List Component) : Bool :=
  given.head? == some .current && cleaned.head? != some .parent

/--
The identity that a path names. A path that begins with NUL characters names a synthetic module. The `./` of a relative
request is part of the identity, unless cleaning leaves a leading `..`.
-/
def ofPath (path : RawText) : Except ModuleIdError ModuleId :=
  let text := path.toText
  if path.bytes.isEmpty then
    .error .emptyPath
  else if isMarked text then
    .ok ⟨text⟩
  else if text.toList.head? = some '\x00' then
    .ok ⟨syntheticMark ++ String.ofList (text.toList.dropWhile (· == '\x00'))⟩
  else
    let given := Path.components path
    let cleaned := Path.clean given
    if cleaned.isEmpty then
      .error (.noFileComponent path)
    else if keepsCurrent given cleaned then
      .ok ⟨RawText.ofString "./" ++ Path.render cleaned⟩
    else
      .ok ⟨Path.render cleaned⟩

def readable (id : ModuleId) : String :=
  if id.isSynthetic then String.ofList (id.text.toList.drop syntheticMark.length) else id.text

end ModuleId
end ModuleLink
