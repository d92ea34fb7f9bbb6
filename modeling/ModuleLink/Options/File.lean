import ModuleLink.Binary.Codec
import ModuleLink.Options
import ModuleLink.Toml.Document

/-!
This module contains the reading of options from files, which hold TOML.
-/

namespace ModuleLink.Options

def ofToml (text : String) : Except OptionsError Options :=
  match Toml.read? text with
  | none => .error .malformed
  | some v => ofValue v

/--
The options that the content of a file gives; `none` stands for a file that does not exist.
-/
def ofFile (content : Option Binary.Bytes) : Except OptionsError Options :=
  match content with
  | none => .error .missingFile
  | some bytes =>
    match Binary.decodeText? bytes with
    | none => .error .notText
    | some text => ofToml text

end ModuleLink.Options
