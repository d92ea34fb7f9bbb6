/-!
This module contains the names that are never given to a binding.
-/

namespace ModuleLink

def propertyWords : List String :=
  ["break", "case", "catch", "class", "const", "continue", "debugger", "default", "delete", "do",
   "else", "export", "extends", "finally", "for", "function", "if", "import", "in", "instanceof",
   "new", "return", "super", "switch", "this", "throw", "try", "typeof", "var", "void", "while",
   "with", "enum", "implements", "interface", "let", "package", "private", "protected", "public",
   "static", "yield", "await", "null", "true", "false"]

def keywordNames : List String :=
  ["abstract", "arguments", "async", "await", "boolean", "break", "byte", "case", "catch", "char",
   "class", "const", "continue", "debugger", "default", "delete", "do", "double", "else", "enum",
   "eval", "export", "extends", "false", "final", "finally", "float", "for", "function", "goto",
   "if", "implements", "import", "in", "instanceof", "int", "interface", "let", "long", "native",
   "new", "null", "package", "private", "protected", "public", "return", "short", "static",
   "super", "switch", "synchronized", "this", "throw", "throws", "transient", "true", "try",
   "typeof", "var", "void", "volatile", "while", "with", "yield"]

def moduleSystemNames : List String :=
  ["module", "__dirname", "__filename", "exports", "require", "define"]

def languageNames : List String :=
  ["Array", "Date", "hasOwnProperty", "Infinity", "isFinite", "isNaN", "isPrototypeOf", "length",
   "Math", "NaN", "name", "Number", "Object", "prototype", "String", "Symbol", "toString",
   "undefined", "valueOf"]

def hostNames : List String :=
  ["alert", "all", "anchor", "anchors", "area", "assign", "blur", "button", "checkbox",
   "clearInterval", "clearTimeout", "clientInformation", "close", "closed", "confirm",
   "constructor", "crypto", "decodeURI", "decodeURIComponent", "defaultStatus", "document",
   "element", "elements", "embed", "embeds", "encodeURI", "encodeURIComponent", "escape", "event",
   "fileUpload", "focus", "form", "forms", "frame", "innerHeight", "innerWidth", "layer", "layers",
   "link", "location", "mimeTypes", "navigate", "navigator", "frames", "frameRate", "hidden",
   "history", "image", "images", "offscreenBuffering", "open", "opener", "option", "outerHeight",
   "outerWidth", "packages", "pageXOffset", "pageYOffset", "parent", "parseFloat", "parseInt",
   "password", "pkcs11", "plugin", "prompt", "propertyIsEnum", "radio", "reset", "screenX",
   "screenY", "scroll", "secure", "select", "self", "setInterval", "setTimeout", "status",
   "submit", "taint", "text", "textarea", "top", "unescape", "untaint", "window"]

def eventNames : List String :=
  ["onblur", "onclick", "onerror", "onfocus", "onkeydown", "onkeypress", "onkeyup", "onmouseover",
   "onload", "onmouseup", "onmousedown", "onsubmit"]

def reservedNames : List String :=
  keywordNames ++ moduleSystemNames ++ languageNames ++ hostNames ++ eventNames

end ModuleLink
