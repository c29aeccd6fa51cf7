import CodeNav.Text.Basic

/-! The script dialects, told apart by the extension of a file. -/
namespace CodeNav
set_option autoImplicit false
open Text

inductive Dialect where
  | typeScript
  | tsx
  | javaScript
  | jsx
  deriving DecidableEq, Repr

namespace Dialect

/-- The dialect of an extension, without its dot, in any case. -/
def ofExtension? (extension : List Char) : Option Dialect :=
  let name := String.ofList (lowerAll extension)
  if name ∈ ["ts", "mts", "cts"] then some .typeScript
  else if name = "tsx" then some .tsx
  else if name ∈ ["js", "mjs", "cjs"] then some .javaScript
  else if name = "jsx" then some .jsx
  else none

/-- The part of a path after its last slash or backslash. -/
def fileName (path : List Char) : List Char :=
  (path.reverse.takeWhile fun c => c != '/' && c != '\\').reverse

def ofPath? (path : String) : Option Dialect :=
  match splitLast? '.' (fileName path.toList) with
  | some (_, extension) => ofExtension? extension
  | none => none

end Dialect

end CodeNav
