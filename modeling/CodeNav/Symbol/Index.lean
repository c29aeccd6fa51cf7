import CodeNav.Symbol.Line
import CodeNav.Symbol.Table
import CodeNav.Text.Utf8

/-! The index as a text: one line for each record of the table. Reading passes over lines that are
no records and counts them; blank lines do not count. -/
namespace CodeNav
set_option autoImplicit false
open Text

def Table.toText (table : Table) : List Char :=
  joinWith '\n' (table.map Record.toLine)

/-- The records that were read, and the number of lines passed over. -/
structure LoadedIndex where
  table : Table := []
  skipped : Nat := 0
  deriving DecidableEq, Repr

namespace LoadedIndex

def readLines : List (List Char) → LoadedIndex
  | [] => {}
  | line :: lines =>
    let others := readLines lines
    if isAllBlank line then others
    else match Line.parse line with
      | .ok r => { others with table := r :: others.table }
      | .error _ => { others with skipped := others.skipped + 1 }

def ofText (text : List Char) : LoadedIndex :=
  readLines (splitOn '\n' text)

def ofBytes (bytes : Utf8.Bytes) : LoadedIndex :=
  ofText (Utf8.decodeLossy bytes)

end LoadedIndex

end CodeNav
