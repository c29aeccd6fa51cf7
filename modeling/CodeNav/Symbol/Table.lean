import CodeNav.Symbol.Record

/-! The symbol table: the records of a workspace in the order in which they were added. A name may
occur in several files, and on several lines of one file. -/
namespace CodeNav
set_option autoImplicit false
open Text

abbrev Table := List Record

namespace Table

def withoutFile (table : Table) (file : String) : Table :=
  table.filter (·.file != file)

/-- The text that the path of every file below a directory starts with. -/
def directoryPrefix (dir : String) : List Char :=
  trimEnd (· == '/') dir.toList ++ ['/']

def isUnder (dir : String) (r : Record) : Bool :=
  (directoryPrefix dir).isPrefixOf r.file.toList

def withoutDirectory (table : Table) (dir : String) : Table :=
  table.filter (!isUnder dir ·)

def inFile (table : Table) (file : String) : List Record :=
  table.filter (·.file == file)

def findByName? (table : Table) (name : String) : Option Record :=
  table.find? (·.name == name)

/-- The first record with a non-empty name that starts with the given text. -/
def firstStartingWith? (table : Table) (start : List Char) : Option Record :=
  table.find? fun r => r.name != "" && start.isPrefixOf r.name.toList

/-- The number of files with at least one record. -/
def fileCount (table : Table) : Nat :=
  (table.map (·.file)).eraseDups.length

end Table

end CodeNav
