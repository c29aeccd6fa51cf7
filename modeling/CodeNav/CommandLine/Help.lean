import CodeNav.Text.Basic

/-! The texts that the program tells about itself. -/
namespace CodeNav.CommandLine.Help
set_option autoImplicit false

/-- The commands that have a text of their own. -/
inductive Topic where
  | index
  | goto
  | references
  | complete
  | signature
  | serve
  deriving DecidableEq, Repr

namespace Topic

def all : List Topic := [index, goto, references, complete, signature, serve]

def name : Topic → String
  | index => "index"
  | goto => "goto"
  | references => "references"
  | complete => "complete"
  | signature => "signature"
  | serve => "serve"

def ofName? (text : String) : Option Topic :=
  all.find? (·.name == text)

def summary : Topic → String
  | index => "Rebuild the symbol index from scratch"
  | goto => "Jump to the definition of the identifier at a position"
  | references => "List call sites of the function at a position"
  | complete => "Member completions after a \x60.\x60"
  | signature => "Signature of the call being typed"
  | serve => "JSON-lines request loop on stdin/stdout with file watching"

/-- How many values a command takes. -/
def valueCount : Topic → Nat
  | index | serve => 0
  | _ => 3

end Topic

/-- Two columns, with the second one aligned. -/
def rows (width : Nat) (entries : List (String × String)) : List String :=
  entries.map fun (left, right) =>
    "  " ++ left ++ String.ofList (List.replicate (width - left.length) ' ') ++ "  " ++ right

def workspaceRow : String × String :=
  ("-w, --workspace <WORKSPACE>", "Workspace root [default: .]")

def helpRow : String × String := ("-h, --help", "Print help")

def pickRow : String × String :=
  ("    --pick <PICK>", "Take the Nth candidate (0-based) when the lookup is ambiguous")

def optionRows (entries : List (String × String)) : List String :=
  "Options:" :: rows 27 entries

def spotRows : List String :=
  "Arguments:" :: rows 6 [("<FILE>", ""), ("<LINE>", "1-based line"), ("<COL>", "1-based column")]

def Topic.text (topic : Topic) : String :=
  let usage := "Usage: scriptnav " ++ topic.name ++ " [OPTIONS]"
  let spot := if topic.valueCount = 0 then [usage, ""]
    else [usage ++ " <FILE> <LINE> <COL>", ""] ++ spotRows ++ [""]
  let options := if topic = .goto then [pickRow, workspaceRow, helpRow] else [workspaceRow, helpRow]
  "\n".intercalate ([topic.summary, ""] ++ spot ++ optionRows options)

def helpSummary : String := "Print this message or the help of the given subcommand(s)"

/-- The text on the help itself. -/
def onHelp : String :=
  "\n".intercalate ([helpSummary, "", "Usage: scriptnav help [COMMAND]...", "", "Arguments:"]
    ++ rows 12 [("[COMMAND]...", "Print help for the subcommand(s)")])

def program : String :=
  let commands := Topic.all.map fun topic => (topic.name, topic.summary)
  let help := ("help", helpSummary)
  "\n".intercalate (
    ["Symbol index and heuristic navigation for JavaScript/TypeScript workspaces", "",
      "Usage: scriptnav [OPTIONS] <COMMAND>", "", "Commands:"]
    ++ rows 10 (commands ++ [help]) ++ [""]
    ++ optionRows [workspaceRow, helpRow, ("-V, --version", "Print version")])

def version : String := "scriptnav 0.1.0"

end CodeNav.CommandLine.Help
