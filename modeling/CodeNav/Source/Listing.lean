import CodeNav.Json.Parser
import CodeNav.Source.Node

/-! Trees as listings: the nodes in preorder, each with its depth. The node of an entry has as its
children the nodes of the entries behind it that lie one level deeper, up to the next entry that
does not lie deeper than itself. -/
namespace CodeNav
set_option autoImplicit false

/-- An entry of a listing. -/
structure Listed where
  depth : Nat
  label : Label
  deriving DecidableEq, Repr

/-- A tree and the depth of its root. -/
abbrev Rooted := Nat × Node

namespace Listed

/-- Puts an entry in front of the trees that the entries behind it form. -/
def atop (entry : Listed) (later : List Rooted) : List Rooted :=
  (entry.depth, .mk entry.label ((later.takeWhile (entry.depth < ·.1)).map (·.2)))
    :: later.dropWhile (entry.depth < ·.1)

/-- The trees of a listing, from left to right. -/
def trees (entries : List Listed) : List Rooted :=
  entries.foldr atop []

/-- An entry as JSON: the depth, the kind, the role, the row, and the two offsets. -/
def ofJson? : Json → Option Listed
  | .arr [.nat depth, .str kind, .str role, .nat row, .nat start, .nat stop] =>
    some ⟨depth, ⟨Kind.ofName kind, Role.ofName role, row, start, stop⟩⟩
  | _ => none

end Listed

namespace Node

/-- The first tree of a listing. -/
def ofListing? (entries : List Listed) : Option Node :=
  (Listed.trees entries).head?.map (·.2)

def ofJson? : Json → Option Node
  | .arr items => (items.mapM Listed.ofJson?).bind ofListing?
  | _ => none

end Node

end CodeNav
