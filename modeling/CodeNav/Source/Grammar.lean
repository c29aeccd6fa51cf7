import CodeNav.Source.Dialect
import CodeNav.Source.Node

/-! Grammars. Parsing is not done here: a grammar is any function from texts to trees, and one that
is known only by samples gives the trees of those. -/
namespace CodeNav
set_option autoImplicit false

/-- A parser: the syntax tree of a text in a dialect, unless it fails. -/
abbrev Grammar := Dialect → List Char → Option Node

/-- The dialect whose grammar a dialect is parsed with. -/
def Dialect.parsedAs : Dialect → Dialect
  | .jsx => .javaScript
  | d => d

/-- A tree without any declarations. -/
def Node.blank : Node :=
  .mk ⟨.other, .other, 0, 0, 0⟩ []

/-- A text and its tree. -/
structure Sample where
  dialect : Dialect
  text : List Char
  tree : Node

def Sample.isOf (sample : Sample) (dialect : Dialect) (text : List Char) : Bool :=
  sample.dialect.parsedAs = dialect.parsedAs && sample.text == text

/-- The grammar that a list of samples shows; it makes nothing of any other text. -/
def Grammar.ofSamples (samples : List Sample) : Grammar := fun dialect text =>
  some (((samples.find? (·.isOf dialect text)).map (·.tree)).getD .blank)

end CodeNav
