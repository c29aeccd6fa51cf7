import CodeNav.Proofs.Checked.Assistance
import CodeNav.Proofs.Checked.Ranking
import CodeNav.Proofs.Checked.Search

/-! No position makes an analysis fail. A position comes unchecked, and it is mixed with byte
offsets, character offsets and counts of lines; still, whatever the table holds, every cut falls
between characters, every index is in range and no sum or difference leaves the words. All that is
asked for is that texts fit in memory. -/
namespace CodeNav.Checked
set_option autoImplicit false

/-- Every analysis at the position passes its checks, and comes to what it gives without them. -/
structure PassesChecks (doc : Document) (pos : Position) (namespaces : List String)
    (table : Table) : Prop where
  lookup : lookup? doc pos table = .ok (Lookup.at? doc pos table)
  resolution : resolve? doc pos namespaces table = .ok (doc.resolve? pos namespaces table)
  ranking (query : Lookup) : QueryStorable query →
    rank query namespaces table = .ok (query.rank namespaces table)
  arguments : argumentCount doc pos = .ok (doc.argumentCount pos)
  declaration : declaredTarget? doc pos = .ok (doc.declaredTarget? pos)
  /-- A history never holds more than its capacity; one that did would be treated differently. -/
  references (s : Service) (disk : Disk) : (s.admission.discover disk).length < UInt64.size →
    ∃ result, findReferences s disk doc pos = .ok result ∧
      (s.history.sets.length ≤ History.capacity → result = s.findReferences disk doc pos)
  objectType (types : Bindings) :
    objectType doc pos table types = .ok (doc.objectType pos table types)
  completions : completions doc pos table = .ok (doc.completions pos table)
  signature : signature? doc pos table = .ok (doc.signature? pos table)

theorem analyses_pass_checks {doc : Document} (hdoc : doc.Storable) {namespaces : List String}
    (hnamespaces : ∀ owner ∈ namespaces, Storable owner) (pos : Position) (table : Table) :
    PassesChecks doc pos namespaces table where
  lookup := lookup?_eq hdoc pos table
  resolution := resolve?_eq hdoc hnamespaces pos table
  ranking _ hquery := rank_eq hquery hnamespaces table
  arguments := argumentCount_eq hdoc pos
  declaration := declaredTarget?_eq hdoc pos
  references s _ hfiles := findReferences_completes hdoc pos s hfiles
  objectType := objectType_eq doc pos table
  completions := completions_eq doc pos table
  signature := signature?_eq doc pos table

/-! ## A document with wide characters -/

def wideDocument : Document :=
  Document.ofText "maß.js"
    "class Größe \x7b\n  länge(π) \x7b return this.länge('→(', π); \x7d\n\x7d".toList

def wideTable : Table :=
  [{ file := "maß.js", name := "Größe.länge", line := 2, arity := 1 },
    { file := "maß.js", name := "", line := 1 }, { file := "π.js", name := "→.länge", line := 1 }]

theorem analyses_pass_checks_of_wideDocument :
    wideDocument.Storable ∧ (∀ owner ∈ ["Größe", "→"], Storable owner) ∧
      PassesChecks wideDocument ⟨1, 27⟩ ["Größe", "→"] wideTable ∧
      PassesChecks wideDocument ⟨UInt64.size - 1, UInt64.size - 1⟩ ["Größe", "→"] wideTable ∧
      argumentCount wideDocument ⟨1, 27⟩ = .ok 2 ∧
      (Lookup.at? wideDocument ⟨1, 27⟩ wideTable).map (·.word) = some "länge" := by
  have hdoc : wideDocument.Storable := storable_ofText "maß.js" (by decide +kernel)
  have hnamespaces : ∀ owner ∈ ["Größe", "→"], Storable owner := by
    rw [List.forall_mem_cons, List.forall_mem_singleton]
    exact ⟨by rw [Storable]; decide +kernel, by rw [Storable]; decide +kernel⟩
  have hinside := analyses_pass_checks hdoc hnamespaces ⟨1, 27⟩ wideTable
  refine ⟨hdoc, hnamespaces, hinside,
    analyses_pass_checks hdoc hnamespaces ⟨UInt64.size - 1, UInt64.size - 1⟩ wideTable, ?_, ?_⟩
  · rw [hinside.arguments]
    exact congrArg Except.ok (by decide +kernel)
  · decide +kernel

end CodeNav.Checked
