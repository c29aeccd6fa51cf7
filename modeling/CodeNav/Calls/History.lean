import CodeNav.Calls.Search

/-! The history of searches: a stack of results, each with the entry chosen last. It holds a bounded
number of results, and forgets the oldest one for a new one. -/
namespace CodeNav
set_option autoImplicit false

/-- The result of one search. -/
structure ReferenceSet where
  target : Target
  references : List Reference
  lastSelected : Option Nat := none
  deriving DecidableEq, Repr

def ReferenceSet.selected? (s : ReferenceSet) : Option Reference :=
  s.lastSelected.bind fun index => s.references[index]?

/-- The stored results, the latest first. -/
structure History where
  sets : List ReferenceSet := []
  deriving DecidableEq, Repr

namespace History

def capacity : Nat := 32

def push (h : History) (set : ReferenceSet) : History :=
  ⟨(set :: h.sets).take capacity⟩

def top? (h : History) : Option ReferenceSet :=
  h.sets.head?

def pop (h : History) : History :=
  ⟨h.sets.tail⟩

/-- The entry of the latest result at an index. -/
def entry? (h : History) (index : Nat) : Option Reference :=
  h.top?.bind fun set => set.references[index]?

/-- Marks an entry of the latest result as chosen, if there is such an entry. -/
def select (h : History) (index : Nat) : History :=
  match h.sets with
  | [] => h
  | set :: older =>
    if index < set.references.length then ⟨{ set with lastSelected := some index } :: older⟩ else h

end History

end CodeNav
