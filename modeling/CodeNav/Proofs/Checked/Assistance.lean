import CodeNav.Assist.Completion
import CodeNav.Assist.Signature
import CodeNav.Proofs.Checked.Words

/-! Completions and signature help with checks. The label of a completion is what is left of a name
behind the type and a dot; only names that start with these are cut. -/
namespace CodeNav.Checked
set_option autoImplicit false
open Text

/-! ## Completions -/

/-- A record with what is left of its name behind so many bytes. -/
def labelled (offset : Nat) (r : Record) : Except Fault (List Char × Record) :=
  (behind r.name.toList offset).map fun label => (label, r)

/-- The completions for the records whose names start with the given text. -/
def offer (start : List Char) (below : List Record) : Except Fault (List Completion) := do
  let owners := below.filterMap fun r =>
    (splitLast? '.' r.name.toList).map fun parts => String.ofList parts.1
  let direct ← below.filterM fun r =>
    (labelled (Utf8.size start) r).map fun member => !member.1.contains '.'
  let offered ← (if direct.isEmpty then below else direct).mapM (labelled (Utf8.size start))
  return Completion.distinct owners [] offered

def completions (doc : Document) (pos : Position) (table : Table) :
    Except Fault (List Completion) := do
  if (← linePrefix doc pos).getLast? ≠ some '.' then return []
  let type ← objectType doc pos table (Bindings.ofDocument doc)
  if type = "" then return []
  let typePrefix := type.toList ++ ['.']
  offer typePrefix (table.filter fun r => typePrefix.isPrefixOf r.name.toList)

def withLabel (start : List Char) (r : Record) : List Char × Record :=
  (r.name.toList.drop start.length, r)

theorem labelled_eq {start : List Char} {r : Record} (h : start.isPrefixOf r.name.toList = true) :
    labelled (Utf8.size start) r = .ok (withLabel start r) := by
  obtain ⟨rest, hname⟩ := List.isPrefixOf_iff_prefix.mp h
  rw [labelled, withLabel, ← hname, behind_append, List.drop_left]
  rfl

theorem offer_eq {start : List Char} {below : List Record}
    (h : ∀ r ∈ below, start.isPrefixOf r.name.toList = true) :
    offer start below = .ok (Completion.distinct
      (Completion.owners (below.map (withLabel start))) []
      (Completion.offered (below.map (withLabel start)))) := by
  have hdirect : (below.filterM fun r =>
      (labelled (Utf8.size start) r).map fun member => !member.1.contains '.') =
      .ok (below.filter fun r => !(withLabel start r).1.contains '.') :=
    filterM_eq fun r hr => by rw [labelled_eq (h r hr)]; rfl
  rw [offer, hdirect, ok_bind, mapM_eq, ok_bind, Completion.owners, Completion.offered,
    List.filter_map, List.filterMap_map, List.isEmpty_map, ← apply_ite]
  · rfl
  · intro r hr
    refine labelled_eq (h r ?_)
    split at hr
    · exact hr
    · exact (List.mem_filter.mp hr).1

theorem below_eq (type : String) (table : Table) :
    Completion.below type table =
      (table.filter fun r => (type.toList ++ ['.']).isPrefixOf r.name.toList).map
        (withLabel (type.toList ++ ['.'])) := by
  rw [Completion.below, ← List.filterMap_eq_map, List.filterMap_filter]
  congr 1
  funext r
  rw [Completion.memberPath?, dropPrefix?]
  split <;> rfl

theorem completions_eq (doc : Document) (pos : Position) (table : Table) :
    completions doc pos table = .ok (doc.completions pos table) := by
  rw [completions, linePrefix_eq, ok_bind, Document.completions, objectType_eq, ok_bind]
  simp only [below_eq, apply_ite Except.ok, pure_eq]
  rw [offer_eq fun r hr => (List.mem_filter.mp hr).2]

/-! ## Signature help -/

def signature? (doc : Document) (pos : Position) (table : Table) :
    Except Fault (Option Signature) := do
  let some hit := Signature.openCall.first? (← linePrefix doc pos) | return none
  let receiver := String.ofList hit.value.receiver
  let owner := ((Bindings.ofDocument doc).get? receiver).getD receiver
  let some record := table.findByName? (owner ++ "." ++ String.ofList hit.value.method) | return none
  return some (Signature.ofRecord hit.value.method hit.value.typed record)

theorem signature?_eq (doc : Document) (pos : Position) (table : Table) :
    signature? doc pos table = .ok (doc.signature? pos table) := by
  rw [signature?, linePrefix_eq, ok_bind, Document.signature?]
  cases Signature.openCall.first? (doc.before pos) with
  | none => rfl
  | some hit =>
    simp only [Option.bind_eq_bind, Option.bind_some]
    generalize ((Bindings.ofDocument doc).get? (String.ofList hit.value.receiver)).getD
      (String.ofList hit.value.receiver) = owner
    cases table.findByName? (owner ++ "." ++ String.ofList hit.value.method) <;> rfl

end CodeNav.Checked
