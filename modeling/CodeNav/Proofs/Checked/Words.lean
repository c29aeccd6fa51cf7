import CodeNav.Calls.Target
import CodeNav.Navigation.Lookup
import CodeNav.Proofs.Checked.Operations
import CodeNav.Proofs.Text.Hits

/-! The text around a position, cut out with checks. The line is cut at the byte offset of a
character, the identifier is found by stepping from one index to the next, and a hit on the line is
known by the byte offsets of its ends. A position beyond the line is moved to its end first, so no
position makes a check fail. -/
namespace CodeNav.Checked
set_option autoImplicit false
open Text Text.Scan

/-! ## Before the position -/

def linePrefix (doc : Document) (pos : Position) : Except Fault (List Char) :=
  upTo (doc.line pos.line) (byteOf (doc.line pos.line) pos.character)

theorem linePrefix_eq (doc : Document) (pos : Position) : linePrefix doc pos = .ok (doc.before pos) :=
  upTo_byteOf (doc.line pos.line) pos.character

/-! ## The identifier -/

def isIdentAt (chars : List Char) (index : Nat) : Except Fault Bool :=
  (get chars index).map isIdentChar

/-- Does an identifier go on at a place? -/
def identAfter (chars : List Char) (place : Nat) : Except Fault Bool :=
  if place < chars.length then isIdentAt chars place else pure false

/-- Does an identifier end at a place? -/
def identBefore (chars : List Char) (place : Nat) : Except Fault Bool :=
  if 0 < place then sub place 1 >>= isIdentAt chars else pure false

/-- Steps back from a place to the start of the identifier that ends there. -/
def runStart (chars : List Char) : Nat → Except Fault Nat
  | 0 => .ok 0
  | start + 1 => do
    let left ← sub (start + 1) 1
    if ← isIdentAt chars left then runStart chars start else return start + 1

/-- Steps on from a place, with so many characters behind it, to the end of the identifier that
starts there. -/
def runStop (chars : List Char) : Nat → Nat → Except Fault Nat
  | 0, stop => .ok stop
  | rest + 1, stop => do
    if ← isIdentAt chars stop then runStop chars rest (← add stop 1) else return stop

def wordRange? (doc : Document) (pos : Position) : Except Fault (Option WordRange) := do
  let chars := doc.line pos.line
  let column := min pos.character chars.length
  let onWord ← identAfter chars column
  let afterWord ← identBefore chars column
  if !onWord && !afterWord then return none
  return some ⟨pos.line, ← runStart chars column, ← runStop chars (chars.length - column) column⟩

def wordIn (doc : Document) (range : WordRange) : Except Fault String := do
  let length ← sub range.stop range.start
  return String.ofList (((doc.line range.line).drop range.start).take length)

theorem isIdentAt_eq {chars : List Char} {index : Nat} (h : index < chars.length) :
    isIdentAt chars index = .ok (isIdentChar chars[index]) := by
  rw [isIdentAt, get_eq (List.getElem?_eq_getElem h)]
  rfl

/-- The identifier characters that end at a place. -/
theorem runBefore_succ (chars : List Char) {place : Nat} (h : place < chars.length) :
    (chars.take (place + 1)).reverse.takeWhile isIdentChar =
      if isIdentChar chars[place] then
        chars[place] :: (chars.take place).reverse.takeWhile isIdentChar
      else [] := by
  rw [List.take_add_one, List.getElem?_eq_getElem h, Option.toList_some, List.reverse_append,
    List.reverse_singleton, List.singleton_append, List.takeWhile_cons]

theorem runStart_eq (chars : List Char) {place : Nat} (h : place ≤ chars.length) :
    runStart chars place =
      .ok (place - ((chars.take place).reverse.takeWhile isIdentChar).length) := by
  induction place with
  | zero => rfl
  | succ place ih =>
    rw [runStart, sub_eq (Nat.le_add_left 1 place), ok_bind, Nat.add_sub_cancel, isIdentAt_eq h,
      ok_bind, runBefore_succ chars h]
    split
    · rw [ih (Nat.le_of_succ_le h), List.length_cons, Nat.add_sub_add_right]
    · rfl

theorem runStop_eq {chars : List Char} (hchars : chars.length < UInt64.size) {rest place : Nat}
    (h : place + rest = chars.length) :
    runStop chars rest place =
      .ok (place + ((chars.drop place).takeWhile isIdentChar).length) := by
  induction rest generalizing place with
  | zero =>
    rw [List.drop_eq_nil_of_le (Nat.le_of_eq h.symm : chars.length ≤ place)]
    rfl
  | succ rest ih =>
    have hplace : place < chars.length := by omega
    rw [runStop, isIdentAt_eq hplace, ok_bind, add_eq (by omega), ok_bind,
      List.drop_eq_getElem_cons hplace, List.takeWhile_cons]
    split
    · rw [ih (by omega), List.length_cons, Nat.add_assoc, Nat.add_comm 1]
    · rfl

theorem identAfter_eq (chars : List Char) (place : Nat) :
    identAfter chars place = .ok !((chars.drop place).takeWhile isIdentChar).isEmpty := by
  rw [identAfter]
  split
  · next h =>
    rw [isIdentAt_eq h, List.drop_eq_getElem_cons h, List.takeWhile_cons]
    cases isIdentChar chars[place] <;> rfl
  · next h =>
    rw [List.drop_eq_nil_of_le (Nat.le_of_not_lt h)]
    rfl

theorem identBefore_eq (chars : List Char) {place : Nat} (h : place ≤ chars.length) :
    identBefore chars place =
      .ok !((chars.take place).reverse.takeWhile isIdentChar).isEmpty := by
  cases place with
  | zero => rfl
  | succ left =>
    rw [identBefore, if_pos (Nat.succ_pos left), sub_eq (Nat.le_add_left 1 left), ok_bind,
      Nat.add_sub_cancel, isIdentAt_eq h, runBefore_succ chars h]
    cases isIdentChar chars[left] <;> rfl

theorem drop_min_length (chars : List Char) (count : Nat) :
    chars.drop (min count chars.length) = chars.drop count := by
  rcases Nat.le_total count chars.length with h | h
  · rw [Nat.min_eq_left h]
  · rw [Nat.min_eq_right h, List.drop_length, List.drop_eq_nil_of_le h]

theorem wordRange?_eq {doc : Document} {pos : Position}
    (h : (doc.line pos.line).length < UInt64.size) :
    wordRange? doc pos = .ok (doc.wordRange? pos) := by
  have hcolumn : min pos.character (doc.line pos.line).length ≤ (doc.line pos.line).length :=
    Nat.min_le_right _ _
  have hbefore : (doc.line pos.line).take (min pos.character (doc.line pos.line).length) =
      doc.before pos := List.take_eq_take_min.symm
  have hafter : (doc.line pos.line).drop (min pos.character (doc.line pos.line).length) =
      doc.after pos := drop_min_length _ _
  rw [wordRange?, Document.wordRange?, identAfter_eq, identBefore_eq _ hcolumn,
    runStart_eq _ hcolumn, runStop_eq h (by omega), hbefore, hafter]
  simp only [List.length_eq_zero_iff]
  cases (doc.before pos).reverse.takeWhile isIdentChar <;>
    cases (doc.after pos).takeWhile isIdentChar <;> rfl

theorem start_le_stop {doc : Document} {pos : Position} {range : WordRange}
    (h : doc.wordRange? pos = some range) : range.start ≤ range.stop := by
  rw [Document.wordRange?] at h
  split at h
  · cases h
  · cases h
    exact Nat.le_trans (Nat.sub_le _ _) (Nat.le_add_right _ _)

theorem wordIn_eq (doc : Document) {range : WordRange} (h : range.start ≤ range.stop) :
    wordIn doc range = .ok (doc.wordIn range) := by
  rw [wordIn, sub_eq h]
  rfl

/-! ## Hits on the line -/

/-- The dotted expression of the line that starts before the word and reaches its end, cut there. -/
def dottedWord? (line : List Char) (range : WordRange) : Except Fault (Option String) :=
  (Lookup.dottedExpression.hits line).findSomeM? fun hit => do
    let start ← charOf line (← reported line hit.start)
    let stop ← charOf line (← reported line hit.stop)
    if start < range.start && range.stop ≤ stop then
      let length ← sub range.stop start
      return some (String.ofList ((line.drop start).take length))
    else return none

theorem dottedWord?_eq (line : List Char) {range : WordRange} (h : range.start ≤ range.stop) :
    dottedWord? line range = .ok (Lookup.dottedWord? line range) := by
  rw [Lookup.dottedWord?, ← List.findSome?_guard, List.map_findSome?]
  refine findSomeM_eq fun hit hhit => ?_
  obtain ⟨hstart, hstop⟩ := bounds_of_hit hhit
  simp only [reported_eq hstart, reported_eq hstop, charOf_byteOf hstart, charOf_byteOf hstop,
    ok_bind, Function.comp_apply, Option.guard]
  by_cases hcovers : (hit.start < range.start && range.stop ≤ hit.stop) = true
  · rw [if_pos hcovers, if_pos hcovers, sub_eq (by simp at hcovers; omega)]
    rfl
  · rw [if_neg hcovers, if_neg hcovers]
    rfl

/-! ## The path before the position -/

def objectType (doc : Document) (pos : Position) (table : Table) (types : Bindings) :
    Except Fault String := do
  match receiverPath? (← linePrefix doc pos) with
  | none => return ""
  | some path =>
    match types.get? (String.ofList path) with
    | some type => return type
    | none => return table.symbolPath path

theorem objectType_eq (doc : Document) (pos : Position) (table : Table) (types : Bindings) :
    objectType doc pos table types = .ok (doc.objectType pos table types) := by
  rw [objectType, linePrefix_eq, ok_bind, Document.objectType]
  cases receiverPath? (doc.before pos) with
  | none => rfl
  | some path =>
    simp only
    cases types.get? (String.ofList path) <;> rfl

end CodeNav.Checked
