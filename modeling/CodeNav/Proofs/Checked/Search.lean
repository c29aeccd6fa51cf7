import CodeNav.Proofs.Checked.Words
import CodeNav.Proofs.Document.Excerpts
import CodeNav.Workspace.Service

/-! The search for calls with checks. The line behind the cursor is counted only once a word was
found, so that the line exists; the rest of a line is cut behind a hit, the text before a call is cut
at its hit, and hits are put in order as byte offsets before they are counted in characters. -/
namespace CodeNav.Checked
set_option autoImplicit false
open Text Text.Scan

/-! ## The target -/

def openedLiteral? (line : List Char) : Except Fault (Option String) :=
  (Block.literalOpening.hits line).findSomeM? fun hit => do
    let rest ← behind line (← reported line hit.stop)
    return if Block.closesAhead rest then none else some (String.ofList hit.value)

def openedName? (line : List Char) : Except Fault (Option String) :=
  (openedLiteral? line).map (·.or (Block.openedClass? line))

def afterLine (blocks : List (Option String)) (line : List Char) :
    Except Fault (List (Option String)) := do
  let braces := line.count '\x7b'
  let opened := match ← openedName? line with
    | some name => List.replicate (braces - 1) none ++ some name :: blocks
    | none => List.replicate braces none ++ blocks
  return opened.drop (line.count '\x7d')

def declaredTarget? (doc : Document) (pos : Position) : Except Fault (Option Target) := do
  let some range ← wordRange? doc pos | return none
  let word ← wordIn doc range
  let lines := doc.lines.take (← add pos.line 1)
  let blocks ← lines.foldlM (fun blocks line => afterLine blocks (trim line)) []
  let line := trim (doc.line pos.line)
  if DeclaringLine.declares word.toList line then
    match Block.innermost? blocks with
    | some owner => return some ⟨owner, word⟩
    | none => (openedName? line).map (·.map fun owner => ⟨owner, word⟩)
  else return none

def memberTarget? (doc : Document) (start : Position) (word : String) :
    Except Fault (Option Target) := do
  let some receiver := receiverWord? (← linePrefix doc start) | return none
  if receiver = "this" then
    return (doc.enclosingClass? start.line).map fun owner => ⟨owner, word⟩
  else
    return some ⟨((Bindings.ofDocument doc).get? receiver).getD receiver, word⟩

def cursorTarget? (doc : Document) (pos : Position) : Except Fault (Option Target) := do
  let some range ← wordRange? doc pos | return none
  let word ← wordIn doc range
  match ← declaredTarget? doc pos with
  | some target => return some target
  | none => memberTarget? doc ⟨pos.line, range.start⟩ word

theorem openedLiteral?_eq (line : List Char) :
    openedLiteral? line = .ok (Block.openedLiteral? line) := by
  rw [Block.openedLiteral?, ← List.findSome?_guard, List.map_findSome?]
  refine findSomeM_eq fun hit hhit => ?_
  rw [reported_eq (bounds_of_hit hhit).2, ok_bind, behind_byteOf, ok_bind]
  by_cases hcloses : Block.closesAhead (line.drop hit.stop) = true <;>
    simp [Option.guard, hcloses, pure_eq]

theorem openedName?_eq (line : List Char) : openedName? line = .ok (Block.openedName? line) := by
  rw [openedName?, openedLiteral?_eq]
  rfl

theorem afterLine_eq (blocks : List (Option String)) (line : List Char) :
    afterLine blocks line = .ok (Block.afterLine blocks line) := by
  rw [afterLine, openedName?_eq]
  rfl

/-- A word is found only on a line that exists. -/
theorem line_lt_of_wordRange {doc : Document} {pos : Position} {range : WordRange}
    (h : doc.wordRange? pos = some range) : pos.line < doc.lines.length := by
  refine Nat.lt_of_not_le fun hpast => ?_
  have hempty : doc.line pos.line = [] := by
    rw [Document.line, List.getD_eq_getElem?_getD, List.getElem?_eq_none hpast]
    rfl
  rw [Document.wordRange?, Document.before, Document.after, hempty, List.take_nil,
    List.drop_nil] at h
  cases h

theorem declaredTarget?_eq {doc : Document} (h : doc.Storable) (pos : Position) :
    declaredTarget? doc pos = .ok (doc.declaredTarget? pos) := by
  rw [declaredTarget?, wordRange?_eq (h.length_line_lt pos.line), ok_bind, Document.declaredTarget?,
    Document.word?]
  cases hrange : doc.wordRange? pos with
  | none => rfl
  | some range =>
    have hline := line_lt_of_wordRange hrange
    have hlines := h.length_lines_lt
    have hblocks : (doc.lines.take (pos.line + 1)).foldlM
        (fun blocks line => afterLine blocks (trim line)) [] =
        .ok (Block.afterLines (doc.lines.take (pos.line + 1))) :=
      foldlM_eq (fun blocks line _ => afterLine_eq blocks (trim line)) []
    simp only [wordIn_eq doc (start_le_stop hrange),
      add_eq (show pos.line + 1 < UInt64.size by omega), ok_bind, hblocks, openedName?_eq,
      Option.map_some, Option.bind_eq_bind, Option.bind_some]
    split
    · cases Block.innermost? (Block.afterLines (doc.lines.take (pos.line + 1))) with
      | some owner => rfl
      | none => cases Block.openedName? (trim (doc.line pos.line)) <;> rfl
    · rfl

theorem memberTarget?_eq (doc : Document) (start : Position) (word : String) :
    memberTarget? doc start word = .ok (doc.memberTarget? start word) := by
  rw [memberTarget?, linePrefix_eq, ok_bind, Document.memberTarget?]
  cases receiverWord? (doc.before start) with
  | none => rfl
  | some receiver =>
    simp only [Option.bind_eq_bind, Option.bind_some]
    split
    · cases doc.enclosingClass? start.line <;> rfl
    · rfl

theorem cursorTarget?_eq {doc : Document} (h : doc.Storable) (pos : Position) :
    cursorTarget? doc pos = .ok (Service.target? doc pos) := by
  rw [cursorTarget?, wordRange?_eq (h.length_line_lt pos.line), ok_bind, Service.target?]
  cases hrange : doc.wordRange? pos with
  | none => rfl
  | some range =>
    simp only [wordIn_eq doc (start_le_stop hrange), declaredTarget?_eq h, memberTarget?_eq,
      ok_bind, Option.bind_some]
    cases doc.declaredTarget? pos <;> rfl

/-! ## Calls on a line -/

/-- Does no identifier character stand right before the byte offset? -/
def startsWord (line : List Char) (start : Nat) : Except Fault Bool :=
  (upTo line start).map fun front => !front.getLast?.any isIdentChar

def ownStarts (owner function line : List Char) : Except Fault (List Nat) := do
  let found ← ((CallSearch.callOn owner function).hits line).filterM fun hit =>
    reported line hit.start >>= startsWord line
  found.mapM fun hit => reported line hit.start

/-- The calls on the instance, where they count. -/
def innerStarts (onInstance : Bool) (function line : List Char) : Except Fault (List Nat) :=
  if onInstance then ownStarts "this".toList function line else pure []

def variableStarts (target : Target) (instances : Bindings) (line : List Char) :
    Except Fault (List Nat) :=
  (((CallSearch.callOnVariable target.function.toList).hits line).filter fun hit =>
    instances.get? (String.ofList hit.value) == some target.owner).mapM fun hit =>
      reported line hit.start

def starts (target : Target) (onInstance : Bool) (instances : Bindings) (line : List Char) :
    Except Fault (List Nat) := do
  let own ← ownStarts target.owner.toList target.function.toList line
  let inner ← innerStarts onInstance target.function.toList line
  let onVariables ← variableStarts target instances line
  let places ← ((own ++ inner ++ onVariables).mergeSort (· ≤ ·)).mapM (charOf line)
  return places.eraseDups

theorem startsWord_byteOf (line : List Char) (place : Nat) :
    startsWord line (byteOf line place) = .ok (CallSearch.startsWord line place) := by
  rw [startsWord, upTo_byteOf]
  rfl

theorem reported_hits_eq {α : Type} {s : Scan α} {line : List Char} {hits : List (Hit α)}
    (h : ∀ hit ∈ hits, hit ∈ s.hits line) :
    hits.mapM (fun hit => reported line hit.start) =
      .ok ((hits.map (·.start)).map (byteOf line)) := by
  rw [List.map_map]
  exact mapM_eq fun hit hhit => reported_eq (bounds_of_hit (h hit hhit)).1

theorem ownStarts_eq (owner function line : List Char) :
    ownStarts owner function line =
      .ok ((CallSearch.ownStarts owner function line).map (byteOf line)) := by
  have hfound : (((CallSearch.callOn owner function).hits line).filterM fun hit =>
      reported line hit.start >>= startsWord line) =
      .ok (((CallSearch.callOn owner function).hits line).filter fun hit =>
        CallSearch.startsWord line hit.start) :=
    filterM_eq fun hit hhit => by
      rw [reported_eq (bounds_of_hit hhit).1, ok_bind, startsWord_byteOf]
  rw [ownStarts, hfound, ok_bind, reported_hits_eq fun hit hhit => (List.mem_filter.mp hhit).1,
    CallSearch.ownStarts, List.filter_map]
  rfl

theorem variableStarts_eq (target : Target) (instances : Bindings) (line : List Char) :
    variableStarts target instances line =
      .ok ((CallSearch.variableStarts target instances line).map (byteOf line)) :=
  reported_hits_eq fun _ hhit => (List.mem_filter.mp hhit).1

theorem start_le_of_hits {α : Type} {s : Scan α} {line : List Char} {hits : List (Hit α)}
    (h : ∀ hit ∈ hits, hit ∈ s.hits line) : ∀ start ∈ hits.map (·.start), start ≤ line.length := by
  intro start hstart
  obtain ⟨hit, hhit, rfl⟩ := List.mem_map.mp hstart
  exact (bounds_of_hit (h hit hhit)).1

theorem ownStarts_le (owner function line : List Char) :
    ∀ start ∈ CallSearch.ownStarts owner function line, start ≤ line.length := fun start hstart =>
  start_le_of_hits (fun _ => id) start (List.mem_filter.mp hstart).1

/-- Places in the order of their byte offsets are in order. -/
theorem sorted_places_eq {line : List Char} {places : List Nat}
    (h : ∀ place ∈ places, place ≤ line.length) :
    ((places.map (byteOf line)).mergeSort (· ≤ ·)).mapM (charOf line) =
      .ok (places.mergeSort (· ≤ ·)) := by
  rw [← List.map_mergeSort fun first hfirst second hsecond =>
    decide_eq_decide.mpr (byteOf_le_iff (h first hfirst) (h second hsecond)).symm, List.mapM_map]
  have hread : (places.mergeSort (· ≤ ·)).mapM (charOf line ∘ byteOf line) =
      .ok ((places.mergeSort (· ≤ ·)).map id) :=
    mapM_eq fun place hplace => charOf_byteOf (h place (List.mem_mergeSort.mp hplace))
  rw [hread, List.map_id]

theorem starts_eq (target : Target) (onInstance : Bool) (instances : Bindings) (line : List Char) :
    starts target onInstance instances line =
      .ok (CallSearch.starts target onInstance instances line) := by
  have hinner : innerStarts onInstance target.function.toList line =
      .ok ((if onInstance then
        CallSearch.ownStarts "this".toList target.function.toList line else []).map
          (byteOf line)) := by
    rw [innerStarts]
    split
    · exact ownStarts_eq _ _ _
    · rfl
  rw [starts, ownStarts_eq, ok_bind, hinner, ok_bind, variableStarts_eq, ok_bind,
    ← List.map_append, ← List.map_append, sorted_places_eq, ok_bind]
  · rfl
  · intro start hstart
    rcases List.mem_append.mp hstart with hstart | hvariable
    · rcases List.mem_append.mp hstart with hown | hinstance
      · exact ownStarts_le _ _ _ start hown
      · split at hinstance
        · exact ownStarts_le _ _ _ start hinstance
        · cases hinstance
    · exact start_le_of_hits (fun _ hhit => (List.mem_filter.mp hhit).1) start hvariable

/-! ## Calls in the workspace -/

def scanLines (target : Target) (onInstance : Bool) (file : String) :
    Nat → Bindings → List (List Char) → Except Fault (List Reference)
  | _, _, [] => pure []
  | index, instances, line :: lines => do
    let known := CallSearch.observe instances line
    let here ← starts target onInstance known line
    let below ← scanLines target onInstance file (index + 1) known lines
    return (here.map fun start => ⟨⟨file, index, start⟩, String.ofList (trim line)⟩) ++ below

def inFile (read : String → Option Document) (target : Target) (active : CallSearch.Active)
    (file : String) : Except Fault (List Reference) :=
  if active.document.path == file then
    scanLines target (active.enclosingClass == some target.owner) active.document.path 0 []
      active.document.lines
  else match read file with
    | some doc => scanLines target false doc.path 0 [] doc.lines
    | none => pure []

def callsOf (s : Service) (disk : Disk) (target : Target) (doc : Document) (pos : Position)
    (files : List String) : Except Fault (List Reference) :=
  (files.mapM (inFile (fun file => (s.readDocument disk file).toOption) target
    ⟨doc, doc.enclosingClass? pos.line⟩)).map List.flatten

/-- A report after each file. -/
def progress (total : Nat) : Except Fault (List (Nat × Nat)) :=
  (List.range total).mapM fun done => (add done 1).map fun completed => (completed, total)

/-- Drops the entry at an index. -/
def remove {α : Type} (xs : List α) (index : Nat) : Except Fault (List α) :=
  if index < xs.length then pure (xs.eraseIdx index) else .error .index

/-- The stack of results is kept with the oldest one first. -/
def push (h : History) (set : ReferenceSet) : Except Fault History := do
  let stack := h.sets.reverse
  let kept ← if stack.length = History.capacity then remove stack 0 else pure stack
  return ⟨(kept ++ [set]).reverse⟩

def findReferences (s : Service) (disk : Disk) (doc : Document) (pos : Position) :
    Except Fault (List (Nat × Nat) × ReferencesOutcome × Service) := do
  let some range ← wordRange? doc pos | return ([], .noWord, s)
  let word ← wordIn doc range
  let some target ← cursorTarget? doc pos | return ([], .noTarget word, s)
  let files := s.admission.discover disk
  let reports ← progress files.length
  let references ← callsOf s disk target doc pos files
  if references.isEmpty then return (reports, .noMatch target, s)
  let set : ReferenceSet := { target, references }
  return (reports, .found set, { s with history := ← push s.history set })

theorem scanLines_eq (target : Target) (onInstance : Bool) (file : String) (index : Nat)
    (instances : Bindings) (lines : List (List Char)) :
    scanLines target onInstance file index instances lines =
      .ok (CallSearch.scanLines target onInstance file index instances lines) := by
  induction lines generalizing index instances with
  | nil => rfl
  | cons line lines ih =>
    rw [scanLines, starts_eq, ok_bind, ih, ok_bind]
    rfl

theorem inFile_eq (read : String → Option Document) (target : Target) (active : CallSearch.Active)
    (file : String) :
    inFile read target active file = .ok (CallSearch.inFile read target (some active) file) := by
  rw [inFile, CallSearch.inFile, Option.filter_some]
  split
  · exact scanLines_eq ..
  · cases read file with
    | none => rfl
    | some doc => exact scanLines_eq ..

/-- There is an oldest result to drop whenever one is dropped. -/
theorem push_completes (h : History) (set : ReferenceSet) :
    ∃ after, push h set = .ok after ∧
      (h.sets.length ≤ History.capacity → after = h.push set) := by
  rw [push, History.push, List.length_reverse]
  by_cases hfull : h.sets.length = History.capacity
  · have hremove : remove h.sets.reverse 0 = .ok h.sets.dropLast.reverse := by
      rw [remove, if_pos (by rw [List.length_reverse, hfull]; decide), List.eraseIdx_zero,
        List.tail_reverse]
      rfl
    simp only [if_pos hfull, hremove, ok_bind]
    refine ⟨_, rfl, fun _ => ?_⟩
    rw [List.reverse_append, List.reverse_reverse, List.dropLast_eq_take, hfull]
    rfl
  · simp only [if_neg hfull, pure_eq, ok_bind]
    refine ⟨_, rfl, fun hbound => ?_⟩
    rw [List.reverse_append, List.reverse_reverse,
      List.take_of_length_le (by rw [List.length_cons]; omega)]
    rfl

theorem callsOf_eq (s : Service) (disk : Disk) (target : Target) (doc : Document) (pos : Position)
    (files : List String) :
    callsOf s disk target doc pos files = .ok (s.callsOf disk target doc pos files) := by
  rw [callsOf, mapM_eq fun file _ => inFile_eq _ target _ file, Service.callsOf, CallSearch.inFiles,
    List.flatMap_def]
  rfl

theorem progress_eq {total : Nat} (h : total < UInt64.size) :
    progress total = .ok (CallSearch.progress total) :=
  mapM_eq fun done hdone => by
    rw [add_eq (Nat.lt_of_le_of_lt (List.mem_range.mp hdone) h)]
    rfl

theorem findReferences_completes {doc : Document} (h : doc.Storable) (pos : Position) (s : Service)
    {disk : Disk} (hfiles : (s.admission.discover disk).length < UInt64.size) :
    ∃ result, findReferences s disk doc pos = .ok result ∧
      (s.history.sets.length ≤ History.capacity → result = s.findReferences disk doc pos) := by
  rw [findReferences, wordRange?_eq (h.length_line_lt pos.line), ok_bind, Service.findReferences,
    Document.word?]
  cases hrange : doc.wordRange? pos with
  | none => exact ⟨_, rfl, fun _ => rfl⟩
  | some range =>
    simp only [wordIn_eq doc (start_le_stop hrange), cursorTarget?_eq h, progress_eq hfiles,
      callsOf_eq, ok_bind, Option.map_some]
    cases Service.target? doc pos with
    | none => exact ⟨_, rfl, fun _ => rfl⟩
    | some target =>
      simp only
      cases s.callsOf disk target doc pos (s.admission.discover disk) with
      | nil => exact ⟨_, rfl, fun _ => rfl⟩
      | cons first later =>
        obtain ⟨after, hpush, hafter⟩ :=
          push_completes s.history { target, references := first :: later }
        simp only [List.isEmpty_cons, Bool.false_eq_true, if_false, hpush, ok_bind]
        exact ⟨_, rfl, fun hbound => by rw [hafter hbound]⟩

end CodeNav.Checked
