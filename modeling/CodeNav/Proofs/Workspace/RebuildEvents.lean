import CodeNav.Proofs.Workspace.Upkeep

/-! The events of a rebuild as its accounts. They tell of every file in order and close with totals
that agree with what was told, with the result and with the table. A file that cannot be read is
told of and leaves no other trace. -/
namespace CodeNav
set_option autoImplicit false

namespace IndexEvent

def isCompleted : IndexEvent → Bool
  | .completed _ _ => true
  | _ => false

/-- The records that events report, over all files. -/
def reported : List IndexEvent → Nat
  | [] => 0
  | .completed _ symbols :: rest => symbols + reported rest
  | _ :: rest => reported rest

theorem reported_append (front back : List IndexEvent) :
    reported (front ++ back) = reported front + reported back := by
  induction front with
  | nil => exact (Nat.zero_add _).symm
  | cons event front ih =>
    cases event with
    | completed file symbols =>
      rw [List.cons_append, reported, reported, ih, Nat.add_assoc]
    | _ => exact ih

end IndexEvent

namespace Store

/-! ## Events of the files -/

/-- What is told of a file once its extraction is over. -/
inductive Tells (file : String) : Except StoreError (List Record) → IndexEvent → Prop
  | completed (found : List Record) : Tells file (.ok found) (.completed file found.length)
  | failed (cause : StoreError) : Tells file (.error cause) (.failed file cause.message)

theorem tells_outcomeEvent (file : String) (outcome : Except StoreError (List Record)) :
    Tells file outcome (outcomeEvent file outcome) := by
  cases outcome with
  | ok found => exact .completed found
  | error cause => exact .failed cause

theorem fileEvents_extractAll (grammar : Grammar) (store : Store) (disk : Disk) (total before : Nat)
    (files : List String) :
    fileEvents total before (store.extractAll grammar disk files) =
      (files.zipIdx before).flatMap fun x =>
        [.started x.1, outcomeEvent x.1 (store.extract grammar disk x.1),
          .progress (x.2 + 1) total] := by
  induction files generalizing before with
  | nil => rfl
  | cons file files ih =>
    rw [List.zipIdx_cons, List.flatMap_cons, ← ih]
    rfl

theorem completed_fileEvents (total before : Nat) (xs : List Extraction) :
    (fileEvents total before xs).countP IndexEvent.isCompleted = readCount xs := by
  induction xs generalizing before with
  | nil => rfl
  | cons x xs ih =>
    obtain ⟨file, outcome⟩ := x
    have hrest := ih (before + 1)
    rw [readCount] at hrest ⊢
    rw [fileEvents, List.countP_append, hrest, List.countP_cons (l := xs), Nat.add_comm]
    cases outcome with
    | ok found => rfl
    | error cause => rfl

theorem reported_fileEvents (total before : Nat) (xs : List Extraction) :
    IndexEvent.reported (fileEvents total before xs) = (allRecords xs).length := by
  induction xs generalizing before with
  | nil => rfl
  | cons x xs ih =>
    obtain ⟨file, outcome⟩ := x
    have hrest := ih (before + 1)
    rw [allRecords] at hrest ⊢
    rw [fileEvents, IndexEvent.reported_append, hrest, List.flatMap_cons, List.length_append]
    cases outcome with
    | ok found => rfl
    | error cause => rfl

/-! ## The table of a rebuild -/

theorem mem_extracted_of_mem_flatMap (grammar : Grammar) (store : Store) (disk : Disk)
    (files : List String) (r : Record) (h : r ∈ files.flatMap (store.extracted grammar disk)) :
    r ∈ store.extracted grammar disk r.file := by
  obtain ⟨file, _, hr⟩ := List.mem_flatMap.mp h
  rw [extracted_file grammar store disk file r hr]
  exact hr

theorem inFile_flatMap_of_error (grammar : Grammar) (store : Store) (disk : Disk)
    (files : List String) (file : String) (h : (store.extract grammar disk file).isOk = false) :
    Table.inFile (files.flatMap (store.extracted grammar disk)) file = [] := by
  apply Table.inFile_of_none
  rintro r hr rfl
  have hown := mem_extracted_of_mem_flatMap grammar store disk files r hr
  rw [extracted_of_error grammar store disk r.file h] at hown
  exact absurd hown List.not_mem_nil

theorem flatMap_readable (grammar : Grammar) (store : Store) (disk : Disk) (files : List String) :
    (files.filter fun file => (store.extract grammar disk file).isOk).flatMap
      (store.extracted grammar disk) = files.flatMap (store.extracted grammar disk) := by
  induction files with
  | nil => rfl
  | cons file files ih =>
    rw [List.filter_cons, List.flatMap_cons]
    cases hreads : (store.extract grammar disk file).isOk with
    | true => rw [if_pos rfl, List.flatMap_cons, ih]
    | false =>
      rw [if_neg Bool.false_ne_true, ih, extracted_of_error grammar store disk file hreads,
        List.nil_append]

/-! ## The accounts -/

theorem rebuild_of_ok (grammar : Grammar) (store : Store) (files : List String) (shelf : Shelf)
    (count : Nat) (h : (store.rebuild grammar files shelf).result = .ok count) :
    ∃ cleared, store.clear shelf.disk = .ok cleared ∧
      (store.rebuild grammar files shelf).events =
        fileEvents files.length 0 (store.extractAll grammar cleared files) ++
          [.done (readCount (store.extractAll grammar cleared files)) count] ∧
      (files.flatMap (store.extracted grammar cleared)).length = count := by
  obtain ⟨cleared, hclear, hwritten⟩ := rebuild_ok grammar store files shelf (by rw [h]; rfl)
  have hcount : (files.flatMap (store.extracted grammar cleared)).length = count := by
    rw [rebuild_result grammar store files shelf cleared hclear] at h
    cases hw : (store.write (files.flatMap (store.extracted grammar cleared)) cleared).1 with
    | error cause =>
      rw [hw] at hwritten
      cases hwritten
    | ok value =>
      rw [hw] at h
      exact Except.ok.inj h
  refine ⟨cleared, hclear, ?_, hcount⟩
  rw [rebuild_of_clear grammar store files shelf cleared hclear]
  simp only [hwritten, if_true, hcount]

/-- A rebuild that succeeds tells of each file that it is started, how its extraction ended and how
far the rebuild has come, and at the end how many files were read and how many records there are.
With other unreadable files in the list, or none, it leaves the same shelf. -/
theorem rebuild_accounts_for_files (grammar : Grammar) (store : Store) (files : List String)
    (shelf : Shelf) (count : Nat) (h : (store.rebuild grammar files shelf).result = .ok count) :
    let rebuilt := store.rebuild grammar files shelf
    ∃ cleared, store.clear shelf.disk = .ok cleared ∧
      (∃ told : String → IndexEvent,
        (∀ file, Tells file (store.extract grammar cleared file) (told file)) ∧
        rebuilt.events =
          (files.zipIdx.flatMap fun x =>
            [.started x.1, told x.1, .progress (x.2 + 1) files.length]) ++
            [.done (rebuilt.events.countP IndexEvent.isCompleted) count]) ∧
      IndexEvent.reported rebuilt.events = count ∧
      rebuilt.shelf.table.length = count ∧
      rebuilt.shelf.table = files.flatMap (store.extracted grammar cleared) ∧
      (∀ file, (store.extract grammar cleared file).isOk = false →
        rebuilt.shelf.table.inFile file = []) ∧
      ∀ others : List String,
        (others.filter fun file => (store.extract grammar cleared file).isOk) =
          (files.filter fun file => (store.extract grammar cleared file).isOk) →
        (store.rebuild grammar others shelf).shelf = rebuilt.shelf ∧
          (store.rebuild grammar others shelf).result = .ok count := by
  intro rebuilt
  obtain ⟨cleared, hclear, hevents, hcount⟩ := rebuild_of_ok grammar store files shelf count h
  have hshelf := rebuild_shelf grammar store files shelf cleared hclear
  have htable : rebuilt.shelf.table = files.flatMap (store.extracted grammar cleared) :=
    congrArg Shelf.table hshelf
  refine ⟨cleared, hclear, ?_, ?_, ?_, htable, ?_, ?_⟩
  · refine ⟨fun file => outcomeEvent file (store.extract grammar cleared file),
      fun file => tells_outcomeEvent file _, ?_⟩
    have hcompleted : rebuilt.events.countP IndexEvent.isCompleted =
        readCount (store.extractAll grammar cleared files) := by
      rw [hevents, List.countP_append, completed_fileEvents]
      rfl
    rw [hcompleted, ← fileEvents_extractAll]
    exact hevents
  · rw [hevents, IndexEvent.reported_append, reported_fileEvents, allRecords_extractAll, hcount]
    rfl
  · rw [htable, hcount]
  · intro file hfails
    rw [htable]
    exact inFile_flatMap_of_error grammar store cleared files file hfails
  · -- The files that cannot be read add nothing, so the table is that of the others.
    intro others hsame
    have hothers : others.flatMap (store.extracted grammar cleared) =
        files.flatMap (store.extracted grammar cleared) := by
      rw [← flatMap_readable, hsame, flatMap_readable]
    rw [rebuild_shelf grammar store others shelf cleared hclear,
      rebuild_result grammar store others shelf cleared hclear, hothers]
    rw [rebuild_result grammar store files shelf cleared hclear] at h
    exact ⟨hshelf.symm, h⟩

/-- A missing file, one that is listed twice, and one of no dialect. -/
def mixedFiles : List String := ["a.js", "b.js", "b.js", "c.txt"]

/-- Two records of the file that is there, and the same without the other two files. -/
theorem rebuild_accounts_for_mixedFiles :
    let rebuilt := (pairStore "symbols.index").rebuild pairGrammar mixedFiles pairStart
    rebuilt.result = .ok 2 ∧
    IndexEvent.reported rebuilt.events = 2 ∧
    rebuilt.shelf.table.length = 2 ∧
    ((pairStore "symbols.index").extract pairGrammar pairStart.disk "a.js").isOk = false ∧
    rebuilt.shelf.table.inFile "a.js" = [] ∧
    ((pairStore "symbols.index").rebuild pairGrammar ["b.js", "b.js"] pairStart).shelf =
      rebuilt.shelf := by
  intro rebuilt
  have hresult : rebuilt.result = .ok 2 := by rfl
  have hclear : (pairStore "symbols.index").clear pairStart.disk = .ok pairStart.disk := by
    rw [clear, if_neg (by decide +kernel)]
  have hmissing : ((pairStore "symbols.index").extract pairGrammar pairStart.disk
      "a.js").isOk = false := by decide +kernel
  obtain ⟨cleared, hcleared, -, hsum, hlength, -, hfails, hothers⟩ :=
    rebuild_accounts_for_files pairGrammar (pairStore "symbols.index") mixedFiles pairStart 2 hresult
  cases hclear.symm.trans hcleared
  exact ⟨hresult, hsum, hlength, hmissing, hfails "a.js" hmissing,
    (hothers ["b.js", "b.js"] (by decide +kernel)).1⟩

end Store

end CodeNav
