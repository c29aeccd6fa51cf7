import CodeNav.Proofs.Calls.Outcome
import CodeNav.Proofs.Workspace.StoreOperations
import CodeNav.Wire.Dispatch

/-! The responses to a request: reports, or none, and then one answer. Only a rebuild and a search
make reports. They count the files from the first to the last, and the failure of a file is told
right before that file is counted. -/
namespace CodeNav
set_option autoImplicit false

namespace Response

/-- Tells how far a request has come; the request is not answered yet. -/
def isReport : Response → Bool
  | indexProgress _ _ | indexFileFailed _ _ | referencesProgress _ _ => true
  | _ => false

def counted? : Response → Option (Nat × Nat)
  | indexProgress completed total | referencesProgress completed total => some (completed, total)
  | _ => none

/-- The answer that belongs to a request. -/
inductive Answers : Request → Response → Prop
  | rebuildIndex (files symbols : Nat) : Answers .rebuildIndex (.indexCompleted files symbols)
  | gotoDefinition (cursor : Cursor) (outcome : GotoOutcome) :
      Answers (.gotoDefinition cursor) (.definition outcome)
  | findReferences (cursor : Cursor) (outcome : ReferencesOutcome) :
      Answers (.findReferences cursor) (.references outcome)
  | showLastReferences (set : Option ReferenceSet) :
      Answers .showLastReferences (.lastReferences set)
  | selectReference (index : Nat) (location : Option Location) :
      Answers (.selectReference index) (.selected location)
  | popReferences (set : Option ReferenceSet) : Answers .popReferences (.lastReferences set)
  | complete (cursor : Cursor) (items : List Completion) :
      Answers (.complete cursor) (.completions items)
  | signatureHelp (cursor : Cursor) (help : Option Signature) :
      Answers (.signatureHelp cursor) (.signature help)
  | shutdown : Answers .shutdown .shuttingDown

/-- An error, or the answer that belongs to the request. -/
def Closes (request : Request) (final : Response) : Prop :=
  (∃ message, final = .failure message) ∨ Answers request final

theorem Closes.not_isReport {request : Request} {final : Response} (h : Closes request final) :
    final.isReport = false := by
  rcases h with ⟨message, rfl⟩ | hanswer
  · rfl
  · cases hanswer <;> rfl

/-- The reports on a request and its answer, in a workspace with the given files. -/
structure Frame (request : Request) (files : List String) (reports : List Response)
    (final : Response) : Prop where
  reporting : ∀ r ∈ reports, r.isReport = true
  closing : Closes request final
  reported : reports ≠ [] → request = .rebuildIndex ∨ ∃ cursor, request = .findReferences cursor
  counting : reports.filterMap counted? = [] ∨
    reports.filterMap counted? = (List.range files.length).map fun i => (i + 1, files.length)
  failing : ∀ k file error, reports[k]? = some (.indexFileFailed file error) →
    ∃ i, files[i]? = some file ∧ reports[k + 1]? = some (.indexProgress (i + 1) files.length)

theorem Frame.alone {request : Request} {final : Response} (files : List String)
    (hclosing : Closes request final) : Frame request files [] final where
  reporting _ hr := absurd hr List.not_mem_nil
  closing := hclosing
  reported hne := absurd rfl hne
  counting := .inl rfl
  failing _ _ _ hk := by simp at hk

def Framed (request : Request) (files : List String) (responses : List Response) : Prop :=
  ∃ reports final, responses = reports ++ [final] ∧ Frame request files reports final

theorem framed_alone {request : Request} {final : Response} (files : List String)
    (hclosing : Closes request final) : Framed request files [final] :=
  ⟨[], final, rfl, .alone files hclosing⟩

/-! ## Reports of a rebuild -/

def failureReport (file : String) : Except StoreError (List Record) → List Response
  | .ok _ => []
  | .error cause => [.indexFileFailed file cause.message]

/-- What is told of the files of a rebuild, given how many came before them. -/
def fileReports (total : Nat) : Nat → List Store.Extraction → List Response
  | _, [] => []
  | before, (file, outcome) :: rest =>
    failureReport file outcome ++ .indexProgress (before + 1) total ::
      fileReports total (before + 1) rest

theorem filterMap_fileEvents (total before : Nat) (xs : List Store.Extraction) :
    (Store.fileEvents total before xs).filterMap ofEvent? = fileReports total before xs := by
  induction xs generalizing before with
  | nil => rfl
  | cons x xs ih =>
    obtain ⟨file, outcome⟩ := x
    have hrest := ih (before + 1)
    cases outcome with
    | ok found =>
      simp [Store.fileEvents, Store.outcomeEvent, fileReports, failureReport, ofEvent?,
        List.filterMap_cons, hrest]
    | error cause =>
      simp [Store.fileEvents, Store.outcomeEvent, fileReports, failureReport, ofEvent?,
        List.filterMap_cons, hrest]

theorem isReport_fileReports (total before : Nat) (xs : List Store.Extraction) :
    ∀ r ∈ fileReports total before xs, r.isReport = true := by
  induction xs generalizing before with
  | nil => exact fun r hr => absurd hr List.not_mem_nil
  | cons x xs ih =>
    obtain ⟨file, outcome⟩ := x
    have hrest := ih (before + 1)
    cases outcome with
    | ok found => simpa [fileReports, failureReport, isReport] using hrest
    | error cause => simpa [fileReports, failureReport, isReport] using hrest

theorem counted_fileReports (total before : Nat) (xs : List Store.Extraction) :
    (fileReports total before xs).filterMap counted? =
      (List.range xs.length).map fun i => (before + i + 1, total) := by
  induction xs generalizing before with
  | nil => rfl
  | cons x xs ih =>
    obtain ⟨file, outcome⟩ := x
    have hshift : (List.range xs.length).map (fun i => (before + 1 + i + 1, total)) =
        (List.range xs.length).map (fun i => (before + (i + 1) + 1, total)) := by
      apply List.map_congr_left
      intro i _
      rw [Prod.mk.injEq]
      omega
    have hrest := (ih (before + 1)).trans hshift
    cases outcome with
    | ok found =>
      simp [fileReports, failureReport, counted?, hrest, List.range_succ_eq_map, Function.comp_def]
    | error cause =>
      simp [fileReports, failureReport, counted?, List.filterMap_cons, hrest,
        List.range_succ_eq_map, Function.comp_def]

theorem failed_fileReports (total before : Nat) (xs : List Store.Extraction) (k : Nat)
    (file error : String)
    (hk : (fileReports total before xs)[k]? = some (.indexFileFailed file error)) :
    ∃ i, (xs.map (·.1))[i]? = some file ∧
      (fileReports total before xs)[k + 1]? = some (.indexProgress (before + i + 1) total) := by
  induction xs generalizing before k with
  | nil => simp [fileReports] at hk
  | cons x xs ih =>
    obtain ⟨name, outcome⟩ := x
    -- A failure among the later files stands before the count of a later file.
    have hlater (j : Nat) (hj : (fileReports total (before + 1) xs)[j]? =
        some (.indexFileFailed file error)) :
        ∃ i, (((name, outcome) :: xs).map (·.1))[i]? = some file ∧
          (fileReports total (before + 1) xs)[j + 1]? =
            some (.indexProgress (before + i + 1) total) := by
      obtain ⟨i, hfile, hnext⟩ := ih (before + 1) j hj
      have hcount : before + 1 + i + 1 = before + (i + 1) + 1 := by omega
      rw [hcount] at hnext
      exact ⟨i + 1, hfile, hnext⟩
    cases outcome with
    | ok found =>
      simp only [fileReports, failureReport, List.nil_append] at hk ⊢
      cases k with
      | zero => simp at hk
      | succ j => exact hlater j hk
    | error cause =>
      simp only [fileReports, failureReport, List.singleton_append] at hk ⊢
      match k with
      | 0 =>
        simp only [List.getElem?_cons_zero, Option.some.injEq, indexFileFailed.injEq] at hk
        exact ⟨0, congrArg some hk.1, rfl⟩
      | 1 => simp at hk
      | j + 2 => exact hlater j hk

theorem Frame.ofFiles {files : List String} {final : Response} (xs : List Store.Extraction)
    (hfiles : xs.map (·.1) = files) (hclosing : Closes .rebuildIndex final) :
    Frame .rebuildIndex files (fileReports files.length 0 xs) final where
  reporting := isReport_fileReports files.length 0 xs
  closing := hclosing
  reported _ := .inl rfl
  counting := by
    have hlen : xs.length = files.length := by rw [← hfiles, List.length_map]
    have hcounted := counted_fileReports files.length 0 xs
    simp only [hlen, Nat.zero_add] at hcounted
    exact .inr hcounted
  failing k file error hk := by
    have hnext := failed_fileReports files.length 0 xs k file error hk
    simp only [hfiles, Nat.zero_add] at hnext
    exact hnext

/-! ## Reports of a search -/

def searchReports (counts : List (Nat × Nat)) : List Response :=
  counts.map fun (completed, total) => .referencesProgress completed total

theorem counted_searchReports (counts : List (Nat × Nat)) :
    (searchReports counts).filterMap counted? = counts := by
  induction counts with
  | nil => rfl
  | cons count counts ih =>
    have hrest : searchReports (count :: counts) =
        .referencesProgress count.1 count.2 :: searchReports counts := rfl
    simp [hrest, counted?, ih]

theorem Frame.ofSearch {cursor : Cursor} {files : List String} {final : Response}
    (counts : List (Nat × Nat)) (hcounts : counts = [] ∨ counts = CallSearch.progress files.length)
    (hclosing : Closes (.findReferences cursor) final) :
    Frame (.findReferences cursor) files (searchReports counts) final where
  reporting r hr := by
    obtain ⟨count, -, rfl⟩ := List.mem_map.mp hr
    rfl
  closing := hclosing
  reported _ := .inr ⟨cursor, rfl⟩
  counting := by
    rw [counted_searchReports]
    exact hcounts
  failing k file error hk := by
    obtain ⟨count, -, hsame⟩ := List.mem_map.mp (List.mem_of_getElem? hk)
    cases hsame

end Response

namespace Service

open Response

/-! ## Requests -/

theorem onDocument_cases (s : Service) (disk : Disk) (cursor : Cursor)
    (answer : Document → Dispatch) :
    (∃ cause, s.documentOf disk cursor = .error cause ∧
      s.onDocument disk cursor answer = ⟨[.failure cause.message], true, disk, s⟩) ∨
    ∃ doc, s.documentOf disk cursor = .ok doc ∧ s.onDocument disk cursor answer = answer doc := by
  rw [onDocument]
  cases s.documentOf disk cursor with
  | ok doc => exact .inr ⟨doc, rfl, rfl⟩
  | error cause => exact .inl ⟨cause, rfl, rfl⟩

theorem framed_onDocument {request : Request} {files : List String} (s : Service) (disk : Disk)
    (cursor : Cursor) (answer : Document → Dispatch)
    (hanswer : ∀ doc, Framed request files (answer doc).responses) :
    Framed request files (s.onDocument disk cursor answer).responses := by
  rcases s.onDocument_cases disk cursor answer with ⟨cause, -, heq⟩ | ⟨doc, -, heq⟩
  · rw [heq]
    exact framed_alone files (.inl ⟨cause.message, rfl⟩)
  · rw [heq]
    exact hanswer doc

theorem framed_rebuild (grammar : Grammar) (s : Service) (disk : Disk) :
    Framed .rebuildIndex (s.admission.discover disk)
      (s.dispatch grammar disk .rebuildIndex).responses := by
  have hevents := s.store.rebuild_events grammar (s.admission.discover disk) ⟨disk, s.table⟩
  simp only [dispatch, rebuild]
  rcases hevents with ⟨hnone, cause, hresult⟩ | ⟨cleared, hall⟩
  · rw [hnone, hresult]
    exact framed_alone _ (.inl ⟨_, rfl⟩)
  · have hfiles : (s.store.extractAll grammar cleared (s.admission.discover disk)).map (·.1) =
        s.admission.discover disk := by
      rw [Store.extractAll, List.map_map]
      exact List.map_id _
    generalize s.store.extractAll grammar cleared (s.admission.discover disk) = xs at hfiles hall
    rcases hall with ⟨count, hsome, hresult⟩ | ⟨hsome, cause, hresult⟩
    · rw [hsome, hresult, List.filterMap_append, filterMap_fileEvents]
      refine ⟨_, .indexCompleted (Store.readCount xs) count, ?_,
        .ofFiles xs hfiles (.inr (.rebuildIndex _ _))⟩
      exact List.append_nil _
    · rw [hsome, hresult, filterMap_fileEvents]
      exact ⟨_, _, rfl, .ofFiles xs hfiles (.inl ⟨_, rfl⟩)⟩

theorem framed_findReferences (s : Service) (disk : Disk) (doc : Document) (cursor : Cursor) :
    let found := s.findReferences disk doc cursor.position
    Framed (.findReferences cursor) (s.admission.discover disk)
      (searchReports found.1 ++ [.references found.2.1]) := by
  intro found
  have hsearch : s.Search disk doc cursor.position found :=
    s.search_findReferences disk doc cursor.position
  have hcounts : found.1 = [] ∨
      found.1 = CallSearch.progress (s.admission.discover disk).length := by
    generalize found = result at hsearch
    cases hsearch with
    | noWord | noTarget => exact .inl rfl
    | noMatch | found => exact .inr rfl
  exact ⟨_, _, rfl, .ofSearch found.1 hcounts (.inr (.findReferences cursor found.2.1))⟩

theorem framed_dispatch (grammar : Grammar) (s : Service) (disk : Disk) (request : Request) :
    Framed request (s.admission.discover disk) (s.dispatch grammar disk request).responses := by
  cases request with
  | rebuildIndex => exact s.framed_rebuild grammar disk
  | gotoDefinition cursor =>
    refine s.framed_onDocument disk cursor _ (fun doc => framed_alone _ ?_)
    cases (s.goto grammar disk doc cursor.position).result with
    | ok outcome => exact .inr (.gotoDefinition cursor outcome)
    | error cause => exact .inl ⟨cause.message, rfl⟩
  | findReferences cursor =>
    exact s.framed_onDocument disk cursor _ (fun doc => s.framed_findReferences disk doc cursor)
  | showLastReferences => exact framed_alone _ (.inr (.showLastReferences _))
  | selectReference index => exact framed_alone _ (.inr (.selectReference index _))
  | popReferences => exact framed_alone _ (.inr (.popReferences _))
  | complete cursor =>
    exact s.framed_onDocument disk cursor _ (fun doc => framed_alone _ (.inr (.complete cursor _)))
  | signatureHelp cursor =>
    exact s.framed_onDocument disk cursor _
      (fun doc => framed_alone _ (.inr (.signatureHelp cursor _)))
  | shutdown => exact framed_alone _ (.inr .shutdown)

theorem goOn_onDocument (s : Service) (disk : Disk) (cursor : Cursor)
    (answer : Document → Dispatch) (hanswer : ∀ doc, (answer doc).goOn = true) :
    (s.onDocument disk cursor answer).goOn = true := by
  rcases s.onDocument_cases disk cursor answer with ⟨cause, -, heq⟩ | ⟨doc, -, heq⟩
  · rw [heq]
  · rw [heq]
    exact hanswer doc

theorem goOn_dispatch (grammar : Grammar) (s : Service) (disk : Disk) (request : Request) :
    (s.dispatch grammar disk request).goOn = false ↔ request = .shutdown := by
  cases request with
  | shutdown => exact iff_of_true rfl rfl
  | gotoDefinition cursor | findReferences cursor | complete cursor | signatureHelp cursor =>
    refine iff_of_false ?_ nofun
    rw [Bool.not_eq_false]
    exact s.goOn_onDocument disk cursor _ (fun _ => rfl)
  | rebuildIndex | showLastReferences | selectReference | popReferences =>
    exact iff_of_false nofun nofun

/-- Every request gets one answer, and gets it last: an error, or the answer that belongs to the
request. Before it come reports only, and only for a rebuild or a search; their counts, if there are
any, are those of the files of the workspace from the first to the last, and the report of a failure
stands right before the count of the file that failed. The service stops for no request but one. -/
theorem request_answered_last (grammar : Grammar) (s : Service) (disk : Disk)
    (request : Request) :
    let dispatched := s.dispatch grammar disk request
    let files := s.admission.discover disk
    (∃ reports final, dispatched.responses = reports ++ [final] ∧
      (∀ r ∈ reports, r.isReport = true) ∧ final.isReport = false ∧
      ((∃ message, final = .failure message) ∨ Response.Answers request final) ∧
      (reports ≠ [] → request = .rebuildIndex ∨ ∃ cursor, request = .findReferences cursor) ∧
      (reports.filterMap counted? = [] ∨ reports.filterMap counted? =
        (List.range files.length).map fun i => (i + 1, files.length)) ∧
      ∀ k file error, reports[k]? = some (.indexFileFailed file error) →
        ∃ i, files[i]? = some file ∧
          reports[k + 1]? = some (.indexProgress (i + 1) files.length)) ∧
    (dispatched.goOn = false ↔ request = .shutdown) := by
  intro dispatched files
  obtain ⟨reports, final, hresponses, hframed⟩ := s.framed_dispatch grammar disk request
  refine ⟨⟨reports, final, hresponses, hframed.reporting, hframed.closing.not_isReport,
    hframed.closing, hframed.reported, hframed.counting, hframed.failing⟩, ?_⟩
  exact s.goOn_dispatch grammar disk request

end Service

end CodeNav
