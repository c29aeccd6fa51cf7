import CodeNav.Proofs.Workspace.StoreOperations
import CodeNav.Workspace.Service

/-! The stored index as a snapshot of the table. Whatever the index held when the workspace was
opened, and in whatever order commands and changes of other files follow, loading the index gives
the lines of the table of the service, as long as no removal or write of the index fails and nobody
else touches it. -/
namespace CodeNav
set_option autoImplicit false
open Text

/-- A disk, and a service that is open on it. -/
structure World where
  disk : Disk
  service : Service

namespace World

/-! ## Commands -/

inductive Command where
  | reopen (root : List Char) (settings : Settings)
  | rebuild
  | update (file : String)
  | remove (file : String)
  | event (event : FileEvent)
  | goto (doc : Document) (pos : Position)

def ofStep {α : Type} (step : Step α) : World :=
  ⟨step.disk, step.service⟩

/-- The world after a command, whether it succeeds or fails. A workspace that cannot be opened
again stays open as it was. -/
def after (grammar : Grammar) (w : World) : Command → World
  | .reopen root settings =>
    match Service.openWith w.disk root settings with
    | .ok service => ⟨w.disk, service⟩
    | .error _ => w
  | .rebuild => ofStep (w.service.rebuild grammar w.disk)
  | .update file => ofStep (w.service.updateFile grammar w.disk file)
  | .remove file => ofStep (w.service.removeFile w.disk file)
  | .event event => ofStep (w.service.handleEvent grammar w.disk event)
  | .goto doc pos => ofStep (w.service.goto grammar w.disk doc pos)

/-- What a command has the store do, if anything. -/
def operation? (w : World) : Command → Option Store.Operation
  | .reopen _ _ => none
  | .rebuild => some (.rebuild (w.service.admission.discover w.disk))
  | .update file => some (.update file)
  | .remove file => some (.removeFile file)
  | .event (.changed path) =>
    (w.service.admission.relative? path).bind fun file =>
      if w.service.admission.admits file then some (.update file) else none
  | .event (.removed path) =>
    (w.service.admission.relative? path).map fun file =>
      if w.service.admission.admits file then .removeFile file else .removeDirectory file
  | .goto _ _ =>
    if w.service.table.isEmpty then some (.rebuild (w.service.admission.discover w.disk)) else none

def shelf (w : World) : Shelf :=
  ⟨w.disk, w.service.table⟩

/-- The attempts of a command to remove or to write the index, each with what came of it. -/
def attempts (grammar : Grammar) (w : World) (c : Command) : List (Except StoreError Unit) :=
  match w.operation? c with
  | none => []
  | some op => w.service.store.attempts grammar w.shelf op

/-- The world with another shelf in place of its disk and table. -/
def onShelf (w : World) (shelf : Shelf) : World :=
  ⟨shelf.disk, { w.service with table := shelf.table }⟩

theorem after_changed (grammar : Grammar) (w : World) (path : List Char) :
    w.after grammar (.event (.changed path)) =
      match w.service.admission.relative? path with
      | none => w
      | some file => if w.service.admission.admits file then w.after grammar (.update file) else w := by
  show ofStep (w.service.handleEvent grammar w.disk (.changed path)) = _
  rw [Service.handleEvent]
  cases w.service.admission.relative? path with
  | none => rfl
  | some file => by_cases h : w.service.admission.admits file = true <;> simp only [h] <;> rfl

theorem after_removed (grammar : Grammar) (w : World) (path : List Char) :
    w.after grammar (.event (.removed path)) =
      match w.service.admission.relative? path with
      | none => w
      | some file =>
        if w.service.admission.admits file then w.after grammar (.remove file)
        else w.onShelf (w.service.store.perform grammar w.shelf (.removeDirectory file)) := by
  show ofStep (w.service.handleEvent grammar w.disk (.removed path)) = _
  rw [Service.handleEvent]
  cases w.service.admission.relative? path with
  | none => rfl
  | some file => by_cases h : w.service.admission.admits file = true <;> simp only [h] <;> rfl

theorem after_of_operation (grammar : Grammar) (w : World) (c : Command) (op : Store.Operation)
    (h : w.operation? c = some op) :
    w.after grammar c = w.onShelf (w.service.store.perform grammar w.shelf op) := by
  cases c with
  | reopen root settings => cases h
  | rebuild => cases h; rfl
  | update file => cases h; rfl
  | remove file => cases h; rfl
  | event event =>
    cases event with
    | changed path =>
      rw [operation?] at h
      rw [after_changed]
      cases hr : w.service.admission.relative? path with
      | none => simp [hr] at h
      | some file =>
        rw [hr, Option.bind_some] at h
        by_cases ha : w.service.admission.admits file = true
        · rw [if_pos ha] at h
          cases h
          exact if_pos ha
        · rw [if_neg ha] at h
          cases h
    | removed path =>
      rw [operation?] at h
      rw [after_removed]
      cases hr : w.service.admission.relative? path with
      | none => simp [hr] at h
      | some file =>
        rw [hr, Option.map_some] at h
        by_cases ha : w.service.admission.admits file = true
        · rw [if_pos ha] at h
          cases h
          exact if_pos ha
        · rw [if_neg ha] at h
          cases h
          exact if_neg ha
  | goto doc pos =>
    rw [operation?] at h
    rw [after, Service.goto]
    by_cases he : w.service.table.isEmpty = true
    · rw [if_pos he] at h ⊢
      cases h
      rfl
    · rw [if_neg he] at h
      cases h

theorem after_of_idle (grammar : Grammar) (w : World) (c : Command)
    (h : w.operation? c = none) (hopened : ∀ root settings, c ≠ .reopen root settings) :
    w.after grammar c = w := by
  cases c with
  | reopen root settings => exact absurd rfl (hopened root settings)
  | rebuild => cases h
  | update file => cases h
  | remove file => cases h
  | event event =>
    cases event with
    | changed path =>
      rw [operation?] at h
      rw [after_changed]
      cases hr : w.service.admission.relative? path with
      | none => rfl
      | some file =>
        refine if_neg (fun ha => ?_)
        simp [hr, ha] at h
    | removed path =>
      rw [operation?, Option.map_eq_none_iff] at h
      rw [after_removed, h]
  | goto doc pos =>
    rw [operation?] at h
    rw [after, Service.goto]
    by_cases he : w.service.table.isEmpty = true
    · rw [if_pos he] at h
      cases h
    · rw [if_neg he]
      rfl

/-- A command without a store operation leaves the disk alone; if it opens a workspace, the table
is the one loaded. -/
theorem after_of_no_operation (grammar : Grammar) (w : World) (c : Command)
    (h : w.operation? c = none) :
    w.after grammar c = w ∨ ∃ root settings service,
      Service.openWith w.disk root settings = .ok service ∧
      w.after grammar c = ⟨w.disk, service⟩ := by
  cases c with
  | reopen root settings =>
    rw [after]
    cases ho : Service.openWith w.disk root settings with
    | error cause => exact .inl rfl
    | ok service => exact .inr ⟨root, settings, service, ho, rfl⟩
  | rebuild | update | remove | event | goto => exact .inl (after_of_idle grammar w _ h nofun)

/-! ## Runs -/

/-- The worlds of all runs that start by opening a workspace: commands whose attempts on the index
succeed, and changes of the disk that leave the index as it was. -/
inductive Reachable (grammar : Grammar) : World → Prop where
  | opened (disk : Disk) (root : List Char) (settings : Settings) (service : Service)
      (h : Service.openWith disk root settings = .ok service) : Reachable grammar ⟨disk, service⟩
  | command (w : World) (c : Command) (hw : Reachable grammar w)
      (hok : ∀ attempt ∈ w.attempts grammar c, attempt.isOk = true) :
      Reachable grammar (w.after grammar c)
  | change (w : World) (disk : Disk) (hw : Reachable grammar w)
      (hsame : w.service.store.stored disk = w.service.store.stored w.disk) :
      Reachable grammar ⟨disk, w.service⟩

/-- The table can be written, and the index holds the lines of the table. -/
structure Snapshot (w : World) : Prop where
  commaFree : w.service.table.CommaFree
  loads : ∃ loaded, w.service.store.load w.disk = .ok loaded ∧
    loaded.table.map Record.toLine = w.service.table.map Record.toLine

theorem openWith_ok (disk : Disk) (root : List Char) (settings : Settings) (service : Service)
    (h : Service.openWith disk root settings = .ok service) :
    ∃ loaded, service.store.load disk = .ok loaded ∧ service.table = loaded.table := by
  rw [Service.openWith] at h
  cases hl : (Store.inWorkspace root settings.index.fileName).load disk with
  | error cause => simp [hl] at h
  | ok loaded =>
    simp only [hl, Except.ok.injEq] at h
    subst h
    exact ⟨loaded, hl, rfl⟩

theorem snapshot_opened (disk : Disk) (root : List Char) (settings : Settings) (service : Service)
    (h : Service.openWith disk root settings = .ok service) : Snapshot ⟨disk, service⟩ := by
  obtain ⟨loaded, hload, htable⟩ := openWith_ok disk root settings service h
  have hfree := Store.load_commaFree service.store disk loaded hload
  exact ⟨htable ▸ hfree, loaded, hload, by rw [htable]⟩

/-- After a command that wrote, the index holds the normal form of the table and nothing else. -/
theorem load_after_write (grammar : Grammar) (w : World) (c : Command)
    (hfree : w.service.table.CommaFree)
    (hok : ∀ attempt ∈ w.attempts grammar c, attempt.isOk = true)
    (hsome : w.attempts grammar c ≠ []) :
    (w.after grammar c).service.store.load (w.after grammar c).disk =
      .ok { table := (w.after grammar c).service.table.map Record.normalized, skipped := 0 } := by
  rw [attempts] at hok hsome
  cases hop : w.operation? c with
  | none => simp [hop] at hsome
  | some op =>
    rw [hop] at hok hsome
    rw [after_of_operation grammar w c op hop]
    exact Store.load_perform grammar w.service.store w.shelf op hfree hok hsome

theorem snapshot_of_no_operation (grammar : Grammar) (w : World) (c : Command) (h : w.Snapshot)
    (hop : w.operation? c = none) : (w.after grammar c).Snapshot := by
  rcases after_of_no_operation grammar w c hop with he | ⟨root, settings, service, ho, he⟩
  · rw [he]
    exact h
  · rw [he]
    exact snapshot_opened w.disk root settings service ho

theorem snapshot_after (grammar : Grammar) (w : World) (c : Command) (h : w.Snapshot)
    (hok : ∀ attempt ∈ w.attempts grammar c, attempt.isOk = true) :
    (w.after grammar c).Snapshot := by
  cases hop : w.operation? c with
  | none => exact snapshot_of_no_operation grammar w c h hop
  | some op =>
    have hafter := after_of_operation grammar w c op hop
    by_cases hnone : w.attempts grammar c = []
    · -- A store operation without attempts found nothing to drop.
      have hstay : w.service.store.perform grammar w.shelf op = w.shelf :=
        Store.perform_of_no_attempts grammar _ _ op (by rw [attempts, hop] at hnone; exact hnone)
      rw [hafter, hstay]
      exact h
    · refine ⟨?_, _, load_after_write grammar w c h.commaFree hok hnone,
        LoadedIndex.toLine_map_normalized _⟩
      rw [hafter]
      exact Store.perform_commaFree grammar w.service.store w.shelf op h.commaFree

theorem Reachable.snapshot {grammar : Grammar} {w : World} (h : Reachable grammar w) :
    w.Snapshot := by
  induction h with
  | opened disk root settings service h => exact snapshot_opened disk root settings service h
  | command w c _ hok ih => exact snapshot_after grammar w c ih hok
  | change w disk _ hsame ih =>
    obtain ⟨loaded, hload, hlines⟩ := ih.loads
    exact ⟨ih.commaFree, loaded, by rw [Store.load_of_stored _ _ _ hsame, hload], hlines⟩

/-- A workspace whose index is missing or can be read is opened, whatever the bytes are. -/
theorem openWith_of_stored (disk : Disk) (root : List Char) (settings : Settings)
    (h : ∀ cause, (Store.inWorkspace root settings.index.fileName).stored disk ≠
      some (.error cause)) : ∃ service, Service.openWith disk root settings = .ok service := by
  rw [Service.openWith, Store.load]
  rw [Store.stored] at h
  by_cases hp : disk.isPresent (Store.inWorkspace root settings.index.fileName).indexPath = true
  · rw [if_pos hp] at h ⊢
    cases hr : disk.read (Store.inWorkspace root settings.index.fileName).indexPath with
    | ok bytes => exact ⟨_, rfl⟩
    | error cause => exact absurd (by rw [hr]) (h cause)
  · rw [if_neg hp]
    exact ⟨_, rfl⟩

/-- In every run from every index that can be read, the table stays free of commas in paths and
names, and loading the index gives the lines of the table; after a command that wrote the index, no
line of it is passed over. -/
theorem index_is_snapshot (grammar : Grammar) :
    (∀ disk root settings,
      (∀ cause, (Store.inWorkspace root settings.index.fileName).stored disk ≠
        some (.error cause)) →
      ∃ service, Service.openWith disk root settings = .ok service ∧
        Reachable grammar ⟨disk, service⟩) ∧
    ∀ w : World, Reachable grammar w →
      w.service.table.CommaFree ∧
      (∃ loaded, w.service.store.load w.disk = .ok loaded ∧
        loaded.table.map Record.toLine = w.service.table.map Record.toLine) ∧
      ∀ c, (∀ attempt ∈ w.attempts grammar c, attempt.isOk = true) →
        w.attempts grammar c ≠ [] →
        ∃ loaded, (w.after grammar c).service.store.load (w.after grammar c).disk = .ok loaded ∧
          loaded.skipped = 0 := by
  refine ⟨?_, ?_⟩
  · intro disk root settings h
    obtain ⟨service, hs⟩ := openWith_of_stored disk root settings h
    exact ⟨service, hs, .opened disk root settings service hs⟩
  · intro w h
    refine ⟨h.snapshot.commaFree, h.snapshot.loads, ?_⟩
    intro c hok hsome
    exact ⟨_, load_after_write grammar w c h.snapshot.commaFree hok hsome, rfl⟩

/-- An index with a line that is no record, in a workspace without any other file. -/
def strayDisk : Disk :=
  ⟨[], [(["w".toList], .directory),
    (["w".toList, "symbols.index".toList], .file (Utf8.encode "junk\nb.js,f,1,0,".toList))]⟩

def strayWorld : World :=
  { disk := strayDisk
    service :=
      { settings := {}
        admission := Admission.ofSettings strayDisk "/w".toList {}
        store := Store.inWorkspace "/w".toList "symbols.index"
        table := [{ file := "b.js", name := "f", line := 1 }]
        history := {} } }

/-- An update of a file that does not exist writes the index, and the stray line is gone. -/
theorem index_is_snapshot_of_stray :
    (∀ cause, strayWorld.service.store.stored strayDisk ≠ some (.error cause)) ∧
    Reachable (Grammar.ofSamples []) strayWorld ∧
    (∀ attempt ∈ strayWorld.attempts (Grammar.ofSamples []) (.update "a.js"),
      attempt.isOk = true) ∧
    strayWorld.attempts (Grammar.ofSamples []) (.update "a.js") ≠ [] ∧
    ∃ loaded, (strayWorld.after (Grammar.ofSamples []) (.update "a.js")).service.store.load
        (strayWorld.after (Grammar.ofSamples []) (.update "a.js")).disk = .ok loaded ∧
      loaded.skipped = 0 := by
  have hstored : ∀ cause, strayWorld.service.store.stored strayDisk ≠ some (.error cause) := by
    intro cause h
    cases h
  have hopened : Service.openWith strayDisk "/w".toList {} = .ok strayWorld.service := rfl
  have hreachable : Reachable (Grammar.ofSamples []) strayWorld := by
    obtain ⟨service, hs, hr⟩ :=
      (index_is_snapshot (Grammar.ofSamples [])).1 strayDisk "/w".toList {} hstored
    rw [← Except.ok.inj (hopened.symm.trans hs)] at hr
    exact hr
  have hok : ∀ attempt ∈ strayWorld.attempts (Grammar.ofSamples []) (.update "a.js"),
      attempt.isOk = true := by decide +kernel
  have hsome : strayWorld.attempts (Grammar.ofSamples []) (.update "a.js") ≠ [] := by
    decide +kernel
  exact ⟨hstored, hreachable, hok, hsome,
    ((index_is_snapshot (Grammar.ofSamples [])).2 strayWorld hreachable).2.2 _ hok hsome⟩

end World

end CodeNav
