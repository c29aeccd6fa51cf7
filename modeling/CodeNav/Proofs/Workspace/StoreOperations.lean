import CodeNav.Proofs.Source.Records
import CodeNav.Proofs.Workspace.DiskFrame
import CodeNav.Workspace.Store

/-! The operations of a store as steps of one kind. Each operation leaves a shelf and makes some
attempts at the stored index, to remove it or to write it; an operation whose attempts all succeed
either changed nothing or ended with a write of the table that it leaves. -/
namespace CodeNav
set_option autoImplicit false
open Text

namespace Store

/-! ## The stored index -/

/-- What the path of the index leads to: nothing, or what reading it gives. -/
def stored (store : Store) (disk : Disk) : Option (Except OsError Utf8.Bytes) :=
  if disk.isPresent store.indexPath then some (disk.read store.indexPath) else none

theorem load_of_stored (store : Store) (before after : Disk)
    (h : store.stored after = store.stored before) : store.load after = store.load before := by
  unfold stored at h
  unfold load
  by_cases hb : before.isPresent store.indexPath = true
  · by_cases ha : after.isPresent store.indexPath = true
    · rw [if_pos ha, if_pos hb, Option.some.injEq] at h
      rw [if_pos ha, if_pos hb, h]
    · rw [if_neg ha, if_pos hb] at h
      cases h
  · by_cases ha : after.isPresent store.indexPath = true
    · rw [if_pos ha, if_neg hb] at h
      cases h
    · rw [if_neg ha, if_neg hb]

theorem load_of_read (store : Store) (disk : Disk) (bytes : Utf8.Bytes)
    (h : disk.read store.indexPath = .ok bytes) :
    store.load disk = .ok (LoadedIndex.ofBytes bytes) := by
  obtain ⟨place, hplace, hentry⟩ := (Disk.read_ok_iff _ _ _).mp h
  have hpresent : disk.isPresent store.indexPath = true :=
    (Disk.isPresent_iff _ _).mpr ⟨place, hplace, by rw [hentry]; rfl⟩
  rw [load, if_pos hpresent, h]

/-- `after` is `before` with the index replaced by the lines of a table. Apart from the places of
the index and of the temporary file, nothing differs. -/
structure Rewritten (store : Store) (table : Table) (before after : Disk)
    (temporary index : Place) : Prop where
  temporary_at : before.locate store.temporaryPath = .ok temporary
  index_at : before.locate store.indexPath = .ok index
  directories : Disk.SameDirectories before after
  text : after.entry? index = some (.file (Utf8.encode table.toText))
  others : ∀ place, place ≠ temporary → place ≠ index → after.entry? place = before.entry? place

theorem write_ok (store : Store) (table : Table) (disk : Disk)
    (h : (store.write table disk).1.isOk = true) :
    ∃ written, disk.write store.temporaryPath (Utf8.encode table.toText) = .ok written ∧
      written.rename store.temporaryPath store.indexPath = .ok (store.write table disk).2 := by
  unfold write at h ⊢
  cases hw : disk.write store.temporaryPath (Utf8.encode table.toText) with
  | error cause => simp [hw, Except.isOk, Except.toBool] at h
  | ok written =>
    cases hr : written.rename store.temporaryPath store.indexPath with
    | error cause => simp [hw, hr, Except.isOk, Except.toBool] at h
    | ok renamed => exact ⟨written, rfl, by simp [hr]⟩

theorem write_rewritten (store : Store) (table : Table) (disk : Disk)
    (h : (store.write table disk).1.isOk = true) :
    ∃ temporary index, store.Rewritten table disk (store.write table disk).2 temporary index := by
  obtain ⟨written, hw, hr⟩ := write_ok store table disk h
  obtain ⟨temporary, htemporary, hfile, rfl⟩ := Disk.write_ok _ _ _ _ hw
  obtain ⟨source, target, bytes, hsource, htarget, hbytes, hdir, hafter⟩ := Disk.rename_ok _ _ _ _ hr
  have sput := Disk.sameDirectories_put disk temporary (Utf8.encode table.toText) hfile
  -- The temporary file is found again where it was written.
  have hsame : source = temporary := by
    have := (Disk.locate_ok_iff sput _ _).mp htemporary
    rw [hsource] at this
    exact Except.ok.inj this
  subst hsame
  rw [Disk.entry_put_self disk source _ (Disk.ne_root_of_entry disk source hfile)] at hbytes
  cases hbytes
  have serase := Disk.sameDirectories_erase _ source
    (fun he => hfile ((sput.directory source).mp he))
  have hdir' := fun he => hdir ((serase.directory target).mp he)
  have srename := Disk.sameDirectories_put _ target (Utf8.encode table.toText) hdir'
  rw [hafter]
  refine ⟨source, target, htemporary, (Disk.locate_ok_iff sput _ _).mpr htarget,
    (sput.trans serase).trans srename, ?_, ?_⟩
  · exact Disk.entry_put_self _ target _ (Disk.ne_root_of_entry _ target hdir')
  · intro place hne1 hne2
    rw [Disk.entry_put_other _ _ _ _ hne2, Disk.entry_erase_other _ _ _ hne1,
      Disk.entry_put_other _ _ _ _ hne1]

theorem load_rewritten (store : Store) (table : Table) (before after : Disk)
    (temporary index : Place) (h : store.Rewritten table before after temporary index) :
    store.load after = .ok (LoadedIndex.ofBytes (Utf8.encode table.toText)) := by
  have hlocate := (Disk.locate_ok_iff h.directories _ _).mp h.index_at
  exact load_of_read store after _ ((Disk.read_ok_iff _ _ _).mpr ⟨index, hlocate, h.text⟩)

theorem load_commaFree (store : Store) (disk : Disk) (loaded : LoadedIndex)
    (h : store.load disk = .ok loaded) : loaded.table.CommaFree := by
  rw [load] at h
  split at h
  · split at h
    · cases h
      exact LoadedIndex.readLines_commaFree _
    · cases h
  · cases h
    exact Table.commaFree_nil

/-! ## Extraction -/

theorem extract_ok (grammar : Grammar) (store : Store) (disk : Disk) (file : String)
    (found : List Record) {faults : Faults}
    (h : store.extract grammar disk file faults = .ok found) :
    ∃ dialect bytes tree, dialect? file = some dialect ∧
      disk.read (Path.join store.root file.toList) (faults.read (Path.join store.root file.toList)) =
        .ok bytes ∧
      grammar dialect (Utf8.decodeLossy bytes) = some tree ∧
      found = (Source.ofChars (Utf8.decodeLossy bytes)).records file tree := by
  rw [extract] at h
  split at h
  · cases h
  · next dialect hd =>
    simp only at h
    split at h
    · cases h
    · next bytes hb =>
      split at h
      · cases h
      · next tree htree =>
        cases h
        exact ⟨dialect, bytes, tree, hd, hb, htree, rfl⟩

theorem comma_not_mem_of_dialect (file : String) (dialect : Dialect)
    (h : dialect? file = some dialect) : ',' ∉ file.toList := by
  rw [dialect?] at h
  split at h
  · cases h
  · next hcomma => exact (Source.hasChar_eq_false _ _).mp (Bool.not_eq_true _ ▸ hcomma)

/-- The records that a file has on a disk; none when extraction fails. -/
def extracted (grammar : Grammar) (store : Store) (disk : Disk) (file : String) : List Record :=
  (store.extract grammar disk file).toOption.getD []

theorem extracted_of_ok (grammar : Grammar) (store : Store) (disk : Disk) (file : String)
    (found : List Record) (h : store.extract grammar disk file = .ok found) :
    store.extracted grammar disk file = found := by
  rw [extracted, h]
  rfl

theorem extracted_of_error (grammar : Grammar) (store : Store) (disk : Disk) (file : String)
    (h : (store.extract grammar disk file).isOk = false) :
    store.extracted grammar disk file = [] := by
  rw [extracted]
  cases he : store.extract grammar disk file with
  | ok found =>
    rw [he] at h
    cases h
  | error cause => rfl

theorem extracted_file (grammar : Grammar) (store : Store) (disk : Disk) (file : String) :
    ∀ r ∈ store.extracted grammar disk file, r.file = file := by
  cases he : store.extract grammar disk file with
  | error cause =>
    rw [extracted_of_error grammar store disk file (by rw [he]; rfl)]
    exact fun r hr => absurd hr List.not_mem_nil
  | ok found =>
    rw [extracted_of_ok grammar store disk file found he]
    obtain ⟨dialect, bytes, tree, _, _, _, rfl⟩ := extract_ok grammar store disk file found he
    exact Source.records_file _ file _

theorem extracted_commaFree (grammar : Grammar) (store : Store) (disk : Disk) (file : String) :
    Table.CommaFree (store.extracted grammar disk file) := by
  cases he : store.extract grammar disk file with
  | error cause =>
    rw [extracted_of_error grammar store disk file (by rw [he]; rfl)]
    exact Table.commaFree_nil
  | ok found =>
    rw [extracted_of_ok grammar store disk file found he]
    obtain ⟨dialect, bytes, tree, hd, _, _, rfl⟩ := extract_ok grammar store disk file found he
    exact Source.records_commaFree _ _ _ (comma_not_mem_of_dialect file dialect hd)

theorem allRecords_extractAll (grammar : Grammar) (store : Store) (disk : Disk)
    (files : List String) :
    allRecords (store.extractAll grammar disk files) =
      files.flatMap (store.extracted grammar disk) := by
  rw [allRecords, extractAll, List.flatMap_map]
  rfl

theorem flatMap_commaFree (grammar : Grammar) (store : Store) (disk : Disk) (files : List String) :
    Table.CommaFree (files.flatMap (store.extracted grammar disk)) := by
  intro r hr
  obtain ⟨file, _, hin⟩ := List.mem_flatMap.mp hr
  exact extracted_commaFree grammar store disk file r hin

/-! ## Operations -/

inductive Operation where
  | rebuild (files : List String)
  | update (file : String)
  | removeFile (file : String)
  | removeDirectory (dir : String)
  deriving DecidableEq, Repr

/-- The shelf that an operation leaves, whether it succeeds or fails. -/
def perform (grammar : Grammar) (store : Store) (shelf : Shelf) : Operation → Shelf
  | .rebuild files => (store.rebuild grammar files shelf).shelf
  | .update file => (store.update grammar file shelf).2
  | .removeFile file => (store.removeFile file shelf).2
  | .removeDirectory dir => (store.removeDirectory dir shelf).2

/-- The attempts of an operation to remove or to write the index, each with what came of it. What is
written is the table that the operation leaves. -/
def attempts (grammar : Grammar) (store : Store) (shelf : Shelf) (op : Operation) :
    List (Except StoreError Unit) :=
  let table := (store.perform grammar shelf op).table
  match op with
  | .rebuild _ =>
    match store.clear shelf.disk with
    | .error cause => [.error cause]
    | .ok cleared => [.ok (), (store.write table cleared).1]
  | .update _ | .removeFile _ => [(store.write table shelf.disk).1]
  | .removeDirectory _ =>
    if table.length = shelf.table.length then [] else [(store.write table shelf.disk).1]

/-- A rebuild past the removal of the old index: it goes through all files, and whether the index can
be written decides only between the last event with the count and an error. -/
theorem rebuild_through (grammar : Grammar) (store : Store) (files : List String) (shelf : Shelf)
    (faults : Faults) (cleared : Disk) (h : store.clear shelf.disk faults = .ok cleared) :
    let extractions := store.extractAll grammar cleared files faults
    let records := allRecords extractions
    let written := store.write records cleared faults
    store.rebuild grammar files shelf faults =
      { events := fileEvents files.length 0 extractions ++
          if written.1.isOk then [.done (readCount extractions) records.length] else []
        result := written.1.map fun _ => records.length
        shelf := ⟨written.2, records⟩ } := by
  intro extractions records written
  rw [rebuild, h]
  simp only [keep, written, records, extractions]
  cases (store.write (allRecords (store.extractAll grammar cleared files faults)) cleared
    faults).1 with
  | ok value => rfl
  | error cause =>
    have hnone : fileEvents files.length 0 (store.extractAll grammar cleared files faults) ++ [] =
      _ := List.append_nil _
    exact congrArg (Rebuild.mk · _ _) hnone.symm

theorem rebuild_of_clear (grammar : Grammar) (store : Store) (files : List String) (shelf : Shelf)
    (cleared : Disk) (h : store.clear shelf.disk = .ok cleared) :
    let extractions := store.extractAll grammar cleared files
    let records := files.flatMap (store.extracted grammar cleared)
    let written := store.write records cleared
    store.rebuild grammar files shelf =
      { events := fileEvents files.length 0 extractions ++
          if written.1.isOk then [.done (readCount extractions) records.length] else []
        result := written.1.map fun _ => records.length
        shelf := ⟨written.2, records⟩ } := by
  intro extractions records written
  rw [rebuild_through grammar store files shelf {} cleared h]
  simp only [allRecords_extractAll, extractions, records, written]

theorem rebuild_shelf (grammar : Grammar) (store : Store) (files : List String) (shelf : Shelf)
    (cleared : Disk) (h : store.clear shelf.disk = .ok cleared) :
    (store.rebuild grammar files shelf).shelf =
      ⟨(store.write (files.flatMap (store.extracted grammar cleared)) cleared).2,
        files.flatMap (store.extracted grammar cleared)⟩ := by
  rw [rebuild_of_clear grammar store files shelf cleared h]

theorem rebuild_result (grammar : Grammar) (store : Store) (files : List String) (shelf : Shelf)
    (cleared : Disk) (h : store.clear shelf.disk = .ok cleared) :
    (store.rebuild grammar files shelf).result =
      (store.write (files.flatMap (store.extracted grammar cleared)) cleared).1.map
        fun _ => (files.flatMap (store.extracted grammar cleared)).length := by
  rw [rebuild_of_clear grammar store files shelf cleared h]

/-- A rebuild stops before the first file, or it goes through all files; then the last event tells
the counts, unless the index cannot be written. -/
theorem rebuild_events (grammar : Grammar) (store : Store) (files : List String) (shelf : Shelf) :
    let rebuilt := store.rebuild grammar files shelf
    (rebuilt.events = [] ∧ ∃ cause, rebuilt.result = .error cause) ∨
    ∃ cleared,
      (∃ count, rebuilt.events =
          fileEvents files.length 0 (store.extractAll grammar cleared files) ++
            [.done (readCount (store.extractAll grammar cleared files)) count] ∧
        rebuilt.result = .ok count) ∨
      (rebuilt.events = fileEvents files.length 0 (store.extractAll grammar cleared files) ∧
        ∃ cause, rebuilt.result = .error cause) := by
  intro rebuilt
  cases hclear : store.clear shelf.disk with
  | error cause =>
    have hstop : rebuilt = ⟨[], .error cause, shelf⟩ := by
      show store.rebuild grammar files shelf = _
      rw [rebuild, hclear]
    rw [hstop]
    exact .inl ⟨rfl, cause, rfl⟩
  | ok cleared =>
    refine .inr ⟨cleared, ?_⟩
    have hrebuilt : rebuilt = _ := rebuild_of_clear grammar store files shelf cleared hclear
    rw [hrebuilt]
    cases (store.write (files.flatMap (store.extracted grammar cleared)) cleared).1 with
    | ok value => exact .inl ⟨_, rfl, rfl⟩
    | error cause => exact .inr ⟨List.append_nil _, cause, rfl⟩

/-- An update writes whatever came of the file; only then does it fail for a file that could not be
read. -/
theorem update_through (grammar : Grammar) (store : Store) (file : String) (shelf : Shelf)
    (faults : Faults) :
    let extraction := store.extract grammar shelf.disk file faults
    let records := shelf.table.withoutFile file ++ extraction.toOption.getD []
    let written := store.write records shelf.disk faults
    store.update grammar file shelf faults =
      (written.1.bind fun _ => extraction.map List.length, ⟨written.2, records⟩) := by
  intro extraction records written
  rw [update]
  simp only [keep, written, records, extraction]
  cases store.extract grammar shelf.disk file faults with
  | ok found => rfl
  | error cause =>
    simp only [Except.toOption, Option.getD_none, List.append_nil, Prod.mk.injEq, and_true]
    cases (store.write (shelf.table.withoutFile file) shelf.disk faults).1 <;> rfl

theorem update_shelf (grammar : Grammar) (store : Store) (file : String) (shelf : Shelf) :
    (store.update grammar file shelf).2 =
      ⟨(store.write (shelf.table.withoutFile file ++ store.extracted grammar shelf.disk file)
          shelf.disk).2,
        shelf.table.withoutFile file ++ store.extracted grammar shelf.disk file⟩ := by
  rw [update_through grammar store file shelf {}]
  rfl

theorem removeDirectory_shelf (store : Store) (dir : String) (shelf : Shelf) :
    (store.removeDirectory dir shelf).2.table = shelf.table.withoutDirectory dir := by
  rw [removeDirectory]
  split <;> rfl

theorem removeDirectory_of_zero (store : Store) (dir : String) (shelf : Shelf)
    (h : (store.removeDirectory dir shelf).1 = .ok 0) :
    (store.removeDirectory dir shelf).2 = shelf := by
  rw [removeDirectory] at h ⊢
  split at h
  · next hzero =>
    have hle : (shelf.table.withoutDirectory dir).length ≤ shelf.table.length :=
      List.length_filter_le _ _
    have hsame : shelf.table.withoutDirectory dir = shelf.table :=
      List.filter_eq_self.mpr (List.length_filter_eq_length_iff.mp
        (Nat.le_antisymm hle (Nat.le_of_sub_eq_zero hzero)))
    rw [if_pos hzero, hsame]
  · next hsome =>
    -- What was written counts the records that went, and some did.
    rw [keep] at h
    simp only at h
    cases hwrite : (store.write (shelf.table.withoutDirectory dir) shelf.disk).1 with
    | error cause => simp [hwrite, Except.map] at h
    | ok _ =>
      simp only [hwrite, Except.map, Except.ok.injEq] at h
      exact absurd h hsome

/-- Nothing in an operation brings a comma into a path or a name. -/
theorem perform_commaFree (grammar : Grammar) (store : Store) (shelf : Shelf) (op : Operation)
    (h : shelf.table.CommaFree) : (store.perform grammar shelf op).table.CommaFree := by
  cases op with
  | rebuild files =>
    rw [perform]
    cases hc : store.clear shelf.disk with
    | error cause =>
      rw [rebuild, hc]
      exact h
    | ok cleared =>
      rw [rebuild_shelf grammar store files shelf cleared hc]
      exact flatMap_commaFree grammar store cleared files
  | update file =>
    rw [perform, update_shelf]
    exact Table.commaFree_append _ _ (Table.commaFree_filter _ _ h)
      (extracted_commaFree grammar store shelf.disk file)
  | removeFile file => exact Table.commaFree_filter _ _ h
  | removeDirectory dir =>
    rw [perform, removeDirectory_shelf]
    exact Table.commaFree_filter _ _ h

/-- An operation that attempts nothing changes nothing. -/
theorem perform_of_no_attempts (grammar : Grammar) (store : Store) (shelf : Shelf) (op : Operation)
    (h : store.attempts grammar shelf op = []) : store.perform grammar shelf op = shelf := by
  cases op with
  | rebuild files =>
    rw [attempts] at h
    cases hc : store.clear shelf.disk <;> simp [hc] at h
  | update file => simp [attempts] at h
  | removeFile file => simp [attempts] at h
  | removeDirectory dir =>
    have hlength : (store.perform grammar shelf (.removeDirectory dir)).table.length =
        shelf.table.length := by
      by_cases hl : (store.perform grammar shelf (.removeDirectory dir)).table.length =
          shelf.table.length
      · exact hl
      · simp [attempts, hl] at h
    rw [perform, removeDirectory_shelf] at hlength
    have hsame : shelf.table.withoutDirectory dir = shelf.table :=
      List.filter_eq_self.mpr (List.length_filter_eq_length_iff.mp hlength)
    rw [perform, removeDirectory]
    simp [hsame]

/-- An operation whose attempts all succeed, if it makes any, leaves the disk that its last one
made: a write of the table that it leaves. -/
theorem perform_of_attempts (grammar : Grammar) (store : Store) (shelf : Shelf) (op : Operation)
    (hok : ∀ attempt ∈ store.attempts grammar shelf op, attempt.isOk = true)
    (hsome : store.attempts grammar shelf op ≠ []) :
    ∃ disk, (store.write (store.perform grammar shelf op).table disk).1.isOk = true ∧
      (store.perform grammar shelf op).disk =
        (store.write (store.perform grammar shelf op).table disk).2 := by
  cases op with
  | rebuild files =>
    rw [attempts] at hok
    cases hc : store.clear shelf.disk with
    | error cause =>
      simp only [hc, List.mem_singleton, forall_eq] at hok
      cases hok
    | ok cleared =>
      simp only [hc, List.mem_cons, List.not_mem_nil, or_false, forall_eq_or_imp, forall_eq] at hok
      refine ⟨cleared, hok.2, ?_⟩
      rw [perform, rebuild_shelf grammar store files shelf cleared hc]
  | update file =>
    refine ⟨shelf.disk, hok _ (List.mem_singleton.mpr rfl), ?_⟩
    rw [perform, update_shelf]
  | removeFile file =>
    exact ⟨shelf.disk, hok _ (List.mem_singleton.mpr rfl), rfl⟩
  | removeDirectory dir =>
    by_cases hl : (store.perform grammar shelf (.removeDirectory dir)).table.length =
        shelf.table.length
    · simp [attempts, hl] at hsome
    · refine ⟨shelf.disk, hok _ (by simp [attempts, hl]), ?_⟩
      rw [perform, removeDirectory_shelf] at hl ⊢
      rw [removeDirectory]
      split
      · next hzero =>
        have hle := List.length_filter_le (fun r => !Table.isUnder dir r) shelf.table
        rw [Table.withoutDirectory] at hl hzero
        omega
      · rfl

/-! ## What is loaded after an operation -/

/-- After an operation that wrote, the index is the table's, with no line to pass over. -/
theorem load_perform (grammar : Grammar) (store : Store) (shelf : Shelf) (op : Operation)
    (hfree : shelf.table.CommaFree)
    (hok : ∀ attempt ∈ store.attempts grammar shelf op, attempt.isOk = true)
    (hsome : store.attempts grammar shelf op ≠ []) :
    store.load (store.perform grammar shelf op).disk =
      .ok { table := (store.perform grammar shelf op).table.map Record.normalized,
            skipped := 0 } := by
  obtain ⟨disk, hwrite, hdisk⟩ := perform_of_attempts grammar store shelf op hok hsome
  obtain ⟨temporary, index, h⟩ := write_rewritten store _ disk hwrite
  rw [hdisk, load_rewritten store _ _ _ _ _ h,
    LoadedIndex.ofBytes_toText _ (perform_commaFree grammar store shelf op hfree)]

end Store

end CodeNav
