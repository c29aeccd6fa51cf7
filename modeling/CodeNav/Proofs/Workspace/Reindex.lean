import CodeNav.Proofs.Workspace.DiskNames
import CodeNav.Proofs.Workspace.FailedOperations
import CodeNav.Proofs.Workspace.ListedPaths

/-! Rebuilding an index again. A rebuild lists a disk that it then changes: it removes the index and
writes it anew, through a temporary file. Neither file has records of its own when the listed files
are read. But a listing shows backslashes as slashes, so an index with a backslash in its name may be
shown under the path of another file, whose records then come twice; a rebuild depends on what was
there before exactly if that happens. -/
namespace CodeNav
set_option autoImplicit false
open Text

/-! ## Disks with the same sources -/

namespace Store

/-- The disks differ in files only, and at most in the index and in the temporary file. -/
structure SameSources (store : Store) (before after : Disk) : Prop where
  directories : Disk.SameDirectories before after
  sources : ∀ place, before.locate store.indexPath ≠ .ok place →
    before.locate store.temporaryPath ≠ .ok place → after.entry? place = before.entry? place

theorem entry_cleared (store : Store) (disk cleared : Disk) (index : Place)
    (h : store.clear disk = .ok cleared) (hindex : disk.locate store.indexPath = .ok index) :
    cleared.entry? index = none ∧
      ∀ place, place ≠ index → cleared.entry? place = disk.entry? place := by
  have hlocate := (Disk.locate_ok_iff (sameDirectories_clear store disk cleared h) _ _).mp hindex
  constructor
  · have hstored := stored_cleared store disk cleared {} rfl h
    cases hentry : cleared.entry? index with
    | none => rfl
    | some entry =>
      have hpresent := (Disk.isPresent_iff cleared store.indexPath).mpr
        ⟨index, hlocate, by rw [hentry]; rfl⟩
      rw [stored, if_pos hpresent] at hstored
      cases hstored
  · intro place hne
    rcases clear_ok store disk cleared h with rfl | ⟨found, bytes, hfound, -, rfl⟩
    · rfl
    · rw [hindex, Except.ok.injEq] at hfound
      exact Disk.entry_erase_other disk found place (hfound ▸ hne)

/-- Once the index is removed, what is extracted from a file is the same on both disks. -/
theorem extracted_of_sources (grammar : Grammar) (store : Store) (before after : Disk)
    (cleared clearedAfter : Disk) (index : Place) (h : store.SameSources before after)
    (hindex : before.locate store.indexPath = .ok index)
    (hbefore : store.clear before = .ok cleared) (hafter : store.clear after = .ok clearedAfter)
    (file : String) :
    store.extracted grammar clearedAfter file = store.extracted grammar cleared file := by
  cases hdialect : dialect? file with
  | none => rw [extracted, extracted, extract, extract, hdialect]
  | some dialect =>
    have hindexAfter := (Disk.locate_ok_iff h.directories _ _).mp hindex
    obtain ⟨hgone, hkept⟩ := entry_cleared store before cleared index hbefore hindex
    obtain ⟨hgoneAfter, hkeptAfter⟩ :=
      entry_cleared store after clearedAfter index hafter hindexAfter
    have hclear := sameDirectories_clear store before cleared hbefore
    have hdirs := (hclear.symm.trans h.directories).trans
      (sameDirectories_clear store after clearedAfter hafter)
    apply extracted_of_content
    apply content_of_entry store cleared clearedAfter file hdirs
    intro place hplace
    by_cases hsame : place = index
    · rw [hsame, hgone, hgoneAfter]
    rw [hkept place hsame, hkeptAfter place hsame]
    apply h.sources place
    · rw [hindex]
      exact fun he => hsame (Except.ok.inj he).symm
    · intro htemporary
      -- A file with a dialect is not the temporary file, unless that is the index.
      by_cases hpath : store.temporaryPath = store.indexPath
      · rw [hpath, hindex] at htemporary
        exact hsame (Except.ok.inj htemporary).symm
      · exact temporary_ne store before file dialect place place hdialect
          ((Disk.locate_ok_iff hclear _ _).mpr hplace) htemporary hpath rfl

/-- An entry that is neither the root nor the index nor the temporary file. -/
def isSource (index temporary : Place) (entry : Place × Entry) : Bool :=
  entry.1 != [] && entry.1 != index && entry.1 != temporary

theorem sources_perm (store : Store) (before after : Disk) (hbefore : before.WellFormed)
    (hafter : after.WellFormed) (h : store.SameSources before after) (index temporary : Place)
    (hindex : before.locate store.indexPath = .ok index)
    (htemporary : before.locate store.temporaryPath = .ok temporary) :
    (after.entries.filter (isSource index temporary)).Perm
      (before.entries.filter (isSource index temporary)) := by
  apply (List.perm_ext_iff_of_nodup (hafter.nodup_entries.filter _)
    (hbefore.nodup_entries.filter _)).mpr
  rintro ⟨place, entry⟩
  rw [List.mem_filter, List.mem_filter, and_congr_left_iff]
  intro hsource
  simp only [isSource, Bool.and_eq_true, bne_iff_ne, ne_eq] at hsource
  obtain ⟨⟨hroot, hnotIndex⟩, hnotTemporary⟩ := hsource
  have hsame := h.sources place (by rw [hindex]; exact fun he => hnotIndex (Except.ok.inj he).symm)
    (by rw [htemporary]; exact fun he => hnotTemporary (Except.ok.inj he).symm)
  rw [hafter.mem_entries_iff place entry hroot, hbefore.mem_entries_iff place entry hroot, hsame]

end Store

/-! ## Rebuilds that succeed -/

namespace Service

/-- What a rebuild that succeeds has found and left. -/
structure Reindexed (grammar : Grammar) (s : Service) (disk cleared : Disk)
    (index temporary : Place) : Prop where
  clear : s.store.clear disk = .ok cleared
  index_at : disk.locate s.store.indexPath = .ok index
  temporary_at : disk.locate s.store.temporaryPath = .ok temporary
  no_directory : disk.entry? index ≠ some .directory
  table : (s.rebuild grammar disk).service.table =
    (s.admission.discover disk).flatMap (s.store.extracted grammar cleared)
  result : (s.rebuild grammar disk).result.2 = .ok (s.rebuild grammar disk).service.table.length
  rewritten : s.store.Rewritten (s.rebuild grammar disk).service.table cleared
    (s.rebuild grammar disk).disk temporary index

theorem reindexed (grammar : Grammar) (s : Service) (disk : Disk)
    (h : (s.rebuild grammar disk).result.2.isOk = true) :
    ∃ cleared index temporary, s.Reindexed grammar disk cleared index temporary := by
  cases hclear : s.store.clear disk with
  | error cause =>
    rw [rebuild, Store.rebuild, hclear] at h
    cases h
  | ok cleared =>
    have hshelf := Store.rebuild_shelf grammar s.store (s.admission.discover disk)
      ⟨disk, s.table⟩ cleared hclear
    have htable : (s.rebuild grammar disk).service.table =
        (s.admission.discover disk).flatMap (s.store.extracted grammar cleared) :=
      congrArg Shelf.table hshelf
    have hdisk : (s.rebuild grammar disk).disk =
        (s.store.write (s.rebuild grammar disk).service.table cleared).2 :=
      htable ▸ congrArg Shelf.disk hshelf
    have hresult : (s.rebuild grammar disk).result.2 =
        ((s.store.write (s.rebuild grammar disk).service.table cleared).1.map fun _ =>
          (s.rebuild grammar disk).service.table.length).mapError ServiceError.index :=
      htable ▸ congrArg (Except.mapError ServiceError.index)
        (Store.rebuild_result grammar s.store _ ⟨disk, s.table⟩ cleared hclear)
    cases hwrite : (s.store.write (s.rebuild grammar disk).service.table cleared).1 with
    | error cause =>
      rw [hresult, hwrite] at h
      cases h
    | ok _ =>
      obtain ⟨temporary, index, hrewritten⟩ :=
        Store.write_rewritten s.store _ cleared (by rw [hwrite]; rfl)
      have hdirs := Store.sameDirectories_clear s.store disk cleared hclear
      refine ⟨cleared, index, temporary, hclear, (Disk.locate_ok_iff hdirs _ _).mpr
        hrewritten.index_at, (Disk.locate_ok_iff hdirs _ _).mpr hrewritten.temporary_at, ?_, htable,
        by rw [hresult, hwrite]; rfl, hdisk ▸ hrewritten⟩
      intro hdirectory
      have hafter := ((hdirs.trans hrewritten.directories).directory index).mpr hdirectory
      rw [hrewritten.text] at hafter
      cases hafter

/-- The records that the index brings into a rebuild: those of the path under which a listing shows
it, read when the index is gone. -/
def borrowed (grammar : Grammar) (s : Service) (disk : Disk) : List Record :=
  match disk.locate s.store.indexPath with
  | .error _ => []
  | .ok index => (s.admission.listedAs? disk (index, .file [])).toList.flatMap
      (s.store.extracted grammar (disk.erase index))

section Reindexed

variable {grammar : Grammar} {s : Service} {disk cleared : Disk} {index temporary : Place}
  (h : s.Reindexed grammar disk cleared index temporary)

include h

theorem Reindexed.index_ne_root : index ≠ [] :=
  Disk.ne_root_of_entry disk index h.no_directory

theorem Reindexed.isPresent_eq :
    disk.isPresent s.store.indexPath = (disk.entry? index).isSome := by
  rw [Disk.isPresent, h.index_at]

theorem Reindexed.borrowed_eq : s.borrowed grammar disk =
    (s.admission.listedAs? disk (index, .file [])).toList.flatMap
      (s.store.extracted grammar cleared) := by
  obtain ⟨hgone, hkept⟩ := Store.entry_cleared s.store disk cleared index h.clear h.index_at
  have hdirs := (Disk.sameDirectories_erase disk index h.no_directory).symm.trans
    (Store.sameDirectories_clear s.store disk cleared h.clear)
  have hsame : s.store.extracted grammar (disk.erase index) = s.store.extracted grammar cleared := by
    funext file
    refine (Store.extracted_of_content grammar s.store _ _ file
      (Store.content_of_entry s.store _ cleared file hdirs fun place _ => ?_)).symm
    by_cases hplace : place = index
    · rw [hplace, hgone, Disk.entry_erase_self disk index h.index_ne_root]
    · rw [hkept place hplace, Disk.entry_erase_other disk index place hplace]
  rw [borrowed, h.index_at]
  simp only [hsame]

-- The root is listed under no path, and the temporary file under one without a dialect.
theorem Reindexed.unlisted (entry : Place × Entry)
    (hsource : Store.isSource index temporary entry = false) (hindex : entry.1 ≠ index) :
    (s.admission.listedAs? disk entry).filter
      (fun file => !(s.store.extracted grammar cleared file).isEmpty) = none := by
  cases hlisted : s.admission.listedAs? disk entry with
  | none => rfl
  | some file =>
    obtain ⟨root, names, -, hplace, hne, -, -⟩ :=
      Admission.listedAs_eq_some s.admission disk entry file hlisted
    have hroot : entry.1 ≠ [] := by
      rw [hplace]
      exact List.append_ne_nil_of_right_ne_nil root hne
    have htemporary : entry.1 = temporary := by
      simpa [Store.isSource, hroot, hindex] using hsource
    have hpath : s.store.temporaryPath ≠ s.store.indexPath := by
      intro hpath
      have hsame := h.temporary_at
      rw [hpath, h.index_at, Except.ok.injEq] at hsame
      exact hindex (htemporary.trans hsame.symm)
    have hdialect := Admission.dialect_of_temporary s.admission s.store disk entry.1 entry.2 file
      hlisted (htemporary ▸ h.temporary_at) hpath
    have hnone : s.store.extracted grammar cleared file = [] := by
      rw [Store.extracted, Store.extract, hdialect]
      rfl
    simp [Option.filter, hnone]

/-- Only sources and, if it is there, the index can be listed under a path with records. -/
theorem Reindexed.listed_perm (hdisk : disk.WellFormed) :
    let hasRecords := fun file => !(s.store.extracted grammar cleared file).isEmpty
    ((disk.entries.filterMap (s.admission.listedAs? disk)).filter hasRecords).Perm
      ((((disk.entries.filter (Store.isSource index temporary)).filterMap
          (s.admission.listedAs? disk)).filter hasRecords) ++
        (if disk.isPresent s.store.indexPath then
          (s.admission.listedAs? disk (index, .file [])).toList.filter hasRecords else [])) := by
  intro hasRecords
  have hcut := (List.filter_append_perm (fun e => e.1 == index) disk.entries).symm.trans
    List.perm_append_comm
  have hlisted := (hcut.filterMap (s.admission.listedAs? disk)).filter hasRecords
  rw [List.filterMap_append, List.filter_append] at hlisted
  refine hlisted.trans (List.Perm.append ?_ ?_)
  · rw [List.filter_filterMap, List.filter_filterMap, List.filterMap_filter, List.filterMap_filter]
    refine List.Perm.of_eq ?_
    congr 1
    funext entry
    by_cases hindex : entry.1 = index
    · simp [Store.isSource, hindex]
    · by_cases hsource : Store.isSource index temporary entry = true
      · simp [hindex, hsource]
      · simp [hindex, hsource, hasRecords,
          h.unlisted entry (Bool.eq_false_iff.mpr hsource) hindex]
  · have hat := ((hdisk.filter_place index h.index_ne_root).filterMap
      (s.admission.listedAs? disk)).filter hasRecords
    refine hat.trans (List.Perm.of_eq ?_)
    rw [h.isPresent_eq]
    cases hentry : disk.entry? index with
    | none => rfl
    | some entry =>
      cases entry with
      | directory => exact absurd hentry h.no_directory
      | file bytes =>
        -- What the file holds does not matter to the listing.
        have hfile : s.admission.listedAs? disk (index, .file bytes) =
            s.admission.listedAs? disk (index, .file []) := rfl
        rw [Option.toList_some, List.map_singleton, List.filterMap_cons, List.filterMap_nil, hfile]
        cases s.admission.listedAs? disk (index, .file []) <;> rfl

/-- The table of a rebuild: the records of the sources, and those that the index brings in. -/
theorem Reindexed.table_perm (hdisk : disk.WellFormed) :
    (s.rebuild grammar disk).service.table.Perm
      (((disk.entries.filter (Store.isSource index temporary)).filterMap
          (s.admission.listedAs? disk)).flatMap (s.store.extracted grammar cleared) ++
        if disk.isPresent s.store.indexPath then s.borrowed grammar disk else []) := by
  have hlisted := (h.listed_perm hdisk).flatMap_right (s.store.extracted grammar cleared)
  rw [List.flatMap_append, flatMap_filter_nonempty, flatMap_filter_nonempty] at hlisted
  rw [h.table, Admission.discover_eq]
  refine (((List.mergeSort_perm _ _).flatMap_right _).trans hlisted).trans (List.Perm.of_eq ?_)
  congr 1
  split
  · rw [flatMap_filter_nonempty, h.borrowed_eq]
  · rfl

end Reindexed

/-- On two disks with the same sources, rebuilds leave the same table exactly if the index is on both
or on none, or brings nothing in. -/
theorem table_eq_iff (grammar : Grammar) (s other : Service) (disk changed : Disk)
    (hdisk : disk.WellFormed) (hchanged : changed.WellFormed)
    (hadmission : other.admission = s.admission) (hstore : other.store = s.store)
    (hsources : s.store.SameSources disk changed)
    (hs : (s.rebuild grammar disk).result.2.isOk = true)
    (hother : (other.rebuild grammar changed).result.2.isOk = true) :
    (other.rebuild grammar changed).service.table = (s.rebuild grammar disk).service.table ↔
      changed.isPresent s.store.indexPath = disk.isPresent s.store.indexPath ∨
        s.borrowed grammar disk = [] := by
  obtain ⟨settings, admission, store, table, history⟩ := other
  simp only at hadmission hstore
  subst hadmission hstore
  obtain ⟨cleared, index, temporary, h⟩ := reindexed grammar s disk hs
  obtain ⟨clearedAfter, indexAfter, temporaryAfter, hafter⟩ := reindexed grammar _ changed hother
  -- Both rebuilds see the index, the temporary file and the sources alike.
  have hindex := hafter.index_at.symm.trans
    ((Disk.locate_ok_iff hsources.directories _ _).mp h.index_at)
  have htemporary := hafter.temporary_at.symm.trans
    ((Disk.locate_ok_iff hsources.directories _ _).mp h.temporary_at)
  cases hindex
  cases htemporary
  have hextracted : s.store.extracted grammar clearedAfter = s.store.extracted grammar cleared :=
    funext (Store.extracted_of_sources grammar s.store disk changed cleared clearedAfter index
      hsources h.index_at h.clear hafter.clear)
  have hlisted := Admission.listedAs_of_same s.admission disk changed hsources.directories
  have hentries := Store.sources_perm s.store disk changed hdisk hchanged hsources index temporary
    h.index_at h.temporary_at
  have hborrowed := hafter.borrowed_eq
  simp only [hextracted, hlisted, ← h.borrowed_eq] at hborrowed
  constructor
  · intro hsame
    have hlength := ((hafter.table_perm hchanged).symm.trans
      (List.Perm.of_eq hsame)).trans (h.table_perm hdisk) |>.length_eq
    have hsourceLength := ((hentries.filterMap (s.admission.listedAs? disk)).flatMap_right
      (s.store.extracted grammar cleared)).length_eq
    simp only [hextracted, hlisted, hborrowed, List.length_append, hsourceLength,
      Nat.add_left_cancel_iff] at hlength
    by_cases hpresence : changed.isPresent s.store.indexPath = disk.isPresent s.store.indexPath
    · exact .inl hpresence
    -- The index is on one disk only, so one of the tables has its records on top of the other's.
    · refine .inr (List.length_eq_zero_iff.mp ?_)
      cases hbefore : disk.isPresent s.store.indexPath with
      | false =>
        have hnow : changed.isPresent s.store.indexPath = true := by
          simpa [hbefore] using hpresence
        simpa [hbefore, hnow] using hlength
      | true =>
        have hnow : changed.isPresent s.store.indexPath = false := by
          simpa [hbefore] using hpresence
        simpa [hbefore, hnow, eq_comm] using hlength
  · intro hcase
    have hperm := (hafter.listed_perm hchanged).trans (List.Perm.append
      ((hentries.filterMap _).filter _) (List.Perm.refl _))
    rw [hafter.table, h.table, Admission.discover_eq, Admission.discover_eq, hextracted]
    apply flatMap_sorted_of_perm
    simp only [hextracted, hlisted] at hperm ⊢
    refine hperm.trans (List.Perm.trans (List.Perm.of_eq ?_) (h.listed_perm hdisk).symm)
    congr 1
    rcases hcase with hpresence | hnone
    · rw [hpresence]
    · have hempty : (s.admission.listedAs? disk (index, .file [])).toList.filter
          (fun file => !(s.store.extracted grammar cleared file).isEmpty) = [] := by
        rw [h.borrowed_eq, List.flatMap_eq_nil_iff] at hnone
        rw [List.filter_eq_nil_iff]
        intro file hfile
        simp [hnone file hfile]
      rw [hempty, ite_self, ite_self]

/-! ## Rebuilding again -/

section Again

variable {grammar : Grammar} {s : Service} {disk cleared : Disk} {index temporary : Place}
  (h : s.Reindexed grammar disk cleared index temporary)

include h

theorem Reindexed.sameSources : s.store.SameSources disk (s.rebuild grammar disk).disk := by
  obtain ⟨-, hkept⟩ := Store.entry_cleared s.store disk cleared index h.clear h.index_at
  refine ⟨(Store.sameDirectories_clear s.store disk cleared h.clear).trans
    h.rewritten.directories, fun place hindex htemporary => ?_⟩
  have hnotIndex : place ≠ index := fun he => hindex (he ▸ h.index_at)
  have hnotTemporary : place ≠ temporary := fun he => htemporary (he ▸ h.temporary_at)
  rw [h.rewritten.others place hnotTemporary hnotIndex, hkept place hnotIndex]

theorem Reindexed.read_index : (s.rebuild grammar disk).disk.read s.store.indexPath =
    .ok (Utf8.encode (s.rebuild grammar disk).service.table.toText) :=
  (Disk.read_ok_iff _ _ _).mpr ⟨index,
    (Disk.locate_ok_iff h.rewritten.directories _ _).mp h.rewritten.index_at, h.rewritten.text⟩

theorem Reindexed.index_present :
    (s.rebuild grammar disk).disk.isPresent s.store.indexPath = true :=
  (Disk.isPresent_iff _ _).mpr ⟨index,
    (Disk.locate_ok_iff h.rewritten.directories _ _).mp h.rewritten.index_at,
    by rw [h.rewritten.text]; rfl⟩

/-- An index whose name has no backslash is listed, if at all, under its own path. -/
theorem Reindexed.borrows_nothing (hdisk : disk.Regular) (fileName : String)
    (hstore : s.store = Store.inWorkspace s.root fileName) (hplain : '\\' ∉ fileName.toList) :
    s.borrowed grammar disk = [] := by
  rw [h.borrowed_eq, List.flatMap_eq_nil_iff]
  intro file hfile
  obtain ⟨root, names, hroot, hindex, hne, -, htext⟩ :=
    Admission.listedAs_eq_some s.admission disk _ file (Option.mem_toList.mp hfile)
  simp only at hindex
  subst hindex
  have hproper : ∀ name ∈ names, Path.Proper name := fun name hname =>
    hdisk.proper_of_locate _ _ h.index_at name (List.mem_append_right root hname)
  have hlocate := h.index_at
  rw [hstore] at hlocate
  have hfree : ∀ name ∈ names, '\\' ∉ name := fun name hname hslash =>
    hplain (mem_of_mem_splitOn '/' '\\' _ name
      (Disk.mem_parts_of_join disk s.root _ root names hroot hlocate name hname) hslash)
  rw [Admission.relativeText_of_plain names hfree] at htext
  have hcontent : s.store.content? cleared file = none := by
    cases hbytes : s.store.content? cleared file with
    | none => rfl
    | some bytes =>
      obtain ⟨place, hplace, hentry⟩ :=
        (Disk.read_ok_iff _ _ _).mp ((Store.content_eq_some _ _ _ _).mp hbytes)
      -- The file is looked for at the place of the index, which is gone.
      have hbefore := (Disk.locate_ok_iff
        (Store.sameDirectories_clear s.store disk cleared h.clear) _ _).mpr hplace
      rw [hstore, htext] at hbefore
      have hfollow := Disk.locate_join disk s.root _ root place
        (by rw [Admission.relativeText, String.toList_ofList]
            exact Path.not_absolute_joinWith names hproper) hroot hbefore
      rw [Admission.parts_relativeText names hne hproper] at hfollow
      rw [Disk.follow_proper disk names root place hproper hfollow,
        (Store.entry_cleared s.store disk cleared _ h.clear h.index_at).1] at hentry
      cases hentry
  rw [Store.extracted_eq, hcontent]
  cases Store.dialect? file <;> rfl

end Again

/-- Two rebuilds in a row leave the same table and the same index, and rebuilds from any two tables
and indexes leave the same table, unless the index comes or goes between them and brings records in.
An index without a backslash in its name brings none in. -/
theorem reindexing_forgets_iff (grammar : Grammar) (s : Service) (disk : Disk) (fileName : String)
    (hdisk : disk.Regular) (hstore : s.store = Store.inWorkspace s.root fileName)
    (hfirst : (s.rebuild grammar disk).result.2.isOk = true) :
    let first := s.rebuild grammar disk
    let second := first.service.rebuild grammar first.disk
    (second.result.2.isOk = true →
      ((second.service.table = first.service.table ∧ second.result.2 = first.result.2 ∧
          ∃ bytes, first.disk.read s.store.indexPath = .ok bytes ∧
            second.disk.read s.store.indexPath = .ok bytes) ↔
        disk.isPresent s.store.indexPath = true ∨ s.borrowed grammar disk = [])) ∧
    (∀ (other : Service) (changed : Disk), other.admission = s.admission → other.store = s.store →
      changed.Regular → s.store.SameSources disk changed →
      (other.rebuild grammar changed).result.2.isOk = true →
      ((other.rebuild grammar changed).service.table = first.service.table ↔
        changed.isPresent s.store.indexPath = disk.isPresent s.store.indexPath ∨
          s.borrowed grammar disk = [])) ∧
    ('\\' ∉ fileName.toList → s.borrowed grammar disk = []) := by
  intro first second
  obtain ⟨cleared, index, temporary, h⟩ := reindexed grammar s disk hfirst
  refine ⟨?_, ?_, h.borrows_nothing hdisk fileName hstore⟩
  · intro hsecond
    have hregular : first.disk.Regular := Store.regular_perform grammar s.store ⟨disk, s.table⟩
      (.rebuild (s.admission.discover disk)) hdisk
    have htable : second.service.table = first.service.table ↔ _ :=
      table_eq_iff grammar s first.service disk first.disk hdisk.wellFormed hregular.wellFormed rfl
        rfl h.sameSources hfirst hsecond
    rw [h.index_present, eq_comm (a := true)] at htable
    rw [← htable]
    refine ⟨fun hall => hall.1, fun hsame => ⟨hsame, ?_, _, h.read_index, ?_⟩⟩
    · obtain ⟨_, _, _, hagain⟩ := reindexed grammar first.service first.disk hsecond
      rw [hagain.result, h.result]
      exact congrArg (fun table => Except.ok (List.length table)) hsame
    · obtain ⟨_, _, _, hagain⟩ := reindexed grammar first.service first.disk hsecond
      have hread : second.disk.read s.store.indexPath =
          .ok (Utf8.encode second.service.table.toText) := hagain.read_index
      rw [hread, hsame]
  · intro other changed hadmission hsame hchanged hsources hother
    exact table_eq_iff grammar s other disk changed hdisk.wellFormed hchanged.wellFormed hadmission
      hsame hsources hfirst hother

/-! ## An index among the scripts -/

/-- A workspace with one script, in a directory. -/
def nestedDisk : Disk :=
  ⟨[], [(["w".toList], .directory), (["w".toList, "x".toList], .directory),
    (["w".toList, "x".toList, "a.js".toList], .file (Utf8.encode "function f() \x7b\x7d".toList))]⟩

def nestedGrammar : Grammar :=
  .ofSamples [⟨.javaScript, "function f() \x7b\x7d".toList,
    .mk ⟨.functionDeclaration, .other, 0, 0, 15⟩ [.mk ⟨.identifier, .name, 0, 9, 10⟩ []]⟩]

/-- The service of that workspace with an index of a given name. -/
def nestedService (index : String) (table : Table) : Service :=
  { settings := {}
    admission := Admission.ofSettings nestedDisk "/w".toList {}
    store := Store.inWorkspace "/w".toList index
    table
    history := {} }

def nestedFirst (index : String) : Step (List IndexEvent × Except ServiceError Nat) :=
  (nestedService index []).rebuild nestedGrammar nestedDisk

def nestedSecond (index : String) : Step (List IndexEvent × Except ServiceError Nat) :=
  (nestedFirst index).service.rebuild nestedGrammar (nestedFirst index).disk

/-- The same workspace with an index `a.js` that is a listed file too. -/
def nestedChanged : Disk :=
  nestedDisk.put ["w".toList, "a.js".toList] (.file (Utf8.encode "junk".toList))

def nestedOther : Service :=
  nestedService "a.js" [{ file := "gone.js", name := "g", line := 1 }]

theorem regular_nestedDisk : nestedDisk.Regular :=
  ⟨⟨by decide +kernel, by decide +kernel⟩, nofun⟩

theorem sameSources_nestedChanged :
    (nestedService "a.js" []).store.SameSources nestedDisk nestedChanged := by
  have hindex : nestedDisk.locate (nestedService "a.js" []).store.indexPath =
      .ok ["w".toList, "a.js".toList] := by rfl
  refine ⟨Disk.sameDirectories_put nestedDisk _ _ (by decide +kernel), fun place hplace _ => ?_⟩
  exact Disk.entry_put_other nestedDisk _ place _ fun he => hplace (he ▸ hindex)

/-- The index is made by the first rebuild and listed by the second; an old index is listed too. -/
theorem reindexing_forgets_nested :
    nestedDisk.Regular ∧
    (nestedService "a.js" []).store =
      Store.inWorkspace (nestedService "a.js" []).root "a.js" ∧
    (nestedFirst "a.js").result.2.isOk = true ∧ (nestedSecond "a.js").result.2.isOk = true ∧
    nestedChanged.Regular ∧
    (nestedService "a.js" []).store.SameSources nestedDisk nestedChanged ∧
    (nestedOther.rebuild nestedGrammar nestedChanged).result.2.isOk = true ∧
    '\\' ∉ "a.js".toList ∧
    (nestedSecond "a.js").service.table = (nestedFirst "a.js").service.table ∧
    (nestedOther.rebuild nestedGrammar nestedChanged).service.table =
      (nestedFirst "a.js").service.table := by
  have hchanged : nestedChanged.Regular := regular_nestedDisk.put _ _ (by decide)
  have hfirst : (nestedFirst "a.js").result.2.isOk = true := by decide +kernel
  have hsecond : (nestedSecond "a.js").result.2.isOk = true := by decide +kernel
  have hother : (nestedOther.rebuild nestedGrammar nestedChanged).result.2.isOk = true := by
    decide +kernel
  have hplain : '\\' ∉ "a.js".toList := by decide
  obtain ⟨hagain, hforgets, hnothing⟩ := reindexing_forgets_iff nestedGrammar
    (nestedService "a.js" []) nestedDisk "a.js" regular_nestedDisk rfl hfirst
  have htable := ((hagain hsecond).mpr (.inr (hnothing hplain))).1
  have hsame := (hforgets nestedOther nestedChanged rfl rfl hchanged sameSources_nestedChanged
    hother).mpr (.inr (hnothing hplain))
  exact ⟨regular_nestedDisk, rfl, hfirst, hsecond, hchanged, sameSources_nestedChanged, hother,
    hplain, htable, hsame⟩

theorem discover_nestedFirst :
    (nestedFirst "x\\a.js").service.admission.discover (nestedFirst "x\\a.js").disk =
      ["x/a.js", "x/a.js"] := by
  have hentries : (nestedFirst "x\\a.js").disk.entries.filterMap
      ((nestedFirst "x\\a.js").service.admission.listedAs? (nestedFirst "x\\a.js").disk) =
        ["x/a.js", "x/a.js"] := by decide +kernel
  rw [Admission.discover_eq, hentries]
  exact List.mergeSort_of_pairwise (by decide)

/-- An index named `x\a.js` is listed as the script `x/a.js` once it is there. -/
theorem reindexing_doubles_nested :
    nestedDisk.Regular ∧
    (nestedService "x\\a.js" []).store =
      Store.inWorkspace (nestedService "x\\a.js" []).root "x\\a.js" ∧
    (nestedFirst "x\\a.js").result.2.toOption = some 1 ∧
    (nestedSecond "x\\a.js").result.2.toOption = some 2 := by
  refine ⟨regular_nestedDisk, rfl, by decide +kernel, ?_⟩
  rw [nestedSecond, rebuild, discover_nestedFirst]
  decide +kernel

end Service

end CodeNav
