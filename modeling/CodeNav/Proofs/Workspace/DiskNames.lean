import CodeNav.Proofs.Workspace.Discovery

/-! A disk stays a tree. An operation of the store puts files where a path leads, and a path leads
to places of proper names only; so it never makes two entries for one place, nor a name that no
directory can hold. -/
namespace CodeNav
set_option autoImplicit false
open Text

namespace Disk

/-- A well-formed disk on which relative paths, too, start at a place of proper names. -/
structure Regular (disk : Disk) : Prop where
  wellFormed : disk.WellFormed
  current : ∀ name ∈ disk.current, Path.Proper name

/-! ## Entries of a tree -/

theorem WellFormed.mem_entries_iff {disk : Disk} (hdisk : disk.WellFormed) (place : Place)
    (entry : Entry) (hplace : place ≠ []) :
    (place, entry) ∈ disk.entries ↔ disk.entry? place = some entry := by
  rw [ entry?, if_neg hplace, List.lookup_eq_some_iff]
  constructor
  · intro hmem
    obtain ⟨front, rest, hcut⟩ := List.append_of_mem hmem
    refine ⟨front, rest, hcut, fun other hother => ?_⟩
    have hdistinct := hdisk.distinct
    rw [hcut, List.map_append, List.map_cons, List.nodup_append] at hdistinct
    have hne := hdistinct.2.2 other.1 (List.mem_map_of_mem hother) place List.mem_cons_self
    simpa using Ne.symm hne
  · rintro ⟨front, rest, hcut, -⟩
    rw [hcut]
    exact List.mem_append_right front List.mem_cons_self

theorem WellFormed.entry_of_filesBelow {disk : Disk} (hdisk : disk.WellFormed) (path : List Char)
    (place : Place) (names : List Path.Part) (hplace : disk.locate path = .ok place)
    (hnames : names ∈ disk.filesBelow path) :
    ∃ bytes, disk.entry? (place ++ names) = some (.file bytes) := by
  rw [filesBelow_eq, hplace] at hnames
  obtain ⟨⟨spot, entry⟩, hentry, hbelow⟩ := List.mem_filterMap.mp hnames
  obtain ⟨rfl, hne⟩ := fileBelow_eq_some place _ names hbelow
  cases entry with
  | directory => cases hbelow
  | file bytes =>
    refine ⟨bytes, (hdisk.mem_entries_iff _ _ ?_).mp hentry⟩
    exact fun hnil => hne (List.append_eq_nil_iff.mp hnil).2

theorem WellFormed.nodup_entries {disk : Disk} (hdisk : disk.WellFormed) : disk.entries.Nodup :=
  (List.pairwise_map.mp hdisk.distinct).imp fun hne hsame => hne (congrArg Prod.fst hsame)

theorem WellFormed.filter_place {disk : Disk} (hdisk : disk.WellFormed) (place : Place)
    (hplace : place ≠ []) :
    (disk.entries.filter (·.1 == place)).Perm
      ((disk.entry? place).toList.map fun entry => (place, entry)) := by
  apply (List.perm_ext_iff_of_nodup (hdisk.nodup_entries.filter _) ?_).mpr
  · rintro ⟨spot, entry⟩
    rw [List.mem_filter, List.mem_map]
    constructor
    · rintro ⟨hmem, hspot⟩
      obtain rfl : spot = place := beq_iff_eq.mp hspot
      exact ⟨entry, by simpa using (hdisk.mem_entries_iff spot entry hplace).mp hmem, rfl⟩
    · rintro ⟨found, hfound, heq⟩
      obtain ⟨rfl, rfl⟩ := Prod.mk.inj heq
      refine ⟨(hdisk.mem_entries_iff place found hplace).mpr ?_, beq_self_eq_true _⟩
      simpa using hfound
  · cases disk.entry? place <;> simp

/-! ## Where paths lead -/

theorem proper_of_follow (disk : Disk) (parts : List Path.Part) (place found : Place)
    (hparts : ∀ part ∈ parts, '/' ∉ part) (hplace : ∀ name ∈ place, Path.Proper name)
    (h : disk.follow place parts = .ok found) : ∀ name ∈ found, Path.Proper name := by
  induction parts generalizing place with
  | nil =>
    cases h
    exact hplace
  | cons part rest ih =>
    have hrest : ∀ part ∈ rest, '/' ∉ part := fun p hp => hparts p (List.mem_cons_of_mem part hp)
    rw [follow] at h
    split at h
    · cases h
    · cases h
    · by_cases hfiller : Path.isFiller part = true
      · rw [if_pos hfiller] at h
        exact ih place hrest hplace h
      rw [if_neg hfiller] at h
      by_cases hparent : part = Path.parent
      · rw [if_pos hparent] at h
        have hdropped : ∀ name ∈ place.dropLast, Path.Proper name := fun name hname =>
          hplace name ((List.dropLast_sublist place).subset hname)
        exact ih place.dropLast hrest hdropped h
      · rw [if_neg hparent] at h
        have hpart : Path.Proper part :=
          ⟨Bool.eq_false_iff.mpr hfiller, hparent, hparts part List.mem_cons_self⟩
        refine ih (place ++ [part]) hrest ?_ h
        intro name hname
        rcases List.mem_append.mp hname with hname | hname
        · exact hplace name hname
        · exact List.mem_singleton.mp hname ▸ hpart

theorem Regular.proper_of_locate {disk : Disk} (hdisk : disk.Regular) (path : List Char)
    (place : Place) (h : disk.locate path = .ok place) : ∀ name ∈ place, Path.Proper name := by
  have hparts : ∀ part ∈ Path.parts path, '/' ∉ part := fun part hpart =>
    mem_splitOn '/' path part hpart
  rw [locate] at h
  split at h
  · cases h
  split at h
  · cases h
  split at h
  · exact proper_of_follow disk _ [] place hparts (fun _ hname => absurd hname List.not_mem_nil) h
  · exact proper_of_follow disk _ disk.current place hparts hdisk.current h

/-! ## Entries that come and go -/

theorem Regular.erase {disk : Disk} (hdisk : disk.Regular) (place : Place) :
    (disk.erase place).Regular := by
  have hsub : (disk.erase place).entries.Sublist disk.entries := List.filter_sublist
  exact ⟨⟨hdisk.wellFormed.distinct.sublist (hsub.map _),
    fun entry hentry => hdisk.wellFormed.proper entry (hsub.subset hentry)⟩, hdisk.current⟩

theorem Regular.put {disk : Disk} (hdisk : disk.Regular) (place : Place) (entry : Entry)
    (hplace : ∀ name ∈ place, Path.Proper name) : (disk.put place entry).Regular := by
  have herase := hdisk.erase place
  refine ⟨⟨?_, ?_⟩, hdisk.current⟩
  · show (place :: (disk.erase place).entries.map (·.1)).Nodup
    refine List.nodup_cons.mpr ⟨?_, herase.wellFormed.distinct⟩
    intro hmem
    obtain ⟨other, hother, hsame⟩ := List.mem_map.mp hmem
    exact bne_iff_ne.mp (List.mem_filter.mp hother).2 hsame
  · intro other hother
    rcases List.mem_cons.mp hother with rfl | hother
    · exact hplace
    · exact herase.wellFormed.proper other hother

theorem Regular.write {disk after : Disk} (hdisk : disk.Regular) (path : List Char)
    (bytes : Utf8.Bytes) {halt : Option Halt} (h : disk.write path bytes halt = .ok after) :
    after.Regular := by
  obtain ⟨place, hplace, _, rfl⟩ := write_ok disk after path bytes h
  exact hdisk.put place _ (hdisk.proper_of_locate path place hplace)

theorem Regular.failedWrite {disk : Disk} (hdisk : disk.Regular) (path : List Char)
    (bytes : Utf8.Bytes) {halt : Option Halt} {failed : FailedWrite}
    (h : disk.write path bytes halt = .error failed) : failed.left.Regular := by
  rcases write_error disk path bytes h with hleft | ⟨place, count, hplace, _, _, hleft⟩
  · exact hleft ▸ hdisk
  · exact hleft ▸ hdisk.put place _ (hdisk.proper_of_locate path place hplace)

theorem Regular.remove {disk after : Disk} (hdisk : disk.Regular) (path : List Char)
    {fault : Option OsError} (h : disk.remove path fault = .ok after) : after.Regular := by
  obtain ⟨place, _, _, _, rfl⟩ := remove_ok disk after path h
  exact hdisk.erase place

theorem Regular.rename {disk after : Disk} (hdisk : disk.Regular) (old new : List Char)
    {fault : Option OsError} (h : disk.rename old new fault = .ok after) : after.Regular := by
  obtain ⟨source, target, bytes, _, htarget, _, _, rfl⟩ := rename_ok disk after old new h
  exact (hdisk.erase source).put target _ (hdisk.proper_of_locate new target htarget)

end Disk

namespace Store

/-! ## Operations of the store -/

theorem regular_write (store : Store) (table : Table) (disk : Disk) (hdisk : disk.Regular) :
    (store.write table disk).2.Regular := by
  rw [write]
  cases hw : disk.write store.temporaryPath (Utf8.encode table.toText) with
  | error failed => exact hdisk.failedWrite _ _ hw
  | ok written =>
    have hwritten := hdisk.write _ _ hw
    -- A file that cannot be moved into place stays under its temporary name.
    cases hr : written.rename store.temporaryPath store.indexPath with
    | error cause =>
      simp only [hr]
      exact hwritten
    | ok renamed =>
      simp only [hr]
      exact hwritten.rename _ _ hr

theorem regular_clear (store : Store) (disk cleared : Disk) (hdisk : disk.Regular)
    (h : store.clear disk = .ok cleared) : cleared.Regular := by
  rw [clear] at h
  split at h
  · split at h
    · next hremove =>
      cases h
      exact hdisk.remove _ hremove
    · cases h
  · cases h
    exact hdisk

theorem regular_perform (grammar : Grammar) (store : Store) (shelf : Shelf) (op : Operation)
    (hdisk : shelf.disk.Regular) : (store.perform grammar shelf op).disk.Regular := by
  cases op with
  | rebuild files =>
    rw [perform]
    cases hc : store.clear shelf.disk with
    | error cause =>
      rw [rebuild, hc]
      exact hdisk
    | ok cleared =>
      rw [rebuild_shelf grammar store files shelf cleared hc]
      exact store.regular_write _ cleared (store.regular_clear shelf.disk cleared hdisk hc)
  | update file =>
    rw [perform, update_shelf]
    exact store.regular_write _ shelf.disk hdisk
  | removeFile file => exact store.regular_write _ shelf.disk hdisk
  | removeDirectory dir =>
    rw [perform, removeDirectory]
    split
    · exact hdisk
    · exact store.regular_write _ shelf.disk hdisk

end Store

end CodeNav
