import CodeNav.Proofs.Text.Pieces
import CodeNav.Workspace.Disk

/-! What the operations on a disk leave alone. Files come and go without any directory changing, so
a path that leads to a place before leads there afterwards; each operation that succeeds is given by
the places that it acts on. -/
namespace CodeNav.Disk
set_option autoImplicit false
open Text

/-! ## Entries after a change -/

theorem entry_root (disk : Disk) : disk.entry? [] = some .directory := rfl

theorem entry_put_self (disk : Disk) (place : Place) (entry : Entry) (h : place ≠ []) :
    entry? (disk.put place entry) place = some entry := by
  unfold entry? put
  simp [h]

theorem entry_put_other (disk : Disk) (place other : Place) (entry : Entry) (h : other ≠ place) :
    entry? (disk.put place entry) other = disk.entry? other := by
  have ho : (other == place) = false := beq_false_of_ne h
  unfold entry? put
  rw [List.lookup_cons, ho, lookup_filter_other h]

theorem entry_erase_self (disk : Disk) (place : Place) (h : place ≠ []) :
    entry? (disk.erase place) place = none := by
  unfold entry? erase
  rw [if_neg h, List.lookup_eq_none_iff]
  intro e he
  have hne : e.1 ≠ place := bne_iff_ne.mp (List.mem_filter.mp he).2
  simpa using Ne.symm hne

theorem entry_erase_other (disk : Disk) (place other : Place) (h : other ≠ place) :
    entry? (disk.erase place) other = disk.entry? other := by
  unfold entry? erase
  rw [lookup_filter_other h]

theorem ne_root_of_entry (disk : Disk) (place : Place) (h : disk.entry? place ≠ some .directory) :
    place ≠ [] := by
  intro he
  exact h (he ▸ disk.entry_root)

/-! ## Directories stay -/

/-- The two disks have the same directories; their files may differ. -/
structure SameDirectories (before after : Disk) : Prop where
  current : after.current = before.current
  directory : ∀ place, after.entry? place = some .directory ↔ before.entry? place = some .directory

namespace SameDirectories

theorem refl (disk : Disk) : SameDirectories disk disk := ⟨rfl, fun _ => Iff.rfl⟩

theorem symm {before after : Disk} (h : SameDirectories before after) :
    SameDirectories after before :=
  ⟨h.current.symm, fun place => (h.directory place).symm⟩

theorem trans {first second third : Disk} (h1 : SameDirectories first second)
    (h2 : SameDirectories second third) : SameDirectories first third :=
  ⟨h2.current.trans h1.current, fun place => (h2.directory place).trans (h1.directory place)⟩

end SameDirectories

theorem sameDirectories_put (disk : Disk) (place : Place) (bytes : Utf8.Bytes)
    (h : disk.entry? place ≠ some .directory) :
    SameDirectories disk (disk.put place (.file bytes)) := by
  refine ⟨rfl, fun other => ?_⟩
  by_cases ho : other = place
  · subst ho
    rw [entry_put_self disk other _ (ne_root_of_entry disk other h)]
    simp [h]
  · rw [entry_put_other disk place other _ ho]

theorem sameDirectories_erase (disk : Disk) (place : Place)
    (h : disk.entry? place ≠ some .directory) : SameDirectories disk (disk.erase place) := by
  refine ⟨rfl, fun other => ?_⟩
  by_cases ho : other = place
  · subst ho
    rw [entry_erase_self disk other (ne_root_of_entry disk other h)]
    simp [h]
  · rw [entry_erase_other disk place other ho]

/-- Only directories are looked at on the way, so the way is the same on both disks. -/
theorem follow_of_same {before after : Disk} (h : SameDirectories before after)
    (parts : List Path.Part) (place found : Place) (hf : before.follow place parts = .ok found) :
    after.follow place parts = .ok found := by
  induction parts generalizing place with
  | nil => exact hf
  | cons part rest ih =>
    rw [follow] at hf ⊢
    cases he : before.entry? place with
    | none => simp [he] at hf
    | some entry =>
      cases entry with
      | file bytes => simp [he] at hf
      | directory =>
        rw [(h.directory place).mpr he]
        rw [he] at hf
        simp only at hf ⊢
        by_cases hfiller : Path.isFiller part = true
        · rw [if_pos hfiller] at hf ⊢
          exact ih place hf
        · rw [if_neg hfiller] at hf ⊢
          by_cases hparent : part = Path.parent
          · rw [if_pos hparent] at hf ⊢
            exact ih place.dropLast hf
          · rw [if_neg hparent] at hf ⊢
            exact ih (place ++ [part]) hf

theorem locate_of_same {before after : Disk} (h : SameDirectories before after)
    (path : List Char) (place : Place) (hl : before.locate path = .ok place) :
    after.locate path = .ok place := by
  rw [locate] at hl ⊢
  rw [h.current]
  by_cases hnull : path.contains (Char.ofNat 0) = true
  · rw [if_pos hnull] at hl
    cases hl
  by_cases hempty : path.isEmpty = true
  · rw [if_neg hnull, if_pos hempty] at hl
    cases hl
  rw [if_neg hnull, if_neg hempty] at hl ⊢
  by_cases habsolute : Path.isAbsolute path = true
  · rw [if_pos habsolute] at hl ⊢
    exact follow_of_same h _ _ _ hl
  · rw [if_neg habsolute] at hl ⊢
    exact follow_of_same h _ _ _ hl

theorem locate_ok_iff {before after : Disk} (h : SameDirectories before after)
    (path : List Char) (place : Place) :
    before.locate path = .ok place ↔ after.locate path = .ok place :=
  ⟨locate_of_same h path place, locate_of_same h.symm path place⟩

/-! ## What an operation did -/

theorem read_ok_iff (disk : Disk) (path : List Char) (bytes : Utf8.Bytes) :
    disk.read path = .ok bytes ↔
      ∃ place, disk.locate path = .ok place ∧ disk.entry? place = some (.file bytes) := by
  rw [read]
  cases hl : disk.locate path with
  | error cause => simp [bind, Except.bind]
  | ok place =>
    simp only [bind, Except.bind, Except.ok.injEq, exists_eq_left']
    cases he : disk.entry? place with
    | none => simp
    | some entry => cases entry <;> simp

theorem isPresent_iff (disk : Disk) (path : List Char) :
    disk.isPresent path = true ↔
      ∃ place, disk.locate path = .ok place ∧ (disk.entry? place).isSome = true := by
  rw [isPresent]
  cases hl : disk.locate path <;> simp

theorem write_ok (disk after : Disk) (path : List Char) (bytes : Utf8.Bytes) {halt : Option Halt}
    (h : disk.write path bytes halt = .ok after) :
    ∃ place, disk.locate path = .ok place ∧ disk.entry? place ≠ some .directory ∧
      after = disk.put place (.file bytes) := by
  rw [write] at h
  cases hl : disk.locate path with
  | error cause =>
    rw [hl] at h
    cases h
  | ok place =>
    simp only [hl] at h
    split at h
    · cases h
    · next hwritable =>
      split at h <;> cases h
      exact ⟨place, rfl, fun hdirectory => hwritable (.inl hdirectory), rfl⟩

theorem endsInName_of_write_ok (disk after : Disk) (path : List Char) (bytes : Utf8.Bytes)
    {halt : Option Halt} (h : disk.write path bytes halt = .ok after) :
    Path.endsInName path = true := by
  rw [write] at h
  split at h
  · cases h
  · split at h
    · cases h
    · next hwritable => exact (Bool.not_eq_false _).mp fun hname => hwritable (.inr hname)

/-- A write that fails leaves the disk as it was, or it leaves the first bytes in a file. -/
theorem write_error (disk : Disk) (path : List Char) (bytes : Utf8.Bytes) {halt : Option Halt}
    {failed : FailedWrite} (h : disk.write path bytes halt = .error failed) :
    failed.left = disk ∨ ∃ place count, disk.locate path = .ok place ∧
      disk.entry? place ≠ some .directory ∧ Path.endsInName path = true ∧
      failed.left = disk.put place (.file (bytes.take count)) := by
  rw [write] at h
  cases hl : disk.locate path with
  | error cause =>
    rw [hl] at h
    cases h
    exact .inl rfl
  | ok place =>
    simp only [hl] at h
    split at h
    · cases h
      exact .inl rfl
    · next hwritable =>
      rw [not_or, Bool.not_eq_false] at hwritable
      split at h <;> cases h
      · exact .inl rfl
      · exact .inr ⟨place, _, rfl, hwritable.1, hwritable.2, rfl⟩

theorem write_of_locate (disk : Disk) (path : List Char) (bytes : Utf8.Bytes) (place : Place)
    (hplace : disk.locate path = .ok place) (hentry : disk.entry? place ≠ some .directory)
    (hname : Path.endsInName path = true) :
    disk.write path bytes = .ok (disk.put place (.file bytes)) := by
  rw [write, hplace]
  exact if_neg (not_or.mpr ⟨hentry, by rw [hname]; exact Bool.noConfusion⟩)

/-- A step with a fault does not succeed. -/
theorem eq_of_elim_ok {α : Type} {fault : Option OsError} {result found : α}
    (h : fault.elim (.ok result) .error = Except.ok found) : found = result := by
  cases fault with
  | none => exact (Except.ok.inj h).symm
  | some cause => cases h

theorem remove_ok (disk after : Disk) (path : List Char) {fault : Option OsError}
    (h : disk.remove path fault = .ok after) :
    ∃ place bytes, disk.locate path = .ok place ∧ disk.entry? place = some (.file bytes) ∧
      after = disk.erase place := by
  rw [remove] at h
  cases hl : disk.locate path with
  | error cause => simp [hl, bind, Except.bind] at h
  | ok place =>
    simp only [hl, bind, Except.bind] at h
    split at h
    · next bytes hf => exact ⟨place, bytes, rfl, hf, eq_of_elim_ok h⟩
    · cases h
    · cases h

theorem rename_ok (disk after : Disk) (old new : List Char) {fault : Option OsError}
    (h : disk.rename old new fault = .ok after) :
    ∃ source target bytes, disk.locate old = .ok source ∧ disk.locate new = .ok target ∧
      disk.entry? source = some (.file bytes) ∧ disk.entry? target ≠ some .directory ∧
      after = (disk.erase source).put target (.file bytes) := by
  rw [rename] at h
  cases hs : disk.locate old with
  | error cause => simp [hs, bind, Except.bind] at h
  | ok source =>
    cases ht : disk.locate (trimEnd (· == '/') new) with
    | error cause => simp [hs, ht, bind, Except.bind] at h
    | ok target =>
      simp only [hs, ht, bind, Except.bind] at h
      split at h
      · next bytes hf =>
        split at h
        · cases h
        · next hslash =>
          have hnew : trimEnd (· == '/') new = new := by
            apply trimEnd_of_last
            intro c hc
            exact beq_false_of_ne (fun he => hslash (he ▸ hc))
          rw [hnew] at ht
          split at h
          · cases h
          · next hdir => exact ⟨source, target, bytes, rfl, ht, hf, hdir, eq_of_elim_ok h⟩
      · cases h
      · cases h

end CodeNav.Disk
