import CodeNav.Proofs.Workspace.Extraction

/-! Operations of a store that fail at the index, whatever step fails and however far it got. The
temporary file that a write goes through is never the index itself, so a write that stops on the way
or cannot be moved into place leaves the index as it was, and so does every operation that only
writes. A rebuild removes the index before it writes; if the write fails then, the index is gone. -/
namespace CodeNav
set_option autoImplicit false
open Text

namespace Path

/-! ## Names with an extension -/

theorem endsInName_eq_false (path : List Char) (front fillers : List Part) (part : Part)
    (hparts : parts path = front ++ part :: fillers)
    (hfillers : ∀ part ∈ fillers, isFiller part = true)
    (hpart : isFiller part = true ∨ part = parent) : endsInName path = false := by
  rcases List.eq_nil_or_concat fillers with rfl | ⟨others, last, rfl⟩
  · rw [endsInName_of_parts path front part hparts]
    rcases hpart with hfiller | hparent
    · rw [hfiller]
      rfl
    · rw [hparent]
      decide
  · rw [List.concat_eq_append] at hparts hfillers
    rw [endsInName_of_parts path (front ++ part :: others) last (by simpa using hparts),
      hfillers last (by simp)]
    rfl

/-- A path is extended at its last name; the text behind that name is left out. A path without a
name at its end may have none to extend. -/
theorem withExtension_cases (path extension : List Char) :
    (withExtension path extension = path ∧ endsInName path = false) ∨
      ∃ front name fillers, parts path = front ++ name :: fillers ∧
        (∀ part ∈ fillers, isFiller part = true) ∧ isFiller name = false ∧ name ≠ parent ∧
        withExtension path extension = joinWith '/' (front ++ [stem name ++ '.' :: extension]) := by
  have hcut := @List.takeWhile_append_dropWhile _ isFiller (parts path).reverse
  have htaken := @List.all_takeWhile _ isFiller (parts path).reverse
  rw [List.all_eq_true] at htaken
  rw [withExtension]
  split
  · next hnames =>
    obtain ⟨front, last, hparts, -, -⟩ := parts_last path
    rw [hnames, List.append_nil] at hcut
    have hlast := htaken last (by rw [hcut, hparts]; simp)
    exact .inl ⟨rfl, endsInName_eq_false path front [] last hparts (by simp) (.inl hlast)⟩
  · next name before hnames =>
    rw [hnames] at hcut
    have hback : parts path = before.reverse ++
        name :: ((parts path).reverse.takeWhile isFiller).reverse := by
      have hback := congrArg List.reverse hcut
      rw [List.reverse_append, List.reverse_cons, List.reverse_reverse, List.append_assoc,
        List.singleton_append] at hback
      exact hback.symm
    have hfillers : ∀ part ∈ ((parts path).reverse.takeWhile isFiller).reverse,
        isFiller part = true := fun part hpart => htaken part (List.mem_reverse.mp hpart)
    split
    · next hparent =>
      exact .inl ⟨rfl, endsInName_eq_false path _ _ name hback hfillers (.inr hparent)⟩
    · next hparent =>
      refine .inr ⟨before.reverse, name, _, hback, hfillers, ?_, hparent, rfl⟩
      have hhead := List.head?_dropWhile_not isFiller (parts path).reverse
      rw [hnames] at hhead
      simpa using hhead

/-- The extension of the temporary file holds a dot, and what follows the last dot of a name holds
none. -/
theorem extended_stem_ne (name : Part) : stem name ++ '.' :: "index.tmp".toList ≠ name := by
  intro hsame
  rw [stem] at hsame
  split at hsame
  · next before after hsplit =>
    split at hsame
    · exact absurd (congrArg List.length hsame) (by simp)
    · have hlast : splitLast? '.' name = some (before ++ ".index".toList, "tmp".toList) := by
        rw [← hsame]
        have := splitLast_append '.' (before ++ ".index".toList) "tmp".toList (by decide)
        rwa [List.append_assoc] at this
      rw [hsplit, Option.some.injEq, Prod.mk.injEq] at hlast
      exact absurd (congrArg List.length hlast.1) (by simp)
  · exact absurd (congrArg List.length hsame) (by simp)

end Path

namespace Disk

/-- Behind its last name a path may have fillers; it still leads to a place of that name. -/
theorem locate_name (disk : Disk) (path : List Char) (front fillers : List Path.Part)
    (name : Path.Part) (place : Place) (hparts : Path.parts path = front ++ name :: fillers)
    (hfillers : ∀ part ∈ fillers, Path.isFiller part = true)
    (hname : Path.isFiller name = false) (hparent : name ≠ Path.parent)
    (h : disk.locate path = .ok place) : ∃ above, place = above ++ [name] := by
  obtain ⟨-, -, hfollow⟩ := (locate_iff_follow disk path place).mp h
  rw [hparts, ← List.singleton_append, ← List.append_assoc] at hfollow
  obtain ⟨middle, hmiddle, hrest⟩ := follow_append_ok disk _ fillers _ place hfollow
  rw [follow_fillers disk fillers middle place hfillers hrest]
  exact follow_last disk front name _ middle hname hparent hmiddle

end Disk

namespace Store

/-! ## Writes that fail -/

/-- The place of a temporary file that can be written is not that of the index. -/
theorem temporary_ne_index (store : Store) (disk : Disk) (temporary index : Place)
    (htemporary : disk.locate store.temporaryPath = .ok temporary)
    (hindex : disk.locate store.indexPath = .ok index)
    (hname : Path.endsInName store.temporaryPath = true) : temporary ≠ index := by
  rcases Path.withExtension_cases store.indexPath "index.tmp".toList with
    ⟨hsame, hnone⟩ | ⟨front, name, fillers, hparts, hfillers, hname, hparent, hextended⟩
  · rw [temporaryPath, hsame, hnone] at hname
    cases hname
  have hslash : ∀ part ∈ front ++ name :: fillers, '/' ∉ part := fun part hpart =>
    mem_splitOn '/' store.indexPath part (by rw [← Path.parts, hparts]; exact hpart)
  have hlast : Path.parts store.temporaryPath =
      front ++ (Path.stem name ++ '.' :: "index.tmp".toList) :: [] := by
    rw [temporaryPath, hextended]
    refine Path.parts_joinWith _ (by simp) (fun part hpart => ?_)
    rcases List.mem_append.mp hpart with hpart | hpart
    · exact hslash part (List.mem_append_left _ hpart)
    · rw [List.mem_singleton.mp hpart, List.mem_append, not_or]
      exact ⟨Path.slash_not_mem_stem name (hslash name (by simp)), by decide⟩
  obtain ⟨hproper, hup⟩ := temporaryName_proper (Path.stem name)
  obtain ⟨above, rfl⟩ := Disk.locate_name disk _ front [] _ temporary hlast (by simp) hproper hup
    htemporary
  obtain ⟨around, rfl⟩ := Disk.locate_name disk _ front fillers name index hparts hfillers hname
    hparent hindex
  intro hsame
  exact Path.extended_stem_ne name (List.cons.inj (List.append_inj_right' hsame rfl)).1

theorem stored_of_entry (store : Store) (before after : Disk)
    (hdirs : Disk.SameDirectories before after)
    (hentry : ∀ index, before.locate store.indexPath = .ok index →
      after.entry? index = before.entry? index) :
    store.stored after = store.stored before := by
  have hlocate := Disk.locate_ok_iff hdirs store.indexPath
  rw [stored, stored, Disk.isPresent, Disk.isPresent, Disk.read, Disk.read]
  cases hb : before.locate store.indexPath with
  | ok index =>
    rw [(hlocate index).mp hb]
    simp only [bind, Except.bind, hentry index hb]
  | error cause =>
    cases ha : after.locate store.indexPath with
    | ok index => exact absurd ((hlocate index).mpr ha) (by rw [hb]; simp)
    | error other => rfl

/-- Whatever stands in the temporary file, the index is the same. -/
theorem stored_of_temporary (store : Store) (disk : Disk) (temporary : Place) (bytes : Utf8.Bytes)
    (htemporary : disk.locate store.temporaryPath = .ok temporary)
    (hfile : disk.entry? temporary ≠ some .directory)
    (hname : Path.endsInName store.temporaryPath = true) :
    store.stored (disk.put temporary (.file bytes)) = store.stored disk :=
  stored_of_entry store disk _ (Disk.sameDirectories_put disk temporary bytes hfile)
    fun index hindex => Disk.entry_put_other disk temporary index _
      (temporary_ne_index store disk temporary index htemporary hindex hname).symm

theorem stored_of_failed_write (store : Store) (table : Table) (disk : Disk) (faults : Faults)
    (h : (store.write table disk faults).1.isOk = false) :
    store.stored (store.write table disk faults).2 = store.stored disk := by
  rw [write] at h ⊢
  cases hw : disk.write store.temporaryPath (Utf8.encode table.toText) faults.write with
  | error failed =>
    rcases Disk.write_error _ _ _ hw with
      hleft | ⟨temporary, count, htemporary, hfile, hname, hleft⟩
    · simp only [hleft]
    · simp only [hleft]
      exact stored_of_temporary store disk temporary _ htemporary hfile hname
  | ok written =>
    obtain ⟨temporary, htemporary, hfile, rfl⟩ := Disk.write_ok _ _ _ _ hw
    have hstored := stored_of_temporary store disk temporary (Utf8.encode table.toText) htemporary
      hfile (Disk.endsInName_of_write_ok _ _ _ _ hw)
    simp only [hw] at h ⊢
    cases hr : Disk.rename (disk.put temporary (.file (Utf8.encode table.toText)))
        store.temporaryPath store.indexPath faults.rename with
    | error cause => exact hstored
    | ok renamed =>
      rw [hr] at h
      cases h

theorem stored_of_failed_keep {α : Type} (store : Store) (shelf : Shelf) (value : α)
    (faults : Faults) (h : (store.keep shelf value faults).1.isOk = false) :
    store.stored (store.keep shelf value faults).2.disk = store.stored shelf.disk := by
  apply stored_of_failed_write store shelf.table shelf.disk faults
  rw [keep] at h
  cases hwrite : (store.write shelf.table shelf.disk faults).1 with
  | error cause => rfl
  | ok _ =>
    simp only [hwrite] at h
    cases h

theorem stored_of_failed_removal (store : Store) (dir : String) (shelf : Shelf) (faults : Faults)
    (h : (store.removeDirectory dir shelf faults).1.isOk = false) :
    store.stored (store.removeDirectory dir shelf faults).2.disk = store.stored shelf.disk := by
  rw [removeDirectory] at h ⊢
  split
  · rfl
  · next hsome =>
    rw [if_neg hsome] at h
    exact stored_of_failed_keep store _ _ faults h

/-! ## A rebuild that fails -/

theorem load_of_missing (store : Store) (disk : Disk) (h : store.stored disk = none) :
    store.load disk = .ok {} := by
  rw [stored] at h
  split at h
  · cases h
  · next habsent => rw [load, if_neg habsent]

/-- Once a rebuild has looked for the index and could remove it, there is none. -/
theorem stored_cleared (store : Store) (disk cleared : Disk) (faults : Faults)
    (hseen : faults.unseen = false) (h : store.clear disk faults = .ok cleared) :
    store.stored cleared = none := by
  rw [clear, hseen, Bool.not_false, Bool.and_true] at h
  rw [stored, if_neg]
  intro hpresent
  split at h
  · split at h
    · next removed hremove =>
      cases h
      obtain ⟨index, bytes, hindex, hfile, rfl⟩ := Disk.remove_ok _ _ _ hremove
      have hdirs := Disk.sameDirectories_erase disk index (by rw [hfile]; simp)
      obtain ⟨place, hplace, hsome⟩ := (Disk.isPresent_iff _ _).mp hpresent
      have hsame := (Disk.locate_ok_iff hdirs _ _).mpr hplace
      rw [hindex, Except.ok.injEq] at hsame
      subst hsame
      have hne := Disk.ne_root_of_entry disk index (by rw [hfile]; simp)
      rw [Disk.entry_erase_self disk index hne] at hsome
      cases hsome
    · cases h
  · next habsent =>
    cases h
    exact habsent hpresent

theorem clear_of_unseen (store : Store) (disk : Disk) (faults : Faults)
    (hunseen : faults.unseen = true) : store.clear disk faults = .ok disk := by
  rw [clear, hunseen, Bool.not_true, Bool.and_false, if_neg Bool.false_ne_true]

theorem stored_of_failed_rebuild (grammar : Grammar) (store : Store) (files : List String)
    (shelf : Shelf) (faults : Faults)
    (h : (store.rebuild grammar files shelf faults).result.isOk = false) :
    store.stored (store.rebuild grammar files shelf faults).shelf.disk =
      if faults.unseen = false ∧ (store.clear shelf.disk faults).isOk = true then none
      else store.stored shelf.disk := by
  cases hclear : store.clear shelf.disk faults with
  | error cause =>
    rw [rebuild, hclear, if_neg fun hcleared => Bool.false_ne_true hcleared.2]
  | ok cleared =>
    rw [rebuild_through grammar store files shelf faults cleared hclear] at h ⊢
    have hwrite : (store.write (allRecords (store.extractAll grammar cleared files faults)) cleared
        faults).1.isOk = false := by
      cases hw : (store.write (allRecords (store.extractAll grammar cleared files faults)) cleared
        faults).1 with
      | error cause => rfl
      | ok _ =>
        simp only [hw] at h
        cases h
    have hstored := stored_of_failed_write store _ cleared faults hwrite
    cases hunseen : faults.unseen with
    | true =>
      rw [clear_of_unseen store shelf.disk faults hunseen] at hclear
      cases hclear
      exact hstored
    | false => exact hstored.trans (stored_cleared store shelf.disk cleared faults hunseen hclear)

/-! ## An update that fails -/

theorem update_failed (grammar : Grammar) (store : Store) (file : String) (shelf : Shelf)
    (faults : Faults) (error : StoreError)
    (h : (store.update grammar file shelf faults).1 = .error error) :
    store.stored (store.update grammar file shelf faults).2.disk = store.stored shelf.disk ∨
      store.extract grammar shelf.disk file faults = .error error := by
  rw [update_through grammar store file shelf faults] at h ⊢
  generalize shelf.table.withoutFile file ++
    (store.extract grammar shelf.disk file faults).toOption.getD [] = records at h ⊢
  cases hwrite : (store.write records shelf.disk faults).1 with
  | error cause =>
    exact .inl (stored_of_failed_write store records shelf.disk faults (by rw [hwrite]; rfl))
  | ok _ =>
    simp only [hwrite] at h
    cases hextract : store.extract grammar shelf.disk file faults with
    | ok found =>
      rw [hextract] at h
      cases h
    | error cause =>
      rw [hextract] at h
      exact .inr (congrArg Except.error (Except.error.inj h))

theorem extract_failed (grammar : Grammar) (store : Store) (disk : Disk) (file : String)
    (faults : Faults) (path : List Char) (cause : OsError)
    (h : store.extract grammar disk file faults = .error (.io path cause)) :
    path = Path.join store.root file.toList ∧ ∃ dialect, dialect? file = some dialect := by
  rw [extract] at h
  cases hdialect : dialect? file with
  | none => simp [hdialect] at h
  | some dialect =>
    simp only [hdialect] at h
    split at h
    · simp only [Except.error.injEq, StoreError.io.injEq] at h
      exact ⟨h.1.symm, dialect, rfl⟩
    · split at h <;> cases h

/-- No file with a dialect has the path of the temporary file, unless that is the index. -/
theorem join_ne_temporaryPath (store : Store) (file : String) (dialect : Dialect)
    (hdialect : dialect? file = some dialect) (hpath : store.temporaryPath ≠ store.indexPath) :
    Path.join store.root file.toList ≠ store.temporaryPath := by
  intro hjoin
  have hof : Dialect.ofPath? file = some dialect := by
    rw [dialect?] at hdialect
    split at hdialect
    · cases hdialect
    · exact hdialect
  obtain ⟨others, last, hparts, -, -⟩ := Path.parts_last file.toList
  obtain ⟨base, hbase⟩ := Path.parts_join store.root file.toList
  obtain ⟨-, -, hother⟩ := Dialect.last_of_ofPath file dialect others last hof hparts
  rcases temporaryPath_last store with hsame | ⟨front, body, hbody⟩
  · exact hpath hsame
  · rw [hjoin, hbody, hparts, ← List.append_assoc] at hbase
    exact hother body (List.cons.inj (List.append_inj_right' hbase rfl)).1.symm

/-! ## All operations -/

/-- The index is what it was, so a workspace that is opened again has the table that it would have
had before. -/
structure Unharmed (store : Store) (before after : Disk) : Prop where
  stored : store.stored after = store.stored before
  load : store.load after = store.load before

theorem unharmed_of_stored (store : Store) (before after : Disk)
    (h : store.stored after = store.stored before) : store.Unharmed before after :=
  ⟨h, load_of_stored store before after h⟩

/-- The error is about the index or the temporary file. -/
def IsAtIndex (store : Store) : StoreError → Prop
  | .io path _ => path = store.indexPath ∨ path = store.temporaryPath
  | .unsupported _ | .unparsed => False

theorem stored_of_failed_update (grammar : Grammar) (store : Store) (file : String) (shelf : Shelf)
    (faults : Faults) (error : StoreError)
    (h : (store.update grammar file shelf faults).1 = .error error) (herror : store.IsAtIndex error)
    (hfile : Path.join store.root file.toList ≠ store.indexPath) :
    store.stored (store.update grammar file shelf faults).2.disk = store.stored shelf.disk := by
  rcases update_failed grammar store file shelf faults error h with hstored | hextract
  · exact hstored
  -- An error of reading the file is not about the index: the file has another path.
  cases error with
  | unsupported other => exact herror.elim
  | unparsed => exact herror.elim
  | io path cause =>
    obtain ⟨rfl, dialect, hdialect⟩ :=
      extract_failed grammar store shelf.disk file faults path cause hextract
    rcases herror with hindex | htemporary
    · exact absurd hindex hfile
    · have hpath : store.temporaryPath ≠ store.indexPath :=
        fun hsame => hfile (htemporary.trans hsame)
      exact absurd htemporary (join_ne_temporaryPath store file dialect hdialect hpath)

/-- Whichever steps fail, an operation that only writes and fails at the index leaves the index
unharmed. A rebuild that does not see the index or cannot remove it does so too; one that fails later
has removed it. -/
theorem failure_keeps_index (grammar : Grammar) (store : Store) (shelf : Shelf) (faults : Faults) :
    (∀ table, (store.write table shelf.disk faults).1.isOk = false →
      store.Unharmed shelf.disk (store.write table shelf.disk faults).2) ∧
    (∀ file error, (store.update grammar file shelf faults).1 = .error error →
      store.IsAtIndex error → Path.join store.root file.toList ≠ store.indexPath →
      store.Unharmed shelf.disk (store.update grammar file shelf faults).2.disk) ∧
    (∀ file, (store.removeFile file shelf faults).1.isOk = false →
      store.Unharmed shelf.disk (store.removeFile file shelf faults).2.disk) ∧
    (∀ dir, (store.removeDirectory dir shelf faults).1.isOk = false →
      store.Unharmed shelf.disk (store.removeDirectory dir shelf faults).2.disk) ∧
    (∀ files, (store.rebuild grammar files shelf faults).result.isOk = false →
      if faults.unseen = false ∧ (store.clear shelf.disk faults).isOk = true then
        store.stored (store.rebuild grammar files shelf faults).shelf.disk = none ∧
          store.load (store.rebuild grammar files shelf faults).shelf.disk = .ok {}
      else store.Unharmed shelf.disk (store.rebuild grammar files shelf faults).shelf.disk) := by
  refine ⟨?_, ?_, ?_, ?_, ?_⟩
  · intro table h
    exact unharmed_of_stored store _ _ (stored_of_failed_write store table shelf.disk faults h)
  · intro file error h herror hfile
    exact unharmed_of_stored store _ _
      (stored_of_failed_update grammar store file shelf faults error h herror hfile)
  · intro file h
    exact unharmed_of_stored store _ _ (stored_of_failed_keep store _ _ faults h)
  · intro dir h
    exact unharmed_of_stored store _ _ (stored_of_failed_removal store dir shelf faults h)
  · intro files h
    have hstored := stored_of_failed_rebuild grammar store files shelf faults h
    split at hstored
    · next hcleared =>
      rw [if_pos hcleared]
      exact ⟨hstored, load_of_missing store _ hstored⟩
    · next hkept =>
      rw [if_neg hkept]
      exact unharmed_of_stored store _ _ hstored

/-! ## Failures on two disks -/

def plainStore : Store :=
  Store.inWorkspace "/w".toList "symbols.index"

def plainShelf : Shelf :=
  { disk := ⟨[], [(["w".toList], .directory),
      (["w".toList, "symbols.index".toList], .file (Utf8.encode "a.js,f,1,0,".toList))]⟩
    table := [{ file := "a.js", name := "f", line := 1 }] }

/-- The device is full after the first bytes of the temporary file. -/
def fullDevice : Faults :=
  { write := some ⟨.other 28 "No space left on device", some 4⟩ }

def lockedIndex : Faults :=
  { remove := some (.other 13 "Permission denied") }

def stuckRename : Faults :=
  { rename := some (.other 13 "Permission denied") }

/-- A write stops on the way, with half a line in the temporary file; an update and a removal cannot
move theirs into place; a rebuild cannot remove the index, or can and then not replace it. -/
theorem failure_keeps_plain_index :
    ((plainStore.write plainShelf.table plainShelf.disk fullDevice).1.isOk = false ∧
      (plainStore.write plainShelf.table plainShelf.disk fullDevice).2.read
        plainStore.temporaryPath = .ok (Utf8.encode "a.js".toList) ∧
      plainStore.Unharmed plainShelf.disk
        (plainStore.write plainShelf.table plainShelf.disk fullDevice).2) ∧
    ((plainStore.update (Grammar.ofSamples []) "b.js" plainShelf stuckRename).1 =
        .error (.io plainStore.indexPath (.other 13 "Permission denied")) ∧
      plainStore.IsAtIndex (.io plainStore.indexPath (.other 13 "Permission denied")) ∧
      Path.join plainStore.root "b.js".toList ≠ plainStore.indexPath ∧
      plainStore.Unharmed plainShelf.disk
        (plainStore.update (Grammar.ofSamples []) "b.js" plainShelf stuckRename).2.disk) ∧
    ((plainStore.removeFile "a.js" plainShelf stuckRename).1.isOk = false ∧
      plainStore.Unharmed plainShelf.disk
        (plainStore.removeFile "a.js" plainShelf stuckRename).2.disk) ∧
    ((plainStore.rebuild (Grammar.ofSamples []) [] plainShelf lockedIndex).result.isOk = false ∧
      plainStore.Unharmed plainShelf.disk
        (plainStore.rebuild (Grammar.ofSamples []) [] plainShelf lockedIndex).shelf.disk) ∧
    (plainStore.rebuild (Grammar.ofSamples []) [] plainShelf stuckRename).result.isOk = false ∧
      plainStore.stored
        (plainStore.rebuild (Grammar.ofSamples []) [] plainShelf stuckRename).shelf.disk = none := by
  have keeps := failure_keeps_index (Grammar.ofSamples []) plainStore plainShelf
  refine ⟨⟨rfl, rfl, ?_⟩, ⟨rfl, .inl rfl, by decide, ?_⟩, ⟨rfl, ?_⟩, ⟨rfl, ?_⟩, rfl, ?_⟩
  · exact (keeps fullDevice).1 _ rfl
  · exact (keeps stuckRename).2.1 _ _ rfl (.inl rfl) (by decide)
  · exact (keeps stuckRename).2.2.1 _ rfl
  · exact (keeps lockedIndex).2.2.2.2 [] rfl
  · exact ((keeps stuckRename).2.2.2.2 [] rfl).1

/-- The name of the temporary file is taken by a directory, so that no write succeeds. -/
def blockedShelf : Shelf :=
  { plainShelf with
    disk := plainShelf.disk.put ["w".toList, "symbols.index.tmp".toList] .directory }

/-- An index that is a script too, and missing. -/
def scriptStore : Store :=
  Store.inWorkspace "/w".toList "a.js"

/-- A rebuild that fails once it has removed the index fails at the index or the temporary file too,
but the index is gone. And an update of a script that is the index fails for want of it, but makes
it. -/
theorem failure_harms_index :
    ((plainStore.rebuild (Grammar.ofSamples []) [] blockedShelf).result =
        .error (.io plainStore.temporaryPath .isDirectory) ∧
      plainStore.stored blockedShelf.disk =
        some (.ok (Utf8.encode "a.js,f,1,0,".toList)) ∧
      plainStore.stored
        (plainStore.rebuild (Grammar.ofSamples []) [] blockedShelf).shelf.disk = none) ∧
    ((plainStore.rebuild (Grammar.ofSamples []) [] plainShelf stuckRename).result =
        .error (.io plainStore.indexPath (.other 13 "Permission denied")) ∧
      plainStore.stored plainShelf.disk = some (.ok (Utf8.encode "a.js,f,1,0,".toList)) ∧
      plainStore.stored
        (plainStore.rebuild (Grammar.ofSamples []) [] plainShelf stuckRename).shelf.disk = none) ∧
    (scriptStore.update (Grammar.ofSamples []) "a.js" blockedShelf).1 =
        .error (.io scriptStore.indexPath .notFound) ∧
      scriptStore.stored blockedShelf.disk = none ∧
      scriptStore.stored
        (scriptStore.update (Grammar.ofSamples []) "a.js" blockedShelf).2.disk = some (.ok []) :=
  ⟨⟨rfl, rfl, rfl⟩, ⟨rfl, rfl, rfl⟩, rfl, rfl, rfl⟩

end Store

end CodeNav
