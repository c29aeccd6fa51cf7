import CodeNav.Proofs.Workspace.PathText
import CodeNav.Proofs.Workspace.StoreOperations

/-! What extraction depends on: the content of one file. Removing or writing the index leaves the
extraction of every file alone that is not the index itself; the temporary file that a write goes
through has a name that no file with a dialect has. -/
namespace CodeNav
set_option autoImplicit false
open Text

/-! ## Names without a dialect -/

namespace Dialect

theorem fileName_slash (before last : List Char) :
    fileName (before ++ '/' :: last) = fileName last := by
  rw [fileName, fileName, List.reverse_append, List.reverse_cons, List.append_assoc,
    List.singleton_append, List.takeWhile_append]
  split
  · next hall =>
    rw [List.takeWhile_cons_of_neg (by simp), List.append_nil,
      (List.takeWhile_prefix _).eq_of_length hall]
  · rfl

theorem fileName_append (body ending : List Char)
    (h : ending.all (fun c => c != '/' && c != '\\') = true) :
    fileName (body ++ ending) = fileName body ++ ending := by
  have hall : ∀ c ∈ ending.reverse, (c != '/' && c != '\\') = true :=
    fun c hc => List.all_eq_true.mp h c (List.mem_reverse.mp hc)
  rw [fileName, fileName, List.reverse_append, List.takeWhile_append_of_pos hall,
    List.reverse_append, List.reverse_reverse]

/-- Only the last part of a path says what its dialect is. -/
theorem ofPath_last (file : String) (front : List Path.Part) (last : Path.Part)
    (h : Path.parts file.toList = front ++ [last]) :
    ofPath? file = ofPath? (String.ofList last) := by
  obtain ⟨others, final, hparts, _, hpath⟩ := Path.parts_last file.toList
  have hsame : final = last := by
    rw [h] at hparts
    exact (List.cons.inj (List.append_inj_right' hparts rfl)).1.symm
  subst hsame
  have hname : fileName file.toList = fileName final := by
    rcases hpath with hpath | ⟨before, hpath⟩
    · rw [hpath]
    · rw [hpath, fileName_slash]
  rw [ofPath?, ofPath?, hname, String.toList_ofList]

theorem ofPath_temporary (body : List Char) :
    ofPath? (String.ofList (body ++ '.' :: "index.tmp".toList)) = none := by
  have hname : fileName (body ++ '.' :: "index.tmp".toList) =
      (fileName body ++ ".index".toList) ++ '.' :: "tmp".toList := by
    rw [fileName_append body _ (by decide), List.append_assoc]
    rfl
  have hext : ofExtension? "tmp".toList = none := by decide
  rw [ofPath?, String.toList_ofList, hname, splitLast_append '.' _ _ (by decide)]
  exact hext

theorem ofPath_dots : ∀ last ∈ [[], ['.'], Path.parent], ofPath? (String.ofList last) = none := by
  decide

/-- A path with a dialect ends with a name, and not with that of a temporary file. -/
theorem last_of_ofPath (file : String) (dialect : Dialect) (front : List Path.Part)
    (last : Path.Part) (hd : ofPath? file = some dialect)
    (h : Path.parts file.toList = front ++ [last]) :
    Path.isFiller last = false ∧ last ≠ Path.parent ∧
      ∀ body, last ≠ body ++ '.' :: "index.tmp".toList := by
  rw [ofPath_last file front last h] at hd
  have hdots : last ∉ [[], ['.'], Path.parent] := by
    intro hmem
    rw [ofPath_dots last hmem] at hd
    cases hd
  simp only [List.mem_cons, List.not_mem_nil, or_false, not_or] at hdots
  refine ⟨by simp [Path.isFiller, hdots.1, hdots.2.1], hdots.2.2, ?_⟩
  rintro body rfl
  rw [ofPath_temporary] at hd
  cases hd

end Dialect

namespace Store

/-! ## The temporary file -/

theorem temporaryPath_last (store : Store) :
    store.temporaryPath = store.indexPath ∨
      ∃ front body, Path.parts store.temporaryPath = front ++ [body ++ '.' :: "index.tmp".toList] := by
  rw [temporaryPath, Path.withExtension]
  split
  · exact .inl rfl
  · next name before hparts =>
    split
    · exact .inl rfl
    · refine .inr ⟨before.reverse, Path.stem name, ?_⟩
      have hsub : ∀ part ∈ name :: before, part ∈ Path.parts store.indexPath := by
        intro part hpart
        rw [← hparts] at hpart
        exact List.mem_reverse.mp ((List.dropWhile_sublist _).mem hpart)
      have hfree : ∀ part ∈ name :: before, '/' ∉ part :=
        fun part hpart => mem_splitOn '/' store.indexPath part (hsub part hpart)
      apply Path.parts_joinWith _ (by simp)
      intro part hpart
      rw [List.mem_append, List.mem_reverse, List.mem_singleton] at hpart
      rcases hpart with hpart | rfl
      · exact hfree part (List.mem_cons_of_mem name hpart)
      · rw [List.mem_append, not_or]
        exact ⟨Path.slash_not_mem_stem name (hfree name List.mem_cons_self), by decide⟩

theorem temporaryName_proper (body : List Char) :
    Path.isFiller (body ++ '.' :: "index.tmp".toList) = false ∧
      body ++ '.' :: "index.tmp".toList ≠ Path.parent := by
  have hlength : 10 ≤ (body ++ '.' :: "index.tmp".toList).length := by
    rw [List.length_append]
    exact Nat.le_add_left 10 body.length
  generalize body ++ '.' :: "index.tmp".toList = name at hlength
  constructor
  · rw [Bool.eq_false_iff, Ne, Path.isFiller, Bool.or_eq_true, beq_iff_eq, beq_iff_eq]
    rintro (rfl | rfl) <;> simp at hlength
  · rintro rfl
    simp [Path.parent] at hlength

/-- A file with a dialect is at the place of the temporary file only if that is the index. -/
theorem temporary_ne (store : Store) (disk : Disk) (file : String) (dialect : Dialect)
    (place temporary : Place) (hd : dialect? file = some dialect)
    (hplace : disk.locate (Path.join store.root file.toList) = .ok place)
    (htemporary : disk.locate store.temporaryPath = .ok temporary)
    (hpath : store.temporaryPath ≠ store.indexPath) : place ≠ temporary := by
  rintro rfl
  obtain ⟨front, last, hparts, _, _⟩ := Path.parts_last file.toList
  have hof : Dialect.ofPath? file = some dialect := by
    rw [dialect?] at hd
    split at hd
    · cases hd
    · exact hd
  obtain ⟨hfiller, hparent, hother⟩ := Dialect.last_of_ofPath file dialect front last hof hparts
  obtain ⟨base, hjoin⟩ := Path.parts_join store.root file.toList
  rw [hparts, ← List.append_assoc] at hjoin
  obtain ⟨above, rfl⟩ := Disk.locate_last disk _ _ last place hjoin hfiller hparent hplace
  rcases temporaryPath_last store with hsame | ⟨others, body, hbody⟩
  · exact hpath hsame
  · obtain ⟨hfiller', hparent'⟩ := temporaryName_proper body
    obtain ⟨around, heq⟩ := Disk.locate_last disk _ _ _ _ hbody hfiller' hparent' htemporary
    exact hother body (List.cons.inj (List.append_inj_right' heq rfl)).1

/-! ## The content of a file -/

def content? (store : Store) (disk : Disk) (file : String) : Option Utf8.Bytes :=
  (disk.read (Path.join store.root file.toList)).toOption

/-- Extraction sees the disk through the content of the file only. -/
theorem extracted_eq (grammar : Grammar) (store : Store) (disk : Disk) (file : String) :
    store.extracted grammar disk file =
      ((dialect? file).bind fun dialect => (store.content? disk file).bind fun bytes =>
        (grammar dialect (Utf8.decodeLossy bytes)).map
          ((Source.ofChars (Utf8.decodeLossy bytes)).records file)).getD [] := by
  rw [extracted, extract, content?]
  cases dialect? file with
  | none => rfl
  | some dialect =>
    simp only
    cases disk.read (Path.join store.root file.toList) with
    | error cause => rfl
    | ok bytes =>
      simp only [Except.toOption, Option.bind_some]
      cases grammar dialect (Utf8.decodeLossy bytes) <;> rfl

theorem extracted_of_content (grammar : Grammar) (store : Store) (before after : Disk)
    (file : String) (h : store.content? after file = store.content? before file) :
    store.extracted grammar after file = store.extracted grammar before file := by
  rw [extracted_eq, extracted_eq, h]

theorem content_eq_some (store : Store) (disk : Disk) (file : String) (bytes : Utf8.Bytes) :
    store.content? disk file = some bytes ↔
      disk.read (Path.join store.root file.toList) = .ok bytes := by
  rw [content?]
  cases disk.read (Path.join store.root file.toList) <;> simp [Except.toOption]

/-- A file has the same content if its place has the same entry. -/
theorem content_of_entry (store : Store) (before after : Disk) (file : String)
    (hdirs : Disk.SameDirectories before after)
    (hentry : ∀ place, before.locate (Path.join store.root file.toList) = .ok place →
      after.entry? place = before.entry? place) :
    store.content? after file = store.content? before file := by
  apply Option.ext
  intro bytes
  rw [content_eq_some, content_eq_some, Disk.read_ok_iff, Disk.read_ok_iff]
  constructor
  · rintro ⟨place, hplace, hfile⟩
    have hbefore := (Disk.locate_ok_iff hdirs _ _).mpr hplace
    exact ⟨place, hbefore, hentry place hbefore ▸ hfile⟩
  · rintro ⟨place, hplace, hfile⟩
    exact ⟨place, (Disk.locate_ok_iff hdirs _ _).mp hplace, (hentry place hplace).trans hfile⟩

/-! ## Files apart from the index -/

/-- The file is not the index: the two paths do not lead to one place. -/
def Apart (store : Store) (disk : Disk) (file : String) : Prop :=
  ∀ place, disk.locate (Path.join store.root file.toList) = .ok place →
    disk.locate store.indexPath ≠ .ok place

theorem apart_iff (store : Store) (disk : Disk) (file : String) :
    store.Apart disk file ↔
      (disk.locate (Path.join store.root file.toList)).toOption = none ∨
      (disk.locate (Path.join store.root file.toList)).toOption ≠
        (disk.locate store.indexPath).toOption := by
  rw [Apart]
  cases disk.locate (Path.join store.root file.toList) with
  | error cause => simp [Except.toOption]
  | ok place =>
    cases disk.locate store.indexPath <;> simp [Except.toOption, eq_comm]

instance (store : Store) (disk : Disk) (file : String) : Decidable (store.Apart disk file) :=
  decidable_of_iff _ (apart_iff store disk file).symm

theorem apart_of_same (store : Store) (before after : Disk) (file : String)
    (hdirs : Disk.SameDirectories before after) (h : store.Apart before file) :
    store.Apart after file := by
  intro place hplace hindex
  exact h place ((Disk.locate_ok_iff hdirs _ _).mpr hplace)
    ((Disk.locate_ok_iff hdirs _ _).mpr hindex)

theorem extracted_rewritten (grammar : Grammar) (store : Store) (table : Table)
    (before after : Disk) (temporary index : Place) (file : String)
    (h : store.Rewritten table before after temporary index) (hapart : store.Apart before file) :
    store.extracted grammar after file = store.extracted grammar before file := by
  cases hd : dialect? file with
  | none => rw [extracted, extracted, extract, extract, hd]
  | some dialect =>
    apply extracted_of_content
    apply content_of_entry store before after file h.directories
    intro place hplace
    have hindex : place ≠ index := by
      rintro rfl
      exact hapart place hplace h.index_at
    have htemporary : place ≠ temporary := by
      -- Where the path of the index has no name to extend, the temporary file is the index.
      by_cases hpath : store.temporaryPath = store.indexPath
      · have hsame := h.temporary_at
        rw [hpath, h.index_at] at hsame
        exact Except.ok.inj hsame ▸ hindex
      · exact temporary_ne store before file dialect place temporary hd hplace h.temporary_at hpath
    exact h.others place htemporary hindex

theorem clear_ok (store : Store) (disk cleared : Disk) (h : store.clear disk = .ok cleared) :
    cleared = disk ∨ ∃ index bytes, disk.locate store.indexPath = .ok index ∧
      disk.entry? index = some (.file bytes) ∧ cleared = disk.erase index := by
  rw [clear] at h
  split at h
  · split at h
    · next after hremove =>
      cases h
      obtain ⟨index, bytes, hindex, hfile, rfl⟩ := Disk.remove_ok _ _ _ hremove
      exact .inr ⟨index, bytes, hindex, hfile, rfl⟩
    · cases h
  · cases h
    exact .inl rfl

theorem sameDirectories_clear (store : Store) (disk cleared : Disk)
    (h : store.clear disk = .ok cleared) : Disk.SameDirectories disk cleared := by
  rcases clear_ok store disk cleared h with rfl | ⟨index, bytes, _, hfile, rfl⟩
  · exact Disk.SameDirectories.refl cleared
  · exact Disk.sameDirectories_erase disk index (by rw [hfile]; simp)

theorem extracted_cleared (grammar : Grammar) (store : Store) (disk cleared : Disk)
    (file : String) (h : store.clear disk = .ok cleared) (hapart : store.Apart disk file) :
    store.extracted grammar cleared file = store.extracted grammar disk file := by
  apply extracted_of_content
  apply content_of_entry store disk cleared file (sameDirectories_clear store disk cleared h)
  intro place hplace
  rcases clear_ok store disk cleared h with rfl | ⟨index, bytes, hindex, _, rfl⟩
  · rfl
  · apply Disk.entry_erase_other
    rintro rfl
    exact hapart place hplace hindex

end Store

end CodeNav
