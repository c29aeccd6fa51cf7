import CodeNav.Proofs.Workspace.PathText
import CodeNav.Proofs.Workspace.Snapshot

/-! The listing of a workspace against the test of a single path. A listing passes over directories
that are hidden, excluded or ignored; the test of a path looks for hidden and excluded directories
on the way to the file, but asks the ignore rules about the file alone. So the two agree on a file
exactly if it is refused or no directory above it is ignored. -/
namespace CodeNav
set_option autoImplicit false
open Text

namespace Disk

/-! ## Files of a tree -/

/-- What a file system promises of its entries: one for each place, under proper names. -/
structure WellFormed (disk : Disk) : Prop where
  distinct : (disk.entries.map (·.1)).Nodup
  proper : ∀ entry ∈ disk.entries, ∀ name ∈ entry.1, Path.Proper name

/-- A file below a place, by the names on the way from there. -/
def fileBelow? (place : Place) : Place × Entry → Option (List Path.Part)
  | (_, .directory) => none
  | (spot, .file _) =>
    if place.isPrefixOf spot && place.length < spot.length then some (spot.drop place.length)
    else none

theorem filesBelow_eq (disk : Disk) (path : List Char) :
    disk.filesBelow path = match disk.locate path with
      | .error _ => []
      | .ok place => disk.entries.filterMap (fileBelow? place) := by
  rw [filesBelow]
  cases disk.locate path with
  | error cause => rfl
  | ok place =>
    simp only
    congr 1
    funext e
    obtain ⟨spot, entry⟩ := e
    cases entry <;> rfl

theorem fileBelow_eq_some (place : Place) (entry : Place × Entry) (names : List Path.Part)
    (h : fileBelow? place entry = some names) : entry.1 = place ++ names ∧ names ≠ [] := by
  obtain ⟨spot, entry⟩ := entry
  cases entry with
  | directory => cases h
  | file bytes =>
    rw [fileBelow?] at h
    split at h
    · next hunder =>
      rw [Bool.and_eq_true, List.isPrefixOf_iff_prefix, decide_eq_true_eq] at hunder
      obtain ⟨⟨rest, rfl⟩, hlonger⟩ := hunder
      cases h
      rw [List.drop_left]
      refine ⟨rfl, ?_⟩
      rintro rfl
      simp at hlonger
    · cases h

theorem mem_filesBelow (disk : Disk) (path : List Char) (names : List Path.Part)
    (h : names ∈ disk.filesBelow path) :
    names ≠ [] ∧ ∃ place, ∃ entry ∈ disk.entries, entry.1 = place ++ names := by
  rw [filesBelow_eq] at h
  split at h
  · cases h
  · next place _ =>
    obtain ⟨entry, hentry, hbelow⟩ := List.mem_filterMap.mp h
    obtain ⟨hplace, hne⟩ := fileBelow_eq_some place entry names hbelow
    exact ⟨hne, place, entry, hentry, hplace⟩

theorem WellFormed.proper_of_filesBelow {disk : Disk} (hdisk : disk.WellFormed)
    (path : List Char) (names : List Path.Part) (h : names ∈ disk.filesBelow path) :
    ∀ name ∈ names, Path.Proper name := by
  obtain ⟨_, place, entry, hentry, hplace⟩ := mem_filesBelow disk path names h
  intro name hname
  exact hdisk.proper entry hentry name (hplace ▸ List.mem_append_right place hname)

theorem WellFormed.nodup_filesBelow {disk : Disk} (hdisk : disk.WellFormed) (path : List Char) :
    (disk.filesBelow path).Nodup := by
  rw [filesBelow_eq]
  split
  · exact List.nodup_nil
  · next place _ =>
    apply List.Pairwise.filterMap (fileBelow? place) _ (List.pairwise_map.mp hdisk.distinct)
    rintro first second hne names hfirst other hsecond rfl
    have h1 := (fileBelow_eq_some place first names hfirst).1
    have h2 := (fileBelow_eq_some place second names hsecond).1
    exact hne (h1.trans h2.symm)

end Disk

namespace Admission

/-! ## Relative paths as texts -/

def relativeText (names : List Path.Part) : String :=
  String.ofList (joinWith '/' names)

theorem parts_relativeText (names : List Path.Part) (hne : names ≠ [])
    (h : ∀ name ∈ names, Path.Proper name) : Path.parts (relativeText names).toList = names := by
  rw [relativeText, String.toList_ofList]
  exact Path.parts_joinWith names hne (fun name hname => (h name hname).2.2)

theorem relativeText_of_plain (names : List Path.Part) (h : ∀ name ∈ names, '\\' ∉ name) :
    String.ofList (replaceChar '\\' '/' (joinWith '/' names)) = relativeText names := by
  rw [relativeText, replaceChar_free]
  intro hmem
  rcases mem_joinWith '/' '\\' names hmem with hslash | ⟨name, hname, hin⟩
  · exact absurd hslash (by decide)
  · exact h name hname hin

/-! ## Directories on the way -/

/-- Do the rules ignore a directory, given by the names from the root to it? -/
def ignoresDirectory (a : Admission) (names : List Path.Part) : Bool :=
  a.isIgnored (Path.join a.root (joinWith '/' names)) true

theorem mem_directoriesAbove (names dir : List Path.Part) :
    dir ∈ directoriesAbove names ↔ ∃ n, n + 1 < names.length ∧ dir = names.take (n + 1) := by
  rw [directoriesAbove, List.mem_map]
  constructor
  · rintro ⟨n, hn, rfl⟩
    rw [List.mem_range] at hn
    exact ⟨n, by omega, rfl⟩
  · rintro ⟨n, hn, rfl⟩
    exact ⟨n, List.mem_range.mpr (by omega), rfl⟩

/-- The last names of the directories above a file are the names on the way to it. -/
theorem getLast_directoriesAbove (names dir : List Path.Part) (name : Path.Part)
    (hdir : dir ∈ directoriesAbove names) (hlast : dir.getLast? = some name) :
    name ∈ names.dropLast := by
  obtain ⟨n, hn, rfl⟩ := (mem_directoriesAbove names dir).mp hdir
  have hget : names.dropLast[n]? = some name := by
    rw [List.getElem?_dropLast, if_pos (by omega)]
    rw [List.getLast?_take, if_neg (by omega), Nat.add_sub_cancel,
      List.getElem?_eq_getElem (by omega), Option.some_or] at hlast
    rw [List.getElem?_eq_getElem (by omega), hlast]
  exact List.mem_of_getElem? hget

theorem passesOver_eq_false (a : Admission) (names dir : List Path.Part)
    (hdir : dir ∈ directoriesAbove names) (hnames : names.dropLast.any a.isExcludedDir = false) :
    a.passesOver dir = a.ignoresDirectory dir := by
  have hlast : dir.getLast?.any a.isExcludedDir = false := by
    cases h : dir.getLast? with
    | none => rfl
    | some name =>
      have hin := getLast_directoriesAbove names dir name hdir h
      exact Bool.eq_false_iff.mpr (List.any_eq_false.mp hnames name hin)
  rw [passesOver, hlast, Bool.false_or]
  rfl

/-! ## Listing -/

theorem excluded_of_admits (a : Admission) (names : List Path.Part)
    (hparts : Path.parts (relativeText names).toList = names)
    (h : a.admits (relativeText names) = true) : names.dropLast.any a.isExcludedDir = false := by
  simp only [admits, hparts, Bool.and_eq_true, Bool.not_eq_true'] at h
  exact h.1.1.2

/-- What is listed: files of the tree that the test admits and that no directory hides. -/
theorem mem_discover_iff (a : Admission) (disk : Disk)
    (hplain : ∀ names ∈ disk.filesBelow a.root, ∀ name ∈ names, '\\' ∉ name) (file : String) :
    file ∈ a.discover disk ↔ a.admits file = true ∧ ∃ names ∈ disk.filesBelow a.root,
      (∀ dir ∈ directoriesAbove names, a.passesOver dir = false) ∧ relativeText names = file := by
  rw [discover, List.mem_mergeSort, List.mem_filter, List.mem_map]
  constructor
  · rintro ⟨⟨names, hnames, rfl⟩, hadmits⟩
    rw [List.mem_filter, Bool.not_eq_true', List.any_eq_false] at hnames
    rw [relativeText_of_plain names (hplain names hnames.1)] at hadmits ⊢
    exact ⟨hadmits, names, hnames.1,
      fun dir hdir => Bool.eq_false_iff.mpr (hnames.2 dir hdir), rfl⟩
  · rintro ⟨hadmits, names, hnames, hreached, rfl⟩
    refine ⟨⟨names, ?_, relativeText_of_plain names (hplain names hnames)⟩, hadmits⟩
    rw [List.mem_filter, Bool.not_eq_true', List.any_eq_false]
    exact ⟨hnames, fun dir hdir => Bool.eq_false_iff.mp (hreached dir hdir)⟩

theorem relativeText_inj (first second : List Path.Part) (hfirst : first ≠ [])
    (hsecond : second ≠ []) (h1 : ∀ name ∈ first, Path.Proper name)
    (h2 : ∀ name ∈ second, Path.Proper name) (h : relativeText first = relativeText second) :
    first = second := by
  rw [← parts_relativeText first hfirst h1, h, parts_relativeText second hsecond h2]

theorem mem_discover (a : Admission) (disk : Disk) (hdisk : disk.WellFormed)
    (hplain : ∀ names ∈ disk.filesBelow a.root, ∀ name ∈ names, '\\' ∉ name)
    (names : List Path.Part) (hnames : names ∈ disk.filesBelow a.root) :
    relativeText names ∈ a.discover disk ↔ a.admits (relativeText names) = true ∧
      ∀ dir ∈ directoriesAbove names, a.ignoresDirectory dir = false := by
  have hproper := hdisk.proper_of_filesBelow a.root names hnames
  have hne := (Disk.mem_filesBelow disk a.root names hnames).1
  rw [mem_discover_iff a disk hplain]
  refine and_congr_right (fun hadmits => ?_)
  have hnone := excluded_of_admits a names (parts_relativeText names hne hproper) hadmits
  constructor
  · rintro ⟨others, hothers, hreached, htext⟩
    -- The text of a path gives its names back, so no other file of the tree has this text.
    have hsame : others = names := relativeText_inj others names
      (Disk.mem_filesBelow disk a.root others hothers).1 hne
      (hdisk.proper_of_filesBelow a.root others hothers) hproper htext
    subst hsame
    intro dir hdir
    rw [← passesOver_eq_false a others dir hdir hnone]
    exact hreached dir hdir
  · intro hall
    refine ⟨names, hnames, fun dir hdir => ?_, rfl⟩
    rw [passesOver_eq_false a names dir hdir hnone]
    exact hall dir hdir

theorem nodup_relative (a : Admission) (disk : Disk) (hdisk : disk.WellFormed)
    (hplain : ∀ names ∈ disk.filesBelow a.root, ∀ name ∈ names, '\\' ∉ name)
    (reached : List (List Path.Part)) (hreached : reached.Sublist (disk.filesBelow a.root)) :
    (reached.map fun names =>
      String.ofList (replaceChar '\\' '/' (joinWith '/' names))).Nodup := by
  rw [List.Nodup, List.pairwise_map]
  apply List.Pairwise.imp_of_mem _ ((hdisk.nodup_filesBelow a.root).sublist hreached)
  intro first second hfirst hsecond hne htext
  have h1 := hreached.subset hfirst
  have h2 := hreached.subset hsecond
  rw [relativeText_of_plain first (hplain first h1),
    relativeText_of_plain second (hplain second h2)] at htext
  exact hne (relativeText_inj first second (Disk.mem_filesBelow disk a.root first h1).1
    (Disk.mem_filesBelow disk a.root second h2).1 (hdisk.proper_of_filesBelow a.root first h1)
    (hdisk.proper_of_filesBelow a.root second h2) htext)

/-- No file is listed twice, so the order of the listing is strict. -/
theorem discover_ascending (a : Admission) (disk : Disk) (hdisk : disk.WellFormed)
    (hplain : ∀ names ∈ disk.filesBelow a.root, ∀ name ∈ names, '\\' ∉ name) :
    (a.discover disk).Pairwise (· < ·) := by
  have hnodup : (a.discover disk).Nodup := by
    rw [discover, (List.mergeSort_perm _ _).nodup_iff]
    exact (nodup_relative a disk hdisk hplain _ List.filter_sublist).filter a.admits
  have hsorted : (a.discover disk).Pairwise (fun x y => decide (x ≤ y) = true) := by
    apply List.pairwise_mergeSort
    · intro x y z hxy hyz
      rw [decide_eq_true_eq] at hxy hyz ⊢
      exact String.le_trans hxy hyz
    · intro x y
      rw [Bool.or_eq_true, decide_eq_true_eq, decide_eq_true_eq]
      exact String.le_total x y
  apply List.Pairwise.imp _ (hsorted.and hnodup)
  rintro x y ⟨hle, hne⟩
  rw [decide_eq_true_eq] at hle
  exact String.not_le.mp (fun hge => hne (String.le_antisymm hle hge))

theorem relative_absolute (a : Admission) (names : List Path.Part) (hne : names ≠ [])
    (hproper : ∀ name ∈ names, Path.Proper name) (hplain : ∀ name ∈ names, '\\' ∉ name) :
    a.relative? (a.absolute (relativeText names)) = some (relativeText names) := by
  rw [relative?, absolute, relativeText, String.toList_ofList, Path.below_join a.root names hne
    hproper, Option.map_some]
  exact congrArg some (relativeText_of_plain names hplain)

end Admission

namespace World

/-- The listing is strictly ascending and holds files of the tree only. It holds those that the test
of a single path admits, except where a directory above the file is ignored; a change of a file
brings it into the index by the test alone. So the listing and the changes agree on a file exactly
if it is not admitted below an ignored directory. -/
theorem listing_agrees_iff (grammar : Grammar) (w : World) (hdisk : w.disk.WellFormed)
    (hplain : ∀ names ∈ w.disk.filesBelow w.service.admission.root, ∀ name ∈ names,
      '\\' ∉ name) :
    let a := w.service.admission
    (a.discover w.disk).Pairwise (· < ·) ∧
    (∀ file ∈ a.discover w.disk, ∃ names ∈ w.disk.filesBelow a.root,
      Admission.relativeText names = file) ∧
    ∀ names ∈ w.disk.filesBelow a.root,
      let file := Admission.relativeText names
      (file ∈ a.discover w.disk ↔ a.admits file = true ∧
        ∀ dir ∈ Admission.directoriesAbove names, a.ignoresDirectory dir = false) ∧
      ((file ∈ a.discover w.disk ↔ a.admits file = true) ↔
        ¬ (a.admits file = true ∧
          ∃ dir ∈ Admission.directoriesAbove names, a.ignoresDirectory dir = true)) ∧
      w.after grammar (.event (.changed (a.absolute file))) =
        if a.admits file then w.after grammar (.update file) else w := by
  intro a
  refine ⟨a.discover_ascending w.disk hdisk hplain, ?_, ?_⟩
  · intro file hfile
    obtain ⟨_, names, hnames, _, htext⟩ := (a.mem_discover_iff w.disk hplain file).mp hfile
    exact ⟨names, hnames, htext⟩
  · intro names hnames file
    have hlisted : file ∈ a.discover w.disk ↔ a.admits file = true ∧
        ∀ dir ∈ Admission.directoriesAbove names, a.ignoresDirectory dir = false :=
      a.mem_discover w.disk hdisk hplain names hnames
    refine ⟨hlisted, ?_, ?_⟩
    · rw [hlisted, and_iff_left_iff_imp]
      simp only [not_and, not_exists, Bool.not_eq_true]
    · have hrelative : a.relative? (a.absolute file) = some file :=
        a.relative_absolute names (Disk.mem_filesBelow w.disk a.root names hnames).1
          (hdisk.proper_of_filesBelow a.root names hnames) (hplain names hnames)
      rw [after_changed, hrelative]

/-- A workspace with a file below a directory that its rules ignore. -/
def generatedDisk : Disk :=
  ⟨[], [(["w".toList], .directory),
    (["w".toList, ".gitignore".toList], .file (Utf8.encode "generated/\n".toList)),
    (["w".toList, "a.js".toList], .file []),
    (["w".toList, "generated".toList], .directory),
    (["w".toList, "generated".toList, "x.js".toList], .file [])]⟩

def generatedFile : List Path.Part :=
  ["generated".toList, "x.js".toList]

def generatedWorld : World :=
  { disk := generatedDisk
    service :=
      { settings := {}
        admission := Admission.ofSettings generatedDisk "/w".toList {}
        store := Store.inWorkspace "/w".toList "symbols.index"
        table := []
        history := {} } }

theorem listing_agrees_for_generated :
    generatedDisk.WellFormed ∧
    (∀ names ∈ generatedDisk.filesBelow "/w".toList, ∀ name ∈ names, '\\' ∉ name) ∧
    generatedFile ∈ generatedDisk.filesBelow "/w".toList ∧
    (Admission.relativeText generatedFile ∈
        generatedWorld.service.admission.discover generatedDisk ↔
      generatedWorld.service.admission.admits (Admission.relativeText generatedFile) = true ∧
      ∀ dir ∈ Admission.directoriesAbove generatedFile,
        generatedWorld.service.admission.ignoresDirectory dir = false) := by
  have hdisk : generatedDisk.WellFormed := ⟨by decide +kernel, by decide +kernel⟩
  have hplain : ∀ names ∈ generatedDisk.filesBelow "/w".toList, ∀ name ∈ names,
      '\\' ∉ name := by decide +kernel
  have hnames : generatedFile ∈ generatedDisk.filesBelow "/w".toList := by decide +kernel
  exact ⟨hdisk, hplain, hnames,
    ((listing_agrees_iff (Grammar.ofSamples []) generatedWorld hdisk hplain).2.2 generatedFile
      hnames).1⟩

/-- The file below the ignored directory is a file of the tree that a change brings into the index
and that no listing has. -/
theorem generated_admitted_not_listed :
    Service.openWith generatedDisk "/w".toList {} = .ok generatedWorld.service ∧
    generatedFile ∈ generatedDisk.filesBelow "/w".toList ∧
    Admission.relativeText generatedFile = "generated/x.js" ∧
    generatedWorld.service.admission.admits "generated/x.js" = true ∧
    "generated/x.js" ∉ generatedWorld.service.admission.discover generatedDisk := by
  refine ⟨rfl, ?_, ?_, ?_, ?_⟩ <;> decide +kernel

end World

end CodeNav
