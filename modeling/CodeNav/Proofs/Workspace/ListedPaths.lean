import CodeNav.Proofs.Text.DottedNames
import CodeNav.Proofs.Workspace.Discovery
import CodeNav.Proofs.Workspace.Extraction

/-! The paths under which a listing shows the entries of a disk. A path has slashes where the names of
a file have backslashes, so two files may be shown under one path. What is extracted from a sorted
listing depends only on how often it shows each path that has records. -/
namespace CodeNav
set_option autoImplicit false
open Text

namespace Admission

/-- The path under which a listing shows a file, if it reaches and admits the file. -/
def shown? (a : Admission) (names : List Path.Part) : Option String :=
  if (directoriesAbove names).any a.passesOver then none
  else (some (String.ofList (replaceChar '\\' '/' (joinWith '/' names)))).filter a.admits

theorem shown_eq_some (a : Admission) (names : List Path.Part) (file : String)
    (h : a.shown? names = some file) :
    file = String.ofList (replaceChar '\\' '/' (joinWith '/' names)) := by
  rw [shown?] at h
  split at h
  · cases h
  · exact (Option.some.inj (Option.filter_eq_some_iff.mp h).1).symm

/-- The path under which a listing of the disk shows an entry. -/
def listedAs? (a : Admission) (disk : Disk) (entry : Place × Entry) : Option String :=
  match disk.locate a.root with
  | .error _ => none
  | .ok place => (Disk.fileBelow? place entry).bind a.shown?

theorem filterMap_shown (a : Admission) (found : List (List Path.Part)) :
    found.filterMap a.shown? =
      ((found.filter fun names => !(directoriesAbove names).any a.passesOver).map fun names =>
        String.ofList (replaceChar '\\' '/' (joinWith '/' names))).filter a.admits := by
  induction found with
  | nil => rfl
  | cons names found ih =>
    by_cases hover : (directoriesAbove names).any a.passesOver = true
    · rw [List.filterMap_cons_none (by rw [shown?, if_pos hover]), ih,
        List.filter_cons_of_neg (by simp [hover])]
    · rw [List.filter_cons_of_pos (by simpa using hover), List.map_cons, List.filter_cons,
        List.filterMap_cons, ih, shown?, if_neg hover]
      by_cases hadmits :
        a.admits (String.ofList (replaceChar '\\' '/' (joinWith '/' names))) = true
      · simp [Option.filter, hadmits]
      · simp [Option.filter, hadmits]

theorem mem_discover_of_shown (a : Admission) (disk : Disk) (names : List Path.Part)
    (file : String) (hnames : names ∈ disk.filesBelow a.root) (h : a.shown? names = some file) :
    file ∈ a.discover disk := by
  rw [discover, List.mem_mergeSort, ← filterMap_shown]
  exact List.mem_filterMap.mpr ⟨names, hnames, h⟩

theorem discover_eq (a : Admission) (disk : Disk) :
    a.discover disk =
      (disk.entries.filterMap (a.listedAs? disk)).mergeSort fun x y => decide (x ≤ y) := by
  have hlisted : (disk.filesBelow a.root).filterMap a.shown? =
      disk.entries.filterMap (a.listedAs? disk) := by
    rw [Disk.filesBelow_eq]
    cases hroot : disk.locate a.root with
    | error cause =>
      refine (List.filterMap_eq_nil_iff.mpr fun entry _ => ?_).symm
      rw [listedAs?, hroot]
    | ok place =>
      rw [List.filterMap_filterMap]
      congr 1
      funext entry
      rw [listedAs?, hroot]
  rw [← hlisted, filterMap_shown]
  rfl

theorem listedAs_of_same (a : Admission) (before after : Disk)
    (hdirs : Disk.SameDirectories before after) : a.listedAs? after = a.listedAs? before := by
  funext entry
  rw [listedAs?, listedAs?]
  cases hb : before.locate a.root with
  | ok place => rw [(Disk.locate_ok_iff hdirs _ _).mp hb]
  | error cause =>
    cases ha : after.locate a.root with
    | ok place => exact absurd ((Disk.locate_ok_iff hdirs _ _).mpr ha) (by rw [hb]; simp)
    | error other => rfl

theorem listedAs_eq_some (a : Admission) (disk : Disk) (entry : Place × Entry) (file : String)
    (h : a.listedAs? disk entry = some file) :
    ∃ place names, disk.locate a.root = .ok place ∧ entry.1 = place ++ names ∧ names ≠ [] ∧
      (∃ bytes, entry.2 = .file bytes) ∧
      file = String.ofList (replaceChar '\\' '/' (joinWith '/' names)) := by
  rw [listedAs?] at h
  cases hroot : disk.locate a.root with
  | error cause => simp [hroot] at h
  | ok place =>
    simp only [hroot, Option.bind_eq_some_iff] at h
    obtain ⟨names, hbelow, hshown⟩ := h
    obtain ⟨hplace, hne⟩ := Disk.fileBelow_eq_some place entry names hbelow
    refine ⟨place, names, rfl, hplace, hne, ?_, ?_⟩
    · obtain ⟨spot, kind⟩ := entry
      cases kind with
      | directory => cases hbelow
      | file bytes => exact ⟨bytes, rfl⟩
    · exact shown_eq_some a names file hshown

/-- The temporary file is shown, if at all, under a name without a dialect. -/
theorem dialect_of_temporary (a : Admission) (store : Store) (disk : Disk) (place : Place)
    (entry : Entry) (file : String) (h : a.listedAs? disk (place, entry) = some file)
    (hplace : disk.locate store.temporaryPath = .ok place)
    (hpath : store.temporaryPath ≠ store.indexPath) : Store.dialect? file = none := by
  obtain ⟨root, names, -, hnames, hne, -, rfl⟩ := listedAs_eq_some a disk _ file h
  rcases Store.temporaryPath_last store with hsame | ⟨others, body, hbody⟩
  · exact absurd hsame hpath
  obtain ⟨hfiller, hparent⟩ := Store.temporaryName_proper body
  obtain ⟨above, rfl⟩ := Disk.locate_last disk _ others _ place hbody hfiller hparent hplace
  rcases List.eq_nil_or_concat names with rfl | ⟨front, last, rfl⟩
  · exact absurd rfl hne
  rw [List.concat_eq_append, ← List.append_assoc] at hnames
  obtain rfl := (List.cons.inj (List.append_inj_right' hnames rfl)).1
  have htail : replaceChar '\\' '/' ('.' :: "index.tmp".toList) = '.' :: "index.tmp".toList := by
    decide
  obtain ⟨text, htext⟩ := joinWith_ends '/' front body ('.' :: "index.tmp".toList)
  rw [List.concat_eq_append, htext, replaceChar, List.map_append, ← replaceChar, ← replaceChar,
    htail, Store.dialect?, Dialect.ofPath_temporary]
  exact ite_self none

end Admission

/-! ## Sorted listings -/

theorem pairwise_sorted (files : List String) :
    (files.mergeSort fun x y => decide (x ≤ y)).Pairwise (· ≤ ·) := by
  have htrans : ∀ x y z : String, decide (x ≤ y) = true → decide (y ≤ z) = true →
      decide (x ≤ z) = true := by
    intro x y z hxy hyz
    rw [decide_eq_true_eq] at hxy hyz ⊢
    exact String.le_trans hxy hyz
  have htotal : ∀ x y : String, (decide (x ≤ y) || decide (y ≤ x)) = true := by
    intro x y
    rw [Bool.or_eq_true, decide_eq_true_eq, decide_eq_true_eq]
    exact String.le_total x y
  exact (List.pairwise_mergeSort htrans htotal files).imp of_decide_eq_true

theorem flatMap_filter_nonempty (f : String → List Record) (files : List String) :
    (files.filter fun file => !(f file).isEmpty).flatMap f = files.flatMap f := by
  induction files with
  | nil => rfl
  | cons file files ih =>
    by_cases hempty : f file = []
    · rw [List.filter_cons_of_neg (by simp [hempty]), ih, List.flatMap_cons, hempty,
        List.nil_append]
    · rw [List.filter_cons_of_pos (by simpa using hempty), List.flatMap_cons, List.flatMap_cons, ih]

/-- Files without records do not count, and the order of the others is that of their paths. -/
theorem flatMap_sorted_of_perm (f : String → List Record) (files others : List String)
    (h : (files.filter fun file => !(f file).isEmpty).Perm
      (others.filter fun file => !(f file).isEmpty)) :
    (files.mergeSort fun x y => decide (x ≤ y)).flatMap f =
      (others.mergeSort fun x y => decide (x ≤ y)).flatMap f := by
  have hperm := ((List.mergeSort_perm files fun x y => decide (x ≤ y)).filter
    fun file => !(f file).isEmpty).trans
      (h.trans ((List.mergeSort_perm others fun x y => decide (x ≤ y)).filter _).symm)
  have hsame := hperm.eq_of_pairwise (fun x y _ _ hxy hyx => String.le_antisymm hxy hyx)
    ((pairwise_sorted files).filter _) ((pairwise_sorted others).filter _)
  rw [← flatMap_filter_nonempty f, hsame, flatMap_filter_nonempty f]

end CodeNav
