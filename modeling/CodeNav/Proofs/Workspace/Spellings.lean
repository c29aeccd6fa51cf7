import CodeNav.Proofs.Workspace.DiskNames
import CodeNav.Proofs.Workspace.ListedPaths
import CodeNav.Wire.Dispatch

/-! The spellings of a path. A relative path is taken as it is written, an absolute one without the
fillers at its ends; an index knows a file by a path without fillers. So two spellings of one path
may differ, and either may miss the path of the index. -/
namespace CodeNav
set_option autoImplicit false
open Text

namespace Path

/-! ## Texts without some of their parts -/

def IsPlain (path : List Char) : Prop :=
  ∀ part ∈ parts path, isFiller part = false

/-- A path that neither starts nor ends with a filler; the empty path has nothing to lose. -/
def IsTrimmed (path : List Char) : Prop :=
  path = [] ∨ (∀ part ∈ (parts path).head?, isFiller part = false) ∧
    ∀ part ∈ (parts path).getLast?, isFiller part = false

theorem joinWith_kept_sublist (path : List Char) (kept : List Part) (h : kept.Sublist (parts path)) :
    (joinWith '/' kept).Sublist path := by
  have hsub := joinWith_sublist '/' h
  rwa [parts, joinWith_splitOn] at hsub

/-- Other characters put for some do not hide that parts are missing. -/
theorem replaced_kept_eq_iff (old new : Char) (path : List Char) (kept : List Part)
    (h : kept.Sublist (parts path)) :
    replaceChar old new (joinWith '/' kept) = replaceChar old new path ↔
      kept = parts path ∨ path = [] := by
  have hsub := joinWith_kept_sublist path kept h
  constructor
  · intro hsame
    have hlength := congrArg List.length hsame
    rw [replaceChar, replaceChar, List.length_map, List.length_map] at hlength
    have hpath := hsub.eq_of_length hlength
    by_cases hkept : kept = []
    · rw [hkept] at hpath
      exact .inr hpath.symm
    · have hslash : ∀ part ∈ kept, '/' ∉ part :=
        fun part hpart => mem_splitOn '/' path part (h.subset hpart)
      exact .inl (hpath ▸ parts_joinWith kept hkept hslash).symm
  · rintro (hkept | rfl)
    · rw [hkept, parts, joinWith_splitOn]
    · rw [List.sublist_nil.mp hsub]

theorem trimmed_text_iff (old new : Char) (path : List Char) :
    replaceChar old new (joinWith '/' (trimFillers (parts path))) = replaceChar old new path ↔
      IsTrimmed path := by
  have htrimmed : trimFillers (parts path) = parts path ↔ _ :=
    trimmed_eq_self_iff isFiller (parts path)
  rw [replaced_kept_eq_iff old new path _ (trimFillers_sublist _), htrimmed, or_comm, IsTrimmed]

/-- What is left of a path without its fillers. -/
def names (path : List Char) : List Part :=
  (parts path).filter (!isFiller ·)

theorem names_eq_iff (ps : List Part) :
    ps.filter (!isFiller ·) = ps ↔ ∀ part ∈ ps, isFiller part = false := by
  simp only [List.filter_eq_self, Bool.not_eq_true']

theorem names_text_iff (old new : Char) (path : List Char) (hne : names path ≠ []) :
    replaceChar old new (joinWith '/' (names path)) = replaceChar old new path ↔ IsPlain path := by
  rw [names, replaced_kept_eq_iff old new path _ List.filter_sublist, names_eq_iff, IsPlain,
    or_iff_left]
  rintro rfl
  exact hne rfl

/-- The text of a path without the fillers at its ends has the same names. -/
theorem names_trimmed (path : List Char) (hne : names path ≠ []) :
    parts (joinWith '/' (trimFillers (parts path))) = trimFillers (parts path) ∧
      names (joinWith '/' (trimFillers (parts path))) = names path := by
  have hkept : trimFillers (parts path) ≠ [] := by
    intro hnil
    rw [names, ← filter_trimFillers, hnil] at hne
    exact hne rfl
  have hparts := parts_joinWith (trimFillers (parts path)) hkept
    fun part hpart => mem_splitOn '/' path part ((trimFillers_sublist _).subset hpart)
  exact ⟨hparts, by rw [names, hparts, filter_trimFillers, names]⟩

theorem not_absolute_trimmed (path : List Char) :
    isAbsolute (joinWith '/' (trimFillers (parts path))) = false := by
  cases hkept : trimFillers (parts path) with
  | nil => rfl
  | cons part rest =>
    have hmem : part ∈ parts path :=
      (trimFillers_sublist _).subset (hkept ▸ List.mem_cons_self)
    exact not_absolute_joinWith_cons part rest
      (ne_nil_of_not_filler part (trimFillers_head _ part rest hkept)) (mem_splitOn '/' path part hmem)

end Path

namespace Admission

/-- A path relative to the root leads to a file that a listing shows under the given path. -/
def Denotes (a : Admission) (disk : Disk) (path : List Char) (file : String) : Prop :=
  ∃ place, disk.locate a.root = .ok place ∧ ∃ names ∈ disk.filesBelow a.root,
    disk.locate (Path.join a.root path) = .ok (place ++ names) ∧ a.shown? names = some file

end Admission

namespace Service

variable (s : Service) (disk : Disk)

/-! ## What the spellings become -/

theorem relativePath_relative (path : List Char) (hpath : Path.isAbsolute path = false) :
    s.relativePath path = .ok (String.ofList (replaceChar '\\' '/' path)) := by
  rw [relativePath, hpath]
  rfl

theorem root_ne_nil_of_absolute (hroot : Path.isAbsolute s.root = true) : s.root ≠ [] := by
  intro hnil
  rw [hnil] at hroot
  cases hroot

theorem relativePath_absolute (path : List Char) (hpath : Path.isAbsolute path = false)
    (hroot : Path.isAbsolute s.root = true) :
    s.relativePath (Path.join s.root path) =
      .ok (String.ofList (replaceChar '\\' '/'
        (joinWith '/' (Path.trimFillers (Path.parts path))))) := by
  have hne := s.root_ne_nil_of_absolute hroot
  have hjoin := (Path.parts_join_base s.root path hne hpath).1.trans hroot
  rw [relativePath, hjoin, Admission.relative?, ← root,
    Path.below_join_relative s.root path hne hpath]
  rfl

theorem ok_ofList_inj (first second : List Char) :
    (Except.ok (String.ofList first) : Except ServiceError String) = .ok (String.ofList second) ↔
      first = second := by
  rw [Except.ok.injEq, String.ofList_inj]

/-- Below a relative root the other spelling is no absolute path, and keeps the root. -/
theorem relativePath_below_relative (path : List Char) (hpath : Path.isAbsolute path = false)
    (hroot : Path.isAbsolute s.root = false) (hne : s.root ≠ []) (file : List Char)
    (hfile : file.length ≤ path.length) :
    s.relativePath (Path.join s.root path) ≠ .ok (String.ofList file) := by
  have hjoin := (Path.parts_join_base s.root path hne hpath).1.trans hroot
  rw [s.relativePath_relative _ hjoin, Ne, ok_ofList_inj]
  intro hsame
  have hlength := congrArg List.length hsame
  have hlonger := Path.length_join s.root path hpath
  have hpos := List.length_pos_iff.mpr hne
  rw [replaceChar, List.length_map] at hlength
  omega

theorem relativePath_same_iff (path : List Char) (hpath : Path.isAbsolute path = false) :
    s.relativePath path = s.relativePath (Path.join s.root path) ↔
      if Path.isAbsolute s.root then Path.IsTrimmed path else s.root = [] := by
  by_cases hroot : Path.isAbsolute s.root = true
  · rw [if_pos hroot, s.relativePath_absolute path hpath hroot, s.relativePath_relative path hpath,
      ok_ofList_inj, eq_comm]
    exact Path.trimmed_text_iff '\\' '/' path
  · rw [if_neg hroot]
    constructor
    · intro hsame
      by_contra hne
      rw [s.relativePath_relative path hpath] at hsame
      refine s.relativePath_below_relative path hpath (Bool.eq_false_iff.mpr hroot) hne _ ?_
        hsame.symm
      rw [replaceChar, List.length_map]
    · intro hnil
      rw [hnil, Path.join, hpath]
      rfl

/-! ## Files of the index -/

section

variable {s disk} {path : List Char} {file : String} (hpath : Path.isAbsolute path = false)
  (hparent : Path.parent ∉ Path.parts path) (h : s.admission.Denotes disk path file)
include hpath hparent h

theorem names_of_denotes :
    Path.names path ≠ [] ∧ s.root ≠ [] ∧
      file = String.ofList (replaceChar '\\' '/' (joinWith '/' (Path.names path))) := by
  obtain ⟨place, hplace, names, hnames, hfound, hshown⟩ := h
  have hfollow := Disk.locate_join disk s.root path place _ hpath hplace hfound
  have hsame := List.append_cancel_left
    (Disk.follow_without_parent disk _ place _ hparent hfollow)
  rw [← Path.names] at hsame
  have hroot := ((Disk.locate_iff_follow disk s.root place).mp hplace).2.1
  exact ⟨hsame ▸ (Disk.mem_filesBelow disk s.root names hnames).1, hroot,
    hsame ▸ s.admission.shown_eq_some names file hshown⟩

theorem relativePath_eq_file_iff : s.relativePath path = .ok file ↔ Path.IsPlain path := by
  obtain ⟨hnames, -, rfl⟩ := names_of_denotes hpath hparent h
  rw [s.relativePath_relative path hpath, ok_ofList_inj, eq_comm]
  exact Path.names_text_iff '\\' '/' path hnames

theorem relativePath_join_eq_file_iff :
    s.relativePath (Path.join s.root path) = .ok file ↔
      Path.isAbsolute s.root = true ∧
        ∀ part ∈ Path.trimFillers (Path.parts path), Path.isFiller part = false := by
  obtain ⟨hnames, hrootNe, rfl⟩ := names_of_denotes hpath hparent h
  by_cases hroot : Path.isAbsolute s.root = true
  · obtain ⟨hparts, hsame⟩ := Path.names_trimmed path hnames
    rw [s.relativePath_absolute path hpath hroot, ok_ofList_inj, eq_comm, and_iff_right hroot,
      ← hsame, Path.names_text_iff '\\' '/' _ (hsame ▸ hnames), Path.IsPlain, hparts]
  · refine iff_of_false ?_ fun hboth => hroot hboth.1
    apply s.relativePath_below_relative path hpath (Bool.eq_false_iff.mpr hroot) hrootNe
    rw [replaceChar, List.length_map]
    exact (Path.joinWith_kept_sublist path _ List.filter_sublist).length_le

end

/-! ## Documents -/

theorem documentOf_of_text (cursor : Cursor) (file : String) (htext : cursor.text.isSome = true)
    (hfile : s.relativePath cursor.file.toList = .ok file) :
    ∃ doc, s.documentOf disk cursor = .ok doc ∧ doc.path = file := by
  obtain ⟨text, htext⟩ := Option.isSome_iff_exists.mp htext
  exact ⟨Document.ofText file text.toList, by rw [documentOf, htext, hfile]; rfl, rfl⟩

theorem openDocument_of_file (path rel : List Char) (spot : Place) (bytes : Utf8.Bytes)
    (hfile : s.relativePath path = .ok (String.ofList rel))
    (hspot : disk.locate (Path.join s.root rel) = .ok spot)
    (hbytes : disk.entry? spot = some (.file bytes)) :
    ∃ doc, s.openDocument disk path = .ok doc ∧ doc.path = String.ofList rel := by
  have hread : disk.read (s.admission.absolute (String.ofList rel)) = .ok bytes :=
    (Disk.read_ok_iff disk _ bytes).mpr ⟨spot, by
      rw [Admission.absolute, String.toList_ofList]
      exact hspot, hbytes⟩
  refine ⟨Document.ofText (String.ofList rel) (Utf8.decodeLossy bytes), ?_, rfl⟩
  rw [openDocument, hfile]
  simp only [bind, Except.bind, readDocument, hread]
  rfl

section

variable {s disk} {path : List Char} {file : String} (hpath : Path.isAbsolute path = false)
  (hparent : Path.parent ∉ Path.parts path) (h : s.admission.Denotes disk path file)
include hpath hparent h

theorem locate_trimmed : ∃ place, ∃ names ∈ disk.filesBelow s.root,
    disk.locate s.root = .ok place ∧
      disk.locate (Path.join s.root path) = .ok (place ++ names) ∧
      disk.locate (Path.join s.root (joinWith '/' (Path.trimFillers (Path.parts path)))) =
        .ok (place ++ names) := by
  have hne := (names_of_denotes hpath hparent h).1
  obtain ⟨place, hplace, names, hnames, hfound, -⟩ := h
  obtain ⟨hnull, hfollow⟩ := (Disk.locate_join_iff disk s.root path place _ hpath hplace).mp hfound
  refine ⟨place, names, hnames, hplace, hfound, ?_⟩
  rw [Disk.locate_join_iff disk s.root _ place _ (Path.not_absolute_trimmed path) hplace,
    (Path.names_trimmed path hne).1]
  refine ⟨?_, disk.follow_trimFillers _ place _ hfollow⟩
  have hsub := Path.joinWith_kept_sublist path _ (Path.trimFillers_sublist _)
  rw [Bool.eq_false_iff, Ne, List.contains_iff_mem] at hnull ⊢
  exact fun hmem => hnull (hsub.subset hmem)

/-- A file of the index is opened by either spelling, if no backslash is taken for a slash. -/
theorem openDocument_of_denotes (hdisk : disk.WellFormed) (hplain : '\\' ∉ path)
    (spelling : List Char) (hspelling : spelling = path ∨
      Path.isAbsolute s.root = true ∧ spelling = Path.join s.root path) :
    ∃ doc, s.openDocument disk spelling = .ok doc ∧ s.relativePath spelling = .ok doc.path := by
  obtain ⟨place, names, hnames, hplace, hfound, htrimmed⟩ := locate_trimmed hpath hparent h
  obtain ⟨bytes, hbytes⟩ := hdisk.entry_of_filesBelow s.root place names hplace hnames
  obtain ⟨rel, hrelative, hrel⟩ : ∃ rel, s.relativePath spelling = .ok (String.ofList rel) ∧
      disk.locate (Path.join s.root rel) = .ok (place ++ names) := by
    rcases hspelling with rfl | ⟨hroot, rfl⟩
    · refine ⟨spelling, ?_, hfound⟩
      rw [s.relativePath_relative spelling hpath, replaceChar_free '\\' '/' spelling hplain]
    · have hsub := Path.joinWith_kept_sublist path _ (Path.trimFillers_sublist _)
      refine ⟨joinWith '/' (Path.trimFillers (Path.parts path)), ?_, htrimmed⟩
      rw [s.relativePath_absolute path hpath hroot,
        replaceChar_free '\\' '/' _ fun hmem => hplain (hsub.subset hmem)]
  obtain ⟨doc, hdoc, hsame⟩ := s.openDocument_of_file disk spelling rel _ bytes hrelative hrel hbytes
  exact ⟨doc, hdoc, hsame ▸ hrelative⟩

/-- A cursor that names the file either way gives a document under the path of its spelling. -/
theorem documentOf_of_denotes (hdisk : disk.WellFormed) (cursor : Cursor)
    (hspelling : cursor.file.toList = path ∨
      Path.isAbsolute s.root = true ∧ cursor.file.toList = Path.join s.root path)
    (htext : cursor.text.isSome = true ∨ '\\' ∉ path) :
    ∃ doc, s.documentOf disk cursor = .ok doc ∧
      s.relativePath cursor.file.toList = .ok doc.path := by
  by_cases hsome : cursor.text.isSome = true
  · obtain ⟨file, hfile⟩ : ∃ file, s.relativePath cursor.file.toList = .ok file := by
      rcases hspelling with hsame | ⟨hroot, hsame⟩
      · exact ⟨_, hsame ▸ s.relativePath_relative path hpath⟩
      · exact ⟨_, hsame ▸ s.relativePath_absolute path hpath hroot⟩
    obtain ⟨doc, hdoc, rfl⟩ := s.documentOf_of_text disk cursor file hsome hfile
    exact ⟨doc, hdoc, hfile⟩
  · have hnone : cursor.text = none := Option.not_isSome_iff_eq_none.mp hsome
    rw [documentOf, hnone]
    exact openDocument_of_denotes hpath hparent h hdisk (htext.resolve_left hsome) _ hspelling

end

/-- A relative path and its absolute spelling become one string exactly if the path is trimmed, for
a root that is absolute. For a path without steps to the parent that leads to a file of the index,
either spelling gives a document; the relative spelling gives it the path of the index exactly if
the path is plain, the absolute one exactly if there are no fillers within it. -/
theorem spellings_agree_iff (path : List Char) (hpath : Path.isAbsolute path = false) :
    (s.relativePath path = s.relativePath (Path.join s.root path) ↔
      if Path.isAbsolute s.root then Path.IsTrimmed path else s.root = []) ∧
    ∀ file, s.admission.Denotes disk path file → Path.parent ∉ Path.parts path →
      file ∈ s.admission.discover disk ∧
      (s.relativePath path = .ok file ↔ Path.IsPlain path) ∧
      (s.relativePath (Path.join s.root path) = .ok file ↔
        Path.isAbsolute s.root = true ∧
          ∀ part ∈ Path.trimFillers (Path.parts path), Path.isFiller part = false) ∧
      (disk.WellFormed → ∀ cursor : Cursor,
        (cursor.file.toList = path ∨
          Path.isAbsolute s.root = true ∧ cursor.file.toList = Path.join s.root path) →
        (cursor.text.isSome = true ∨ '\\' ∉ path) →
        ∃ doc, s.documentOf disk cursor = .ok doc ∧
          s.relativePath cursor.file.toList = .ok doc.path) := by
  refine ⟨s.relativePath_same_iff path hpath, fun file h hparent => ?_⟩
  have hlisted : file ∈ s.admission.discover disk := by
    obtain ⟨_, _, names, hnames, _, hshown⟩ := h
    exact s.admission.mem_discover_of_shown disk names file hnames hshown
  exact ⟨hlisted, relativePath_eq_file_iff hpath hparent h,
    relativePath_join_eq_file_iff hpath hparent h,
    fun hdisk => documentOf_of_denotes hpath hparent h hdisk⟩

/-- A workspace with a file at its root and one below a directory. -/
def spelledDisk : Disk :=
  ⟨[], [(["w".toList], .directory), (["w".toList, "a.js".toList], .file []),
    (["w".toList, "sub".toList], .directory),
    (["w".toList, "sub".toList, "b.js".toList], .file [])]⟩

def spelledService : Service :=
  { settings := {}
    admission := Admission.ofSettings spelledDisk "/w".toList {}
    store := Store.inWorkspace "/w".toList "symbols.index"
    table := []
    history := {} }

theorem spellings_agree_for_plain :
    let path := "sub/b.js".toList
    let cursor : Cursor := ⟨"/w/sub/b.js", ⟨0, 0⟩, none⟩
    Path.isAbsolute path = false ∧ spelledDisk.WellFormed ∧
      spelledService.admission.Denotes spelledDisk path "sub/b.js" ∧
      Path.parent ∉ Path.parts path ∧ Path.isAbsolute spelledService.root = true ∧
      cursor.file.toList = Path.join spelledService.root path ∧ '\\' ∉ path ∧
      spelledService.relativePath path =
        spelledService.relativePath (Path.join spelledService.root path) ∧
      spelledService.relativePath path = .ok "sub/b.js" ∧
      ∃ doc, spelledService.documentOf spelledDisk cursor = .ok doc ∧
        spelledService.relativePath cursor.file.toList = .ok doc.path := by
  intro path cursor
  have hpath : Path.isAbsolute path = false := by decide
  have hdisk : spelledDisk.WellFormed := ⟨by decide +kernel, by decide +kernel⟩
  have hdenotes : spelledService.admission.Denotes spelledDisk path "sub/b.js" :=
    ⟨["w".toList], by decide +kernel, ["sub".toList, "b.js".toList], by decide +kernel,
      by decide +kernel, by decide +kernel⟩
  have hparent : Path.parent ∉ Path.parts path := by decide +kernel
  have hroot : Path.isAbsolute spelledService.root = true := by decide
  have hcursor : cursor.file.toList = Path.join spelledService.root path := by decide +kernel
  have hplain : '\\' ∉ path := by decide
  have htrimmed : Path.IsTrimmed path := .inr (by decide +kernel)
  obtain ⟨hsame, hfile⟩ := spellings_agree_iff spelledService spelledDisk path hpath
  obtain ⟨-, hrelative, -, hdocument⟩ := hfile "sub/b.js" hdenotes hparent
  refine ⟨hpath, hdisk, hdenotes, hparent, hroot, hcursor, hplain, ?_, ?_, ?_⟩
  · rw [hsame, if_pos hroot]
    exact htrimmed
  · exact hrelative.mpr (by unfold Path.IsPlain; decide +kernel)
  · exact hdocument hdisk cursor (.inr ⟨hroot, hcursor⟩) (.inr hplain)

/-- A dot in front stays in the relative spelling only; an empty part within stays in both. -/
theorem dotted_spellings_differ :
    spelledService.admission.Denotes spelledDisk "./a.js".toList "a.js" ∧
      spelledService.relativePath "./a.js".toList = .ok "./a.js" ∧
      Path.join spelledService.root "./a.js".toList = "/w/./a.js".toList ∧
      spelledService.relativePath "/w/./a.js".toList = .ok "a.js" ∧
      spelledService.admission.Denotes spelledDisk "sub//b.js".toList "sub/b.js" ∧
      spelledService.relativePath "sub//b.js".toList = .ok "sub//b.js" ∧
      spelledService.relativePath "/w/sub//b.js".toList = .ok "sub//b.js" := by
  refine ⟨⟨["w".toList], by decide +kernel, ["a.js".toList], by decide +kernel, by decide +kernel,
    by decide +kernel⟩, by rfl, by decide +kernel, by rfl, ⟨["w".toList], by decide +kernel,
    ["sub".toList, "b.js".toList], by decide +kernel, by decide +kernel, by decide +kernel⟩,
    by rfl, by rfl⟩

end Service

end CodeNav
