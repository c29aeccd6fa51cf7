import CodeNav.Proofs.Calls.LineCalls
import CodeNav.Workspace.Service

/-! The calls that a search reports, over the lines of a document and over the files of a
workspace: exactly those that are there, each once, in the order of the text and of the files. -/
namespace CodeNav
set_option autoImplicit false
open Text

/-- Further up in the text of a file. -/
def Reference.Before (a b : Reference) : Prop :=
  a.location.line < b.location.line ∨
    a.location.line = b.location.line ∧ a.location.character < b.location.character

namespace CallSearch

/-! ## Documents -/

/-- The variables bound to a type on the lines down to this one, and the type of each. -/
def instancesAt (doc : Document) (index : Nat) : Bindings :=
  (doc.lines.take (index + 1)).foldl observe []

/-- The reference is to a call in the document. -/
structure IsReference (target : Target) (onInstance : Bool) (doc : Document) (r : Reference) :
    Prop where
  file : r.location.file = doc.path
  call : ∃ line, doc.lines[r.location.line]? = some line ∧
    IsCall target onInstance (instancesAt doc r.location.line) line r.location.character ∧
    r.preview = String.ofList (trim line)

variable {target : Target}

theorem mem_scanLines (onInstance : Bool) (file : String) (index : Nat) (instances : Bindings)
    (lines : List (List Char)) (r : Reference) :
    r ∈ scanLines target onInstance file index instances lines ↔
      r.location.file = file ∧ ∃ k line, lines[k]? = some line ∧ r.location.line = index + k ∧
        r.location.character ∈
          starts target onInstance ((lines.take (k + 1)).foldl observe instances) line ∧
        r.preview = String.ofList (trim line) := by
  induction lines generalizing index instances with
  | nil => simp [scanLines]
  | cons first lines ih =>
    rw [scanLines, List.mem_append, ih, List.mem_map]
    constructor
    · rintro (⟨start, hstart, rfl⟩ | ⟨hfile, k, line, hline, hindex, hstart, hpreview⟩)
      · exact ⟨rfl, 0, first, rfl, rfl, hstart, rfl⟩
      · exact ⟨hfile, k + 1, line, hline, by omega, hstart, hpreview⟩
    · rintro ⟨hfile, k, line, hline, hindex, hstart, hpreview⟩
      obtain ⟨⟨file', index', start⟩, preview⟩ := r
      simp only at hfile hindex hstart hpreview
      subst hfile hindex hpreview
      cases k with
      | zero =>
        obtain rfl : first = line := Option.some.inj hline
        exact Or.inl ⟨start, hstart, rfl⟩
      | succ k => exact Or.inr ⟨rfl, k, line, hline, by simp only; omega, hstart, rfl⟩

theorem scanLines_ascending (onInstance : Bool) (file : String) (index : Nat)
    (instances : Bindings) (lines : List (List Char)) :
    (scanLines target onInstance file index instances lines).Pairwise Reference.Before := by
  induction lines generalizing index instances with
  | nil => exact List.Pairwise.nil
  | cons first lines ih =>
    rw [scanLines, List.pairwise_append]
    refine ⟨?_, ih (index + 1) _, ?_⟩
    · rw [List.pairwise_map]
      exact (starts_ascending target onInstance _ first).imp fun hlt => Or.inr ⟨rfl, hlt⟩
    · intro a ha b hb
      obtain ⟨start, _, rfl⟩ := List.mem_map.mp ha
      obtain ⟨_, k, _, _, hindex, _⟩ := (mem_scanLines onInstance file (index + 1) _ lines b).mp hb
      left
      show index < b.location.line
      omega

theorem mem_scan (howner : '(' ∉ target.owner.toList) (hword : IsWord target.function.toList)
    (onInstance : Bool) (doc : Document) (r : Reference) :
    r ∈ scan target onInstance doc ↔ IsReference target onInstance doc r := by
  rw [scan, mem_scanLines]
  constructor
  · rintro ⟨hfile, k, line, hline, hindex, hstart, hpreview⟩
    obtain rfl : r.location.line = k := by omega
    exact ⟨hfile, line, hline, (mem_starts howner hword onInstance _ line _).mp hstart, hpreview⟩
  · rintro ⟨hfile, line, hline, hcall, hpreview⟩
    exact ⟨hfile, r.location.line, line, hline, (Nat.zero_add _).symm,
      (mem_starts howner hword onInstance _ line _).mpr hcall, hpreview⟩

/-! ## Workspaces -/

/-- The document that is searched for a file, and whether calls on the instance count in it. For a
file that is not at hand and cannot be read there is none. -/
inductive Searched (s : Service) (disk : Disk) (target : Target) (active : Option Active)
    (file : String) : Document → Bool → Prop
  | atHand (a : Active) (hactive : active = some a) (hfile : a.document.path = file) :
      Searched s disk target active file a.document (decide (a.enclosingClass = some target.owner))
  | onDisk (bytes : List UInt8) (helsewhere : ∀ a, active = some a → a.document.path ≠ file)
      (hread : disk.read (s.admission.absolute file) = .ok bytes) :
      Searched s disk target active file (Document.ofText file (Utf8.decodeLossy bytes)) false

section Files

variable {s : Service} {disk : Disk} {active : Option Active} {file : String}

theorem Searched.path {doc : Document} {onInstance : Bool}
    (h : Searched s disk target active file doc onInstance) : doc.path = file := by
  cases h with
  | atHand a _ hfile => exact hfile
  | onDisk _ _ _ => rfl

theorem active_filter_eq_none (helsewhere : ∀ a, active = some a → a.document.path ≠ file) :
    active.filter (·.document.path == file) = none := by
  rw [Option.filter_eq_none_iff]
  exact fun a hactive hfile => helsewhere a hactive (beq_iff_eq.mp hfile)

theorem inFile_eq {doc : Document} {onInstance : Bool}
    (h : Searched s disk target active file doc onInstance) :
    inFile (fun file => (s.readDocument disk file).toOption) target active file =
      scan target onInstance doc := by
  cases h with
  | atHand a hactive hfile =>
    have hhere : active.filter (·.document.path == file) = some a := by
      rw [hactive, Option.filter_some, if_pos (beq_iff_eq.mpr hfile)]
    have hclass : (a.enclosingClass == some target.owner) =
        decide (a.enclosingClass = some target.owner) := by
      rw [Bool.eq_iff_iff, beq_iff_eq, decide_eq_true_eq]
    rw [inFile, hhere, ← hclass]
  | onDisk bytes helsewhere hread =>
    rw [inFile, active_filter_eq_none helsewhere, Service.readDocument, hread]
    rfl

theorem inFile_eq_nil (h : ¬∃ doc onInstance, Searched s disk target active file doc onInstance) :
    inFile (fun file => (s.readDocument disk file).toOption) target active file = [] := by
  have helsewhere : ∀ a, active = some a → a.document.path ≠ file := fun a hactive hfile =>
    h ⟨_, _, .atHand a hactive hfile⟩
  rw [inFile, active_filter_eq_none helsewhere, Service.readDocument]
  cases hread : disk.read (s.admission.absolute file) with
  | ok bytes => exact absurd ⟨_, _, .onDisk bytes helsewhere hread⟩ h
  | error _ => rfl

theorem mem_inFile (r : Reference) :
    r ∈ inFile (fun file => (s.readDocument disk file).toOption) target active file ↔
      ∃ doc onInstance, Searched s disk target active file doc onInstance ∧
        r ∈ scan target onInstance doc := by
  constructor
  · intro hr
    by_cases h : ∃ doc onInstance, Searched s disk target active file doc onInstance
    · obtain ⟨doc, onInstance, hsearched⟩ := h
      exact ⟨doc, onInstance, hsearched, inFile_eq hsearched ▸ hr⟩
    · rw [inFile_eq_nil h] at hr
      exact absurd hr List.not_mem_nil
  · rintro ⟨doc, onInstance, hsearched, hr⟩
    rw [inFile_eq hsearched]
    exact hr

theorem file_of_mem_inFile {r : Reference}
    (hr : r ∈ inFile (fun file => (s.readDocument disk file).toOption) target active file) :
    r.location.file = file := by
  obtain ⟨doc, onInstance, hsearched, hr⟩ := (mem_inFile r).mp hr
  rw [((mem_scanLines onInstance doc.path 0 [] doc.lines r).mp hr).1, hsearched.path]

variable (s disk active file) in
theorem inFile_ascending :
    (inFile (fun file => (s.readDocument disk file).toOption) target active file).Pairwise
      Reference.Before := by
  by_cases h : ∃ doc onInstance, Searched s disk target active file doc onInstance
  · obtain ⟨doc, onInstance, hsearched⟩ := h
    rw [inFile_eq hsearched]
    exact scanLines_ascending onInstance doc.path 0 [] doc.lines
  · rw [inFile_eq_nil h]
    exact List.Pairwise.nil

end Files

theorem pairwise_idxOf {files : List String} (hnodup : files.Nodup) :
    files.Pairwise fun a b => files.idxOf a < files.idxOf b := by
  rw [List.pairwise_iff_getElem]
  intro i j hi hj hij
  rw [hnodup.idxOf_getElem i hi, hnodup.idxOf_getElem j hj]
  exact hij

theorem inFiles_ascending (s : Service) (disk : Disk) (active : Option Active)
    {files : List String} (hnodup : files.Nodup) :
    (inFiles (fun file => (s.readDocument disk file).toOption) target active files).Pairwise
      fun a b => files.idxOf a.location.file < files.idxOf b.location.file ∨
        a.location.file = b.location.file ∧ a.Before b := by
  rw [inFiles, List.pairwise_flatMap]
  constructor
  · intro file _
    refine (inFile_ascending s disk active file).imp_of_mem ?_
    intro a b ha hb hbefore
    exact Or.inr ⟨(file_of_mem_inFile ha).trans (file_of_mem_inFile hb).symm, hbefore⟩
  · refine (pairwise_idxOf hnodup).imp ?_
    intro file file' hlt a ha b hb
    rw [file_of_mem_inFile ha, file_of_mem_inFile hb]
    exact Or.inl hlt

/-- A search reports exactly the calls of the target, in a document and over the files of a
workspace: in a document from the top down and from left to right, each once; over the files one
file after the other. -/
theorem search_exact_and_ordered (target : Target) (howner : '(' ∉ target.owner.toList)
    (hword : IsWord target.function.toList) :
    (∀ onInstance doc, (scan target onInstance doc).Pairwise Reference.Before ∧
      ∀ r, r ∈ scan target onInstance doc ↔ IsReference target onInstance doc r) ∧
    ∀ (s : Service) (disk : Disk) (active : Option Active) (files : List String),
      let found := inFiles (fun file => (s.readDocument disk file).toOption) target active files
      (files.Nodup → found.Pairwise fun a b =>
        files.idxOf a.location.file < files.idxOf b.location.file ∨
          a.location.file = b.location.file ∧ a.Before b) ∧
      ∀ r, r ∈ found ↔ ∃ file ∈ files, ∃ doc onInstance,
        Searched s disk target active file doc onInstance ∧
          IsReference target onInstance doc r := by
  refine ⟨fun onInstance doc => ⟨?_, ?_⟩, fun s disk active files => ⟨?_, fun r => ?_⟩⟩
  · exact scanLines_ascending onInstance doc.path 0 [] doc.lines
  · exact mem_scan howner hword onInstance doc
  · exact inFiles_ascending s disk active
  · rw [inFiles, List.mem_flatMap]
    simp only [mem_inFile, mem_scan howner hword]

def gaugeCalls : Target :=
  ⟨"ui.Größe", "go$"⟩

def gaugePage : Document :=
  ⟨"a.js", ["var w = new ui.Größe();".toList, " ui.Größe.go$ (w.go$(this.go$(".toList]⟩

def gaugeService : Service :=
  { settings := {}
    admission := Admission.ofSettings ⟨[], []⟩ "/w".toList {}
    store := Store.inWorkspace "/w".toList "symbols.index"
    table := []
    history := {} }

/-- A call on a variable, and, in the class at hand, one on the instance; the other file cannot be
read. -/
theorem search_finds_gauge_calls :
    ('(' ∉ gaugeCalls.owner.toList ∧ IsWord gaugeCalls.function.toList) ∧
    ⟨⟨"a.js", 1, 15⟩, "ui.Größe.go$ (w.go$(this.go$("⟩ ∈ scan gaugeCalls false gaugePage ∧
    ⟨⟨"a.js", 1, 21⟩, "ui.Größe.go$ (w.go$(this.go$("⟩ ∈
      inFiles (fun file => (gaugeService.readDocument ⟨[], []⟩ file).toOption) gaugeCalls
        (some ⟨gaugePage, some "ui.Größe"⟩) ["b.js", "a.js"] := by
  have howner : '(' ∉ gaugeCalls.owner.toList := by decide
  have hword : IsWord gaugeCalls.function.toList :=
    ⟨by decide, List.all_eq_true.mp (by decide +kernel)⟩
  have hsearch := search_exact_and_ordered gaugeCalls howner hword
  refine ⟨⟨howner, hword⟩, ((hsearch.1 false gaugePage).2 _).mpr ?_,
    ((hsearch.2 gaugeService ⟨[], []⟩ _ _).2 _).mpr ?_⟩
  · refine ⟨rfl, " ui.Größe.go$ (w.go$(this.go$(".toList, rfl, ?_, by decide +kernel⟩
    refine .onVariable "w".toList (by decide) (List.all_eq_true.mp (by decide +kernel))
      ⟨" ui.Größe.go$ (".toList, "w.go$(".toList, "this.go$(".toList, by decide +kernel, rfl,
        [], by simp, by decide⟩ ?_ (by decide +kernel)
    intro i c hi hc
    obtain rfl : i = 14 := Nat.succ.inj hi
    obtain rfl : '(' = c := Option.some.inj hc
    decide +kernel
  · refine ⟨"a.js", by decide, gaugePage, true, .atHand ⟨gaugePage, some "ui.Größe"⟩ rfl rfl, rfl,
      " ui.Größe.go$ (w.go$(this.go$(".toList, rfl, ?_, by decide +kernel⟩
    refine .inner rfl ⟨" ui.Größe.go$ (w.go$(".toList, "this.go$(".toList, [], by decide +kernel,
      rfl, [], by simp, by decide⟩ ?_
    intro i c hi hc
    obtain rfl : i = 20 := Nat.succ.inj hi
    obtain rfl : '(' = c := Option.some.inj hc
    decide +kernel

end CallSearch
end CodeNav
