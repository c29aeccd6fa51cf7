import CodeNav.Proofs.Symbol.TableByFile
import CodeNav.Proofs.Workspace.Extraction

/-! Keeping a table up to date file by file. However changes of the disk and calls for single files
follow each other, a table that was rebuilt once ends as another rebuild would make it, apart from
the order of the files, if each change of a file is followed by a call for it and no file that can
be read was last removed. -/
namespace CodeNav
set_option autoImplicit false
open Text

namespace Store

/-! ## One call -/

theorem inFile_extracted (grammar : Grammar) (store : Store) (disk : Disk) (file other : String) :
    Table.inFile (store.extracted grammar disk file) other =
      if other = file then store.extracted grammar disk file else [] := by
  have hfile := extracted_file grammar store disk file
  by_cases h : other = file
  · rw [if_pos h, h]
    exact Table.inFile_of_all _ file hfile
  · rw [if_neg h]
    exact Table.inFile_of_none _ other (fun r hr he => h (he.symm.trans (hfile r hr)))

theorem update_table (grammar : Grammar) (store : Store) (file : String) (shelf : Shelf) :
    (store.update grammar file shelf).2.table =
      shelf.table.withoutFile file ++ store.extracted grammar shelf.disk file := by
  rw [update_shelf]

theorem inFile_update_self (grammar : Grammar) (store : Store) (file : String) (shelf : Shelf) :
    (store.update grammar file shelf).2.table.inFile file =
      store.extracted grammar shelf.disk file := by
  rw [update_table, Table.inFile_append, Table.inFile_withoutFile_self, inFile_extracted,
    if_pos rfl, List.nil_append]

theorem withoutFile_update (grammar : Grammar) (store : Store) (file : String) (shelf : Shelf) :
    (store.update grammar file shelf).2.table.withoutFile file = shelf.table.withoutFile file := by
  rw [update_table, Table.withoutFile_append, Table.withoutFile_withoutFile,
    Table.withoutFile_of_all _ file (extracted_file grammar store shelf.disk file),
    List.append_nil]

theorem inFile_update_other (grammar : Grammar) (store : Store) (file other : String)
    (shelf : Shelf) (h : other ≠ file) :
    (store.update grammar file shelf).2.table.inFile other = shelf.table.inFile other := by
  rw [update_table, Table.inFile_append, Table.inFile_withoutFile_other _ _ _ h, inFile_extracted,
    if_neg h, List.append_nil]

/-! ## Runs of calls and changes -/

/-- What happens between two rebuilds: the disk changes, or a call is made for a file. -/
inductive Upkeep where
  | change (disk : Disk)
  | update (file : String)
  | remove (file : String)

/-- The file that a call is made for. -/
def Upkeep.file? : Upkeep → Option String
  | .change _ => none
  | .update file => some file
  | .remove file => some file

def tend (grammar : Grammar) (store : Store) (shelf : Shelf) : Upkeep → Shelf
  | .change disk => { shelf with disk }
  | .update file => (store.update grammar file shelf).2
  | .remove file => (store.removeFile file shelf).2

def tendAll (grammar : Grammar) (store : Store) (shelf : Shelf) (steps : List Upkeep) : Shelf :=
  steps.foldl (store.tend grammar) shelf

/-- A run that keeps up with the changes of some files. -/
structure Tended (grammar : Grammar) (store : Store) (files : List String) (start : Shelf)
    (steps : List Upkeep) : Prop where
  /-- Calls are for these files. -/
  within : ∀ step ∈ steps, ∀ file, step.file? = some file → file ∈ files
  /-- The write of the index at the end of a call succeeds. -/
  written : ∀ before step after, steps = before ++ step :: after → step.file? ≠ none →
    (store.write (store.tendAll grammar start (before ++ [step])).table
      (store.tendAll grammar start before).disk).1.isOk = true
  /-- A file whose content changes has a call later on. -/
  attended : ∀ before disk after, steps = before ++ .change disk :: after → ∀ file ∈ files,
    store.content? disk file ≠ store.content? (store.tendAll grammar start before).disk file →
    ∃ step ∈ after, step.file? = some file
  /-- A file whose last call removed it cannot be extracted at the end. -/
  settled : ∀ before file after, steps = before ++ .remove file :: after →
    (∀ step ∈ after, step.file? ≠ some file) →
    (store.extract grammar (store.tendAll grammar start steps).disk file).isOk = false

section Runs
variable {grammar : Grammar} {store : Store} {files : List String} {start : Shelf}
  {step : Upkeep} {rest steps : List Upkeep}

theorem Tended.tail (h : store.Tended grammar files start (step :: rest)) :
    store.Tended grammar files (store.tend grammar start step) rest where
  within later hlater := h.within later (List.mem_cons_of_mem step hlater)
  written before later after hrest := h.written (step :: before) later after (by rw [hrest]; rfl)
  attended before disk after hrest := h.attended (step :: before) disk after (by rw [hrest]; rfl)
  settled before file after hrest := h.settled (step :: before) file after (by rw [hrest]; rfl)

theorem Tended.nil (grammar : Grammar) (store : Store) (files : List String) (start : Shelf) :
    store.Tended grammar files start [] where
  within step hstep := absurd hstep List.not_mem_nil
  written before step after h := absurd h.symm (by simp)
  attended before disk after h := absurd h.symm (by simp)
  settled before file after h := absurd h.symm (by simp)

theorem Tended.cons (hwithin : ∀ file, step.file? = some file → file ∈ files)
    (hwritten : step.file? ≠ none →
      (store.write (store.tend grammar start step).table start.disk).1.isOk = true)
    (hattended : ∀ disk, step = .change disk → ∀ file ∈ files,
      store.content? disk file ≠ store.content? start.disk file →
      ∃ later ∈ rest, later.file? = some file)
    (hsettled : ∀ file, step = .remove file → (∀ later ∈ rest, later.file? ≠ some file) →
      (store.extract grammar (store.tendAll grammar start (step :: rest)).disk file).isOk = false)
    (hrest : store.Tended grammar files (store.tend grammar start step) rest) :
    store.Tended grammar files start (step :: rest) where
  within later hlater := by
    rcases List.mem_cons.mp hlater with rfl | hlater
    · exact hwithin
    · exact hrest.within later hlater
  written before later after h := by
    rcases List.cons_eq_append_iff.mp h with ⟨rfl, hhead⟩ | ⟨before, rfl, hsplit⟩
    · cases hhead
      exact hwritten
    · exact hrest.written before later after hsplit
  attended before disk after h := by
    rcases List.cons_eq_append_iff.mp h with ⟨rfl, hhead⟩ | ⟨before, rfl, hsplit⟩
    · cases hhead
      exact hattended disk rfl
    · exact hrest.attended before disk after hsplit
  settled before file after h := by
    rcases List.cons_eq_append_iff.mp h with ⟨rfl, hhead⟩ | ⟨before, rfl, hsplit⟩
    · cases hhead
      exact hsettled file rfl
    · exact hrest.settled before file after hsplit

theorem Tended.change {disk : Disk}
    (hattended : ∀ file ∈ files, store.content? disk file ≠ store.content? start.disk file →
      ∃ later ∈ rest, later.file? = some file)
    (hrest : store.Tended grammar files { start with disk } rest) :
    store.Tended grammar files start (.change disk :: rest) := by
  refine .cons ?_ (fun h => absurd rfl h) ?_ ?_ hrest
  · intro file h
    cases h
  · intro other h
    cases h
    exact hattended
  · intro file h
    cases h

theorem Tended.update {file : String} (hfile : file ∈ files)
    (hwritten : (store.write (store.update grammar file start).2.table start.disk).1.isOk = true)
    (hrest : store.Tended grammar files (store.update grammar file start).2 rest) :
    store.Tended grammar files start (.update file :: rest) := by
  refine .cons ?_ (fun _ => hwritten) ?_ ?_ hrest
  · intro other h
    cases h
    exact hfile
  · intro disk h
    cases h
  · intro other h
    cases h

theorem Tended.remove {file : String} (hfile : file ∈ files)
    (hwritten : (store.write (store.removeFile file start).2.table start.disk).1.isOk = true)
    (hsettled : (∀ later ∈ rest, later.file? ≠ some file) →
      (store.extract grammar (store.tendAll grammar (store.removeFile file start).2 rest).disk
        file).isOk = false)
    (hrest : store.Tended grammar files (store.removeFile file start).2 rest) :
    store.Tended grammar files start (.remove file :: rest) := by
  refine .cons ?_ (fun _ => hwritten) ?_ ?_ hrest
  · intro other h
    cases h
    exact hfile
  · intro disk h
    cases h
  · intro other h
    cases h
    exact hsettled

/-- None of the files is the index, at any time of a run. -/
def KeptApart (grammar : Grammar) (store : Store) (files : List String) (start : Shelf)
    (steps : List Upkeep) : Prop :=
  ∀ before after, steps = before ++ after → ∀ file ∈ files,
    store.Apart (store.tendAll grammar start before).disk file

theorem KeptApart.tail (h : store.KeptApart grammar files start (step :: rest)) :
    store.KeptApart grammar files (store.tend grammar start step) rest :=
  fun before after hrest => h (step :: before) after (by rw [hrest]; rfl)

theorem KeptApart.nil (h : ∀ file ∈ files, store.Apart start.disk file) :
    store.KeptApart grammar files start [] := by
  intro before after hnil
  obtain ⟨rfl, _⟩ := List.append_eq_nil_iff.mp hnil.symm
  exact h

theorem KeptApart.cons (h : ∀ file ∈ files, store.Apart start.disk file)
    (hrest : store.KeptApart grammar files (store.tend grammar start step) rest) :
    store.KeptApart grammar files start (step :: rest) := by
  intro before after hcons
  rcases List.cons_eq_append_iff.mp hcons with ⟨rfl, _⟩ | ⟨before, rfl, hsplit⟩
  · exact h
  · exact hrest before after hsplit

theorem inFile_tend_other (grammar : Grammar) (store : Store) (shelf : Shelf) (step : Upkeep)
    (file : String) (h : step.file? ≠ some file) :
    (store.tend grammar shelf step).table.inFile file = shelf.table.inFile file := by
  cases step with
  | change disk => rfl
  | update other =>
    exact inFile_update_other grammar store other file shelf (fun he => h (by rw [he]; rfl))
  | remove other =>
    exact Table.inFile_withoutFile_other _ _ _ (fun he => h (by rw [he]; rfl))

theorem inFile_tendAll_other (grammar : Grammar) (store : Store) (shelf : Shelf)
    (steps : List Upkeep) (file : String) (h : ∀ step ∈ steps, step.file? ≠ some file) :
    (store.tendAll grammar shelf steps).table.inFile file = shelf.table.inFile file := by
  induction steps generalizing shelf with
  | nil => rfl
  | cons step rest ih =>
    have hrest := ih (store.tend grammar shelf step)
      (fun later hlater => h later (List.mem_cons_of_mem step hlater))
    exact hrest.trans (inFile_tend_other grammar store shelf step file (h step List.mem_cons_self))

theorem tend_disk (grammar : Grammar) (store : Store) (shelf : Shelf) (step : Upkeep)
    (h : step.file? ≠ none) :
    (store.tend grammar shelf step).disk =
      (store.write (store.tend grammar shelf step).table shelf.disk).2 := by
  cases step with
  | change disk => exact absurd rfl h
  | update file => rw [tend, update_shelf]
  | remove file => rfl

/-- A step that no call for the file follows does not change what is extracted from it. -/
theorem Tended.extracted_tend (h : store.Tended grammar files start (step :: rest))
    (hapart : store.KeptApart grammar files start (step :: rest)) (file : String)
    (hfile : file ∈ files) (hlater : ∀ later ∈ rest, later.file? ≠ some file) :
    store.extracted grammar (store.tend grammar start step).disk file =
      store.extracted grammar start.disk file := by
  by_cases hcall : step.file? = none
  · cases step with
    | update other => cases hcall
    | remove other => cases hcall
    | change disk =>
      apply extracted_of_content
      by_cases hsame : store.content? disk file = store.content? start.disk file
      · exact hsame
      · obtain ⟨later, hin, hcalled⟩ := h.attended [] disk rest rfl file hfile hsame
        exact absurd hcalled (hlater later hin)
  · have hwritten := h.written [] step rest rfl hcall
    obtain ⟨temporary, index, hrewritten⟩ := write_rewritten store _ _ hwritten
    rw [tend_disk grammar store start step hcall]
    exact extracted_rewritten grammar store _ _ _ temporary index file hrewritten
      (hapart [] (step :: rest) rfl file hfile)

/-- The table has of a file what is extracted from it now. -/
def Fresh (grammar : Grammar) (store : Store) (shelf : Shelf) (file : String) : Prop :=
  shelf.table.inFile file = store.extracted grammar shelf.disk file

/-- A file is fresh at the end if it was at the start or a call for it is made. -/
theorem Tended.fresh (h : store.Tended grammar files start steps)
    (hapart : store.KeptApart grammar files start steps) (file : String) (hfile : file ∈ files)
    (hstart : store.Fresh grammar start file ∨ ∃ step ∈ steps, step.file? = some file) :
    store.Fresh grammar (store.tendAll grammar start steps) file := by
  induction steps generalizing start with
  | nil => exact hstart.resolve_right (fun ⟨step, hin, _⟩ => absurd hin List.not_mem_nil)
  | cons step rest ih =>
    by_cases hlater : ∃ later ∈ rest, later.file? = some file
    · exact ih h.tail hapart.tail (.inr hlater)
    -- No call for the file follows this step, so what is extracted from it stays as it is.
    have hnone : ∀ later ∈ rest, later.file? ≠ some file :=
      fun later hin he => hlater ⟨later, hin, he⟩
    have hsame := h.extracted_tend hapart file hfile hnone
    by_cases hcall : step.file? = some file
    · -- The last call for the file: it brings the file up to date, or it is a removal.
      cases step with
      | change disk => cases hcall
      | update other =>
        cases hcall
        refine ih h.tail hapart.tail (.inl ?_)
        rw [Fresh, hsame]
        exact inFile_update_self grammar store file start
      | remove other =>
        cases hcall
        have hgone := inFile_tendAll_other grammar store
          (store.tend grammar start (.remove file)) rest file hnone
        have hfails := h.settled [] file rest rfl hnone
        rw [Fresh, extracted_of_error grammar store _ file hfails]
        exact hgone.trans (Table.inFile_withoutFile_self start.table file)
    · have hfresh : store.Fresh grammar start file := by
        refine hstart.resolve_right ?_
        rintro ⟨later, hin, he⟩
        rcases List.mem_cons.mp hin with rfl | hin
        · exact hcall he
        · exact hnone later hin he
      refine ih h.tail hapart.tail (.inl ?_)
      rw [Fresh, hsame, inFile_tend_other grammar store start step file hcall]
      exact hfresh

theorem Tended.table_within (h : store.Tended grammar files start steps) (file : String)
    (hfile : file ∉ files) (hstart : start.table.inFile file = []) :
    (store.tendAll grammar start steps).table.inFile file = [] := by
  rw [inFile_tendAll_other grammar store start steps file ?_, hstart]
  intro step hin he
  exact hfile (h.within step hin file he)

end Runs

/-! ## Against a rebuild -/

theorem inFile_flatMap (grammar : Grammar) (store : Store) (disk : Disk) (files : List String)
    (hdistinct : files.Nodup) (file : String) :
    Table.inFile (files.flatMap (store.extracted grammar disk)) file =
      if file ∈ files then store.extracted grammar disk file else [] := by
  induction files with
  | nil => rfl
  | cons first files ih =>
    rw [List.nodup_cons] at hdistinct
    rw [List.flatMap_cons, Table.inFile_append, inFile_extracted, ih hdistinct.2]
    by_cases hfirst : file = first
    · subst hfirst
      simp [hdistinct.1]
    · simp [hfirst]

theorem rebuild_ok (grammar : Grammar) (store : Store) (files : List String) (shelf : Shelf)
    (h : (store.rebuild grammar files shelf).result.isOk = true) :
    ∃ cleared, store.clear shelf.disk = .ok cleared ∧
      (store.write (files.flatMap (store.extracted grammar cleared)) cleared).1.isOk = true := by
  cases hc : store.clear shelf.disk with
  | error cause =>
    rw [rebuild, hc] at h
    cases h
  | ok cleared =>
    refine ⟨cleared, rfl, ?_⟩
    rw [rebuild_result grammar store files shelf cleared hc] at h
    cases hw : (store.write (files.flatMap (store.extracted grammar cleared)) cleared).1 with
    | ok value => rfl
    | error cause =>
      rw [hw] at h
      cases h

theorem inFile_rebuild (grammar : Grammar) (store : Store) (files : List String) (shelf : Shelf)
    (hdistinct : files.Nodup) (h : (store.rebuild grammar files shelf).result.isOk = true)
    (hapart : ∀ file ∈ files, store.Apart shelf.disk file) (file : String) :
    (store.rebuild grammar files shelf).shelf.table.inFile file =
      if file ∈ files then store.extracted grammar shelf.disk file else [] := by
  obtain ⟨cleared, hclear, _⟩ := rebuild_ok grammar store files shelf h
  rw [rebuild_shelf grammar store files shelf cleared hclear,
    inFile_flatMap grammar store cleared files hdistinct file]
  by_cases hfile : file ∈ files
  · rw [if_pos hfile, if_pos hfile,
      extracted_cleared grammar store shelf.disk cleared file hclear (hapart file hfile)]
  · rw [if_neg hfile, if_neg hfile]

theorem sameDirectories_rebuild (grammar : Grammar) (store : Store) (files : List String)
    (shelf : Shelf) (h : (store.rebuild grammar files shelf).result.isOk = true) :
    Disk.SameDirectories shelf.disk (store.rebuild grammar files shelf).shelf.disk := by
  obtain ⟨cleared, hclear, hwrite⟩ := rebuild_ok grammar store files shelf h
  obtain ⟨temporary, index, hrewritten⟩ := write_rewritten store _ _ hwrite
  rw [rebuild_shelf grammar store files shelf cleared hclear]
  exact (sameDirectories_clear store shelf.disk cleared hclear).trans hrewritten.directories

theorem fresh_rebuild (grammar : Grammar) (store : Store) (files : List String) (shelf : Shelf)
    (hdistinct : files.Nodup) (h : (store.rebuild grammar files shelf).result.isOk = true)
    (file : String) (hfile : file ∈ files) (hapart : store.Apart shelf.disk file) :
    store.Fresh grammar (store.rebuild grammar files shelf).shelf file := by
  obtain ⟨cleared, hclear, hwrite⟩ := rebuild_ok grammar store files shelf h
  obtain ⟨temporary, index, hrewritten⟩ := write_rewritten store _ _ hwrite
  have hcleared := apart_of_same store shelf.disk cleared file
    (sameDirectories_clear store shelf.disk cleared hclear) hapart
  rw [Fresh, rebuild_shelf grammar store files shelf cleared hclear,
    inFile_flatMap grammar store cleared files hdistinct file, if_pos hfile]
  exact (extracted_rewritten grammar store _ _ _ temporary index file hrewritten hcleared).symm

/-- Between two rebuilds of the same files, calls that keep up with the changes make the table that
the second rebuild makes: the records of each file agree with their order, so the tables differ in
the order of the files only. One update touches the records of its file alone, and makes them what
is extracted at that time. -/
theorem upkeep_agrees_with_rebuild (grammar : Grammar) (store : Store) (files : List String)
    (start : Shelf) (steps : List Upkeep) (hdistinct : files.Nodup)
    (hstart : (store.rebuild grammar files start).result.isOk = true)
    (htended : store.Tended grammar files (store.rebuild grammar files start).shelf steps)
    (hapart : store.KeptApart grammar files (store.rebuild grammar files start).shelf steps)
    (hend : (store.rebuild grammar files (store.tendAll grammar
      (store.rebuild grammar files start).shelf steps)).result.isOk = true) :
    let tended := store.tendAll grammar (store.rebuild grammar files start).shelf steps
    let rebuilt := (store.rebuild grammar files tended).shelf
    tended.table.Perm rebuilt.table ∧
    (∀ file, tended.table.inFile file = rebuilt.table.inFile file) ∧
    ∀ (file : String) (shelf : Shelf),
      (store.update grammar file shelf).2.table.withoutFile file = shelf.table.withoutFile file ∧
      (store.update grammar file shelf).2.table.inFile file =
        (store.extract grammar shelf.disk file).toOption.getD [] := by
  intro tended rebuilt
  have hdirs := (sameDirectories_rebuild grammar store files start hstart).symm
  have hapartStart : ∀ file ∈ files, store.Apart start.disk file := fun file hfile =>
    apart_of_same store _ _ file hdirs (hapart [] steps rfl file hfile)
  have hfiles : ∀ file, tended.table.inFile file = rebuilt.table.inFile file := by
    intro file
    have hrebuilt := inFile_rebuild grammar store files tended hdistinct hend
      (hapart steps [] (List.append_nil steps).symm) file
    rw [hrebuilt]
    by_cases hfile : file ∈ files
    · rw [if_pos hfile]
      have hfresh := fresh_rebuild grammar store files start hdistinct hstart file hfile
        (hapartStart file hfile)
      exact htended.fresh hapart file hfile (.inl hfresh)
    · rw [if_neg hfile]
      apply htended.table_within file hfile
      rw [inFile_rebuild grammar store files start hdistinct hstart hapartStart file,
        if_neg hfile]
  refine ⟨Table.perm_of_inFile _ _ hfiles, hfiles, ?_⟩
  intro file shelf
  exact ⟨withoutFile_update grammar store file shelf, inFile_update_self grammar store file shelf⟩

/-! ## Two files -/

/-- A script with one record. As a line of the index, the record is a script too. -/
def outerText : List Char :=
  "var ns = \x7b \"y;var w=\x7b'*///':function()\x7b\x7d\x7d;/*\": function () \x7b\x7d \x7d;".toList

/-- That line, and after it the line of the one record of the script that it is. -/
def innerText : List Char :=
  "b.js,ns.y;var w=\x7b'*///':function()\x7b\x7d\x7d;/*,1,0,\na.js,w.*///,1,0,".toList

/-- A variable bound to a literal with one function in it, each node given by its extent. -/
def literalTree (statement declarator name object pair key function : Nat × Nat) : Node :=
  let node (kind : Kind) (role : Role) (extent : Nat × Nat) : List Node → Node :=
    .mk ⟨kind, role, 0, extent.1, extent.2⟩
  node .variableStatement .other statement
    [node .variableDeclarator .other declarator
      [node .identifier .name name [],
        node .object .value object
          [node .pair .other pair
            [node .quoted .key key [], node .functionValue .value function []]]]]

def pairGrammar : Grammar :=
  .ofSamples
    [⟨.javaScript, outerText,
        literalTree (0, 64) (4, 63) (4, 6) (9, 63) (11, 61) (11, 45) (47, 61)⟩,
      ⟨.javaScript, innerText,
        literalTree (10, 38) (14, 37) (14, 15) (16, 37) (17, 36) (17, 23) (24, 36)⟩]

def pairFiles : List String := ["a.js", "b.js"]

def pairStart : Shelf :=
  { disk := ⟨[], [(["w".toList], .directory),
      (["w".toList, "b.js".toList], .file (Utf8.encode outerText))]⟩
    table := [] }

/-- The workspace of the two files with an index of a given name. -/
def pairStore (index : String) : Store :=
  Store.inWorkspace "/w".toList index

def pairRebuilt (index : String) : Shelf :=
  ((pairStore index).rebuild pairGrammar pairFiles pairStart).shelf

/-- The disk of a rebuilt shelf once the first file is written. -/
def pairChanged (index : String) : Disk :=
  (pairRebuilt index).disk.put ["w".toList, "a.js".toList] (.file (Utf8.encode innerText))

/-- The second file is deleted as the first is written; then each gets its call. -/
def pairSteps : List Upkeep :=
  [.change ((pairChanged "symbols.index").erase ["w".toList, "b.js".toList]), .update "a.js",
    .remove "b.js"]

theorem pairSteps_tended : (pairStore "symbols.index").Tended pairGrammar pairFiles
    (pairRebuilt "symbols.index") pairSteps := by
  have hcalled : ∀ file ∈ pairFiles,
      ∃ later ∈ [Upkeep.update "a.js", .remove "b.js"], later.file? = some file := by decide
  apply Tended.change (fun file hfile _ => hcalled file hfile)
  apply Tended.update (by decide) (by decide +kernel)
  apply Tended.remove (by decide) (by decide +kernel)
  · intro _
    decide +kernel
  · exact Tended.nil _ _ _ _

theorem pairSteps_apart : (pairStore "symbols.index").KeptApart pairGrammar pairFiles
    (pairRebuilt "symbols.index") pairSteps := by
  refine .cons ?_ (.cons ?_ (.cons ?_ (.nil ?_))) <;> decide +kernel

/-- After the run the table has the record of the first file alone, as a rebuild makes it. -/
theorem upkeep_agrees_for_pair :
    pairFiles.Nodup ∧
    ((pairStore "symbols.index").rebuild pairGrammar pairFiles pairStart).result.isOk = true ∧
    (pairStore "symbols.index").Tended pairGrammar pairFiles (pairRebuilt "symbols.index")
      pairSteps ∧
    (pairStore "symbols.index").KeptApart pairGrammar pairFiles (pairRebuilt "symbols.index")
      pairSteps ∧
    ((pairStore "symbols.index").rebuild pairGrammar pairFiles
      ((pairStore "symbols.index").tendAll pairGrammar (pairRebuilt "symbols.index")
        pairSteps)).result.isOk = true ∧
    ((pairStore "symbols.index").tendAll pairGrammar (pairRebuilt "symbols.index")
      pairSteps).table.Perm
      ((pairStore "symbols.index").rebuild pairGrammar pairFiles
        ((pairStore "symbols.index").tendAll pairGrammar (pairRebuilt "symbols.index")
          pairSteps)).shelf.table := by
  have hdistinct : pairFiles.Nodup := by decide
  have hstart : ((pairStore "symbols.index").rebuild pairGrammar pairFiles
      pairStart).result.isOk = true := by decide +kernel
  have hend : ((pairStore "symbols.index").rebuild pairGrammar pairFiles
      ((pairStore "symbols.index").tendAll pairGrammar (pairRebuilt "symbols.index")
        pairSteps)).result.isOk = true := by decide +kernel
  exact ⟨hdistinct, hstart, pairSteps_tended, pairSteps_apart, hend,
    (upkeep_agrees_with_rebuild pairGrammar (pairStore "symbols.index") pairFiles pairStart
      pairSteps hdistinct hstart pairSteps_tended pairSteps_apart hend).1⟩

/-- The first file is the index, and is written with the text that the index then has. -/
def selfSteps : List Upkeep :=
  [.change (pairChanged "a.js"), .update "a.js"]

/-- A file that is the index escapes: a rebuild removes it before it is read. The call leaves the
contents of both files as the change made them. -/
theorem upkeep_disagrees_for_index :
    pairFiles.Nodup ∧
    ((pairStore "a.js").rebuild pairGrammar pairFiles pairStart).result.isOk = true ∧
    (pairStore "a.js").Tended pairGrammar pairFiles (pairRebuilt "a.js") selfSteps ∧
    (∀ file ∈ pairFiles, (pairStore "a.js").content?
      ((pairStore "a.js").tendAll pairGrammar (pairRebuilt "a.js") selfSteps).disk file =
        (pairStore "a.js").content? (pairChanged "a.js") file) ∧
    ((pairStore "a.js").rebuild pairGrammar pairFiles
      ((pairStore "a.js").tendAll pairGrammar (pairRebuilt "a.js") selfSteps)).result.isOk = true ∧
    ¬ ((pairStore "a.js").tendAll pairGrammar (pairRebuilt "a.js") selfSteps).table.Perm
      ((pairStore "a.js").rebuild pairGrammar pairFiles
        ((pairStore "a.js").tendAll pairGrammar (pairRebuilt "a.js")
          selfSteps)).shelf.table := by
  refine ⟨by decide, by decide +kernel, ?_, by decide +kernel, by decide +kernel, ?_⟩
  · -- Only the first file changes, and it is the one that is called for.
    have hother : (pairStore "a.js").content? (pairChanged "a.js") "b.js" =
        (pairStore "a.js").content? (pairRebuilt "a.js").disk "b.js" := by decide +kernel
    apply Tended.change
    · intro file hfile hchanged
      simp only [pairFiles, List.mem_cons, List.not_mem_nil, or_false] at hfile
      rcases hfile with rfl | rfl
      · exact ⟨_, List.mem_singleton_self _, rfl⟩
      · exact absurd hother hchanged
    · exact Tended.update (by decide) (by decide +kernel) (Tended.nil _ _ _ _)
  · intro hperm
    have htwo : ((pairStore "a.js").tendAll pairGrammar (pairRebuilt "a.js")
        selfSteps).table.length = 2 := by decide +kernel
    have hone : ((pairStore "a.js").rebuild pairGrammar pairFiles
        ((pairStore "a.js").tendAll pairGrammar (pairRebuilt "a.js")
          selfSteps)).shelf.table.length = 1 := by decide +kernel
    have hlength := hperm.length_eq
    rw [htwo, hone] at hlength
    cases hlength

end Store

end CodeNav
