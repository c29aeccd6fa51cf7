import CodeNav.Proofs.Workspace.DiskNames

/-! Records told apart by file, name and line. One extraction lists no name twice for a line, no
file is listed twice, and an update drops all records of its file before it adds others; so in a
run that starts from an empty table, no two records ever have the same file, name and line. -/
namespace CodeNav
set_option autoImplicit false
open Text

def Record.key (r : Record) : String × String × UInt32 :=
  (r.file, r.name, r.line)

namespace Table

def DistinctKeys (table : Table) : Prop :=
  (table.map Record.key).Nodup

theorem distinctKeys_filter {table : Table} (h : table.DistinctKeys) (p : Record → Bool) :
    DistinctKeys (table.filter p) :=
  List.Nodup.sublist (List.filter_sublist.map _) h

theorem distinctKeys_append {first second : Table} (h1 : first.DistinctKeys)
    (h2 : second.DistinctKeys) (h : ∀ a ∈ first, ∀ b ∈ second, a.file ≠ b.file) :
    DistinctKeys (first ++ second) := by
  rw [DistinctKeys, List.map_append, List.nodup_append]
  refine ⟨h1, h2, ?_⟩
  intro key hkey other hother hsame
  obtain ⟨a, ha, rfl⟩ := List.mem_map.mp hkey
  obtain ⟨b, hb, rfl⟩ := List.mem_map.mp hother
  exact h a ha b hb (congrArg Prod.fst hsame)

end Table

namespace Source

/-! ## One extraction -/

def entry (d : Declaration) : String × UInt32 :=
  (d.qualifiedName, d.line)

theorem toRecord_key (file : String) (d : Declaration) :
    (d.toRecord file).key = (file, entry d) := by
  rw [Record.key, Declaration.toRecord]
  cases d.params <;> rfl

theorem entry_not_seen (seen : List (String × UInt32)) (ds : List Declaration) :
    ∀ d ∈ indexable seen ds, entry d ∉ seen := by
  induction ds generalizing seen with
  | nil => exact fun d hd => absurd hd List.not_mem_nil
  | cons d ds ih =>
    intro e he
    rw [indexable] at he
    split at he
    · exact ih seen e he
    · next hkeep =>
      rw [Bool.or_eq_true, not_or, decide_eq_true_eq] at hkeep
      rcases List.mem_cons.mp he with rfl | he
      · exact hkeep.2
      · exact fun hmem => ih _ e he (List.mem_cons_of_mem _ hmem)

theorem nodup_indexable (seen : List (String × UInt32)) (ds : List Declaration) :
    ((indexable seen ds).map entry).Nodup := by
  induction ds generalizing seen with
  | nil => exact List.nodup_nil
  | cons d ds ih =>
    rw [indexable]
    split
    · exact ih seen
    · rw [List.map_cons, List.nodup_cons]
      refine ⟨?_, ih _⟩
      -- What is listed later was checked against this entry too.
      intro hmem
      obtain ⟨e, he, hsame⟩ := List.mem_map.mp hmem
      have hnot := entry_not_seen _ ds e he
      rw [hsame] at hnot
      exact hnot List.mem_cons_self

theorem records_distinctKeys (source : Source) (file : String) (tree : Node) :
    Table.DistinctKeys (source.records file tree) := by
  have hkeys : (source.records file tree).map Record.key =
      ((indexable [] (source.declarations tree)).map entry).map (fun e => (file, e)) := by
    rw [records, List.map_map, List.map_map]
    apply List.map_congr_left
    intro d _
    exact toRecord_key file d
  rw [Table.DistinctKeys, hkeys]
  exact List.Pairwise.map _ (fun _ _ hne h => hne (congrArg Prod.snd h)) (nodup_indexable [] _)

end Source

namespace Store

/-! ## Operations -/

theorem extracted_distinctKeys (grammar : Grammar) (store : Store) (disk : Disk) (file : String) :
    Table.DistinctKeys (store.extracted grammar disk file) := by
  cases he : store.extract grammar disk file with
  | error cause =>
    rw [extracted_of_error grammar store disk file (by rw [he]; rfl)]
    exact List.nodup_nil
  | ok found =>
    rw [extracted_of_ok grammar store disk file found he]
    obtain ⟨dialect, bytes, tree, _, _, _, rfl⟩ := extract_ok grammar store disk file found he
    exact Source.records_distinctKeys _ file _

theorem flatMap_distinctKeys (grammar : Grammar) (store : Store) (disk : Disk)
    (files : List String) (h : files.Nodup) :
    Table.DistinctKeys (files.flatMap (store.extracted grammar disk)) := by
  induction files with
  | nil => exact List.nodup_nil
  | cons file files ih =>
    rw [List.nodup_cons] at h
    rw [List.flatMap_cons]
    apply Table.distinctKeys_append (extracted_distinctKeys grammar store disk file) (ih h.2)
    intro a ha b hb hsame
    obtain ⟨other, hother, hin⟩ := List.mem_flatMap.mp hb
    have hfile := extracted_file grammar store disk file a ha
    have hfile' := extracted_file grammar store disk other b hin
    rw [hfile, hfile'] at hsame
    exact h.1 (hsame ▸ hother)

theorem perform_distinctKeys (grammar : Grammar) (store : Store) (shelf : Shelf) (op : Operation)
    (hfiles : ∀ files, op = .rebuild files → files.Nodup) (h : shelf.table.DistinctKeys) :
    (store.perform grammar shelf op).table.DistinctKeys := by
  cases op with
  | rebuild files =>
    rw [perform]
    cases hc : store.clear shelf.disk with
    | error cause =>
      rw [rebuild, hc]
      exact h
    | ok cleared =>
      rw [rebuild_shelf grammar store files shelf cleared hc]
      exact flatMap_distinctKeys grammar store cleared files (hfiles files rfl)
  | update file =>
    rw [perform, update_shelf]
    apply Table.distinctKeys_append (Table.distinctKeys_filter h _)
      (extracted_distinctKeys grammar store shelf.disk file)
    intro a ha b hb hsame
    rw [extracted_file grammar store shelf.disk file b hb] at hsame
    exact bne_iff_ne.mp (List.mem_filter.mp ha).2 hsame
  | removeFile file => exact Table.distinctKeys_filter h _
  | removeDirectory dir =>
    rw [perform, removeDirectory_shelf]
    exact Table.distinctKeys_filter h _

end Store

namespace World

/-! ## Runs -/

/-- No file of the workspace has a backslash in its path. -/
def PlainFiles (w : World) : Prop :=
  ∀ names ∈ w.disk.filesBelow w.service.admission.root, ∀ name ∈ names, '\\' ∉ name

instance (w : World) : Decidable w.PlainFiles :=
  inferInstanceAs (Decidable (∀ names ∈ _, ∀ name ∈ names, _))

/-- The worlds of all runs of a service that is opened where there is no index, and never opened
again: commands that may fail in any way, between arbitrary changes of the disk. -/
inductive Served (grammar : Grammar) : World → Prop where
  | opened (disk : Disk) (root : List Char) (settings : Settings) (service : Service)
      (hdisk : disk.Regular) (hopen : Service.openWith disk root settings = .ok service)
      (hindex : service.store.stored disk = none) : Served grammar ⟨disk, service⟩
  | command (w : World) (c : Command) (hw : Served grammar w) (hplain : w.PlainFiles)
      (hopened : ∀ root settings, c ≠ .reopen root settings) : Served grammar (w.after grammar c)
  | change (w : World) (disk : Disk) (hw : Served grammar w) (hdisk : disk.Regular) :
      Served grammar ⟨disk, w.service⟩

structure Keyed (w : World) : Prop where
  regular : w.disk.Regular
  distinct : w.service.table.DistinctKeys

theorem nodup_discover (a : Admission) (disk : Disk) (hdisk : disk.WellFormed)
    (hplain : ∀ names ∈ disk.filesBelow a.root, ∀ name ∈ names, '\\' ∉ name) :
    (a.discover disk).Nodup := by
  apply (a.discover_ascending disk hdisk hplain).imp
  rintro x y hlt rfl
  exact String.lt_irrefl x hlt

theorem nodup_of_operation (w : World) (c : Command) (hdisk : w.disk.WellFormed)
    (hplain : w.PlainFiles) (files : List String) (h : w.operation? c = some (.rebuild files)) :
    files.Nodup := by
  have hlisted := nodup_discover w.service.admission w.disk hdisk hplain
  cases c with
  | rebuild => cases h; exact hlisted
  | goto doc pos =>
    rw [operation?] at h
    split at h
    · cases h
      exact hlisted
    · cases h
  | event event =>
    cases event with
    | changed path =>
      obtain ⟨file, _, hfile⟩ := Option.bind_eq_some_iff.mp h
      split at hfile <;> cases hfile
    | removed path =>
      obtain ⟨file, _, hfile⟩ := Option.map_eq_some_iff.mp h
      split at hfile <;> cases hfile
  | reopen root settings => cases h
  | update file => cases h
  | remove file => cases h

theorem keyed_after (grammar : Grammar) (w : World) (c : Command) (h : w.Keyed)
    (hplain : w.PlainFiles) (hopened : ∀ root settings, c ≠ .reopen root settings) :
    (w.after grammar c).Keyed := by
  cases hop : w.operation? c with
  | none =>
    rw [after_of_idle grammar w c hop hopened]
    exact h
  | some op =>
    rw [after_of_operation grammar w c op hop]
    have hfiles : ∀ files, op = .rebuild files → files.Nodup := by
      rintro files rfl
      exact nodup_of_operation w c h.regular.wellFormed hplain files hop
    exact ⟨w.service.store.regular_perform grammar w.shelf op h.regular,
      w.service.store.perform_distinctKeys grammar w.shelf op hfiles h.distinct⟩

theorem keyed_opened (disk : Disk) (root : List Char) (settings : Settings) (service : Service)
    (hdisk : disk.Regular) (hopen : Service.openWith disk root settings = .ok service)
    (hindex : service.store.stored disk = none) : Keyed ⟨disk, service⟩ := by
  obtain ⟨loaded, hload, htable⟩ := openWith_ok disk root settings service hopen
  have habsent : ¬ disk.isPresent service.store.indexPath = true := by
    intro hpresent
    rw [Store.stored, if_pos hpresent] at hindex
    cases hindex
  rw [Store.load, if_neg habsent] at hload
  cases hload
  refine ⟨hdisk, ?_⟩
  rw [htable]
  exact List.nodup_nil

theorem Served.keyed {grammar : Grammar} {w : World} (h : Served grammar w) : w.Keyed := by
  induction h with
  | opened disk root settings service hdisk hopen hindex =>
    exact keyed_opened disk root settings service hdisk hopen hindex
  | command w c _ hplain hopened ih => exact keyed_after grammar w c ih hplain hopened
  | change w disk _ hdisk ih => exact ⟨hdisk, ih.distinct⟩

/-- Whatever commands and changes of the disk follow each other, no two records of the table have
the same file, name and line. -/
theorem keys_stay_distinct (grammar : Grammar) (w : World) (h : Served grammar w) :
    w.service.table.Pairwise fun a b =>
      ¬ (a.file = b.file ∧ a.name = b.name ∧ a.line = b.line) := by
  apply (List.pairwise_map.mp h.keyed.distinct).imp
  rintro a b hne ⟨hfile, hname, hline⟩
  exact hne (by rw [Record.key, Record.key, hfile, hname, hline])

def twiceText : List Char :=
  "a.b = 1; a.b = 2;".toList

/-- A tree that assigns to one path twice on one line. -/
def twiceTree : Node :=
  let node (kind : Kind) (role : Role) (start stop : Nat) : List Node → Node :=
    .mk ⟨kind, role, 0, start, stop⟩
  let assigned (start : Nat) : Node :=
    node .expressionStatement .other start (start + 8)
      [node .assignment .other start (start + 7)
        [node .member .left start (start + 3)
          [node .identifier .object start (start + 1) [],
            node .propertyName .property (start + 2) (start + 3) []],
          node .number .right (start + 6) (start + 7) []]]
  node .other .other 0 17 [assigned 0, assigned 9]

def twiceGrammar : Grammar :=
  .ofSamples [⟨.javaScript, twiceText, twiceTree⟩]

def twiceDisk : Disk :=
  ⟨[], [(["w".toList], .directory),
    (["w".toList, "a.js".toList], .file (Utf8.encode twiceText))]⟩

def twiceOpened : World :=
  { disk := twiceDisk
    service :=
      { settings := {}
        admission := Admission.ofSettings twiceDisk "/w".toList {}
        store := Store.inWorkspace "/w".toList "symbols.index"
        table := []
        history := {} } }

/-- The file is listed, taken in under another spelling of its path, and reported as changed. -/
def twiceServed : World :=
  ((twiceOpened.after twiceGrammar .rebuild).after twiceGrammar (.update "./a.js")).after
    twiceGrammar (.event (.changed "/w/a.js".toList))

theorem keys_stay_distinct_twice :
    Served twiceGrammar twiceServed ∧
    twiceServed.service.table.map Record.key = [("./a.js", "a.b", 1), ("a.js", "a.b", 1)] ∧
    twiceServed.service.table.Pairwise fun a b =>
      ¬ (a.file = b.file ∧ a.name = b.name ∧ a.line = b.line) := by
  have hregular : twiceDisk.Regular :=
    ⟨⟨by decide +kernel, by decide +kernel⟩, fun _ h => absurd h List.not_mem_nil⟩
  have hopened : Served twiceGrammar twiceOpened :=
    .opened twiceDisk "/w".toList {} twiceOpened.service hregular rfl (by decide +kernel)
  have hrebuilt := hopened.command _ .rebuild (by decide +kernel) nofun
  have hupdated := hrebuilt.command _ (.update "./a.js") (by decide +kernel) nofun
  have hserved : Served twiceGrammar twiceServed :=
    hupdated.command _ (.event (.changed "/w/a.js".toList)) (by decide +kernel) nofun
  exact ⟨hserved, by decide +kernel, keys_stay_distinct twiceGrammar twiceServed hserved⟩

end World

end CodeNav
