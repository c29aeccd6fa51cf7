import CodeNav.Proofs.Navigation.TableOrder
import CodeNav.Proofs.Workspace.StoreOperations
import Mathlib.Data.List.Forall2
import Mathlib.Data.List.Nodup

/-! Navigation does not see what the index loses. A ranking reads the path, the name and the number
of parameters of a record, and no more: tables that agree in these, row by row, are ranked by the
same positions and have the same target. A table that is written and loaded again agrees in all
three with the one that was written. -/
namespace CodeNav
set_option autoImplicit false
open Text

/-- Records that agree in what a ranking reads of them. -/
structure Record.Alike (a b : Record) : Prop where
  file : a.file = b.file
  name : a.name = b.name
  arity : a.arity = b.arity

namespace Lookup

variable (query : Lookup) (namespaces : List String)

/-! ## Single records -/

theorem grade_of_alike {a b : Record} (h : a.Alike b) :
    query.grade? namespaces a = query.grade? namespaces b := by
  simp only [grade?, h.name, h.arity]

theorem prefers_of_alike {a b : Record} (h : a.Alike b) : query.prefers a = query.prefers b := by
  simp only [prefers, h.name, h.file]

/-! ## Positions of rows -/

theorem positions_filter {first second : Table} (h : List.Forall₂ Record.Alike first second)
    (p : Record → Bool) (hp : ∀ a b : Record, a.Alike b → p a = p b) (start : Nat) :
    ((first.zipIdx start).filter fun row => p row.1).map Prod.snd =
      ((second.zipIdx start).filter fun row => p row.1).map Prod.snd := by
  induction h generalizing start with
  | nil => rfl
  | @cons a b first second hab _ ih =>
    rw [List.zipIdx_cons, List.zipIdx_cons, List.filter_cons, List.filter_cons]
    simp only [hp a b hab]
    split
    · rw [List.map_cons, List.map_cons, ih]
    · exact ih (start + 1)

theorem positions_bucket {first second : Table} (h : List.Forall₂ Record.Alike first second)
    (preferred : Bool) (grade : Grade) :
    (query.bucket namespaces first preferred grade).map Prod.snd =
      (query.bucket namespaces second preferred grade).map Prod.snd := by
  refine positions_filter h
    (fun r => query.grade? namespaces r = some grade && query.prefers r == preferred) ?_ 0
  intro a b hab
  rw [query.grade_of_alike namespaces hab, query.prefers_of_alike hab]

theorem positions_ranking {first second : Table} (h : List.Forall₂ Record.Alike first second) :
    (query.ranking namespaces first).map Prod.snd =
      (query.ranking namespaces second).map Prod.snd := by
  simp only [ranking, List.map_flatMap, query.positions_bucket namespaces h]

theorem positions_exact {first second : Table} (h : List.Forall₂ Record.Alike first second) :
    (query.exactRows namespaces first).map Prod.snd =
      (query.exactRows namespaces second).map Prod.snd := by
  refine positions_filter h (fun r => query.grade? namespaces r = some .exact) ?_ 0
  intro a b hab
  rw [query.grade_of_alike namespaces hab]

theorem nodup_positions (table : Table) :
    ((query.ranking namespaces table).map Prod.snd).Nodup := by
  have hranking := query.ranking_isRanking namespaces table
  rw [List.Nodup, List.pairwise_map]
  refine List.Pairwise.imp_of_mem ?_ hranking.nodup
  intro a b ha hb hne hsame
  have hget := ((hranking.mem_iff a).mp ha).1
  rw [hsame, ((hranking.mem_iff b).mp hb).1] at hget
  exact hne (Prod.ext (Option.some.inj hget).symm hsame)

/-! ## The target by positions -/

/-- The search for a record that equals the exact one finds the position of its row. -/
theorem idxOf_position (table : Table) (row : Row)
    (h : query.exactRows namespaces table = [row]) :
    (query.candidates namespaces table).idxOf? row.1 =
      ((query.ranking namespaces table).map Prod.snd).idxOf? row.2 := by
  have honly := (query.only_exactMatch_iff namespaces table row).mpr h
  obtain ⟨i, hi, hrow⟩ := query.idxOf_exact namespaces table row honly
  have hnodup := query.nodup_positions namespaces table
  have hget : ((query.ranking namespaces table).map Prod.snd)[i]? = some row.2 := by
    rw [List.getElem?_map, hrow, Option.map_some]
  obtain ⟨hlt, hat⟩ := List.getElem?_eq_some_iff.mp hget
  rw [hi, eq_comm, List.idxOf?_eq_some_iff]
  refine ⟨hlt, hat, ?_⟩
  intro j hj hsame
  rw [← hat] at hsame
  exact absurd ((List.Nodup.getElem_inj_iff hnodup).mp hsame) (Nat.ne_of_lt hj)

/-- The target is settled by positions of rows: of all candidates, of the exact ones, and of the
exact ones that are preferred. -/
theorem target_eq_positions (table : Table) :
    query.target? namespaces table =
      let all := (query.ranking namespaces table).map Prod.snd
      let leading := (query.bucket namespaces table true .exact).map Prod.snd
      if all.length = 1 then some 0
      else if query.onInstance && leading.length == 1 then some 0
      else (sole? ((query.exactRows namespaces table).map Prod.snd)).bind all.idxOf? := by
  have hbucket := query.bucket_eq namespaces table true .exact
  simp only [beq_true] at hbucket
  have hall : (query.candidates namespaces table).length =
      ((query.ranking namespaces table).map Prod.snd).length := by
    rw [candidates_eq, List.length_map, List.length_map]
  have hleading : ((query.graded namespaces table .exact).filter query.prefers).length =
      ((query.bucket namespaces table true .exact).map Prod.snd).length := by
    rw [hbucket, List.length_map, List.length_map]
  rw [target?]
  simp only [hall, hleading]
  split
  · rfl
  split
  · rfl
  · rw [graded_exact]
    rcases hrows : query.exactRows namespaces table with _ | ⟨row, _ | ⟨other, rows⟩⟩
    · rfl
    · exact query.idxOf_position namespaces table row hrows
    · rfl

theorem target_of_alike {first second : Table} (h : List.Forall₂ Record.Alike first second) :
    (query.rank namespaces first).target = (query.rank namespaces second).target := by
  show query.target? namespaces first = query.target? namespaces second
  rw [target_eq_positions, target_eq_positions, query.positions_ranking namespaces h,
    query.positions_bucket namespaces h, query.positions_exact namespaces h]

end Lookup

/-! ## All but the parameters -/

def Record.bare (r : Record) : Record :=
  { r with params := [] }

/-- An answer without the parameters of the candidates it offers. -/
def GotoOutcome.bare : GotoOutcome → GotoOutcome
  | .choose word candidates => .choose word (candidates.map Record.bare)
  | outcome => outcome

theorem Record.bare_inj {a b : Record} :
    a.bare = b.bare ↔ a.file = b.file ∧ a.name = b.name ∧ a.line = b.line ∧ a.arity = b.arity := by
  simp only [bare, Record.mk.injEq, and_true]

theorem Record.alike_of_bare {a b : Record} (h : a.bare = b.bare) : a.Alike b := by
  obtain ⟨hfile, hname, _, harity⟩ := Record.bare_inj.mp h
  exact ⟨hfile, hname, harity⟩

theorem Table.alike_of_bare {first second : Table}
    (h : first.map Record.bare = second.map Record.bare) :
    List.Forall₂ Record.Alike first second := by
  have hsame : List.Forall₂ (· = ·) (first.map Record.bare) (second.map Record.bare) :=
    List.forall₂_eq_eq_eq ▸ h
  rw [List.forall₂_map_left_iff, List.forall₂_map_right_iff] at hsame
  exact hsame.imp (fun _ _ => Record.alike_of_bare)

theorem Lookup.candidates_bare (query : Lookup) (namespaces : List String) (table : Table) :
    query.candidates namespaces (table.map Record.bare) =
      (query.candidates namespaces table).map Record.bare := by
  have hgrade (r : Record) : query.grade? namespaces r.bare = query.grade? namespaces r :=
    query.grade_of_alike namespaces ⟨rfl, rfl, rfl⟩
  have hprefers (r : Record) : query.prefers r.bare = query.prefers r :=
    query.prefers_of_alike ⟨rfl, rfl, rfl⟩
  simp only [candidates, graded, List.map_flatMap, List.filter_filter, List.filter_map,
    Function.comp_def, hgrade, hprefers]

theorem Service.decide_of_bare {first second : Resolution} (hword : first.word = second.word)
    (harguments : first.arguments = second.arguments) (htarget : first.target = second.target)
    (hbare : first.candidates.map Record.bare = second.candidates.map Record.bare) :
    (decide (some first)).bare = (decide (some second)).bare := by
  have hempty : first.candidates.isEmpty = second.candidates.isEmpty := by
    rw [← List.isEmpty_map (f := Record.bare), hbare, List.isEmpty_map]
  have hrecord : first.targetRecord?.map Record.bare = second.targetRecord?.map Record.bare := by
    simp only [Resolution.targetRecord?, htarget, Option.map_bind, Function.comp_def,
      ← List.getElem?_map, hbare]
  simp only [decide, hword, harguments, hempty]
  split
  · rfl
  cases hfirst : first.targetRecord? with
  | none =>
    rw [hfirst, Option.map_none, eq_comm, Option.map_eq_none_iff] at hrecord
    rw [hrecord]
    exact congrArg (GotoOutcome.choose second.word) hbare
  | some a =>
    rw [hfirst, Option.map_some, eq_comm, Option.map_eq_some_iff] at hrecord
    obtain ⟨b, hsecond, hab⟩ := hrecord
    obtain ⟨hfile, hname, hline, _⟩ := Record.bare_inj.mp hab
    simp only [hsecond, Record.location, Record.lineIndex, hname, hfile, hline]

/-! ## A site -/

theorem Table.isSome_firstStartingWith_of_bare {first second : Table}
    (h : first.map Record.bare = second.map Record.bare) (start : List Char) :
    (first.firstStartingWith? start).isSome = (second.firstStartingWith? start).isSome := by
  have hbare (table : Table) : (table.firstStartingWith? start).isSome =
      (firstStartingWith? (table.map Record.bare) start).isSome := by
    rw [firstStartingWith?, firstStartingWith?, List.find?_map, Option.isSome_map]
    rfl
  rw [hbare first, h, ← hbare]

theorem Lookup.at_of_bare (doc : Document) (pos : Position) {first second : Table}
    (h : first.map Record.bare = second.map Record.bare) :
    at? doc pos first = at? doc pos second := by
  simp only [at?, Document.objectType, Table.symbolPath_eq,
    Table.isSome_firstStartingWith_of_bare h]

theorem Service.resolve_of_bare (doc : Document) (pos : Position) (namespaces : List String)
    {first second : Table} (h : first.map Record.bare = second.map Record.bare) :
    (decide (doc.resolve? pos namespaces first)).bare =
      (decide (doc.resolve? pos namespaces second)).bare := by
  rw [Document.resolve?, Document.resolve?, Lookup.at_of_bare doc pos h]
  cases Lookup.at? doc pos second with
  | none => rfl
  | some query =>
    have htarget := query.target_of_alike namespaces (Table.alike_of_bare h)
    have hcandidates : (query.candidates namespaces first).map Record.bare =
        (query.candidates namespaces second).map Record.bare := by
      rw [← query.candidates_bare, h, query.candidates_bare]
    exact decide_of_bare rfl rfl htarget hcandidates

theorem Service.goto_of_bare (grammar : Grammar) (s : Service) (table : Table) (disk : Disk)
    (doc : Document) (pos : Position) (h : table.map Record.bare = s.table.map Record.bare) :
    ({ s with table := table }.goto grammar disk doc pos).result.map GotoOutcome.bare =
      (s.goto grammar disk doc pos).result.map GotoOutcome.bare := by
  by_cases hempty : s.table = []
  · -- Both tables are empty, so both services fill them from the same files.
    rw [hempty, List.map_nil, List.map_eq_nil_iff] at h
    have hsame : { s with table := table } = s := by rw [h, ← hempty]
    rw [hsame]
  · have hfilled : table ≠ [] := by
      rintro rfl
      exact hempty (List.map_eq_nil_iff.mp h.symm)
    rw [goto, goto, if_neg (mt List.isEmpty_iff.mp hempty), if_neg (mt List.isEmpty_iff.mp hfilled)]
    exact congrArg Except.ok (resolve_of_bare doc pos _ h)

/-! ## Writing and loading -/

theorem Record.bare_normalized (r : Record) (h : r.Unbroken) : r.normalized.bare = r.bare := by
  have hfile := oneLine_of_plain r.file (fun c hc => h c (List.mem_append_left _ hc))
  have hname := oneLine_of_plain r.name (fun c hc => h c (List.mem_append_right _ hc))
  simp only [bare, normalized, hfile, hname]

theorem Table.bare_normalized (table : Table) (h : ∀ r ∈ table, r.Unbroken) :
    (table.map Record.normalized).map Record.bare = table.map Record.bare := by
  rw [List.map_map]
  apply List.map_congr_left
  intro r hr
  exact r.bare_normalized (h r hr)

theorem Store.load_write (store : Store) (table : Table) (disk : Disk) (hfree : table.CommaFree)
    (hok : (store.write table disk).1.isOk = true) :
    store.load (store.write table disk).2 =
      .ok { table := table.map Record.normalized, skipped := 0 } := by
  obtain ⟨temporary, index, h⟩ := write_rewritten store table disk hok
  rw [load_rewritten store table _ _ _ _ h, LoadedIndex.ofBytes_toText table hfree]

namespace Service

/-- Tables that agree, row by row, in paths, names and numbers of parameters are ranked by the same
rows in the same order, with the same target. So a service that loads the table it wrote goes to the
same definitions and offers the same choices, up to the parameters shown. -/
theorem navigation_ignores_lost_fields (query : Lookup) (namespaces : List String)
    (grammar : Grammar) :
    (∀ first second : Table, List.Forall₂ Record.Alike first second →
      (∃ rows others, query.IsRanking namespaces first rows ∧
        query.IsRanking namespaces second others ∧
        (query.rank namespaces first).candidates = rows.map Prod.fst ∧
        (query.rank namespaces second).candidates = others.map Prod.fst ∧
        rows.map Prod.snd = others.map Prod.snd) ∧
      (query.rank namespaces first).target = (query.rank namespaces second).target) ∧
    ∀ (s : Service) (disk : Disk), s.table.CommaFree → (∀ r ∈ s.table, r.Unbroken) →
      (s.store.write s.table disk).1.isOk = true →
      ∃ loaded, s.store.load (s.store.write s.table disk).2 = .ok loaded ∧
        ∀ now doc pos,
          ({ s with table := loaded.table }.goto grammar now doc pos).result.map GotoOutcome.bare =
            (s.goto grammar now doc pos).result.map GotoOutcome.bare := by
  refine ⟨?_, ?_⟩
  · intro first second h
    exact ⟨⟨_, _, query.ranking_isRanking namespaces first,
      query.ranking_isRanking namespaces second, query.candidates_eq namespaces first,
      query.candidates_eq namespaces second, query.positions_ranking namespaces h⟩,
      query.target_of_alike namespaces h⟩
  · intro s disk hfree hunbroken hok
    refine ⟨_, s.store.load_write s.table disk hfree hok, ?_⟩
    intro now doc pos
    exact s.goto_of_bare grammar _ now doc pos (s.table.bare_normalized hunbroken)

/-- The first two records differ in the type of a parameter only, and are equal once loaded again;
the third has a parameter that the index rewrites. -/
def runTable : Table :=
  [{ file := "a.js", name := "Hero.run", line := 3, arity := 1, params := [⟨"x", some "unknown"⟩] },
    { file := "a.js", name := "Hero.run", line := 3, arity := 1, params := [⟨"x", none⟩] },
    { file := "b.js", name := "run", line := 9, arity := 1,
      params := [⟨"{ a: b }", some "{ a: number; b: string }"⟩] }]

def runDisk : Disk :=
  ⟨[], [(["w".toList], .directory)]⟩

def runService : Service :=
  { settings := {}
    admission := Admission.ofSettings runDisk "/w".toList {}
    store := Store.inWorkspace "/w".toList "symbols.index"
    table := runTable
    history := {} }

def runDocument : Document :=
  .ofText "a.js" "this.run(1);".toList

def runQuery : Lookup :=
  { word := "run"
    file := "a.js"
    onInstance := true
    dotted := some "this.run"
    arguments := 1
    enclosingClass := none
    receiverType := none
    objectType := "" }

/-- The two records of the file come first, and the target is the third row before and after. -/
theorem navigation_ignores_lost_fields_of_run :
    List.Forall₂ Record.Alike runTable (runTable.map Record.normalized) ∧
    runTable.CommaFree ∧ (∀ r ∈ runTable, r.Unbroken) ∧
    (runService.store.write runTable runDisk).1.isOk = true ∧
    (runQuery.rank [] runTable).target = some 2 ∧
    (runQuery.rank [] (runTable.map Record.normalized)).target = some 2 ∧
    ∃ loaded, runService.store.load (runService.store.write runTable runDisk).2 = .ok loaded ∧
      ({ runService with table := loaded.table }.goto (Grammar.ofSamples []) runDisk runDocument
        ⟨0, 6⟩).result.map GotoOutcome.bare = .ok (.navigate "run" ⟨"b.js", 8, 0⟩) := by
  have halike : List.Forall₂ Record.Alike runTable (runTable.map Record.normalized) :=
    .cons ⟨rfl, rfl, rfl⟩ (.cons ⟨rfl, rfl, rfl⟩ (.cons ⟨rfl, rfl, rfl⟩ .nil))
  have hfree : runTable.CommaFree := by decide
  have hunbroken : ∀ r ∈ runTable, r.Unbroken := by decide
  have hok : (runService.store.write runTable runDisk).1.isOk = true := by decide +kernel
  have htarget : (runQuery.rank [] runTable).target = some 2 := by decide +kernel
  have hgoto : (runService.goto (Grammar.ofSamples []) runDisk runDocument ⟨0, 6⟩).result =
      .ok (.navigate "run" ⟨"b.js", 8, 0⟩) := by rfl
  obtain ⟨hranks, hreload⟩ := navigation_ignores_lost_fields runQuery [] (Grammar.ofSamples [])
  obtain ⟨loaded, hload, hsame⟩ := hreload runService runDisk hfree hunbroken hok
  refine ⟨halike, hfree, hunbroken, hok, htarget, (hranks _ _ halike).2 ▸ htarget, loaded, hload,
    ?_⟩
  rw [hsame runDisk runDocument ⟨0, 6⟩, hgoto]
  rfl

end Service

end CodeNav
