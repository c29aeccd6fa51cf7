import CodeNav.Proofs.Navigation.RankOrder
import CodeNav.Workspace.Service

/-! The candidate to go to without asking. A row of the table decides the search if it is the only
candidate, else on the instance the only exact one of the file, else the only exact one. The target
is the position of that row in the ranking, and there is none when no row decides; the answer to a
search for a definition follows from it. -/
namespace CodeNav
set_option autoImplicit false
open Text

namespace Lookup

variable (query : Lookup) (namespaces : List String)

/-! ## The row that decides -/

def Only (p : Row → Prop) (row : Row) : Prop :=
  p row ∧ ∀ other, p other → other = row

def IsMatch (table : Table) (row : Row) : Prop :=
  table[row.2]? = some row.1 ∧ query.IsCandidate row.1

def IsExactMatch (table : Table) (row : Row) : Prop :=
  query.IsMatch table row ∧ query.IsExact namespaces row.1

def IsLocalMatch (table : Table) (row : Row) : Prop :=
  query.IsExactMatch namespaces table row ∧ row.1.file = query.file

/-- The first case that applies decides. -/
inductive Decides (table : Table) (row : Row) : Prop where
  | single (h : Only (query.IsMatch table) row)
  | onInstance (hmany : ¬ ∃ other, Only (query.IsMatch table) other)
    (hinstance : query.onInstance = true) (h : Only (query.IsLocalMatch namespaces table) row)
  | exact (hmany : ¬ ∃ other, Only (query.IsMatch table) other)
    (hlocal : ¬ (query.onInstance = true ∧
      ∃ other, Only (query.IsLocalMatch namespaces table) other))
    (h : Only (query.IsExactMatch namespaces table) row)

theorem exists_decides_iff (table : Table) :
    (∃ row, query.Decides namespaces table row) ↔
      (∃ row, Only (query.IsMatch table) row) ∨
      (query.onInstance = true ∧ ∃ row, Only (query.IsLocalMatch namespaces table) row) ∨
      ∃ row, Only (query.IsExactMatch namespaces table) row := by
  constructor
  · rintro ⟨row, h | ⟨_, hinstance, h⟩ | ⟨_, _, h⟩⟩
    · exact .inl ⟨row, h⟩
    · exact .inr (.inl ⟨hinstance, row, h⟩)
    · exact .inr (.inr ⟨row, h⟩)
  · intro h
    by_cases hmatch : ∃ row, Only (query.IsMatch table) row
    · obtain ⟨row, hrow⟩ := hmatch
      exact ⟨row, .single hrow⟩
    by_cases hlocal : query.onInstance = true ∧
        ∃ row, Only (query.IsLocalMatch namespaces table) row
    · obtain ⟨hinstance, row, hrow⟩ := hlocal
      exact ⟨row, .onInstance hmatch hinstance hrow⟩
    · obtain ⟨row, hrow⟩ := (h.resolve_left hmatch).resolve_left hlocal
      exact ⟨row, .exact hmatch hlocal hrow⟩

/-! ## Single rows -/

/-- A list that holds the rows with a property once has one element exactly if there is one row. -/
theorem only_iff_eq_singleton {p : Row → Prop} {rows : List Row} (hnodup : rows.Nodup)
    (hmem : ∀ row, row ∈ rows ↔ p row) (row : Row) : Only p row ↔ rows = [row] := by
  constructor
  · rintro ⟨hrow, hall⟩
    rw [← List.perm_singleton, List.perm_ext_iff_of_nodup hnodup (List.pairwise_singleton _ row)]
    intro other
    rw [hmem, List.mem_singleton]
    exact ⟨hall other, fun h => h ▸ hrow⟩
  · rintro rfl
    exact ⟨(hmem row).mp (List.mem_singleton_self row),
      fun other hother => List.mem_singleton.mp ((hmem other).mpr hother)⟩

theorem nodup_filter_zipIdx (table : Table) (p : Row → Bool) : (table.zipIdx.filter p).Nodup := by
  apply ((zipIdx_ascending table).filter p).imp
  rintro a b hlt rfl
  exact Nat.lt_irrefl _ hlt

def exactRows (table : Table) : List Row :=
  table.zipIdx.filter fun row => query.grade? namespaces row.1 = some .exact

theorem only_match_iff (table : Table) (row : Row) :
    Only (query.IsMatch table) row ↔ query.ranking namespaces table = [row] :=
  only_iff_eq_singleton (query.ranking_isRanking namespaces table).nodup
    (query.mem_ranking namespaces table) row

theorem only_exactMatch_iff (table : Table) (row : Row) :
    Only (query.IsExactMatch namespaces table) row ↔ query.exactRows namespaces table = [row] := by
  have hnodup : (query.exactRows namespaces table).Nodup := nodup_filter_zipIdx table _
  refine only_iff_eq_singleton hnodup (fun other => ?_) row
  rw [exactRows, List.mem_filter, List.mem_zipIdx_iff_getElem?, decide_eq_true_eq,
    grade_eq_some_iff, hasGrade_exact_iff, ← and_assoc]
  rfl

theorem only_localMatch_iff (table : Table) (hinstance : query.onInstance = true) (row : Row) :
    Only (query.IsLocalMatch namespaces table) row ↔
      query.bucket namespaces table true .exact = [row] := by
  have hnodup : (query.bucket namespaces table true .exact).Nodup := nodup_filter_zipIdx table _
  refine only_iff_eq_singleton hnodup (fun other => ?_) row
  rw [mem_bucket, prefers_iff, IsPreferred, if_pos hinstance, grade_eq_some_iff,
    hasGrade_exact_iff, ← and_assoc, ← and_assoc]
  rfl

theorem graded_exact (table : Table) :
    query.graded namespaces table .exact = (query.exactRows namespaces table).map Prod.fst := by
  rw [graded, exactRows, ← filter_zipIdx]

theorem length_candidates (table : Table) :
    (query.candidates namespaces table).length = 1 ↔ ∃ row, Only (query.IsMatch table) row := by
  rw [candidates_eq, List.length_map, List.length_eq_one_iff]
  exact exists_congr (fun row => (query.only_match_iff namespaces table row).symm)

theorem length_exact (table : Table) :
    (query.graded namespaces table .exact).length = 1 ↔
      ∃ row, Only (query.IsExactMatch namespaces table) row := by
  rw [graded_exact, List.length_map, List.length_eq_one_iff]
  exact exists_congr (fun row => (query.only_exactMatch_iff namespaces table row).symm)

theorem length_local (table : Table) :
    (query.onInstance && ((query.graded namespaces table .exact).filter query.prefers).length == 1)
        = true ↔
      query.onInstance = true ∧ ∃ row, Only (query.IsLocalMatch namespaces table) row := by
  rw [Bool.and_eq_true, beq_iff_eq]
  refine and_congr_right (fun hinstance => ?_)
  have hbucket := query.bucket_eq namespaces table true .exact
  simp only [beq_true] at hbucket
  rw [hbucket, List.length_map, List.length_eq_one_iff]
  exact exists_congr (fun row => (query.only_localMatch_iff namespaces table hinstance row).symm)

/-! ## The target -/

theorem target_of_single (table : Table) (h : ∃ row, Only (query.IsMatch table) row) :
    query.target? namespaces table = some 0 := by
  rw [target?]
  exact if_pos ((query.length_candidates namespaces table).mpr h)

theorem target_of_local (table : Table) (hmany : ¬ ∃ row, Only (query.IsMatch table) row)
    (h : query.onInstance = true ∧ ∃ row, Only (query.IsLocalMatch namespaces table) row) :
    query.target? namespaces table = some 0 := by
  rw [← query.length_candidates namespaces] at hmany
  rw [target?]
  simp only [if_neg hmany]
  exact if_pos ((query.length_local namespaces table).mpr h)

theorem target_of_exact (table : Table) (hmany : ¬ ∃ row, Only (query.IsMatch table) row)
    (hlocal : ¬ (query.onInstance = true ∧
      ∃ row, Only (query.IsLocalMatch namespaces table) row)) :
    query.target? namespaces table =
      match query.exactRows namespaces table with
      | [row] => (query.candidates namespaces table).idxOf? row.1
      | _ => none := by
  rw [← query.length_candidates namespaces] at hmany
  rw [← length_local] at hlocal
  rw [target?]
  simp only [if_neg hmany, if_neg hlocal]
  rw [graded_exact]
  cases query.exactRows namespaces table with
  | nil => rfl
  | cons first rest => cases rest <;> rfl

theorem idxOf_exact (table : Table) (row : Row)
    (h : Only (query.IsExactMatch namespaces table) row) :
    ∃ i, (query.candidates namespaces table).idxOf? row.1 = some i ∧
      (query.ranking namespaces table)[i]? = some row := by
  have hmem : row ∈ query.ranking namespaces table :=
    (query.mem_ranking namespaces table row).mpr h.1.1
  rw [candidates_eq]
  cases hi : ((query.ranking namespaces table).map Prod.fst).idxOf? row.1 with
  | none =>
    rw [List.idxOf?_eq_none_iff] at hi
    exact absurd (List.mem_map_of_mem hmem) hi
  | some i =>
    refine ⟨i, rfl, ?_⟩
    obtain ⟨hlt, hsame, _⟩ := List.idxOf?_eq_some_iff.mp hi
    rw [List.length_map] at hlt
    rw [List.getElem_map] at hsame
    -- The row that is found has an equal record, so it is exact too, and hence the same row.
    have hfound : query.IsExactMatch namespaces table (query.ranking namespaces table)[i] := by
      refine ⟨(query.mem_ranking namespaces table _).mp (List.getElem_mem hlt), ?_⟩
      rw [hsame]
      exact h.1.2
    rw [List.getElem?_eq_getElem hlt, h.2 _ hfound]

/-- Where some row decides, the target is its position in the ranking; where none does, there is no
target. -/
theorem target_spec (table : Table) :
    (∃ row i, query.Decides namespaces table row ∧
      (query.rank namespaces table).target = some i ∧
      (query.ranking namespaces table)[i]? = some row) ∨
    ((query.rank namespaces table).target = none ∧
      ¬ ∃ row, query.Decides namespaces table row) := by
  by_cases hmatch : ∃ row, Only (query.IsMatch table) row
  · have htarget := query.target_of_single namespaces table hmatch
    obtain ⟨row, hrow⟩ := hmatch
    refine .inl ⟨row, 0, .single hrow, htarget, ?_⟩
    rw [(query.only_match_iff namespaces table row).mp hrow]
    rfl
  by_cases hlocal : query.onInstance = true ∧ ∃ row, Only (query.IsLocalMatch namespaces table) row
  · have htarget := query.target_of_local namespaces table hmatch hlocal
    obtain ⟨hinstance, row, hrow⟩ := hlocal
    refine .inl ⟨row, 0, .onInstance hmatch hinstance hrow, htarget, ?_⟩
    -- The bucket of the exact rows of the file is the first one of the ranking.
    have hbucket := (query.only_localMatch_iff namespaces table hinstance row).mp hrow
    simp only [ranking, List.flatMap_cons, hbucket, List.cons_append]
    rfl
  have htarget := query.target_of_exact namespaces table hmatch hlocal
  by_cases hexact : ∃ row, Only (query.IsExactMatch namespaces table) row
  · obtain ⟨row, hrow⟩ := hexact
    obtain ⟨i, hi, hget⟩ := query.idxOf_exact namespaces table row hrow
    rw [(query.only_exactMatch_iff namespaces table row).mp hrow] at htarget
    exact .inl ⟨row, i, .exact hmatch hlocal hrow, htarget.trans hi, hget⟩
  · refine .inr ⟨?_, ?_⟩
    · refine htarget.trans ?_
      split
      · next row hrows =>
        exact absurd ⟨row, (query.only_exactMatch_iff namespaces table row).mpr hrows⟩ hexact
      · rfl
    · rw [exists_decides_iff, or_iff_right hmatch, or_iff_right hlocal]
      exact hexact

theorem getElem_candidates (table : Table) {i : Nat} {row : Row}
    (h : (query.ranking namespaces table)[i]? = some row) :
    (query.candidates namespaces table)[i]? = some row.1 := by
  rw [candidates_eq, List.getElem?_map, h, Option.map_some]

theorem targetRecord_of_target {table : Table} {i : Nat} {row : Row}
    (htarget : (query.rank namespaces table).target = some i)
    (hrow : (query.ranking namespaces table)[i]? = some row) :
    (query.rank namespaces table).targetRecord? = some row.1 := by
  rw [Resolution.targetRecord?, htarget, Option.bind_some]
  exact query.getElem_candidates namespaces table hrow

theorem targetRecord_of_none {table : Table} (h : (query.rank namespaces table).target = none) :
    (query.rank namespaces table).targetRecord? = none := by
  rw [Resolution.targetRecord?, h, Option.bind_none]

theorem candidates_eq_nil_iff (table : Table) :
    query.candidates namespaces table = [] ↔ ∀ r ∈ table, ¬ query.IsCandidate r := by
  rw [candidates_eq, List.map_eq_nil_iff, List.eq_nil_iff_forall_not_mem]
  constructor
  · intro h r hr hcandidate
    obtain ⟨i, hi⟩ := List.getElem?_of_mem hr
    exact h (r, i) ((query.mem_ranking namespaces table (r, i)).mpr ⟨hi, hcandidate⟩)
  · intro h row hrow
    obtain ⟨hi, hcandidate⟩ := (query.mem_ranking namespaces table row).mp hrow
    exact h row.1 (List.mem_of_getElem? hi) hcandidate

theorem word_of_at {doc : Document} {pos : Position} {table : Table} {query : Lookup}
    (h : at? doc pos table = some query) : doc.word? pos = some query.word := by
  obtain ⟨range, hrange, hquery⟩ := Option.bind_eq_some_iff.mp h
  cases hquery
  rw [Document.word?, hrange, Option.map_some]

theorem word_of_at_none {doc : Document} {pos : Position} {table : Table}
    (h : at? doc pos table = none) : doc.word? pos = none := by
  cases hrange : doc.wordRange? pos with
  | none => rw [Document.word?, hrange, Option.map_none]
  | some range => simp [at?, hrange] at h

end Lookup

namespace Service

/-! ## The answer -/

/-- What an answer must be, for the table that is searched. -/
structure Answers (namespaces : List String) (table : Table) (doc : Document) (pos : Position)
    (outcome : GotoOutcome) : Prop where
  noWord_iff : outcome = .noWord ↔ doc.word? pos = none
  noMatch_iff : ∀ word arguments, outcome = .noMatch word arguments ↔
    doc.word? pos = some word ∧
      ∃ query, Lookup.at? doc pos table = some query ∧ query.arguments = arguments ∧
        ∀ r ∈ table, ¬ query.IsCandidate r
  navigate_iff : (∃ symbol location, outcome = .navigate symbol location) ↔
    ∃ query, Lookup.at? doc pos table = some query ∧
      (query.rank namespaces table).target.isSome = true
  navigate_to : ∀ symbol location, outcome = .navigate symbol location →
    ∃ query i r, Lookup.at? doc pos table = some query ∧
      (query.rank namespaces table).target = some i ∧
      (query.rank namespaces table).candidates[i]? = some r ∧
      symbol = r.name ∧ location = ⟨r.file, r.line.toNat - 1, 0⟩
  choose_among : ∀ word candidates, outcome = .choose word candidates →
    doc.word? pos = some word ∧
      ∃ query, Lookup.at? doc pos table = some query ∧ 2 ≤ candidates.length ∧
        candidates = (query.rank namespaces table).candidates

/-- All that the answer can be when there is a word. -/
theorem decide_rank (query : Lookup) (namespaces : List String) (table : Table) :
    let resolution := query.rank namespaces table
    (resolution.candidates = [] ∧ resolution.target = none ∧
      decide (some resolution) = .noMatch query.word query.arguments) ∨
    (∃ i r, resolution.target = some i ∧ resolution.candidates[i]? = some r ∧
      decide (some resolution) = .navigate r.name r.location) ∨
    (resolution.target = none ∧ 2 ≤ resolution.candidates.length ∧
      decide (some resolution) = .choose query.word resolution.candidates) := by
  intro resolution
  rcases query.target_spec namespaces table with ⟨row, i, _, htarget, hrow⟩ | ⟨htarget, hnone⟩
  · have hget : resolution.candidates[i]? = some row.1 :=
      query.getElem_candidates namespaces table hrow
    have hsome : resolution.candidates ≠ [] := List.ne_nil_of_mem (List.mem_of_getElem? hget)
    have hrecord := query.targetRecord_of_target namespaces htarget hrow
    refine .inr (.inl ⟨i, row.1, htarget, hget, ?_⟩)
    simp only [decide, List.isEmpty_iff, if_neg hsome, resolution, hrecord]
  · by_cases hnil : resolution.candidates = []
    · refine .inl ⟨hnil, htarget, ?_⟩
      simp only [decide, List.isEmpty_iff, if_pos hnil]
      rfl
    · refine .inr (.inr ⟨htarget, ?_, ?_⟩)
      · have hmany : resolution.candidates.length ≠ 1 := by
          intro hone
          obtain ⟨row, hrow⟩ := (query.length_candidates namespaces table).mp hone
          exact hnone ⟨row, .single hrow⟩
        have hpos := List.length_pos_iff.mpr hnil
        omega
      · have hrecord := query.targetRecord_of_none namespaces htarget
        simp only [decide, List.isEmpty_iff, if_neg hnil, resolution, hrecord]
        rfl

theorem decide_answers (namespaces : List String) (table : Table) (doc : Document)
    (pos : Position) :
    Answers namespaces table doc pos (decide (doc.resolve? pos namespaces table)) := by
  rw [Document.resolve?]
  cases hat : Lookup.at? doc pos table with
  | none =>
    have hword := Lookup.word_of_at_none hat
    constructor <;> simp [decide, hword, hat]
  | some query =>
    have hword := Lookup.word_of_at hat
    have hnil : (query.rank namespaces table).candidates = [] ↔
        ∀ r ∈ table, ¬ query.IsCandidate r := query.candidates_eq_nil_iff namespaces table
    rw [Option.map_some]
    rcases decide_rank query namespaces table with
      ⟨hcandidates, htarget, h⟩ | ⟨i, r, htarget, hget, h⟩ | ⟨htarget, htwo, h⟩
    · rw [h]
      constructor <;> simp [hword, hat, htarget, ← hnil, hcandidates]
    · have hsome := List.ne_nil_of_mem (List.mem_of_getElem? hget)
      rw [h]
      constructor <;>
        simp [hword, hat, htarget, ← hnil, hsome, hget, Record.location, Record.lineIndex]
    · have hsome := List.ne_nil_of_length_pos (Nat.lt_of_lt_of_le Nat.zero_lt_two htwo)
      rw [h]
      constructor <;> simp [hword, hat, htarget, ← hnil, hsome, htwo]

theorem goto_error_iff (grammar : Grammar) (s : Service) (disk : Disk) (doc : Document)
    (pos : Position) (cause : ServiceError) :
    (s.goto grammar disk doc pos).result = .error cause ↔
      s.table = [] ∧ (s.rebuild grammar disk).result.2 = .error cause := by
  rw [goto]
  by_cases hempty : s.table = []
  · rw [if_pos (List.isEmpty_iff.mpr hempty)]
    cases hresult : (s.rebuild grammar disk).result.2 <;> simp [Except.map, hempty, hresult]
  · rw [if_neg (mt List.isEmpty_iff.mp hempty)]
    simp [hempty]

theorem goto_ok (grammar : Grammar) (s : Service) (disk : Disk) (doc : Document)
    (pos : Position) (outcome : GotoOutcome)
    (h : (s.goto grammar disk doc pos).result = .ok outcome) :
    outcome = decide (doc.resolve? pos s.settings.resolver.wellKnownNamespaces
      (s.goto grammar disk doc pos).service.table) := by
  rw [goto] at h ⊢
  by_cases hempty : s.table.isEmpty = true
  · rw [if_pos hempty] at h ⊢
    cases hresult : (s.rebuild grammar disk).result.2 with
    | error cause => simp [Except.map, hresult] at h
    | ok count =>
      simp only [Except.map, hresult, Except.ok.injEq] at h
      exact h.symm
  · rw [if_neg hempty] at h ⊢
    exact (Except.ok.inj h).symm

/-- The target exists exactly if some row of the table decides, and is the position of that row
among the candidates. So a search fails only where an empty table cannot be filled; else it says
that there is no match exactly if there is a word without candidates, goes to a definition exactly
if there is a target, and offers a choice only among two or more. -/
theorem goto_follows_target (query : Lookup) (namespaces : List String) (table : Table)
    (grammar : Grammar) (s : Service) (disk : Disk) (doc : Document) (pos : Position) :
    ((query.rank namespaces table).target.isSome = true ↔
      (∃ row, Lookup.Only (query.IsMatch table) row) ∨
      (query.onInstance = true ∧
        ∃ row, Lookup.Only (query.IsLocalMatch namespaces table) row) ∨
      ∃ row, Lookup.Only (query.IsExactMatch namespaces table) row) ∧
    (∀ i, (query.rank namespaces table).target = some i →
      i < (query.rank namespaces table).candidates.length ∧
      ∃ rows row, query.IsRanking namespaces table rows ∧ rows[i]? = some row ∧
        (query.rank namespaces table).candidates[i]? = some row.1 ∧
        query.Decides namespaces table row) ∧
    (∀ cause, (s.goto grammar disk doc pos).result = .error cause ↔
      s.table = [] ∧ (s.rebuild grammar disk).result.2 = .error cause) ∧
    ∀ outcome, (s.goto grammar disk doc pos).result = .ok outcome →
      Answers s.settings.resolver.wellKnownNamespaces (s.goto grammar disk doc pos).service.table
        doc pos outcome := by
  refine ⟨?_, ?_, s.goto_error_iff grammar disk doc pos, ?_⟩
  · rw [← query.exists_decides_iff namespaces]
    rcases query.target_spec namespaces table with
      ⟨row, i, hdecides, htarget, _⟩ | ⟨htarget, hnone⟩
    · rw [htarget]
      exact iff_of_true rfl ⟨row, hdecides⟩
    · rw [htarget]
      exact iff_of_false nofun hnone
  · intro i hi
    rcases query.target_spec namespaces table with ⟨row, j, hdecides, htarget, hrow⟩ | ⟨htarget, _⟩
    · obtain rfl : j = i := Option.some.inj (htarget.symm.trans hi)
      have hget : (query.rank namespaces table).candidates[j]? = some row.1 :=
        query.getElem_candidates namespaces table hrow
      obtain ⟨hlt, _⟩ := List.getElem?_eq_some_iff.mp hget
      exact ⟨hlt, query.ranking namespaces table, row, query.ranking_isRanking namespaces table,
        hrow, hget, hdecides⟩
    · rw [htarget] at hi
      cases hi
  · intro outcome h
    rw [s.goto_ok grammar disk doc pos outcome h]
    exact decide_answers _ _ doc pos

def helperDocument : Document :=
  .ofText "a.js" "class A \x7b\n  run() \x7b this.helper(); \x7d\n  helper() \x7b\x7d\n\x7d".toList

/-- A function of the same name, twice in another file, and the method between the two. -/
def helperTable : Table :=
  [{ file := "b.js", name := "helper", line := 4 },
    { file := "a.js", name := "A.helper", line := 3 },
    { file := "b.js", name := "helper", line := 4 }]

def helperQuery : Lookup :=
  { word := "helper"
    file := "a.js"
    onInstance := true
    dotted := some "this.helper"
    arguments := 0
    enclosingClass := some "A"
    receiverType := none
    objectType := "" }

def helperService : Service :=
  { settings := {}
    admission := Admission.ofSettings ⟨[], []⟩ "/w".toList {}
    store := Store.inWorkspace "/w".toList "symbols.index"
    table := helperTable
    history := {} }

/-- The method is the only exact row of the file, so the two equal rows do not keep the search from
going to it. -/
theorem goto_follows_target_to_helper :
    (helperQuery.rank [] helperTable).target = some 0 ∧
    (∃ rows row, helperQuery.IsRanking [] helperTable rows ∧ rows[0]? = some row ∧
      (helperQuery.rank [] helperTable).candidates[0]? = some row.1 ∧
      helperQuery.Decides [] helperTable row) ∧
    (helperService.goto (Grammar.ofSamples []) ⟨[], []⟩ helperDocument ⟨1, 16⟩).result =
      .ok (.navigate "A.helper" ⟨"a.js", 2, 0⟩) ∧
    Answers helperService.settings.resolver.wellKnownNamespaces helperTable helperDocument ⟨1, 16⟩
      (.navigate "A.helper" ⟨"a.js", 2, 0⟩) := by
  have htarget : (helperQuery.rank [] helperTable).target = some 0 := by decide +kernel
  have hresult : (helperService.goto (Grammar.ofSamples []) ⟨[], []⟩ helperDocument
      ⟨1, 16⟩).result = .ok (.navigate "A.helper" ⟨"a.js", 2, 0⟩) := by rfl
  have h := goto_follows_target helperQuery [] helperTable (Grammar.ofSamples []) helperService
    ⟨[], []⟩ helperDocument ⟨1, 16⟩
  exact ⟨htarget, (h.2.1 0 htarget).2, hresult, h.2.2.2 _ hresult⟩

end Service

end CodeNav
