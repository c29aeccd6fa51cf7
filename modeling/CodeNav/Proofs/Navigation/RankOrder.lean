import CodeNav.Navigation.Ranking
import CodeNav.Proofs.Text.DottedNames

/-! The list of candidates against a rule that does not say how it is made. The rule names the rows
of a table that are candidates and the order in which they stand; the list of candidates is the one
list of rows that keeps it. -/
namespace CodeNav
set_option autoImplicit false
open Text

/-- A record of a table and its position there. Equal records are different rows. -/
abbrev Row := Record × Nat

def Grade.level : Grade → Nat
  | exact => 0
  | typed => 1
  | other => 2

namespace Lookup

variable (query : Lookup) (namespaces : List String)

/-! ## The rule -/

def IsMember (owner : String) (r : Record) : Prop :=
  r.name = owner ++ "." ++ query.word

/-- Is the word a record's name, or its last segment, or is the name the dotted expression? -/
def IsCandidate (r : Record) : Prop :=
  r.name ≠ "" ∧
    (r.name = query.word ∨ (∃ owner, query.IsMember owner r) ∨ query.dotted = some r.name)

def ParametersAgree (r : Record) : Prop :=
  r.arity.toNat = query.arguments

def IsExact (r : Record) : Prop :=
  (query.onInstance = true ∧ ∃ owner ∈ query.enclosingClass, query.IsMember owner r) ∨
  (r.name = query.word ∧ query.ParametersAgree r) ∨
  query.dotted = some r.name ∨
  (r.arity = 0 ∧ ∃ owner ∈ namespaces, query.IsMember owner r) ∨
  (∃ owner ∈ query.receiverType, query.IsMember owner r ∧ query.ParametersAgree r)

def IsTyped (r : Record) : Prop :=
  ¬ query.IsExact namespaces r ∧ ∃ owner ∈ query.receiverType, query.IsMember owner r

/-- The grade that the rule gives to a candidate. -/
inductive HasGrade (r : Record) : Grade → Prop where
  | exact (h : query.IsExact namespaces r) : HasGrade r .exact
  | typed (h : query.IsTyped namespaces r) : HasGrade r .typed
  | other (hexact : ¬ query.IsExact namespaces r) (htyped : ¬ query.IsTyped namespaces r) :
    HasGrade r .other

/-- What puts a record in front: its file on the instance, elsewhere the type in its name. -/
def IsPreferred (r : Record) : Prop :=
  if query.onInstance then r.file = query.file
  else ∃ before after, r.name = before ++ query.objectType ++ after

/-- The order of the rows: preferred ones first, then by grade, then as in the table. -/
def Precedes (a b : Row) : Prop :=
  (query.IsPreferred a.1 ∧ ¬ query.IsPreferred b.1) ∨
  ((query.IsPreferred a.1 ↔ query.IsPreferred b.1) ∧
    ∃ first second, query.HasGrade namespaces a.1 first ∧ query.HasGrade namespaces b.1 second ∧
      (first.level < second.level ∨ (first = second ∧ a.2 < b.2)))

/-- A list of rows that has each candidate of a table once, in the order of the rule. -/
structure IsRanking (table : Table) (rows : List Row) : Prop where
  mem_iff : ∀ row, row ∈ rows ↔ table[row.2]? = some row.1 ∧ query.IsCandidate row.1
  ordered : rows.Pairwise (query.Precedes namespaces)

/-! ## Grades -/

theorem any_isMemberName (owner : Option String) (r : Record) :
    owner.any (isMemberName r.name · query.word) = true ↔ ∃ o ∈ owner, query.IsMember o r := by
  rw [Option.any_eq_true]
  simp only [isMemberName_iff, IsMember, Option.mem_def]

theorem any_namespace (r : Record) :
    namespaces.any (isMemberName r.name · query.word) = true ↔
      ∃ owner ∈ namespaces, query.IsMember owner r := by
  simp only [List.any_eq_true, isMemberName_iff, IsMember]

theorem endsWithMember_iff (r : Record) :
    endsWithMember r.name query.word = true ↔ ∃ owner, query.IsMember owner r := by
  rw [endsWithMember, List.isSuffixOf_iff_suffix]
  constructor
  · rintro ⟨owner, h⟩
    refine ⟨String.ofList owner, ?_⟩
    rw [IsMember, ← String.toList_inj, String.toList_append, String.toList_append,
      String.toList_ofList, List.append_assoc, ← h]
    rfl
  · rintro ⟨owner, h⟩
    refine ⟨owner.toList, ?_⟩
    rw [h, String.toList_append, String.toList_append, List.append_assoc]
    rfl

theorem HasGrade.unique {query : Lookup} {namespaces : List String} {r : Record}
    {first second : Grade} (h1 : query.HasGrade namespaces r first)
    (h2 : query.HasGrade namespaces r second) : first = second := by
  cases h1 with
  | exact hexact =>
    cases h2 with
    | exact _ => rfl
    | typed h => exact absurd hexact h.1
    | other h _ => exact absurd hexact h
  | typed htyped =>
    cases h2 with
    | exact h => exact absurd h htyped.1
    | typed _ => rfl
    | other _ h => exact absurd htyped h
  | other hexact htyped =>
    cases h2 with
    | exact h => exact absurd h hexact
    | typed h => exact absurd h htyped
    | other _ _ => rfl

theorem hasGrade_exact_iff (r : Record) :
    query.HasGrade namespaces r .exact ↔ query.IsExact namespaces r := by
  refine ⟨fun h => ?_, .exact⟩
  cases h with
  | exact h => exact h

theorem grade_of_named (r : Record) (hname : r.name ≠ "") :
    (query.IsCandidate r ∧
      ∃ grade, query.grade? namespaces r = some grade ∧ query.HasGrade namespaces r grade) ∨
    (¬ query.IsCandidate r ∧ query.grade? namespaces r = none) := by
  have hmember {owner : String} (h : query.IsMember owner r) : query.IsCandidate r :=
    ⟨hname, .inr (.inl ⟨owner, h⟩)⟩
  simp only [grade?, if_neg hname]
  split
  · next hclass =>
    rw [Bool.and_eq_true, any_isMemberName] at hclass
    obtain ⟨hinstance, owner, howner, howns⟩ := hclass
    exact .inl ⟨hmember howns, _, rfl, .exact (.inl ⟨hinstance, owner, howner, howns⟩)⟩
  next hclass =>
  rw [Bool.and_eq_true, any_isMemberName] at hclass
  split
  · next hword =>
    rw [Bool.and_eq_true, decide_eq_true_eq, beq_iff_eq] at hword
    exact .inl ⟨⟨hname, .inl hword.1⟩, _, rfl, .exact (.inr (.inl hword))⟩
  next hword =>
  rw [Bool.and_eq_true, decide_eq_true_eq, beq_iff_eq] at hword
  split
  · next hdotted =>
    exact .inl ⟨⟨hname, .inr (.inr hdotted)⟩, _, rfl, .exact (.inr (.inr (.inl hdotted)))⟩
  next hdotted =>
  split
  · next hknown =>
    rw [Bool.and_eq_true, decide_eq_true_eq, any_namespace] at hknown
    obtain ⟨harity, owner, howner, howns⟩ := hknown
    exact .inl ⟨hmember howns, _, rfl,
      .exact (.inr (.inr (.inr (.inl ⟨harity, owner, howner, howns⟩))))⟩
  next hknown =>
  rw [Bool.and_eq_true, decide_eq_true_eq, any_namespace] at hknown
  -- Each of the first four tests makes a record exact, so here only the receiver can.
  have hexact : query.IsExact namespaces r ↔
      ∃ owner ∈ query.receiverType, query.IsMember owner r ∧ query.ParametersAgree r := by
    rw [IsExact, ParametersAgree, or_iff_right hclass, or_iff_right hword, or_iff_right hdotted,
      or_iff_right hknown]
  split
  · next hreceiver =>
    rw [any_isMemberName] at hreceiver
    obtain ⟨owner, howner, howns⟩ := hreceiver
    refine .inl ⟨hmember howns, _, rfl, ?_⟩
    split
    · next hagree => exact .exact (hexact.mpr ⟨owner, howner, howns, beq_iff_eq.mp hagree⟩)
    · next hagree =>
      refine .typed ⟨fun h => ?_, owner, howner, howns⟩
      obtain ⟨_, _, _, hagrees⟩ := hexact.mp h
      exact hagree (beq_iff_eq.mpr hagrees)
  next hreceiver =>
  rw [any_isMemberName] at hreceiver
  have hnot : ¬ query.IsExact namespaces r := fun h => by
    obtain ⟨owner, howner, howns, _⟩ := hexact.mp h
    exact hreceiver ⟨owner, howner, howns⟩
  split
  · next hends =>
    rw [Bool.or_eq_true, decide_eq_true_eq, endsWithMember_iff] at hends
    exact .inl ⟨⟨hname, hends.imp_right .inl⟩, _, rfl,
      .other hnot (fun htyped => hreceiver htyped.2)⟩
  · next hends =>
    rw [Bool.or_eq_true, decide_eq_true_eq, endsWithMember_iff] at hends
    refine .inr ⟨fun hcandidate => ?_, rfl⟩
    rcases hcandidate.2 with h | h | h
    · exact hends (.inl h)
    · exact hends (.inr h)
    · exact hdotted h

theorem grade_eq_some_iff (r : Record) (grade : Grade) :
    query.grade? namespaces r = some grade ↔
      query.IsCandidate r ∧ query.HasGrade namespaces r grade := by
  by_cases hname : r.name = ""
  · have hnone : query.grade? namespaces r = none := by rw [grade?]; exact if_pos hname
    rw [hnone]
    exact ⟨nofun, fun h => absurd hname h.1.1⟩
  rcases query.grade_of_named namespaces r hname with ⟨hcandidate, g, hg, hgrade⟩ | ⟨hnot, hnone⟩
  · rw [hg, Option.some.injEq]
    exact ⟨fun h => ⟨hcandidate, h ▸ hgrade⟩, fun h => hgrade.unique h.2⟩
  · rw [hnone]
    exact ⟨nofun, fun h => absurd h.1 hnot⟩

theorem prefers_iff (r : Record) : query.prefers r = true ↔ query.IsPreferred r := by
  rw [prefers, IsPreferred]
  split
  · exact beq_iff_eq
  · rw [occursIn_iff]
    constructor
    · rintro ⟨before, after, h⟩
      refine ⟨String.ofList before, String.ofList after, ?_⟩
      rw [← String.toList_inj, String.toList_append, String.toList_append, String.toList_ofList,
        String.toList_ofList, h]
    · rintro ⟨before, after, h⟩
      exact ⟨before.toList, after.toList, by rw [h, String.toList_append, String.toList_append]⟩

/-! ## Rows -/

def bucket (table : Table) (preferred : Bool) (grade : Grade) : List Row :=
  table.zipIdx.filter fun row =>
    query.grade? namespaces row.1 = some grade && query.prefers row.1 == preferred

/-- The candidates of a table as rows, in the order in which they are listed. -/
def ranking (table : Table) : List Row :=
  [true, false].flatMap fun preferred =>
    [Grade.exact, Grade.typed, Grade.other].flatMap fun grade =>
      query.bucket namespaces table preferred grade

theorem filter_zipIdx (table : Table) (p : Record → Bool) :
    (table.zipIdx.filter fun row => p row.1).map Prod.fst = table.filter p := by
  conv => rhs; rw [← List.zipIdx_map_fst 0 table]
  exact (List.filter_map).symm

theorem bucket_eq (table : Table) (preferred : Bool) (grade : Grade) :
    (query.graded namespaces table grade).filter (query.prefers · == preferred) =
      (query.bucket namespaces table preferred grade).map Prod.fst := by
  rw [graded, List.filter_filter, bucket, ← filter_zipIdx]
  simp only [Bool.and_comm]

theorem candidates_eq (table : Table) :
    query.candidates namespaces table = (query.ranking namespaces table).map Prod.fst := by
  simp only [candidates, ranking, List.map_flatMap, bucket_eq]

theorem mem_bucket (table : Table) (preferred : Bool) (grade : Grade) (row : Row) :
    row ∈ query.bucket namespaces table preferred grade ↔
      table[row.2]? = some row.1 ∧ query.grade? namespaces row.1 = some grade ∧
        query.prefers row.1 = preferred := by
  rw [bucket, List.mem_filter, List.mem_zipIdx_iff_getElem?, Bool.and_eq_true, decide_eq_true_eq,
    beq_iff_eq]

theorem zipIdx_ascending (table : Table) : table.zipIdx.Pairwise (fun a b => a.2 < b.2) := by
  rw [← List.pairwise_map (f := Prod.snd) (R := (· < ·)), List.zipIdx_map_snd]
  exact List.pairwise_lt_range'

theorem bucket_ascending (table : Table) (preferred : Bool) (grade : Grade) :
    (query.bucket namespaces table preferred grade).Pairwise (fun a b => a.2 < b.2) :=
  (zipIdx_ascending table).filter _

theorem exists_hasGrade (r : Record) : ∃ grade, query.HasGrade namespaces r grade := by
  by_cases hexact : query.IsExact namespaces r
  · exact ⟨_, .exact hexact⟩
  by_cases htyped : query.IsTyped namespaces r
  · exact ⟨_, .typed htyped⟩
  · exact ⟨_, .other hexact htyped⟩

/-- The six buckets together hold all candidates. -/
theorem mem_ranking (table : Table) (row : Row) :
    row ∈ query.ranking namespaces table ↔
      table[row.2]? = some row.1 ∧ query.IsCandidate row.1 := by
  simp only [ranking, List.mem_flatMap, mem_bucket, grade_eq_some_iff]
  constructor
  · rintro ⟨_, _, _, _, hrow, ⟨hcandidate, _⟩, _⟩
    exact ⟨hrow, hcandidate⟩
  · rintro ⟨hrow, hcandidate⟩
    obtain ⟨grade, hgrade⟩ := query.exists_hasGrade namespaces row.1
    refine ⟨query.prefers row.1, ?_, grade, ?_, hrow, ⟨hcandidate, hgrade⟩, rfl⟩
    · cases query.prefers row.1 <;> decide
    · cases grade <;> decide

theorem precedes_of_preferred {table : Table} {first second : Grade} {a b : Row}
    (ha : a ∈ query.bucket namespaces table true first)
    (hb : b ∈ query.bucket namespaces table false second) : query.Precedes namespaces a b := by
  rw [mem_bucket] at ha hb
  refine .inl ⟨(query.prefers_iff a.1).mp ha.2.2, fun h => ?_⟩
  rw [← prefers_iff, hb.2.2] at h
  cases h

theorem precedes_of_level {table : Table} {preferred : Bool} {first second : Grade} {a b : Row}
    (ha : a ∈ query.bucket namespaces table preferred first)
    (hb : b ∈ query.bucket namespaces table preferred second)
    (h : first.level < second.level ∨ (first = second ∧ a.2 < b.2)) :
    query.Precedes namespaces a b := by
  rw [mem_bucket, grade_eq_some_iff] at ha hb
  refine .inr ⟨?_, first, second, ha.2.1.2, hb.2.1.2, h⟩
  rw [← prefers_iff, ← prefers_iff, ha.2.2, hb.2.2]

theorem ranking_ordered (table : Table) :
    (query.ranking namespaces table).Pairwise (query.Precedes namespaces) := by
  have hgrades (preferred : Bool) :
      ([Grade.exact, Grade.typed, Grade.other].flatMap
        (query.bucket namespaces table preferred)).Pairwise (query.Precedes namespaces) := by
    rw [List.pairwise_flatMap]
    constructor
    · intro grade _
      apply List.Pairwise.imp_of_mem _ (query.bucket_ascending namespaces table preferred grade)
      intro a b ha hb hlt
      exact query.precedes_of_level namespaces ha hb (.inr ⟨rfl, hlt⟩)
    · have hlevels : [Grade.exact, Grade.typed, Grade.other].Pairwise
          (fun first second => first.level < second.level) := by decide
      exact hlevels.imp (fun hlt a ha b hb =>
        query.precedes_of_level namespaces ha hb (.inl hlt))
  rw [ranking, List.pairwise_flatMap]
  refine ⟨fun preferred _ => hgrades preferred, ?_⟩
  rw [List.pairwise_pair]
  intro a ha b hb
  obtain ⟨_, _, ha⟩ := List.mem_flatMap.mp ha
  obtain ⟨_, _, hb⟩ := List.mem_flatMap.mp hb
  exact query.precedes_of_preferred namespaces ha hb

theorem Precedes.asymm {query : Lookup} {namespaces : List String} {a b : Row}
    (h : query.Precedes namespaces a b) : ¬ query.Precedes namespaces b a := by
  intro hback
  rcases h with ⟨ha, hb⟩ | ⟨hsame, first, second, h1, h2, hlt⟩
  · rcases hback with ⟨hb', _⟩ | ⟨hsame, _⟩
    · exact hb hb'
    · exact hb (hsame.mpr ha)
  · rcases hback with ⟨hb, ha⟩ | ⟨_, second', first', h2', h1', hlt'⟩
    · exact ha (hsame.mpr hb)
    · obtain rfl := h1.unique h1'
      obtain rfl := h2.unique h2'
      rcases hlt with hlt | ⟨rfl, hlt⟩ <;> rcases hlt' with hlt' | ⟨heq, hlt'⟩ <;> grind

theorem IsRanking.nodup {query : Lookup} {namespaces : List String} {table : Table}
    {rows : List Row} (h : query.IsRanking namespaces table rows) : rows.Nodup := by
  apply h.ordered.imp
  rintro a b hab rfl
  exact hab.asymm hab

theorem IsRanking.unique {query : Lookup} {namespaces : List String} {table : Table}
    {first second : List Row} (h1 : query.IsRanking namespaces table first)
    (h2 : query.IsRanking namespaces table second) : first = second := by
  -- Two lists of the same rows in one asymmetric order are equal.
  have hperm : first.Perm second := by
    rw [List.perm_ext_iff_of_nodup h1.nodup h2.nodup]
    intro row
    rw [h1.mem_iff, h2.mem_iff]
  apply hperm.eq_of_pairwise _ h1.ordered h2.ordered
  intro a b _ _ hab hba
  exact absurd hba hab.asymm

theorem ranking_isRanking (table : Table) :
    query.IsRanking namespaces table (query.ranking namespaces table) where
  mem_iff := query.mem_ranking namespaces table
  ordered := query.ranking_ordered namespaces table

/-- The list of candidates is the ranking of the table: no candidate is missing, none is there
twice, nothing else is there, and the order is that of the rule. -/
theorem candidates_are_ranked (table : Table) :
    ∃ rows, query.IsRanking namespaces table rows ∧ rows.Nodup ∧
      (∀ other, query.IsRanking namespaces table other → other = rows) ∧
      (query.rank namespaces table).candidates = rows.map Prod.fst := by
  have hranking := query.ranking_isRanking namespaces table
  exact ⟨query.ranking namespaces table, hranking, hranking.nodup,
    fun _ hother => hother.unique hranking, query.candidates_eq namespaces table⟩

end Lookup

end CodeNav
