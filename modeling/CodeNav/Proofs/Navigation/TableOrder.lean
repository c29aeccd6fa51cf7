import CodeNav.Proofs.Document.MemberWord
import CodeNav.Proofs.Navigation.Target
import Mathlib.Data.List.Perm.Basic

/-! A resolution does not depend on the order of the table. The site is read from the document, and
asks the table only whether some name starts with a path; the target is the single element of one of
three lists of records, whatever their order. -/
namespace CodeNav
set_option autoImplicit false
open Text

/-! ## Reading a site -/

theorem Table.isSome_firstStartingWith (table : Table) (start : List Char) :
    (table.firstStartingWith? start).isSome = true ↔
      ∃ r ∈ table, r.name ≠ "" ∧ start <+: r.name.toList := by
  rw [firstStartingWith?, List.find?_isSome]
  simp only [Bool.and_eq_true, bne_iff_ne, List.isPrefixOf_iff_prefix]

theorem Document.objectType_of_perm (doc : Document) (pos : Position) (types : Bindings)
    {first second : Table} (h : first.Perm second) :
    doc.objectType pos first types = doc.objectType pos second types := by
  have hsome (path : List Char) :
      (first.firstStartingWith? path).isSome = (second.firstStartingWith? path).isSome := by
    rw [Bool.eq_iff_iff, Table.isSome_firstStartingWith, Table.isSome_firstStartingWith]
    simp only [h.mem_iff]
  simp only [objectType, Table.symbolPath_eq, hsome]

theorem Lookup.at_of_perm (doc : Document) (pos : Position) {first second : Table}
    (h : first.Perm second) : at? doc pos first = at? doc pos second := by
  simp only [at?, doc.objectType_of_perm _ _ h]

/-! ## Single elements -/

/-- The element of a list that has one element. -/
def sole? {α : Type} : List α → Option α
  | [a] => some a
  | _ => none

theorem sole_of_length {α : Type} {l : List α} (h : l.length ≠ 1) : sole? l = none := by
  match l, h with
  | [], _ => rfl
  | [_], h => exact absurd rfl h
  | _ :: _ :: _, _ => rfl

theorem sole_of_perm {α : Type} {first second : List α} (h : first.Perm second) :
    sole? first = sole? second := by
  by_cases hlength : first.length = 1
  · obtain ⟨a, rfl⟩ := List.length_eq_one_iff.mp hlength
    rw [List.singleton_perm.mp h]
  · rw [sole_of_length hlength, sole_of_length (h.length_eq ▸ hlength)]

namespace Lookup

variable (query : Lookup) (namespaces : List String)

/-! ## Ranking -/

theorem graded_perm {first second : Table} (grade : Grade) (h : first.Perm second) :
    (query.graded namespaces first grade).Perm (query.graded namespaces second grade) :=
  h.filter _

theorem candidates_perm {first second : Table} (h : first.Perm second) :
    (query.candidates namespaces first).Perm (query.candidates namespaces second) := by
  rw [candidates, candidates]
  refine List.Perm.flatMap_left _ (fun preferred _ => ?_)
  refine List.Perm.flatMap_left _ (fun grade _ => ?_)
  exact (query.graded_perm namespaces grade h).filter _

def localExact (table : Table) : List Record :=
  if query.onInstance then (query.graded namespaces table .exact).filter query.prefers else []

theorem localExact_perm {first second : Table} (h : first.Perm second) :
    (query.localExact namespaces first).Perm (query.localExact namespaces second) := by
  rw [localExact, localExact]
  split
  · exact (query.graded_perm namespaces .exact h).filter _
  · exact .refl []

theorem length_localExact (table : Table) :
    (query.localExact namespaces table).length = 1 ↔
      query.onInstance = true ∧ ∃ row, Only (query.IsLocalMatch namespaces table) row := by
  rw [← length_local, localExact, Bool.and_eq_true, beq_iff_eq]
  split
  · next hinstance => rw [and_iff_right hinstance]
  · next hinstance => exact iff_of_false nofun (fun h => hinstance h.1)

/-- The target is the single candidate, else the single exact record of the file, else the single
exact record. -/
theorem targetRecord_eq (table : Table) :
    (query.rank namespaces table).targetRecord? =
      ((sole? (query.candidates namespaces table)).or
        (sole? (query.localExact namespaces table))).or
        (sole? (query.graded namespaces table .exact)) := by
  have hmatch := query.length_candidates namespaces table
  have hlocal := query.length_localExact namespaces table
  have hexact := query.length_exact namespaces table
  rcases query.target_spec namespaces table with
    ⟨row, i, hdecides, htarget, hrow⟩ | ⟨htarget, hnone⟩
  · rw [query.targetRecord_of_target namespaces htarget hrow]
    cases hdecides with
    | single h =>
      rw [candidates_eq, (query.only_match_iff namespaces table row).mp h]
      rfl
    | onInstance hmany hinstance h =>
      have hbucket := query.bucket_eq namespaces table true .exact
      simp only [beq_true,
        (query.only_localMatch_iff namespaces table hinstance row).mp h] at hbucket
      rw [sole_of_length (mt hmatch.mp hmany), localExact, if_pos hinstance, hbucket]
      rfl
    | exact hmany hother h =>
      rw [sole_of_length (mt hmatch.mp hmany), sole_of_length (mt hlocal.mp hother), graded_exact,
        (query.only_exactMatch_iff namespaces table row).mp h]
      rfl
  · rw [exists_decides_iff, not_or, not_or, ← hmatch, ← hlocal, ← hexact] at hnone
    rw [query.targetRecord_of_none namespaces htarget, sole_of_length hnone.1,
      sole_of_length hnone.2.1, sole_of_length hnone.2.2]
    rfl

theorem targetRecord_of_perm {first second : Table} (h : first.Perm second) :
    (query.rank namespaces first).targetRecord? = (query.rank namespaces second).targetRecord? := by
  rw [targetRecord_eq, targetRecord_eq, sole_of_perm (query.candidates_perm namespaces h),
    sole_of_perm (query.localExact_perm namespaces h),
    sole_of_perm (query.graded_perm namespaces .exact h)]

theorem isSome_targetRecord (table : Table) :
    (query.rank namespaces table).targetRecord?.isSome =
      (query.rank namespaces table).target.isSome := by
  rcases query.target_spec namespaces table with ⟨row, i, _, htarget, hrow⟩ | ⟨htarget, _⟩
  · rw [query.targetRecord_of_target namespaces htarget hrow, htarget]
    rfl
  · rw [query.targetRecord_of_none namespaces htarget, htarget]
    rfl

end Lookup

/-- Resolutions that differ in the order of the candidates give the same answer, unless it offers a
choice among these. -/
theorem Service.decide_of_perm {first second : Resolution} (hword : first.word = second.word)
    (harguments : first.arguments = second.arguments)
    (hperm : first.candidates.Perm second.candidates)
    (htarget : first.targetRecord? = second.targetRecord?) (outcome : GotoOutcome)
    (houtcome : ∀ word candidates, outcome ≠ .choose word candidates) :
    decide (some first) = outcome ↔ decide (some second) = outcome := by
  have hempty : first.candidates.isEmpty = second.candidates.isEmpty := hperm.isEmpty_eq
  simp only [decide, hword, harguments, htarget, hempty]
  split
  · exact Iff.rfl
  · cases second.targetRecord? with
    | some record => exact Iff.rfl
    | none => exact iff_of_false (houtcome _ _).symm (houtcome _ _).symm

/-- Two tables with the same records, in whatever order, resolve an identifier alike: the site is
read alike, the candidates are the same up to their order, and the target is the same record. So the
search for a definition goes to the same place, or finds that there is none, with both. -/
theorem Document.resolve_ignores_order (doc : Document) (pos : Position) (namespaces : List String)
    (first second : Table) (h : first.Perm second) :
    ((doc.resolve? pos namespaces first = none ∧ doc.resolve? pos namespaces second = none) ∨
      ∃ query other resolution alike,
        Lookup.at? doc pos first = some query ∧ Lookup.at? doc pos second = some other ∧
        doc.resolve? pos namespaces first = some resolution ∧
        doc.resolve? pos namespaces second = some alike ∧
        resolution.word = alike.word ∧
        resolution.arguments = alike.arguments ∧
        query.objectType = other.objectType ∧
        resolution.candidates.Perm alike.candidates ∧
        resolution.target.isSome = alike.target.isSome ∧
        resolution.targetRecord? = alike.targetRecord?) ∧
    ∀ outcome, (∀ word candidates, outcome ≠ .choose word candidates) →
      (Service.decide (doc.resolve? pos namespaces first) = outcome ↔
        Service.decide (doc.resolve? pos namespaces second) = outcome) := by
  have hat := Lookup.at_of_perm doc pos h
  rw [resolve?, resolve?, hat]
  cases Lookup.at? doc pos second with
  | none => exact ⟨.inl ⟨rfl, rfl⟩, fun _ _ => Iff.rfl⟩
  | some query =>
    have hperm := query.candidates_perm namespaces h
    have htarget := query.targetRecord_of_perm namespaces h
    have hisSome : (query.rank namespaces first).target.isSome =
        (query.rank namespaces second).target.isSome := by
      rw [← query.isSome_targetRecord, ← query.isSome_targetRecord, htarget]
    exact ⟨.inr ⟨query, query, query.rank namespaces first, query.rank namespaces second,
        rfl, rfl, rfl, rfl, rfl, rfl, rfl, hperm, hisSome, htarget⟩,
      Service.decide_of_perm rfl rfl hperm htarget⟩

def clampDocument : Document :=
  .ofText "c.js" "var v = cc.util.clamp(x, 0, 1);".toList

/-- Two records start with the path before the word, and two end with the word. -/
def clampTable : Table :=
  [{ file := "a.js", name := "other.util.clamp", line := 1, arity := 3 },
    { file := "u.js", name := "cc.util.clamp", line := 7, arity := 3 },
    { file := "u.js", name := "cc.util.lerp", line := 9, arity := 3 }]

theorem Document.resolve_ignores_order_of_clamp :
    clampTable.Perm clampTable.reverse ∧
    Service.decide (clampDocument.resolve? ⟨0, 17⟩ [] clampTable) =
      .navigate "cc.util.clamp" ⟨"u.js", 6, 0⟩ ∧
    Service.decide (clampDocument.resolve? ⟨0, 17⟩ [] clampTable.reverse) =
      .navigate "cc.util.clamp" ⟨"u.js", 6, 0⟩ := by
  have hperm : clampTable.Perm clampTable.reverse := (List.reverse_perm clampTable).symm
  have hanswer : Service.decide (clampDocument.resolve? ⟨0, 17⟩ [] clampTable) =
      .navigate "cc.util.clamp" ⟨"u.js", 6, 0⟩ := by decide +kernel
  have h := Document.resolve_ignores_order clampDocument ⟨0, 17⟩ [] clampTable clampTable.reverse
    hperm
  refine ⟨hperm, hanswer, (h.2 _ ?_).mp hanswer⟩
  intro word candidates hchoose
  cases hchoose

end CodeNav
