import CodeNav.Proofs.Source.Records
import CodeNav.Proofs.Text.DottedNames

/-! Declarations told apart by their names. The names seen so far act as a filter on the whole list
of declarations: a function goes if an earlier function has its dotted name, and a field if an
earlier field has. The records of a file are filtered the same way, by name and line. -/
namespace CodeNav
set_option autoImplicit false
open Text

/-! ## First occurrences -/

section Firsts

variable {α : Type} (like : α → α → Prop) [DecidableRel like]

/-- The elements of a list that no earlier one is like, in their order. -/
def firsts (l : List α) : List α :=
  (l.zipIdx.filter fun entry : α × Nat =>
    decide (∀ earlier ∈ l.take entry.2, ¬ like earlier entry.1)).map Prod.fst

/-- The first occurrences in a list that follows other elements. -/
def firstsAfter (before : List α) : List α → List α
  | [] => []
  | a :: l =>
    if ∃ earlier ∈ before, like earlier a then firstsAfter (before ++ [a]) l
    else a :: firstsAfter (before ++ [a]) l

theorem firstsAfter_eq (before l : List α) :
    ((l.zipIdx before.length).filter fun entry : α × Nat =>
        decide (∀ earlier ∈ (before ++ l).take entry.2, ¬ like earlier entry.1)).map Prod.fst =
      firstsAfter like before l := by
  induction l generalizing before with
  | nil => rfl
  | cons a l ih =>
    have hrest := ih (before ++ [a])
    rw [List.length_append, List.length_singleton, List.append_assoc,
      List.singleton_append] at hrest
    rw [List.zipIdx_cons, List.filter_cons, List.take_left, firstsAfter]
    by_cases hlike : ∃ earlier ∈ before, like earlier a
    · have hnot : ¬ ∀ earlier ∈ before, ¬ like earlier a := by
        obtain ⟨earlier, hmem, hsame⟩ := hlike
        exact fun hall => hall earlier hmem hsame
      rw [if_pos hlike, decide_eq_false hnot, ← hrest]
      rfl
    · have hall : ∀ earlier ∈ before, ¬ like earlier a := fun earlier hmem hsame =>
        hlike ⟨earlier, hmem, hsame⟩
      rw [if_neg hlike, decide_eq_true hall, ← hrest]
      rfl

theorem firsts_eq (l : List α) : firsts like l = firstsAfter like [] l :=
  firstsAfter_eq like [] l

theorem exists_like_in_firstsAfter (htrans : ∀ a b c, like a b → like b c → like a c)
    (before l : List α) (a : α) (h : a ∈ l) :
    a ∈ firstsAfter like before l ∨ ∃ b ∈ before ++ firstsAfter like before l, like b a := by
  induction l generalizing before with
  | nil => cases h
  | cons x l ih =>
    rw [firstsAfter]
    by_cases hlike : ∃ earlier ∈ before, like earlier x
    · obtain ⟨earlier, hmem, hearlier⟩ := hlike
      rw [if_pos ⟨earlier, hmem, hearlier⟩]
      rcases List.mem_cons.mp h with rfl | h
      · exact .inr ⟨earlier, List.mem_append_left _ hmem, hearlier⟩
      -- What is like the dropped element has the earlier one before it too.
      · rcases ih (before ++ [x]) h with hkept | ⟨b, hb, hba⟩
        · exact .inl hkept
        · rw [List.append_assoc, List.mem_append, List.singleton_append, List.mem_cons] at hb
          rcases hb with hb | rfl | hb
          · exact .inr ⟨b, List.mem_append_left _ hb, hba⟩
          · exact .inr ⟨earlier, List.mem_append_left _ hmem, htrans _ _ _ hearlier hba⟩
          · exact .inr ⟨b, List.mem_append_right _ hb, hba⟩
    · rw [if_neg hlike]
      rcases List.mem_cons.mp h with rfl | h
      · exact .inl List.mem_cons_self
      · rcases ih (before ++ [x]) h with hkept | ⟨b, hb, hba⟩
        · exact .inl (List.mem_cons_of_mem x hkept)
        · rw [List.append_assoc, List.singleton_append] at hb
          exact .inr ⟨b, hb, hba⟩

/-- An element that is not kept has one like it that is. -/
theorem exists_like_in_firsts (htrans : ∀ a b c, like a b → like b c → like a c) (l : List α)
    (a : α) (h : a ∈ l) : a ∈ firsts like l ∨ ∃ b ∈ firsts like l, like b a := by
  rw [firsts_eq]
  exact exists_like_in_firstsAfter like htrans [] l a h

end Firsts

namespace Declaration

def isFunction (d : Declaration) : Bool :=
  match d.form with
  | .function _ => true
  | _ => false

/-- A member of a class without a list of parameters. -/
def isField (d : Declaration) : Bool :=
  match d.form, d.params with
  | .classMember _, none => true
  | _, _ => false

/-- Do two functions, or two fields, have one dotted name? -/
def Repeats (earlier later : Declaration) : Prop :=
  earlier.qualifiedName = later.qualifiedName ∧
    ((earlier.isFunction = true ∧ later.isFunction = true) ∨
      (earlier.isField = true ∧ later.isField = true))

instance : DecidableRel Repeats := fun _ _ => inferInstanceAs (Decidable (_ ∧ _))

/-- Do two declarations have one dotted name and line? -/
def SameEntry (earlier later : Declaration) : Prop :=
  earlier.qualifiedName = later.qualifiedName ∧ earlier.line = later.line

instance : DecidableRel SameEntry := fun _ _ => inferInstanceAs (Decidable (_ ∧ _))

theorem SameEntry.trans (a b c : Declaration) (hab : a.SameEntry b) (hbc : b.SameEntry c) :
    a.SameEntry c :=
  ⟨hab.1.trans hbc.1, hab.2.trans hbc.2⟩

end Declaration

namespace Source

/-! ## Names seen so far -/

namespace Seen

def Knows (seen : Seen) (d : Declaration) : Prop :=
  (d.isFunction = true ∧ d.qualifiedName ∈ seen.functions) ∨
    (d.isField = true ∧ d.qualifiedName ∈ seen.fields)

instance (seen : Seen) (d : Declaration) : Decidable (seen.Knows d) :=
  inferInstanceAs (Decidable (_ ∨ _))

def note (seen : Seen) (d : Declaration) : Seen :=
  if d.isFunction then { seen with functions := d.qualifiedName :: seen.functions }
  else if d.isField then { seen with fields := d.qualifiedName :: seen.fields }
  else seen

/-- The declarations of a list that are not known, and what is known after them. -/
def keepNew (seen : Seen) : List Declaration → List Declaration × Seen
  | [] => ([], seen)
  | d :: ds =>
    if seen.Knows d then keepNew seen ds
    else (d :: (keepNew (seen.note d) ds).1, (keepNew (seen.note d) ds).2)

theorem keepNew_append (seen : Seen) (first second : List Declaration) :
    seen.keepNew (first ++ second) =
      ((seen.keepNew first).1 ++ ((seen.keepNew first).2.keepNew second).1,
        ((seen.keepNew first).2.keepNew second).2) := by
  induction first generalizing seen with
  | nil => rfl
  | cons d ds ih =>
    rw [List.cons_append, keepNew, keepNew]
    split
    · exact ih seen
    · rw [ih (seen.note d)]
      rfl

/-- What is neither a function nor a field is kept and leaves no trace. -/
theorem keepNew_of_plain (seen : Seen) (ds : List Declaration)
    (h : ∀ d ∈ ds, d.isFunction = false ∧ d.isField = false) : seen.keepNew ds = (ds, seen) := by
  induction ds with
  | nil => rfl
  | cons d ds ih =>
    obtain ⟨hfunction, hfield⟩ := h d List.mem_cons_self
    have hknows : ¬ seen.Knows d := by simp [Knows, hfunction, hfield]
    have hnote : seen.note d = seen := by simp [note, hfunction, hfield]
    rw [keepNew, if_neg hknows, hnote, ih (fun e he => h e (List.mem_cons_of_mem d he))]

theorem mem_of_mem_keepNew (seen : Seen) (ds : List Declaration) (d : Declaration)
    (h : d ∈ (seen.keepNew ds).1) : d ∈ ds := by
  induction ds generalizing seen with
  | nil => exact h
  | cons e ds ih =>
    rw [keepNew] at h
    split at h
    · exact List.mem_cons_of_mem e (ih seen h)
    · rcases List.mem_cons.mp h with rfl | h
      · exact List.mem_cons_self
      · exact List.mem_cons_of_mem e (ih (seen.note e) h)

theorem mem_keepNew_of_plain (seen : Seen) (ds : List Declaration) (d : Declaration) (h : d ∈ ds)
    (hfunction : d.isFunction = false) (hfield : d.isField = false) :
    d ∈ (seen.keepNew ds).1 := by
  induction ds generalizing seen with
  | nil => exact h
  | cons e ds ih =>
    rw [keepNew]
    rcases List.mem_cons.mp h with rfl | h
    · have hknows : ¬ seen.Knows d := by simp [Knows, hfunction, hfield]
      rw [if_neg hknows]
      exact List.mem_cons_self
    · split
      · exact ih seen h
      · exact List.mem_cons_of_mem e (ih (seen.note e) h)

/-- The names seen are those of the functions and fields of a list. -/
structure Records (seen : Seen) (before : List Declaration) : Prop where
  functions : ∀ name, name ∈ seen.functions ↔
    ∃ d ∈ before, d.isFunction = true ∧ d.qualifiedName = name
  fields : ∀ name, name ∈ seen.fields ↔
    ∃ d ∈ before, d.isField = true ∧ d.qualifiedName = name

theorem Records.knows_iff {seen : Seen} {before : List Declaration} (h : seen.Records before)
    (d : Declaration) : seen.Knows d ↔ ∃ earlier ∈ before, earlier.Repeats d := by
  rw [Knows, h.functions, h.fields]
  constructor
  · rintro (⟨hd, e, hmem, he, hname⟩ | ⟨hd, e, hmem, he, hname⟩)
    · exact ⟨e, hmem, hname, .inl ⟨he, hd⟩⟩
    · exact ⟨e, hmem, hname, .inr ⟨he, hd⟩⟩
  · rintro ⟨e, hmem, hname, ⟨he, hd⟩ | ⟨he, hd⟩⟩
    · exact .inl ⟨hd, e, hmem, he, hname⟩
    · exact .inr ⟨hd, e, hmem, he, hname⟩

theorem isField_of_isFunction {d : Declaration} (h : d.isFunction = true) : d.isField = false := by
  rw [Declaration.isFunction] at h
  rw [Declaration.isField]
  cases hform : d.form <;> simp [hform] at h ⊢

theorem Records.snoc {seen later : Seen} {before : List Declaration} {d : Declaration}
    (h : seen.Records before)
    (hfunctions : ∀ name, name ∈ later.functions ↔
      name ∈ seen.functions ∨ (d.isFunction = true ∧ d.qualifiedName = name))
    (hfields : ∀ name, name ∈ later.fields ↔
      name ∈ seen.fields ∨ (d.isField = true ∧ d.qualifiedName = name)) :
    later.Records (before ++ [d]) := by
  constructor <;> intro name
  · rw [hfunctions, h.functions]
    simp only [List.mem_append, List.mem_singleton, or_and_right, exists_or, exists_eq_left]
  · rw [hfields, h.fields]
    simp only [List.mem_append, List.mem_singleton, or_and_right, exists_or, exists_eq_left]

theorem Records.note {seen : Seen} {before : List Declaration} (h : seen.Records before)
    (d : Declaration) : (seen.note d).Records (before ++ [d]) := by
  rw [Seen.note]
  by_cases hfunction : d.isFunction = true
  · have hfield := isField_of_isFunction hfunction
    rw [if_pos hfunction]
    apply h.snoc <;> intro name
    · rw [List.mem_cons, eq_comm, and_iff_right hfunction, or_comm]
    · simp [hfield]
  rw [if_neg hfunction]
  by_cases hfield : d.isField = true
  · rw [if_pos hfield]
    apply h.snoc <;> intro name
    · simp [hfunction]
    · rw [List.mem_cons, eq_comm, and_iff_right hfield, or_comm]
  · rw [if_neg hfield]
    apply h.snoc <;> intro name
    · simp [hfunction]
    · simp [hfield]

theorem Records.skip {seen : Seen} {before : List Declaration} (h : seen.Records before)
    {d : Declaration} (hknows : seen.Knows d) : seen.Records (before ++ [d]) := by
  apply h.snoc <;> intro name <;> refine ⟨.inl, ?_⟩
  · rintro (hmem | ⟨hfunction, rfl⟩)
    · exact hmem
    · rcases hknows with ⟨_, hmem⟩ | ⟨hfield, _⟩
      · exact hmem
      · rw [isField_of_isFunction hfunction] at hfield
        cases hfield
  · rintro (hmem | ⟨hfield, rfl⟩)
    · exact hmem
    · rcases hknows with ⟨hfunction, _⟩ | ⟨_, hmem⟩
      · rw [isField_of_isFunction hfunction] at hfield
        cases hfield
      · exact hmem

theorem keepNew_eq_firstsAfter (ds : List Declaration) (seen : Seen) (before : List Declaration)
    (h : seen.Records before) :
    (seen.keepNew ds).1 = firstsAfter Declaration.Repeats before ds := by
  induction ds generalizing seen before with
  | nil => rfl
  | cons d ds ih =>
    -- A declaration that is left out has its name recorded already, so both cases go on alike.
    rw [keepNew, firstsAfter]
    by_cases hknows : seen.Knows d
    · rw [if_pos hknows, if_pos ((h.knows_iff d).mp hknows)]
      exact ih seen (before ++ [d]) (h.skip hknows)
    · rw [if_neg hknows, if_neg (mt (h.knows_iff d).mpr hknows)]
      exact congrArg (d :: ·) (ih (seen.note d) (before ++ [d]) (h.note d))

theorem keepNew_eq_firsts (ds : List Declaration) :
    (Seen.keepNew {} ds).1 = firsts Declaration.Repeats ds := by
  have hempty : Seen.Records {} [] := by
    constructor <;> intro name <;> simp
  rw [firsts_eq, keepNew_eq_firstsAfter ds {} [] hempty]

end Seen

/-! ## Names and lines -/

theorem toRecord_eq (file : String) (d : Declaration) :
    d.toRecord file =
      { file, name := d.qualifiedName, line := d.line
        arity := UInt32.ofNat (d.params.getD []).length, params := d.params.getD [] } := by
  rw [Declaration.toRecord]
  cases d.params <;> rfl

theorem indexable_eq_firstsAfter (ds : List Declaration) (seen : List (String × UInt32))
    (before : List Declaration)
    (h : ∀ key, key ∈ seen ↔ ∃ d ∈ before, (d.qualifiedName, d.line) = key) :
    indexable seen ds = firstsAfter Declaration.SameEntry before
      (ds.filter fun d => ',' ∉ d.qualifiedName.toList) := by
  induction ds generalizing seen before with
  | nil => rfl
  | cons d ds ih =>
    have hseen : (d.qualifiedName, d.line) ∈ seen ↔ ∃ earlier ∈ before, earlier.SameEntry d := by
      simp only [h, Prod.mk.injEq, Declaration.SameEntry]
    have hsnoc (keys : List (String × UInt32))
        (hkeys : ∀ key, key ∈ keys ↔ (d.qualifiedName, d.line) = key ∨ key ∈ seen) :
        indexable keys ds = firstsAfter Declaration.SameEntry (before ++ [d])
          (ds.filter fun d => ',' ∉ d.qualifiedName.toList) := by
      apply ih
      intro key
      simp only [hkeys, h, List.mem_append, List.mem_singleton, or_and_right, exists_or,
        exists_eq_left, or_comm]
    rw [indexable, List.filter_cons]
    have hcomma := hasChar_eq_false ',' d.qualifiedName
    cases hhas : hasChar ',' d.qualifiedName with
    | true =>
      have hmem : ¬ ',' ∉ d.qualifiedName.toList := by simp [← hcomma, hhas]
      simp only [Bool.true_or, ↓reduceIte, hmem, decide_false, Bool.false_eq_true]
      exact ih seen before h
    | false =>
    simp only [Bool.false_or, hcomma.mp hhas, not_false_eq_true, decide_true, ↓reduceIte,
      firstsAfter, ← hseen, decide_eq_true_eq]
    by_cases hmem : (d.qualifiedName, d.line) ∈ seen
    · rw [if_pos hmem, if_pos hmem]
      exact hsnoc seen (fun key => (or_iff_right_of_imp (fun heq => heq ▸ hmem)).symm)
    · rw [if_neg hmem, if_neg hmem, hsnoc]
      intro key
      rw [List.mem_cons, eq_comm]

theorem indexable_eq_firsts (ds : List Declaration) :
    indexable [] ds = firsts Declaration.SameEntry
      (ds.filter fun d => ',' ∉ d.qualifiedName.toList) := by
  rw [firsts_eq, indexable_eq_firstsAfter ds [] []]
  simp

end Source

end CodeNav
