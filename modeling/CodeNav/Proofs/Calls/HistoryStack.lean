import CodeNav.Calls.History
import Mathlib.Data.List.Infix

/-! The history of searches against a stack that forgets nothing. Both are driven by the same acts.
The history is the upper part of the stack at every moment, marks included; it is all of the stack
until the stack first outgrows the capacity; and acts that stay above a result, within the capacity,
leave the history from that result on as it was. -/
namespace CodeNav
set_option autoImplicit false

/-! ## Acts -/

/-- What is done to a history. A new result has no mark. -/
inductive HistoryAct where
  | push (target : Target) (references : List Reference)
  | pop
  | select (index : Nat)
  deriving DecidableEq, Repr

namespace History

def act (h : History) : HistoryAct → History
  | .push target references => h.push { target, references }
  | .pop => h.pop
  | .select index => h.select index

def run (h : History) (acts : List HistoryAct) : History :=
  acts.foldl act h

end History

/-- All results that were pushed and not yet popped, the latest first. -/
abbrev FullHistory := List ReferenceSet

namespace FullHistory

/-- A mark goes to the latest result alone, and only to an entry that it has. -/
def act (full : FullHistory) : HistoryAct → FullHistory
  | .push target references => { target, references } :: full
  | .pop => full.tail
  | .select index => full.modifyHead fun set =>
      if index < set.references.length then { set with lastSelected := some index } else set

def run (full : FullHistory) (acts : List HistoryAct) : FullHistory :=
  acts.foldl act full

end FullHistory

namespace ReferenceSet

def MarkInRange (set : ReferenceSet) : Prop :=
  ∀ index, set.lastSelected = some index → index < set.references.length

theorem MarkInRange.selected {set : ReferenceSet} (h : set.MarkInRange) (index : Nat)
    (hmark : set.lastSelected = some index) :
    ∃ entry, set.references[index]? = some entry ∧ set.selected? = some entry := by
  have hlt := h index hmark
  refine ⟨set.references[index], List.getElem?_eq_getElem hlt, ?_⟩
  rw [selected?, hmark, Option.bind_some, List.getElem?_eq_getElem hlt]

end ReferenceSet

namespace History

/-! ## One act -/

theorem select_eq (h : History) (index : Nat) :
    (h.select index).sets = FullHistory.act h.sets (.select index) := by
  obtain ⟨sets⟩ := h
  cases sets with
  | nil => rfl
  | cons set older =>
    simp only [select, FullHistory.act, List.modifyHead_cons]
    split <;> rfl

theorem select_out_of_range (h : History) (index : Nat)
    (hrange : ∀ set, h.top? = some set → set.references.length ≤ index) : h.select index = h := by
  obtain ⟨sets⟩ := h
  cases sets with
  | nil => rfl
  | cons set older =>
    have hle : set.references.length ≤ index := hrange set rfl
    simp only [select]
    rw [if_neg (by omega)]

/-- The history is the upper part of the stack, within the capacity, and every mark of the stack is
in range. -/
structure Refines (h : History) (full : FullHistory) : Prop where
  upper : h.sets <+: full
  bounded : h.sets.length ≤ capacity
  marks : ∀ set ∈ full, set.MarkInRange

theorem refines_nil : Refines {} [] :=
  ⟨List.prefix_rfl, Nat.zero_le capacity, fun _ hset => absurd hset List.not_mem_nil⟩

theorem Refines.push {h : History} {full : FullHistory} (hr : h.Refines full) (target : Target)
    (references : List Reference) :
    (h.act (.push target references)).Refines (full.act (.push target references)) := by
  refine ⟨?_, ?_, ?_⟩
  · have hcons : { target, references } :: h.sets <+: { target, references } :: full :=
      List.cons_prefix_cons.mpr ⟨rfl, hr.upper⟩
    exact (List.take_prefix capacity _).trans hcons
  · exact List.length_take_le capacity ({ target, references } :: h.sets)
  · intro set hset
    rcases List.mem_cons.mp hset with hnew | hold
    · subst hnew
      intro index hmark
      cases hmark
    · exact hr.marks set hold

theorem Refines.pop {h : History} {full : FullHistory} (hr : h.Refines full) :
    (h.act .pop).Refines (full.act .pop) := by
  refine ⟨?_, ?_, ?_⟩
  · have hdrop := hr.upper.drop 1
    rw [List.drop_one, List.drop_one] at hdrop
    exact hdrop
  · have hlen : h.sets.tail.length = h.sets.length - 1 := List.length_tail
    have hle := hr.bounded
    show h.sets.tail.length ≤ capacity
    omega
  · intro set hset
    exact hr.marks set (List.mem_of_mem_tail hset)

-- A history that has lost everything below its last result can be empty while the stack is not;
-- then the stack marks a result that the history no longer has.
theorem Refines.select {h : History} {full : FullHistory} (hr : h.Refines full) (index : Nat) :
    (h.act (.select index)).Refines (full.act (.select index)) := by
  obtain ⟨sets⟩ := h
  obtain ⟨rest, hfull⟩ := hr.upper
  have hsets := select_eq ⟨sets⟩ index
  have hmarks : ∀ set ∈ FullHistory.act full (.select index), set.MarkInRange := by
    cases full with
    | nil => exact hr.marks
    | cons set older =>
      simp only [FullHistory.act, List.modifyHead_cons, List.forall_mem_cons]
      obtain ⟨hset, holder⟩ := List.forall_mem_cons.mp hr.marks
      refine ⟨?_, holder⟩
      split
      · next hlt =>
        intro other hother
        cases hother
        exact hlt
      · exact hset
  refine ⟨?_, ?_, hmarks⟩
  · show (History.select ⟨sets⟩ index).sets <+: _
    rw [hsets]
    cases sets with
    | nil => exact List.nil_prefix
    | cons set older =>
      subst hfull
      exact ⟨rest, rfl⟩
  · show (History.select ⟨sets⟩ index).sets.length ≤ capacity
    rw [hsets]
    simpa [FullHistory.act] using hr.bounded

theorem Refines.act {h : History} {full : FullHistory} (hr : h.Refines full) (a : HistoryAct) :
    (h.act a).Refines (full.act a) := by
  cases a with
  | push target references => exact hr.push target references
  | pop => exact hr.pop
  | select index => exact hr.select index

/-! ## Runs -/

theorem Refines.run {h : History} {full : FullHistory} (hr : h.Refines full)
    (acts : List HistoryAct) : (h.run acts).Refines (full.run acts) := by
  induction acts generalizing h full with
  | nil => exact hr
  | cons a acts ih => exact ih (hr.act a)

theorem act_eq_full (h : History) (a : HistoryAct)
    (hdepth : (FullHistory.act h.sets a).length ≤ capacity) :
    (h.act a).sets = FullHistory.act h.sets a := by
  cases a with
  | push target references => exact List.take_of_length_le hdepth
  | pop => rfl
  | select index => exact select_eq h index

theorem run_eq_full (h : History) (acts : List HistoryAct)
    (hdepth : ∀ front, front <+: acts → (FullHistory.run h.sets front).length ≤ capacity) :
    (h.run acts).sets = FullHistory.run h.sets acts := by
  induction acts generalizing h with
  | nil => rfl
  | cons a acts ih =>
    have hfirst : (h.act a).sets = FullHistory.act h.sets a :=
      act_eq_full h a (hdepth [a] (List.cons_prefix_cons.mpr ⟨rfl, List.nil_prefix⟩))
    have hrest := ih (h.act a) (fun front hfront => by
      rw [hfirst]
      exact hdepth (a :: front) (List.cons_prefix_cons.mpr ⟨rfl, hfront⟩))
    rw [hfirst] at hrest
    exact hrest

/-- Acts that keep above a place of the stack: `depth` results lie above it before them and `last`
after them, and there is room for `room`. -/
def StaysAbove (room : Nat) : Nat → List HistoryAct → Nat → Prop
  | depth, [], last => depth = last
  | depth, .push _ _ :: acts, last => depth < room ∧ StaysAbove room (depth + 1) acts last
  | depth, .pop :: acts, last => 0 < depth ∧ StaysAbove room (depth - 1) acts last
  | depth, .select _ :: acts, last => 0 < depth ∧ StaysAbove room depth acts last

-- The induction is over the acts, with the results above the place as they are at the time.
theorem run_above (kept above : List ReferenceSet) (acts : List HistoryAct) (last : Nat)
    (hacts : StaysAbove (capacity - kept.length) above.length acts last) :
    ∃ later, later.length = last ∧ run ⟨above ++ kept⟩ acts = ⟨later ++ kept⟩ := by
  induction acts generalizing above with
  | nil => exact ⟨above, hacts, rfl⟩
  | cons a acts ih =>
    cases a with
    | push target references =>
      obtain ⟨hroom, hrest⟩ := hacts
      have hlen : ({ target, references } :: (above ++ kept)).length ≤ capacity := by
        simp only [List.length_cons, List.length_append]
        omega
      have hpush : act ⟨above ++ kept⟩ (.push target references) =
          ⟨({ target, references } :: above) ++ kept⟩ :=
        congrArg History.mk (List.take_of_length_le hlen)
      show ∃ later, later.length = last ∧
        run (act ⟨above ++ kept⟩ (.push target references)) acts = ⟨later ++ kept⟩
      rw [hpush]
      exact ih _ hrest
    | pop =>
      obtain ⟨hpos, hrest⟩ := hacts
      cases above with
      | nil => simp at hpos
      | cons set above => exact ih above hrest
    | select index =>
      obtain ⟨hpos, hrest⟩ := hacts
      cases above with
      | nil => simp at hpos
      | cons set above =>
        show ∃ later, later.length = last ∧
          run (History.select ⟨set :: above ++ kept⟩ index) acts = ⟨later ++ kept⟩
        simp only [select, List.cons_append]
        split
        · exact ih (_ :: above) hrest
        · exact ih (set :: above) hrest

/-- Whatever is pushed, popped and selected: the history is the upper part of the stack with its
marks, holds at most 32 results, and is the whole stack if that never held more. Every mark is at an
entry, selecting without such an entry changes nothing, and acts that keep above a place, within the
capacity, leave what lies below it as it was. -/
theorem history_refines_full (acts : List HistoryAct) :
    let h := History.run {} acts
    let full := FullHistory.run [] acts
    h.sets <+: full ∧
    h.sets.length ≤ 32 ∧
    ((∀ front, front <+: acts → (FullHistory.run [] front).length ≤ 32) → h.sets = full) ∧
    (∀ set ∈ h.sets, ∀ index, set.lastSelected = some index →
      index < set.references.length ∧
        ∃ entry, set.references[index]? = some entry ∧ set.selected? = some entry) ∧
    (∀ index, (∀ set, h.top? = some set → set.references.length ≤ index) →
      h.select index = h) ∧
    ∀ above kept more last, h.sets = above ++ kept →
      StaysAbove (32 - kept.length) above.length more last →
        ∃ later, later.length = last ∧ (h.run more).sets = later ++ kept := by
  intro h full
  have hr : h.Refines full := refines_nil.run acts
  refine ⟨hr.upper, hr.bounded, ?_, ?_, ?_, ?_⟩
  · intro hdepth
    exact run_eq_full {} acts hdepth
  · intro set hset index hmark
    have hrange : set.MarkInRange := hr.marks set (hr.upper.subset hset)
    exact ⟨hrange index hmark, hrange.selected index hmark⟩
  · intro index hrange
    exact select_out_of_range h index hrange
  · intro above kept more last hsets hmore
    obtain ⟨later, hlast, hrun⟩ := run_above kept above more last hmore
    refine ⟨later, hlast, ?_⟩
    rw [← hsets] at hrun
    exact congrArg History.sets hrun

def markedActs : List HistoryAct :=
  [.push ⟨"ui", "go"⟩ [⟨⟨"a.js", 0, 0⟩, "ui.go();"⟩, ⟨⟨"b.js", 4, 2⟩, "ui.go(1);"⟩], .select 1]

/-- A mark at the second entry, which neither a third entry nor a search above it takes away. -/
theorem history_refines_full_marked :
    let h := History.run {} markedActs
    (∀ front, front <+: markedActs → (FullHistory.run [] front).length ≤ 32) ∧
    h.sets.map (·.lastSelected) = [some 1] ∧
    h.sets = FullHistory.run [] markedActs ∧
    h.select 2 = h ∧
    (h.run [.push ⟨"ui", "stop"⟩ [], .select 0, .pop]).sets = h.sets := by
  intro h
  have hdepth : ∀ front, front <+: markedActs → (FullHistory.run [] front).length ≤ 32 := by
    intro front hfront
    have hlen : front.length ≤ 2 := hfront.length_le
    have hcases : front.length = 0 ∨ front.length = 1 ∨ front.length = 2 := by omega
    rw [List.prefix_iff_eq_take.mp hfront]
    rcases hcases with h0 | h1 | h2
    · rw [h0]; decide
    · rw [h1]; decide
    · rw [h2]; decide
  obtain ⟨-, -, hwhole, -, hselect, habove⟩ := history_refines_full markedActs
  refine ⟨hdepth, rfl, hwhole hdepth, hselect 2 ?_, ?_⟩
  · intro set hset
    cases hset
    decide
  · have hacts : StaysAbove 31 0 [.push ⟨"ui", "stop"⟩ [], .select 0, .pop] 0 :=
      ⟨by decide, by decide, by decide, rfl⟩
    obtain ⟨later, hlast, hrun⟩ := habove [] h.sets _ 0 rfl hacts
    rw [List.length_eq_zero_iff.mp hlast] at hrun
    exact hrun

end History

end CodeNav
