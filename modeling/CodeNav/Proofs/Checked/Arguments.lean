import CodeNav.Proofs.Checked.Operations
import CodeNav.Proofs.Document.ArgumentLayout
import CodeNav.Proofs.Document.Excerpts

/-! Counting the arguments of a call with checks. A character opens at most one bracket and completes
at most one argument, so neither number ever exceeds the characters that were read; a document that
fits in memory has too few of them for a sum to overflow. -/
namespace CodeNav.Checked
set_option autoImplicit false
open Text

/-! ## One character -/

def total (t : Tally) : Except Fault Nat :=
  if t.filled then add t.count 1 else pure t.count

def step? (t : Tally) (c : Char) : Except Fault (Option Tally) :=
  match t.quote with
  | some q => pure (some { t.take c with quote := if c == q then none else some q })
  | none =>
    if Tally.isOpening c then do
      let depth ← add t.depth 1
      return some (if depth = 1 then { t with depth } else { t.take c with depth })
    else if Tally.isClosing c then
      -- Below zero the depth stays at zero.
      pure (if t.depth - 1 = 0 then none else some { t.take c with depth := t.depth - 1 })
    else if c == ',' && t.depth == 1 then do
      let count ← total t
      return some { t with filled := false, count }
    else if Tally.isQuote c then pure (some { t.take c with quote := some c })
    else pure (some (t.take c))

/-- The count can go on for so many steps. -/
structure Room (t : Tally) (left : Nat) : Prop where
  depth : t.depth + left < UInt64.size
  count : t.count + left < UInt64.size

namespace Room

variable {t : Tally} {left : Nat}

theorem mono (h : Room t left) {fewer : Nat} (hle : fewer ≤ left) : Room t fewer :=
  ⟨Nat.lt_of_le_of_lt (Nat.add_le_add_left hle _) h.depth,
    Nat.lt_of_le_of_lt (Nat.add_le_add_left hle _) h.count⟩

theorem total_eq (h : Room t (left + 1)) : total t = .ok t.total := by
  rw [total, Tally.total]
  have hcount := h.count
  split
  · exact add_eq (by omega)
  · rfl

theorem step?_eq (h : Room t (left + 1)) (c : Char) : step? t c = .ok (t.step? c) := by
  have hdepth := h.depth
  rw [step?, Tally.step?]
  cases t.quote with
  | some q => rfl
  | none =>
    simp only
    by_cases hopening : Tally.isOpening c = true
    · rw [if_pos hopening, if_pos hopening, add_eq (by omega), ok_bind]
      simp only [Nat.add_eq_right]
      by_cases hzero : t.depth = 0
      · rw [if_pos hzero, if_pos hzero, hzero]
        rfl
      · rw [if_neg hzero, if_neg hzero]
        rfl
    · rw [if_neg hopening, if_neg hopening]
      by_cases hclosing : Tally.isClosing c = true
      · simp only [if_pos hclosing, Nat.sub_eq_zero_iff_le]
        rfl
      · rw [if_neg hclosing, if_neg hclosing, h.total_eq]
        split
        · rfl
        · split <;> rfl

theorem grows_of_step {later : Tally} {c : Char} (h : t.step? c = some later) :
    later.depth ≤ t.depth + 1 ∧ later.count ≤ t.count + 1 := by
  have htotal : t.total ≤ t.count + 1 := by
    rw [Tally.total]
    split <;> omega
  rw [Tally.step?] at h
  split at h
  · cases h
    exact ⟨Nat.le_succ _, Nat.le_succ _⟩
  split at h
  · split at h <;> cases h
    · exact ⟨Nat.le_add_left _ _, Nat.le_succ _⟩
    · exact ⟨Nat.le_refl _, Nat.le_succ _⟩
  split at h
  · split at h <;> cases h
    exact ⟨Nat.le_succ_of_le (Nat.sub_le _ _), Nat.le_succ _⟩
  split at h
  · cases h
    exact ⟨Nat.le_succ _, htotal⟩
  split at h <;> cases h <;> exact ⟨Nat.le_succ _, Nat.le_succ _⟩

/-- A character uses up one step. -/
theorem step (h : Room t (left + 1)) {c : Char} {later : Tally} (hstep : t.step? c = some later) :
    Room later left := by
  obtain ⟨hdepth, hcount⟩ := grows_of_step hstep
  have := h.depth
  have := h.count
  exact ⟨by omega, by omega⟩

end Room

/-! ## Lines -/

def countLine (t : Tally) (next : Tally → Except Fault Nat) : List Char → Except Fault Nat
  | [] => next t
  | c :: cs => do
    match ← step? t c with
    | some later => countLine later next cs
    | none => total t

/-- The arguments from the byte offset in the first line on. -/
def countLines (t : Tally) (offset : Nat) : List (List Char) → Except Fault Nat
  | [] => total t
  | line :: lines => do
    countLine t (fun later => countLines (later.take ' ') 0 lines) (← behind line offset)

def argumentCount (doc : Document) (pos : Position) : Except Fault Nat := do
  let line := doc.line pos.line
  let ahead ← behind line (byteOf line pos.character)
  match ahead.findIdx? (· == '(') with
  | none => return 0
  | some index =>
    let offset ← add (byteOf line pos.character) (byteOf ahead index)
    countLines {} offset (doc.lines.drop pos.line)

theorem Room.countLine_eq {cs : List Char} {left : Nat} {t : Tally} {next : Tally → Nat}
    {checked : Tally → Except Fault Nat} (h : Room t (cs.length + (left + 1)))
    (hnext : ∀ later, Room later (left + 1) → checked later = .ok (next later)) :
    countLine t checked cs = .ok (t.countLine next cs) := by
  induction cs generalizing t with
  | nil => exact hnext t (h.mono (Nat.le_add_left _ _))
  | cons c cs ih =>
    have hroom : Room t (cs.length + (left + 1) + 1) := h.mono (by rw [List.length_cons]; omega)
    rw [countLine, hroom.step?_eq c, ok_bind, Tally.countLine]
    cases hstep : t.step? c with
    | none => exact hroom.total_eq
    | some later => exact ih (hroom.step hstep)

theorem Room.countLines_zero {lines : List (List Char)} {t : Tally}
    (h : Room t (lines.flatten.length + 1)) : countLines t 0 lines = .ok (t.countLines lines) := by
  induction lines generalizing t with
  | nil => exact h.total_eq
  | cons line lines ih =>
    rw [List.flatten_cons, List.length_append, Nat.add_assoc] at h
    rw [countLines, show behind line 0 = .ok line from behind_byteOf line 0, ok_bind,
      Tally.countLines]
    exact h.countLine_eq fun later hlater => ih ⟨hlater.depth, hlater.count⟩

theorem Room.countLines_append {front line : List Char} {lines : List (List Char)} {t : Tally}
    (h : Room t ((line :: lines).flatten.length + 1)) :
    countLines t (Utf8.size front) ((front ++ line) :: lines) =
      .ok (t.countLines (line :: lines)) := by
  rw [List.flatten_cons, List.length_append, Nat.add_assoc] at h
  rw [countLines, behind_append, ok_bind, Tally.countLines]
  exact h.countLine_eq fun later hlater => Room.countLines_zero ⟨hlater.depth, hlater.count⟩

theorem argumentCount_eq {doc : Document} (h : doc.Storable) (pos : Position) :
    argumentCount doc pos = .ok (doc.argumentCount pos) := by
  have hahead : behind (doc.line pos.line) (byteOf (doc.line pos.line) pos.character) =
      .ok (doc.after pos) := behind_byteOf _ _
  rw [argumentCount, hahead, ok_bind, Document.argumentCount]
  by_cases hcall : '(' ∈ doc.after pos
  · obtain ⟨front, tail, hafter, hfront⟩ := List.eq_append_cons_of_mem hcall
    have hfind : (doc.after pos).findIdx? (· == '(') = some front.length := by
      have hnone : front.findIdx? (· == '(') = none := by
        rw [List.findIdx?_eq_none_iff]
        exact fun c hc => beq_eq_false_iff_ne.mpr (ne_of_mem_of_not_mem hc hfront)
      rw [hafter, List.findIdx?_append, hnone, Option.none_or, List.findIdx?_cons, beq_self_eq_true,
        if_pos rfl, Option.map_some, Nat.zero_add]
    have hcut : doc.line pos.line =
        ((doc.line pos.line).take pos.character ++ front) ++ '(' :: tail := by
      rw [List.append_assoc, ← hafter]
      exact (List.take_append_drop _ _).symm
    have hoffset : byteOf (doc.line pos.line) pos.character + byteOf (doc.after pos) front.length =
        Utf8.size ((doc.line pos.line).take pos.character ++ front) := by
      rw [Utf8.size_append, byteOf, byteOf, hafter, List.take_left]
    have hsize := h.size_line_lt pos.line
    have hlines := Document.lines_drop_of_after (List.ne_nil_of_mem hcall)
    have hlength := h.length_flatten_drop_lt pos.line
    rw [hcut, Utf8.size_append] at hsize
    rw [hlines, hcut, List.flatten_cons, List.append_assoc, List.length_append,
      ← List.flatten_cons] at hlength
    have hroom : Room {} ((('(' :: tail) :: doc.lines.drop (pos.line + 1)).flatten.length + 1) :=
      ⟨by simp only; omega, by simp only; omega⟩
    have hopen : (doc.after pos).dropWhile (· != '(') = '(' :: tail := by
      rw [hafter, dropWhile_ne_append hfront]
    rw [hfind, hopen]
    simp only
    rw [add_eq (by omega), ok_bind, hoffset, hlines]
    conv => lhs; arg 3; rw [hcut]
    exact hroom.countLines_append
  · have hfind : (doc.after pos).findIdx? (· == '(') = none := by
      rw [List.findIdx?_eq_none_iff]
      exact fun c hc => beq_eq_false_iff_ne.mpr (ne_of_mem_of_not_mem hc hcall)
    have hopen : (doc.after pos).dropWhile (· != '(') = [] := by
      rw [← List.append_nil (doc.after pos), List.dropWhile_append_of_pos]
      · rfl
      · exact fun c hc => bne_iff_ne.mpr (ne_of_mem_of_not_mem hc hcall)
    rw [hfind, hopen]
    rfl

end CodeNav.Checked
