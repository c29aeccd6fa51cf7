import CodeNav.Proofs.Document.ArgumentLayout

/-! The arguments of a call as they are written: texts in which brackets and quotes come in pairs. The
count at a call is the number of its arguments, provided that no literal holds its own delimiter
behind a backslash: the count knows no backslash, and takes such a delimiter for the end of the
literal. -/
namespace CodeNav
set_option autoImplicit false
open Text

/-! ## Well-formed arguments -/

namespace Call

/-- What stands between the delimiters of a literal: a backslash takes the character behind it along,
and only so can the delimiter occur. -/
inductive Quoted (delimiter : Char) : List Char → Prop
  | nil : Quoted delimiter []
  | char (c : Char) (text : List Char) (hdelimiter : c ≠ delimiter) (hbackslash : c ≠ '\\')
      (htext : Quoted delimiter text) : Quoted delimiter (c :: text)
  | escaped (c : Char) (text : List Char) (htext : Quoted delimiter text) :
      Quoted delimiter ('\\' :: c :: text)

/-- The same without the delimiter: no backslash stands before one. -/
def Unescaped (delimiter : Char) (text : List Char) : Prop :=
  Quoted delimiter text ∧ delimiter ∉ text

inductive Brackets : Char → Char → Prop
  | round : Brackets '(' ')'
  | square : Brackets '[' ']'
  | curly : Brackets '\x7b' '\x7d'

def delimiters : List Char := ['"', '\'', '\x60']

/-- The characters that mean something in a list of arguments. -/
def marks : List Char :=
  ['(', ')', '[', ']', '\x7b', '\x7d', ',', '\\'] ++ delimiters

/-- Texts of other characters, of groups in brackets and of literals, and inside a group also of
commas. What may stand in a literal is left open. -/
inductive Balanced (Literal : Char → List Char → Prop) : (inGroup : Bool) → List Char → Prop
  | nil (inGroup : Bool) : Balanced Literal inGroup []
  | char (inGroup : Bool) (c : Char) (text : List Char) (hc : c ∉ marks)
      (htext : Balanced Literal inGroup text) : Balanced Literal inGroup (c :: text)
  | comma (text : List Char) (htext : Balanced Literal true text) :
      Balanced Literal true (',' :: text)
  | group (inGroup : Bool) (opening closing : Char) (body text : List Char)
      (hpair : Brackets opening closing) (hbody : Balanced Literal true body)
      (htext : Balanced Literal inGroup text) :
      Balanced Literal inGroup (opening :: (body ++ closing :: text))
  | literal (inGroup : Bool) (delimiter : Char) (body text : List Char)
      (hdelimiter : delimiter ∈ delimiters) (hbody : Literal delimiter body)
      (htext : Balanced Literal inGroup text) :
      Balanced Literal inGroup (delimiter :: (body ++ delimiter :: text))

structure Argument (Literal : Char → List Char → Prop) (text : List Char) : Prop where
  balanced : Balanced Literal false text
  filled : ∃ c ∈ text, isBlank c = false

end Call

/-! ## Steps of the count -/

namespace Tally

/-- The count after characters that belong to the current argument. -/
def takeAll (t : Tally) (cs : List Char) : Tally :=
  { t with filled := t.filled || cs.any (!isBlank ·) }

theorem takeAll_nil (t : Tally) : t.takeAll [] = t := by
  rw [takeAll, List.any_nil, Bool.or_false]

theorem takeAll_cons (t : Tally) (c : Char) (cs : List Char) :
    t.takeAll (c :: cs) = (t.take c).takeAll cs := by
  rw [takeAll, takeAll, take, List.any_cons, Bool.or_assoc]

theorem takeAll_filled (t : Tally) {cs : List Char} (h : ∃ c ∈ cs, isBlank c = false) :
    t.takeAll cs = { t with filled := true } := by
  obtain ⟨c, hc, hblank⟩ := h
  have hany : cs.any (!isBlank ·) = true := List.any_eq_true.mpr ⟨c, hc, by rw [hblank]; rfl⟩
  rw [takeAll, hany, Bool.or_true]

section Unquoted

variable {t : Tally} (hquote : t.quote = none)

include hquote

theorem step_of_char {c : Char} (hc : c ∉ Call.marks) : t.step? c = some (t.take c) := by
  simp only [Call.marks, Call.delimiters, List.cons_append, List.nil_append, List.mem_cons,
    List.not_mem_nil, or_false, not_or] at hc
  simp [step?, hquote, isOpening, isClosing, isQuote, hc]

theorem step_of_opening {opening closing : Char} (hpair : Call.Brackets opening closing)
    (hdepth : 1 ≤ t.depth) :
    t.step? opening = some { t.take opening with depth := t.depth + 1 } := by
  have hopening : isOpening opening = true := by cases hpair <;> rfl
  simp [step?, hquote, hopening, Nat.ne_of_gt hdepth]

theorem step_of_closing {opening closing : Char} (hpair : Call.Brackets opening closing)
    (hdepth : 2 ≤ t.depth) :
    t.step? closing = some { t.take closing with depth := t.depth - 1 } := by
  have hclosing : isOpening closing = false ∧ isClosing closing = true := by
    cases hpair <;> exact ⟨rfl, rfl⟩
  simp [step?, hquote, hclosing, Nat.not_le.mpr hdepth]

theorem step_of_delimiter {delimiter : Char} (hdelimiter : delimiter ∈ Call.delimiters) :
    t.step? delimiter = some { t.take delimiter with quote := some delimiter } := by
  have hmark : isOpening delimiter = false ∧ isClosing delimiter = false ∧
      isQuote delimiter = true ∧ delimiter ≠ ',' := by
    simp only [Call.delimiters, List.mem_cons, List.not_mem_nil, or_false] at hdelimiter
    rcases hdelimiter with rfl | rfl | rfl <;> decide
  simp [step?, hquote, hmark]

theorem step_of_comma : t.step? ',' =
    some (if t.depth = 1 then { t with filled := false, count := t.total } else t.take ',') := by
  by_cases hdepth : t.depth = 1 <;>
    simp [step?, hquote, hdepth, isOpening, isClosing, isQuote]

end Unquoted

theorem countLine_step {t later : Tally} {c : Char} (h : t.step? c = some later)
    (next : Tally → Nat) (cs : List Char) :
    t.countLine next (c :: cs) = later.countLine next cs := by
  rw [countLine, h]

/-- A literal in which its delimiter does not occur ends at the delimiter behind it. -/
theorem countLine_literal (t : Tally) {delimiter : Char} (hquote : t.quote = some delimiter)
    (next : Tally → Nat) {body : List Char} (hbody : delimiter ∉ body) (rest : List Char) :
    t.countLine next (body ++ delimiter :: rest) =
      countLine { (t.takeAll body).take delimiter with quote := none } next rest := by
  induction body generalizing t with
  | nil =>
    rw [takeAll_nil]
    exact countLine_step (by simp [step?, hquote]) next rest
  | cons c body ih =>
    rw [List.mem_cons, not_or] at hbody
    have hstep : t.step? c = some (t.take c) := by
      have hne : c ≠ delimiter := Ne.symm hbody.1
      simp [step?, hquote, hne, take]
    rw [List.cons_append, countLine_step hstep, takeAll_cons]
    exact ih (t.take c) hquote hbody.2

/-- What is balanced goes into the current argument as a whole, and leaves the depth as it was. -/
theorem countLine_balanced {inGroup : Bool} {text : List Char}
    (h : Call.Balanced Call.Unescaped inGroup text) (t : Tally) (hquote : t.quote = none)
    (hdepth : 1 ≤ t.depth) (hgroup : inGroup = true → 2 ≤ t.depth) (next : Tally → Nat)
    (rest : List Char) :
    t.countLine next (text ++ rest) = (t.takeAll text).countLine next rest := by
  induction h generalizing t rest with
  | nil inGroup => rw [takeAll_nil, List.nil_append]
  | char inGroup c text hc _ ih =>
    rw [List.cons_append, countLine_step (step_of_char hquote hc), takeAll_cons]
    exact ih (t.take c) hquote hdepth hgroup rest
  | comma text _ ih =>
    have hinner : t.depth ≠ 1 := Nat.ne_of_gt (hgroup rfl)
    rw [List.cons_append, countLine_step (step_of_comma hquote), if_neg hinner, takeAll_cons]
    exact ih (t.take ',') hquote hdepth hgroup rest
  | group inGroup opening closing body text hpair _ _ ihbody ihtext =>
    let inner : Tally := { t.take opening with depth := t.depth + 1 }
    let outer : Tally := { (inner.takeAll body).take closing with depth := t.depth }
    have hclose : (inner.takeAll body).step? closing = some outer :=
      step_of_closing (by exact hquote) hpair (Nat.succ_le_succ hdepth)
    have hall : outer.takeAll text = t.takeAll (opening :: (body ++ closing :: text)) := by
      simp [outer, inner, takeAll, take, Bool.or_assoc]
    calc t.countLine next (opening :: (body ++ closing :: text) ++ rest)
        = inner.countLine next (body ++ closing :: (text ++ rest)) := by
          rw [List.cons_append, List.append_assoc, List.cons_append]
          exact countLine_step (step_of_opening hquote hpair hdepth) next _
      _ = (inner.takeAll body).countLine next (closing :: (text ++ rest)) :=
          ihbody inner hquote (Nat.le_add_left 1 t.depth) (fun _ => Nat.succ_le_succ hdepth) _
      _ = outer.countLine next (text ++ rest) := countLine_step hclose next _
      _ = (t.takeAll (opening :: (body ++ closing :: text))).countLine next rest :=
          hall ▸ ihtext outer hquote hdepth hgroup rest
  | literal inGroup delimiter body text hdelimiter hbody _ ih =>
    let inner : Tally := { t.take delimiter with quote := some delimiter }
    let outer : Tally := { (inner.takeAll body).take delimiter with quote := none }
    have hall : outer.takeAll text = t.takeAll (delimiter :: (body ++ delimiter :: text)) := by
      simp [outer, inner, takeAll, take, Bool.or_assoc, hquote]
    calc t.countLine next (delimiter :: (body ++ delimiter :: text) ++ rest)
        = inner.countLine next (body ++ delimiter :: (text ++ rest)) := by
          rw [List.cons_append, List.append_assoc, List.cons_append]
          exact countLine_step (step_of_delimiter hquote hdelimiter) next _
      _ = outer.countLine next (text ++ rest) := countLine_literal inner rfl next hbody.2 _
      _ = (t.takeAll (delimiter :: (body ++ delimiter :: text))).countLine next rest :=
          hall ▸ ih outer rfl hdepth hgroup rest

/-- The rest of a call counts its arguments, on top of those that are complete. -/
theorem countLine_arguments (count : Nat) {args : List (List Char)}
    (hargs : ∀ arg ∈ args, Call.Argument Call.Unescaped arg) (next : Tally → Nat)
    (rest : List Char) :
    countLine { depth := 1, count } next (joinWith ',' args ++ ')' :: rest) =
      count + args.length := by
  induction args generalizing count with
  | nil => rfl
  | cons arg args ih =>
    have harg := hargs arg List.mem_cons_self
    have hread (more : List Char) : countLine { depth := 1, count } next (arg ++ more) =
        countLine { depth := 1, filled := true, count } next more := by
      rw [countLine_balanced harg.balanced _ rfl (Nat.le_refl 1) nofun, takeAll_filled _ harg.filled]
    cases args with
    | nil =>
      rw [joinWith, hread]
      rfl
    | cons other args =>
      rw [joinWith_cons_cons, List.append_assoc, hread, List.cons_append]
      refine (ih (count + 1) (fun arg hmem => hargs arg (List.mem_cons_of_mem _ hmem))).trans ?_
      simp only [List.length_cons]
      omega

end Tally

/-! ## Calls in a document -/

namespace Document

theorem solid_splitOn (text : List Char) : solid (splitOn '\n' text).flatten = solid text := by
  obtain ⟨piece, pieces, hpieces⟩ := List.exists_cons_of_ne_nil (splitOn_ne_nil '\n' text)
  conv => rhs; rw [← joinWith_splitOn '\n' text]
  rw [hpieces, joinWith_cons, List.flatten_cons, solid_append, solid_append,
    solid_spaced (by decide)]

/-- A call with the given arguments on the last of the given lines, and what follows it. -/
def withCall (path : String) (above : List (List Char)) (front : List Char)
    (args : List (List Char)) (following : List Char) : Document :=
  ofText path (joinWith '\n' (above ++ [front ++ '(' :: (joinWith ',' args ++ ')' :: following)]))

/-- The count at a call is the number of its arguments, whatever stands before and behind it and
wherever the lines are broken, if no literal holds its own delimiter behind a backslash. -/
theorem argument_count_of_unescaped (path : String) (above : List (List Char)) (front : List Char)
    (args : List (List Char)) (following : List Char) (character : Nat)
    (habove : ∀ line ∈ above, '\n' ∉ line) (hfront : '\n' ∉ front)
    (hcursor : character ≤ front.length) (hopen : '(' ∉ front.drop character)
    (hargs : ∀ arg ∈ args, Call.Argument Call.Unescaped arg) :
    (withCall path above front args following).argumentCount ⟨above.length, character⟩ =
      args.length := by
  obtain ⟨piece, pieces, hpieces, hlines⟩ := splitOn_free_append '\n' (front ++ ['('])
    (joinWith ',' args ++ ')' :: following) (by simpa using hfront)
  have hread : (withCall path above front args following).lines.drop above.length =
      withoutReturn (front ++ '(' :: piece) :: pieces.map withoutReturn := by
    rw [← List.append_cons] at hlines
    rw [withCall, ofText, splitOn_joinWith_last '\n' above _ habove, List.map_append, hlines,
      List.drop_left' (List.length_map withoutReturn), List.map_cons, ← List.append_cons]
  have hcut : (front ++ '(' :: piece).drop character = front.drop character ++ '(' :: piece :=
    List.drop_append_of_le_length hcursor
  have hsolid : solid (piece ++ (pieces.map withoutReturn).flatten) =
      solid (joinWith ',' args ++ ')' :: following) := by
    rw [solid_append, solid_flatten_withoutReturn, ← solid_append, ← List.flatten_cons, ← hpieces,
      solid_splitOn]
  rw [argumentCount_of_read hread hcut hopen, hsolid,
    Tally.countLine_solid (Tally.quoting_of_none rfl), Tally.countLine_arguments 0 hargs,
    Nat.zero_add]

/-- `g(1,⏎2)` and ` '\\,'`. -/
def brokenArguments : List (List Char) :=
  [['g', '(', '1', ',', '\n', '2', ')'], [' ', '\'', '\\', '\\', ',', '\'']]

theorem brokenArguments_unescaped :
    ∀ arg ∈ brokenArguments, Call.Argument Call.Unescaped arg := by
  rw [brokenArguments, List.forall_mem_cons, List.forall_mem_singleton]
  constructor
  · refine ⟨?_, 'g', by decide, by decide⟩
    exact .char _ 'g' _ (by decide) (.group _ '(' ')' ['1', ',', '\n', '2'] [] .round
      (.char _ '1' _ (by decide) (.comma _ (.char _ '\n' _ (by decide)
        (.char _ '2' _ (by decide) (.nil _))))) (.nil _))
  · refine ⟨?_, ',', by decide, by decide⟩
    exact .char _ ' ' _ (by decide) (.literal _ '\'' ['\\', '\\', ','] [] (by decide)
      ⟨.escaped '\\' _ (.char ',' _ (by decide) (by decide) .nil), by decide⟩ (.nil _))

theorem argument_count_of_brokenArguments :
    (∀ arg ∈ brokenArguments, Call.Argument Call.Unescaped arg) ∧
    (withCall "a.js" [['(']] ['x', '=', 'f'] brokenArguments [';', '\'']).argumentCount ⟨1, 2⟩ =
      2 :=
  ⟨brokenArguments_unescaped, argument_count_of_unescaped "a.js" [['(']] ['x', '=', 'f']
    brokenArguments [';', '\''] 2 (by decide) (by decide) (by decide) (by decide)
    brokenArguments_unescaped⟩

/-- `'it\'s'` and ` b`. -/
def escapedArguments : List (List Char) :=
  [['\'', 'i', 't', '\\', '\'', 's', '\''], [' ', 'b']]

/-- Behind an escaped delimiter the count goes on inside quotes: in `f('it\'s', b)` it finds one
argument and not two. -/
theorem argument_count_misled_by_escape :
    (∀ arg ∈ escapedArguments, Call.Argument Call.Quoted arg) ∧ escapedArguments.length = 2 ∧
    (withCall "a.js" [] ['f'] escapedArguments []).argumentCount ⟨0, 0⟩ = 1 := by
  refine ⟨?_, rfl, by decide⟩
  rw [escapedArguments, List.forall_mem_cons, List.forall_mem_singleton]
  constructor
  · refine ⟨?_, 's', by decide, by decide⟩
    exact .literal _ '\'' ['i', 't', '\\', '\'', 's'] [] (by decide)
      (.char 'i' _ (by decide) (by decide) (.char 't' _ (by decide) (by decide)
        (.escaped '\'' _ (.char 's' _ (by decide) (by decide) .nil)))) (.nil _)
  · refine ⟨?_, 'b', by decide, by decide⟩
    exact .char _ ' ' _ (by decide) (.char _ 'b' _ (by decide) (.nil _))

end Document

end CodeNav
