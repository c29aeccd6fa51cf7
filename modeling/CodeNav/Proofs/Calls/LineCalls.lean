import CodeNav.Calls.Search
import CodeNav.Proofs.Text.Runs

/-! The calls on one line.

A line is read three times, each time from left to right and without going back into what was read,
and what is found is sorted and merged. Every reading ends at the first opening bracket behind its
start. So readings that overlap end together, and of those the leftmost counts: for a written
receiver there is only one, and for a variable it is the one whose name is not cut on the left. -/
namespace CodeNav
set_option autoImplicit false
open Text Text.Scan

namespace CallSearch

/-! ## Characters of a call -/

/-- A word that can name a function. -/
structure IsWord (word : List Char) : Prop where
  ne_nil : word ≠ []
  ident : ∀ c ∈ word, isIdentChar c = true

theorem IsWord.blanks_behind {word : List Char} (hword : IsWord word) (front : List Char)
    {gap : List Char} (hgap : ∀ c ∈ gap, isBlank c = true) :
    (front ++ word ++ gap).reverse.takeWhile isBlank = gap.reverse := by
  have hrev : (front ++ word ++ gap).reverse = gap.reverse ++ (word.reverse ++ front.reverse) := by
    simp only [List.reverse_append]
  have hstop : (word.reverse ++ front.reverse).takeWhile isBlank = [] := by
    cases hlast : word.reverse with
    | nil => exact absurd (List.reverse_eq_nil_iff.mp hlast) hword.ne_nil
    | cons last init =>
      have hmem : last ∈ word := List.mem_reverse.mp (hlast ▸ List.mem_cons_self)
      have hnot := not_isBlank_of_isIdentChar last (hword.ident last hmem)
      rw [List.cons_append, List.takeWhile_cons_of_neg (Bool.eq_false_iff.mp hnot)]
  rw [hrev, List.takeWhile_append_of_pos (fun c hc => hgap c (List.mem_reverse.mp hc)), hstop,
    List.append_nil]

theorem IsWord.front_unique {word : List Char} (hword : IsWord word)
    {front front' gap gap' : List Char}
    (hgap : ∀ c ∈ gap, isBlank c = true) (hgap' : ∀ c ∈ gap', isBlank c = true)
    (heq : front ++ word ++ gap = front' ++ word ++ gap') : front = front' := by
  have hrev : gap.reverse = gap'.reverse := by
    rw [← hword.blanks_behind front hgap, heq, hword.blanks_behind front' hgap']
  have hsame : gap = gap' := List.reverse_inj.mp hrev
  rw [hsame] at heq
  exact List.append_cancel_right (List.append_cancel_right heq)

/-! ## Texts of calls -/

/-- A receiver, a dot, the function, blanks or none, and the bracket. -/
def CallText (receiver function text : List Char) : Prop :=
  ∃ gap, (∀ c ∈ gap, isBlank c = true) ∧ text = receiver ++ ('.' :: function ++ (gap ++ ['(']))

/-- A call whose receiver can be the name of a variable. -/
def VariableCallText (function receiver text : List Char) : Prop :=
  receiver ≠ [] ∧ (∀ c ∈ receiver, isNameChar c = true) ∧ CallText receiver function text

theorem CallText.append {receiver function text : List Char} (h : CallText receiver function text)
    (front : List Char) : CallText (front ++ receiver) function (front ++ text) := by
  obtain ⟨gap, hgap, rfl⟩ := h
  exact ⟨gap, hgap, by rw [List.append_assoc]⟩

theorem CallText.exists_body {receiver function text : List Char} (hreceiver : '(' ∉ receiver)
    (hword : IsWord function) (h : CallText receiver function text) :
    ∃ body, '(' ∉ body ∧ text = body ++ ['('] := by
  obtain ⟨gap, hgap, rfl⟩ := h
  have hfunction := not_mem_of_class hword.ident (show isIdentChar '(' = false by decide +kernel)
  have hblank := not_mem_of_class hgap (show isBlank '(' = false by decide +kernel)
  refine ⟨receiver ++ ('.' :: function ++ gap), ?_, by simp only [List.append_assoc]⟩
  simp [hreceiver, hfunction, hblank]

/-- Calls that end together have receivers that end together. -/
theorem CallText.receiver_end {receiver receiver' function text text' front front' : List Char}
    (hword : IsWord function) (h : CallText receiver function text)
    (h' : CallText receiver' function text') (heq : front ++ text = front' ++ text') :
    front ++ receiver = front' ++ receiver' := by
  obtain ⟨gap, hgap, rfl⟩ := h
  obtain ⟨gap', hgap', rfl⟩ := h'
  have hends : front ++ receiver ++ ['.'] ++ function ++ gap =
      front' ++ receiver' ++ ['.'] ++ function ++ gap' := by
    rw [← List.append_left_inj ['(']]
    simpa only [List.append_assoc, List.cons_append, List.nil_append] using heq
  exact List.append_cancel_right (hword.front_unique hgap hgap' hends)

theorem called_reads (function : List Char) :
    (called function).Reads fun _ => CallText [] function := by
  intro here reading
  simp only [called, lit, mem_bind, mem_chars, mem_blanks]
  constructor
  · rintro ⟨⟨_, mid⟩, hfunction, ⟨_, mid'⟩, hgap, hbracket⟩
    have hblank := List.all_eq_true.mp (@List.all_takeWhile _ isBlank mid.after)
    refine ⟨_, ⟨mid.after.takeWhile isBlank, hblank, rfl⟩, ?_⟩
    rw [List.nil_append, passes_append]
    exact ⟨mid, hfunction, (passes_append mid _ _ _).mpr ⟨mid', hgap, hbracket⟩⟩
  · rintro ⟨_, ⟨gap, hgap, rfl⟩, hpasses⟩
    rw [List.nil_append, passes_append] at hpasses
    obtain ⟨mid, hfunction, hpasses⟩ := hpasses
    obtain ⟨mid', hblanks, hbracket⟩ := (passes_append mid _ _ _).mp hpasses
    have htaken : mid.after.takeWhile isBlank = gap := by
      rw [hblanks.after, List.takeWhile_append_of_pos hgap, hbracket.after, List.singleton_append,
        List.takeWhile_cons_of_neg (by decide +kernel), List.append_nil]
    exact ⟨((), mid), hfunction, ((), mid'), htaken ▸ hblanks, hbracket⟩

theorem callOn_reads (owner function : List Char) :
    (callOn owner function).Reads fun _ => CallText owner function := by
  intro here reading
  simp only [callOn, mem_bind, mem_chars, called_reads function _ _]
  constructor
  · rintro ⟨⟨_, mid⟩, howner, text, htext, hpasses⟩
    have hwhole := htext.append owner
    rw [List.append_nil] at hwhole
    exact ⟨owner ++ text, hwhole, (passes_append here _ _ _).mpr ⟨mid, howner, hpasses⟩⟩
  · rintro ⟨_, ⟨gap, hgap, rfl⟩, hpasses⟩
    obtain ⟨mid, howner, hpasses⟩ := (passes_append here _ _ _).mp hpasses
    exact ⟨((), mid), howner, _, ⟨gap, hgap, rfl⟩, hpasses⟩

-- The name is read as far as it goes, and it goes as far as the dot.
theorem callOnVariable_reads (function : List Char) :
    (callOnVariable function).Reads (VariableCallText function) := by
  intro here reading
  simp only [callOnVariable, mem_bind, mem_run1, mem_run, mem_pure, called_reads function _ _]
  constructor
  · rintro ⟨⟨receiver, mid⟩, ⟨hne, hname, hpasses⟩, ⟨_, next⟩, ⟨text, htext, hcall⟩, rfl⟩
    have hwhole := htext.append receiver
    rw [List.append_nil] at hwhole
    refine ⟨receiver ++ text, ⟨hne, fun c hc => ?_, hwhole⟩, (passes_append here _ _ _).mpr
      ⟨mid, hpasses, hcall⟩⟩
    simp only at hname
    exact List.all_eq_true.mp List.all_takeWhile c (hname ▸ hc)
  · rintro ⟨_, ⟨hne, hname, gap, hgap, rfl⟩, hpasses⟩
    obtain ⟨mid, hreceiver, hcall⟩ := (passes_append here _ _ _).mp hpasses
    have htaken : here.after.takeWhile isNameChar = reading.1 := by
      rw [hreceiver.after, List.takeWhile_append_of_pos hname, hcall.after, List.cons_append,
        List.cons_append, List.takeWhile_cons_of_neg (by decide +kernel), List.append_nil]
    exact ⟨(reading.1, mid), ⟨hne, htaken.symm, hreceiver⟩, ((), reading.2),
      ⟨_, ⟨gap, hgap, rfl⟩, hcall⟩, rfl⟩

theorem called_single (function : List Char) : (called function).Single :=
  (single_chars _).bind fun _ => single_blanks.bind fun _ => single_chars _

theorem callOn_single (owner function : List Char) : (callOn owner function).Single :=
  (single_chars owner).bind fun _ => called_single function

theorem callOnVariable_single (function : List Char) : (callOnVariable function).Single :=
  (single_run1 isNameChar).bind fun receiver =>
    (called_single function).bind fun _ => single_pure receiver

/-! ## Starts of calls -/

/-- At `start` the line reads a call of the function on the receiver. -/
def CallAt (receiver function line : List Char) (start : Nat) : Prop :=
  ∃ front text tail, line = front ++ (text ++ tail) ∧ front.length = start ∧
    CallText receiver function text

/-- The character right before `start`, where there is one, does not satisfy `p`. -/
def NotAfter (p : Char → Bool) (cs : List Char) (start : Nat) : Prop :=
  ∀ i c, i + 1 = start → cs[i]? = some c → p c = false

theorem notAfter_append (p : Char → Bool) (front rest : List Char) :
    NotAfter p (front ++ rest) front.length ↔ ∀ c, front.getLast? = some c → p c = false := by
  rw [List.getLast?_eq_getElem?]
  constructor
  · intro hnot c hc
    have hlt := (List.getElem?_eq_some_iff.mp hc).1
    refine hnot (front.length - 1) c (by omega) ?_
    rw [List.getElem?_append_left hlt, hc]
  · intro hlast i c hi hc
    rw [List.getElem?_append_left (by omega)] at hc
    exact hlast c (by rw [← hi, Nat.add_sub_cancel, hc])

theorem startsWord_append (front rest : List Char) :
    startsWord (front ++ rest) front.length = true ↔
      NotAfter isIdentChar (front ++ rest) front.length := by
  rw [notAfter_append, startsWord, List.take_left]
  cases front.getLast? <;> simp

/-- No call on a written receiver is lost to another. -/
theorem mem_callOn_hits {owner function : List Char} (howner : '(' ∉ owner)
    (hword : IsWord function) (line : List Char) (hit : Hit Unit) :
    hit ∈ (callOn owner function).hits line ↔
      Occurs (fun _ => CallText owner function) line hit := by
  rw [mem_hits (callOn_single owner function) (callOn_reads owner function)
    (fun _ _ h => h.exists_body howner hword)]
  refine and_iff_left_of_imp ?_
  rintro ⟨front, text, tail, rfl, htext, hstart, hstop⟩ g
    ⟨front', text', tail', hline, htext', hstart', hstop'⟩ hlt heq
  have hends := htext.receiver_end hword htext' (append_eq_of_same_end hline (by omega))
  have hfront : front = front' := List.append_cancel_right hends
  rw [hfront] at hstart
  omega

/-- A call on a variable is lost where the reading cuts the variable's name, and only there. -/
theorem mem_callOnVariable_hits {function : List Char} (hword : IsWord function)
    (line : List Char) (hit : Hit (List Char)) :
    hit ∈ (callOnVariable function).hits line ↔
      Occurs (VariableCallText function) line hit ∧ NotAfter isNameChar line hit.start := by
  have hbracket : isNameChar '(' = false := by decide +kernel
  rw [mem_hits (callOnVariable_single function) (callOnVariable_reads function)
    (fun _ _ h => h.2.2.exists_body (not_mem_of_class h.2.1 hbracket) hword)]
  refine and_congr_right ?_
  rintro ⟨front, text, tail, rfl, ⟨hne, hname, htext⟩, hstart, hstop⟩
  rw [hstart, notAfter_append]
  constructor
  · -- With one more character of the name, the reading would start earlier and end here.
    intro hfirst c hlast
    obtain ⟨init, rfl⟩ := List.getLast?_eq_some_iff.mp hlast
    rw [List.length_append, List.length_singleton] at hfirst hstop
    rw [Bool.eq_false_iff]
    intro hc
    refine hfirst ⟨init.length, hit.stop, c :: hit.value⟩ ⟨init, c :: text, tail, ?_, ⟨?_, ?_, ?_⟩,
      rfl, ?_⟩ (Nat.lt_succ_self _) rfl
    · simp only [List.append_assoc, List.cons_append, List.nil_append]
    · exact List.cons_ne_nil c hit.value
    · exact List.forall_mem_cons.mpr ⟨hc, hname⟩
    · exact htext.append [c]
    · simp only [List.length_cons]
      omega
  · -- What an earlier reading that ends here has before the start belongs to its name.
    rintro hlast g ⟨front', text', tail', hline, ⟨_, hname', htext'⟩, hstart', hstop'⟩ hlt heq
    have hends := htext.receiver_end hword htext' (append_eq_of_same_end hline (by omega))
    rcases List.append_eq_append_iff.mp hends with ⟨more, hfront, _⟩ | ⟨more, hfront, hvalue⟩
    · rw [hfront, List.length_append] at hstart'
      omega
    · rw [hfront, List.length_append] at hlt
      cases hmore : more.getLast? with
      | none =>
        rw [List.getLast?_eq_none_iff.mp hmore, List.length_nil] at hlt
        omega
      | some c =>
        have hc : c ∈ g.value := by
          rw [hvalue]
          exact List.mem_append_left _ (List.mem_of_getLast? hmore)
        have hnot := hlast c (by rw [hfront, List.getLast?_append, hmore, Option.some_or])
        rw [hname' c hc] at hnot
        exact Bool.noConfusion hnot

theorem mem_ownStarts {owner function : List Char} (howner : '(' ∉ owner)
    (hword : IsWord function) (line : List Char) (start : Nat) :
    start ∈ ownStarts owner function line ↔
      CallAt owner function line start ∧ NotAfter isIdentChar line start := by
  simp only [ownStarts, List.mem_filter, List.mem_map, mem_callOn_hits howner hword]
  constructor
  · rintro ⟨⟨hit, ⟨front, text, tail, rfl, htext, hstart, _⟩, rfl⟩, hword⟩
    rw [hstart] at hword ⊢
    exact ⟨⟨front, text, tail, rfl, rfl, htext⟩, (startsWord_append front _).mp hword⟩
  · rintro ⟨⟨front, text, tail, rfl, rfl, htext⟩, hnot⟩
    exact ⟨⟨⟨front.length, _, ()⟩, ⟨front, text, tail, rfl, htext, rfl, rfl⟩, rfl⟩,
      (startsWord_append front _).mpr hnot⟩

theorem mem_variableStarts {target : Target} (hword : IsWord target.function.toList)
    (instances : Bindings) (line : List Char) (start : Nat) :
    start ∈ variableStarts target instances line ↔
      ∃ receiver, receiver ≠ [] ∧ (∀ c ∈ receiver, isNameChar c = true) ∧
        CallAt receiver target.function.toList line start ∧ NotAfter isNameChar line start ∧
        instances.get? (String.ofList receiver) = some target.owner := by
  simp only [variableStarts, List.mem_map, List.mem_filter, mem_callOnVariable_hits hword,
    beq_iff_eq]
  constructor
  · rintro ⟨hit, ⟨⟨⟨front, text, tail, hline, ⟨hne, hname, htext⟩, hstart, _⟩, hnot⟩, hbound⟩, rfl⟩
    exact ⟨hit.value, hne, hname, ⟨front, text, tail, hline, hstart.symm, htext⟩, hnot, hbound⟩
  · rintro ⟨receiver, hne, hname, ⟨front, text, tail, hline, hstart, htext⟩, hnot, hbound⟩
    exact ⟨⟨start, start + text.length, receiver⟩, ⟨⟨⟨front, text, tail, hline,
      ⟨hne, hname, htext⟩, hstart.symm, by rw [hstart]⟩, hnot⟩, hbound⟩, rfl⟩

/-- A call of the target, as it is written on a line: with the namespace, with the instance where
that is allowed, or with a variable of the namespace, whose whole name stands before the dot. -/
inductive IsCall (target : Target) (onInstance : Bool) (instances : Bindings) (line : List Char)
    (start : Nat) : Prop
  | direct (hcall : CallAt target.owner.toList target.function.toList line start)
      (hword : NotAfter isIdentChar line start)
  | inner (hallowed : onInstance = true)
      (hcall : CallAt "this".toList target.function.toList line start)
      (hword : NotAfter isIdentChar line start)
  | onVariable (receiver : List Char) (hne : receiver ≠ [])
      (hname : ∀ c ∈ receiver, isNameChar c = true)
      (hcall : CallAt receiver target.function.toList line start)
      (hwhole : NotAfter isNameChar line start)
      (hbound : instances.get? (String.ofList receiver) = some target.owner)

theorem mem_starts {target : Target} (howner : '(' ∉ target.owner.toList)
    (hword : IsWord target.function.toList) (onInstance : Bool) (instances : Bindings)
    (line : List Char) (start : Nat) :
    start ∈ starts target onInstance instances line ↔
      IsCall target onInstance instances line start := by
  have hthis : '(' ∉ "this".toList := by decide
  have hinner : start ∈ (if onInstance then ownStarts "this".toList target.function.toList line
      else []) ↔ onInstance = true ∧ CallAt "this".toList target.function.toList line start ∧
        NotAfter isIdentChar line start := by
    cases onInstance with
    | false => simp
    | true => simp only [if_true, mem_ownStarts hthis hword, true_and]
  rw [starts, List.mem_eraseDups, List.mem_mergeSort, List.mem_append, List.mem_append, hinner,
    mem_ownStarts howner hword, mem_variableStarts hword]
  constructor
  · rintro ((⟨hcall, hstart⟩ | ⟨hallowed, hcall, hstart⟩) |
      ⟨receiver, hne, hname, hcall, hwhole, hbound⟩)
    · exact .direct hcall hstart
    · exact .inner hallowed hcall hstart
    · exact .onVariable receiver hne hname hcall hwhole hbound
  · rintro (⟨hcall, hstart⟩ | ⟨hallowed, hcall, hstart⟩ |
      ⟨receiver, hne, hname, hcall, hwhole, hbound⟩)
    · exact Or.inl (Or.inl ⟨hcall, hstart⟩)
    · exact Or.inl (Or.inr ⟨hallowed, hcall, hstart⟩)
    · exact Or.inr ⟨receiver, hne, hname, hcall, hwhole, hbound⟩

theorem eraseDups_ascending (ns : List Nat) (hsorted : ns.Pairwise (· ≤ ·)) :
    ns.eraseDups.Pairwise (· < ·) := by
  match ns, hsorted with
  | [], _ => exact List.Pairwise.nil
  | n :: ns, hsorted =>
    obtain ⟨hle, hsorted⟩ := List.pairwise_cons.mp hsorted
    rw [List.eraseDups_cons, List.pairwise_cons]
    refine ⟨fun m hm => ?_, eraseDups_ascending _ (hsorted.filter _)⟩
    obtain ⟨hm, hne⟩ := List.mem_filter.mp (List.mem_eraseDups.mp hm)
    have := hle m hm
    have : m ≠ n := by simpa using hne
    omega
termination_by ns.length
decreasing_by
  have := List.length_filter_le (fun m => !m == n) ns
  simp only [List.length_cons]
  omega

theorem starts_ascending (target : Target) (onInstance : Bool) (instances : Bindings)
    (line : List Char) : (starts target onInstance instances line).Pairwise (· < ·) := by
  rw [starts]
  apply eraseDups_ascending
  refine (List.pairwise_mergeSort ?_ ?_ _).imp ?_
  · intro a b c hab hbc
    simp only [decide_eq_true_eq] at *
    omega
  · intro a b
    simp only [Bool.or_eq_true, decide_eq_true_eq]
    omega
  · intro a b hab
    simpa using hab

end CallSearch
end CodeNav
