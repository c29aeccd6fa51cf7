import CodeNav.Assist.Signature
import CodeNav.Proofs.Document.MemberWord
import CodeNav.Proofs.Text.Pieces

/-! The open call before a cursor. A text can be read in one way only as a call that starts with it,
since a dotted path goes as far as its characters do and the bracket follows behind blanks. A search
takes the leftmost place where there is a call, and not the last one. -/
namespace CodeNav
set_option autoImplicit false
open Text Text.Scan

namespace Signature

/-! ## Dotted paths -/

/-- A part of a dotted path: word characters, at least one. -/
structure IsPart (part : List Char) : Prop where
  ne_nil : part ≠ []
  word : ∀ c ∈ part, isWordChar c = true

inductive DottedPath : List Char → Prop
  | part {part : List Char} (h : IsPart part) : DottedPath part
  | member {part path : List Char} (h : IsPart part) (hpath : DottedPath path) :
    DottedPath (part ++ '.' :: path)

theorem IsPart.isPathChar {part : List Char} (h : IsPart part) :
    ∀ c ∈ part, isPathChar c = true :=
  fun c hc => isPathChar_of_isWordChar (h.word c hc)

theorem IsPart.exists_head {part : List Char} (h : IsPart part) :
    ∃ c rest, part = c :: rest ∧ isWordChar c = true := by
  obtain ⟨c, rest, rfl⟩ := List.exists_cons_of_ne_nil h.ne_nil
  exact ⟨c, rest, rfl, h.word c List.mem_cons_self⟩

theorem DottedPath.isPathChar {path : List Char} (h : DottedPath path) :
    ∀ c ∈ path, isPathChar c = true := by
  induction h with
  | part h => exact h.isPathChar
  | member h _ ih =>
    exact List.forall_mem_append.mpr ⟨h.isPathChar, List.forall_mem_cons.mpr ⟨by decide +kernel, ih⟩⟩

theorem DottedPath.exists_head {path : List Char} (h : DottedPath path) :
    ∃ c rest, path = c :: rest ∧ isWordChar c = true := by
  cases h with
  | part h => exact h.exists_head
  | member h _ =>
    obtain ⟨c, rest, rfl, hc⟩ := h.exists_head
    exact ⟨c, _, rfl, hc⟩

/-! ## Reading a path -/

theorem mem_part (here next : Place) (part : List Char) :
    (part, next) ∈ run1 isWordChar here ↔
      IsPart part ∧ Passes here part next ∧ Stops isWordChar next := by
  rw [mem_run1_iff]
  exact ⟨fun ⟨hne, hword, h⟩ => ⟨⟨hne, hword⟩, h⟩, fun ⟨hpart, h⟩ => ⟨hpart.ne_nil, hpart.word, h⟩⟩

theorem mem_skip_part (here next : Place) :
    ((), next) ∈ skip1 isWordChar here ↔
      ∃ part, IsPart part ∧ Passes here part next ∧ Stops isWordChar next := by
  rw [skip1, mem_bind]
  constructor
  · rintro ⟨⟨part, mid⟩, hrun, hnext⟩
    obtain rfl := congrArg Prod.snd ((mem_pure () mid ((), next)).mp hnext)
    exact ⟨part, (mem_part here next part).mp hrun⟩
  · rintro ⟨part, hpart⟩
    exact ⟨(part, next), (mem_part here next part).mpr hpart, (mem_pure () next _).mpr rfl⟩

/-- A dot and a part, as they are repeated. -/
def furtherPart : Scan Unit := do
  lit "."
  skip1 isWordChar

theorem mem_furtherPart (here next : Place) :
    ((), next) ∈ furtherPart here ↔
      ∃ part, IsPart part ∧ Passes here ('.' :: part) next ∧ Stops isWordChar next := by
  rw [furtherPart, mem_bind]
  constructor
  · rintro ⟨⟨_, mid⟩, hdot, hpart⟩
    obtain ⟨part, hpart, hpasses, hstop⟩ := (mem_skip_part mid next).mp hpart
    exact ⟨part, hpart, ((mem_chars _ here _).mp hdot).append hpasses, hstop⟩
  · rintro ⟨part, hpart, hpasses, hstop⟩
    obtain ⟨mid, hdot, hpasses⟩ := (passes_append here next ['.'] part).mp hpasses
    exact ⟨((), mid), (mem_chars _ here _).mpr hdot,
      (mem_skip_part mid next).mpr ⟨part, hpart, hpasses, hstop⟩⟩

theorem path_of_mem_repeatUpTo {bound : Nat} {here next : Place}
    (h : ((), next) ∈ repeatUpTo furtherPart bound here) :
    next = here ∨ ∃ path, DottedPath path ∧ Passes here ('.' :: path) next ∧
      Stops isWordChar next := by
  induction bound generalizing here with
  | zero => exact Or.inl (congrArg Prod.snd (List.mem_singleton.mp h))
  | succ bound ih =>
    rw [repeatUpTo, List.mem_append, List.mem_flatMap, List.mem_singleton] at h
    rcases h with ⟨⟨_, mid⟩, hfirst, hlater⟩ | hstop
    · obtain ⟨part, hpart, hpasses, hstop⟩ := (mem_furtherPart here mid).mp hfirst
      split at hlater
      · rcases ih hlater with rfl | ⟨path, hpath, hmore, hend⟩
        · exact Or.inr ⟨part, .part hpart, hpasses, hstop⟩
        · exact Or.inr ⟨part ++ '.' :: path, .member hpart hpath, hpasses.append hmore, hend⟩
      · cases hlater
    · exact Or.inl (congrArg Prod.snd hstop)

theorem self_mem_repeatUpTo (s : Scan Unit) (bound : Nat) (here : Place) :
    ((), here) ∈ repeatUpTo s bound here := by
  cases bound with
  | zero => exact List.mem_singleton.mpr rfl
  | succ bound => exact List.mem_append_right _ (List.mem_singleton.mpr rfl)

theorem mem_repeatUpTo_of_path {path : List Char} (hpath : DottedPath path) {bound : Nat}
    {here next : Place} (hbound : path.length < bound) (hpasses : Passes here ('.' :: path) next)
    (hstop : Stops isWordChar next) : ((), next) ∈ repeatUpTo furtherPart bound here := by
  induction hpath generalizing bound here with
  | part hpart =>
    obtain ⟨bound, rfl⟩ : ∃ k, bound = k + 1 := ⟨bound - 1, by omega⟩
    rw [repeatUpTo, List.mem_append, List.mem_flatMap]
    refine Or.inl ⟨((), next), (mem_furtherPart here next).mpr ⟨_, hpart, hpasses, hstop⟩, ?_⟩
    rw [if_pos]
    · exact self_mem_repeatUpTo furtherPart bound next
    · rw [hpasses.after, List.length_append]
      exact Nat.lt_add_of_pos_left (Nat.succ_pos _)
  | @member part path hpart _ ih =>
    obtain ⟨bound, rfl⟩ : ∃ k, bound = k + 1 := ⟨bound - 1, by omega⟩
    obtain ⟨mid, hfirst, hmore⟩ := (passes_append here next ('.' :: part) ('.' :: path)).mp hpasses
    have hdot : Stops isWordChar mid := hmore.stops_of_cons (by decide +kernel)
    rw [repeatUpTo, List.mem_append, List.mem_flatMap]
    refine Or.inl ⟨((), mid), (mem_furtherPart here mid).mpr ⟨part, hpart, hfirst, hdot⟩, ?_⟩
    rw [if_pos]
    · rw [List.length_append, List.length_cons] at hbound
      exact ih (by omega) hmore
    · rw [hfirst.after, List.length_append]
      exact Nat.lt_add_of_pos_left (Nat.succ_pos _)

theorem mem_wholePath (here next : Place) :
    ((), next) ∈ (do skip1 isWordChar; repeated furtherPart) here ↔
      ∃ path, DottedPath path ∧ Passes here path next ∧ Stops isWordChar next := by
  rw [mem_bind]
  constructor
  · rintro ⟨⟨_, mid⟩, hfirst, hlater⟩
    obtain ⟨part, hpart, hpasses, hstop⟩ := (mem_skip_part here mid).mp hfirst
    rcases path_of_mem_repeatUpTo hlater with rfl | ⟨path, hpath, hmore, hend⟩
    · exact ⟨part, .part hpart, hpasses, hstop⟩
    · exact ⟨part ++ '.' :: path, .member hpart hpath, hpasses.append hmore, hend⟩
  · rintro ⟨path, hpath, hpasses, hstop⟩
    cases hpath with
    | part hpart =>
      exact ⟨((), next), (mem_skip_part here next).mpr ⟨_, hpart, hpasses, hstop⟩,
        self_mem_repeatUpTo furtherPart _ next⟩
    | @member part path hpart hpath =>
      obtain ⟨mid, hfirst, hmore⟩ := (passes_append here next part ('.' :: path)).mp hpasses
      have hdot : Stops isWordChar mid := hmore.stops_of_cons (by decide +kernel)
      refine ⟨((), mid), (mem_skip_part here mid).mpr ⟨part, hpart, hfirst, hdot⟩, ?_⟩
      refine mem_repeatUpTo_of_path hpath ?_ hmore hstop
      rw [hmore.after, List.length_append, List.length_cons]
      omega

theorem mem_wordPath (here next : Place) (path : List Char) :
    (path, next) ∈ wordPath here ↔
      DottedPath path ∧ Passes here path next ∧ Stops isWordChar next := by
  have htext {path : List Char} (hpasses : Passes here path next) :
      here.after.take (here.after.length - next.after.length) = path := by
    rw [hpasses.after, List.length_append, Nat.add_sub_cancel, List.take_left]
  have hread := mem_wholePath here next
  constructor
  · intro h
    obtain ⟨⟨_, mid⟩, hmem, heq⟩ := List.mem_map.mp h
    obtain ⟨rfl, rfl⟩ := Prod.mk.inj heq
    obtain ⟨path, hpath, hpasses, hstop⟩ := hread.mp hmem
    rw [htext hpasses]
    exact ⟨hpath, hpasses, hstop⟩
  · rintro ⟨hpath, hpasses, hstop⟩
    refine List.mem_map.mpr ⟨((), next), hread.mpr ⟨path, hpath, hpasses, hstop⟩, ?_⟩
    rw [htext hpasses]

/-! ## Reading a call -/

/-- The text is the call, from its receiver to the end of the line. -/
structure IsOpenCall (call : OpenCall) (text : List Char) : Prop where
  receiver_path : DottedPath call.receiver
  method_part : IsPart call.method
  eq_append : ∃ gap, (∀ c ∈ gap, isBlank c = true) ∧
    text = call.receiver ++ ('.' :: (call.method ++ (gap ++ '(' :: call.typed)))

theorem after_eq_nil {here next : Place} (h : Passes here here.after next) : next.after = [] := by
  have hlength := congrArg List.length h.after
  rw [List.length_append] at hlength
  exact List.eq_nil_of_length_eq_zero (by omega)

theorem mem_openCall (here next : Place) (call : OpenCall) :
    (call, next) ∈ openCall here ↔ IsOpenCall call here.after ∧ Passes here here.after next := by
  simp only [openCall, lit, mem_bind, mem_chars]
  constructor
  · rintro ⟨⟨receiver, afterReceiver⟩, hreceiver, ⟨_, afterDot⟩, hdot, ⟨method, afterMethod⟩, hmethod,
      ⟨_, afterGap⟩, hgap, ⟨_, afterBracket⟩, hbracket, ⟨typed, atEnd⟩, htyped, hcall⟩
    obtain ⟨rfl, rfl⟩ := Prod.mk.inj ((mem_pure _ atEnd (call, next)).mp hcall)
    obtain ⟨hpath, hreceiver, -⟩ := (mem_wordPath here afterReceiver receiver).mp hreceiver
    obtain ⟨hpart, hmethod, -⟩ := (mem_part afterDot afterMethod method).mp hmethod
    obtain ⟨gap, hblank, hgap, -⟩ := (mem_blanks_iff afterMethod afterGap).mp hgap
    obtain ⟨htyped, hend⟩ := (mem_rest afterBracket next typed).mp htyped
    have hwhole :=
      hreceiver.append (hdot.append (hmethod.append (hgap.append (hbracket.append htyped))))
    have heq := hwhole.after
    rw [hend, List.append_nil] at heq
    refine ⟨⟨hpath, hpart, gap, hblank, heq⟩, ?_⟩
    rw [heq]
    exact hwhole
  · rintro ⟨⟨hpath, hpart, gap, hblank, heq⟩, hpasses⟩
    have hend := after_eq_nil hpasses
    rw [heq] at hpasses
    obtain ⟨afterReceiver, hreceiver, hpasses⟩ := (passes_append _ _ _ _).mp hpasses
    obtain ⟨afterDot, hdot, hbehind⟩ := (passes_append _ _ ['.'] _).mp hpasses
    obtain ⟨afterMethod, hmethod, htail⟩ := (passes_append _ _ _ _).mp hbehind
    obtain ⟨afterGap, hgap, hrest⟩ := (passes_append _ _ _ _).mp htail
    obtain ⟨afterBracket, hbracket, htyped⟩ := (passes_append _ _ ['('] _).mp hrest
    exact ⟨(call.receiver, afterReceiver),
      (mem_wordPath _ _ _).mpr ⟨hpath, hreceiver, hpasses.stops_of_cons (by decide +kernel)⟩,
      ((), afterDot), hdot,
      (call.method, afterMethod), (mem_part _ _ _).mpr ⟨hpart, hmethod,
        (htail.stops_of_gap hblank (by decide +kernel)).word_of_path⟩,
      ((), afterGap),
      (mem_blanks_iff _ _).mpr ⟨gap, hblank, hgap, hrest.stops_of_cons (by decide +kernel)⟩,
      ((), afterBracket), hbracket,
      (call.typed, next), (mem_rest _ _ _).mpr ⟨htyped, hend⟩,
      (mem_pure _ _ _).mpr rfl⟩

/-! ## The first call of a text -/

theorem IsOpenCall.isPathChar {call : OpenCall} {text : List Char} (h : IsOpenCall call text) :
    ∀ c ∈ call.receiver ++ '.' :: call.method, Text.isPathChar c = true :=
  List.forall_mem_append.mpr ⟨h.receiver_path.isPathChar,
    List.forall_mem_cons.mpr ⟨by decide +kernel, h.method_part.isPathChar⟩⟩

theorem IsOpenCall.cut {call : OpenCall} {text : List Char} (h : IsOpenCall call text) :
    splitLast? '.' (text.takeWhile Text.isPathChar) = some (call.receiver, call.method) ∧
    (text.dropWhile Text.isPathChar).dropWhile isBlank = '(' :: call.typed := by
  have hclass := h.isPathChar
  obtain ⟨-, hpart, gap, hgap, heq⟩ := h
  have htext : text = (call.receiver ++ '.' :: call.method) ++ (gap ++ '(' :: call.typed) := by
    rw [heq]
    simp only [List.append_assoc, List.cons_append]
  have hdot : '.' ∉ call.method := fun hmem => absurd (hpart.word '.' hmem) (by decide +kernel)
  constructor
  · rw [htext, takeWhile_append_of_stop hclass fun c hc => head_of_gap hgap (by decide +kernel) hc,
      splitLast_append '.' _ _ hdot]
  · rw [htext, dropWhile_append_of_stop hclass fun c hc => head_of_gap hgap (by decide +kernel) hc,
      List.dropWhile_append_of_pos hgap, List.dropWhile_cons_of_neg (by decide +kernel)]

theorem IsOpenCall.unique {call other : OpenCall} {text : List Char} (h : IsOpenCall call text)
    (hother : IsOpenCall other text) : other = call := by
  obtain ⟨hpath, htyped⟩ := h.cut
  obtain ⟨hpath', htyped'⟩ := hother.cut
  rw [hpath', Option.some.injEq, Prod.mk.injEq] at hpath
  rw [htyped', List.cons.injEq] at htyped
  obtain ⟨receiver, method, typed⟩ := call
  simp only at hpath htyped
  rw [← hpath.1, ← hpath.2, ← htyped.2]

/-- Behind the front part the text is the call. -/
def CallBehind (text front : List Char) (call : OpenCall) : Prop :=
  ∃ rest, text = front ++ rest ∧ IsOpenCall call rest

/-- No call of the text starts before this one. -/
structure FirstCall (text front : List Char) (call : OpenCall) : Prop where
  behind : CallBehind text front call
  first : ∀ front' call', CallBehind text front' call' → front.length ≤ front'.length

theorem readsAt_openCall_iff (text : List Char) (hit : Hit OpenCall) :
    openCall.ReadsAt 0 [] text hit ↔
      ∃ front, CallBehind text front hit.value ∧ hit.start = front.length ∧
        hit.stop = text.length := by
  constructor
  · rintro ⟨front, rest, next, more, rfl, hread, hstart, hstop⟩
    obtain ⟨hcall, hpasses⟩ := (mem_openCall _ next hit.value).mp (hread ▸ List.mem_cons_self)
    rw [after_eq_nil hpasses, List.length_nil] at hstop
    rw [List.length_append]
    exact ⟨front, ⟨rest, rfl, hcall⟩, by omega, by omega⟩
  · rintro ⟨front, ⟨rest, rfl, hcall⟩, hstart, hstop⟩
    have hmem := (mem_openCall ⟨front.reverse ++ [], rest⟩ ⟨rest.reverse ++ (front.reverse ++ []), []⟩
      hit.value).mpr ⟨hcall, ⟨(List.append_nil rest).symm, rfl⟩⟩
    obtain ⟨⟨value, next⟩, more, hread⟩ := List.exists_cons_of_ne_nil (List.ne_nil_of_mem hmem)
    -- Another reading at the same place is the same call.
    obtain ⟨hvalue, hpasses⟩ := (mem_openCall _ next value).mp (hread ▸ List.mem_cons_self)
    obtain rfl : value = hit.value := hcall.unique hvalue
    refine ⟨front, rest, next, more, rfl, hread, by omega, ?_⟩
    rw [after_eq_nil hpasses, List.length_nil, hstop, List.length_append]
    omega

theorem FirstCall.first_eq {text front : List Char} {call : OpenCall}
    (h : FirstCall text front call) :
    openCall.first? text = some ⟨front.length, text.length, call⟩ := by
  rw [first_eq_some_iff]
  refine ⟨(readsAt_openCall_iff text _).mpr ⟨front, h.behind, rfl, rfl⟩, fun g hg => ?_⟩
  obtain ⟨front', hbehind, hstart, -⟩ := (readsAt_openCall_iff text g).mp hg
  rw [hstart]
  exact h.first front' g.value hbehind

theorem exists_firstCall {text front : List Char} {call : OpenCall}
    (h : CallBehind text front call) : ∃ front' first, FirstCall text front' first := by
  cases hfirst : openCall.first? text with
  | none =>
    exact absurd ((readsAt_openCall_iff text ⟨front.length, text.length, call⟩).mpr
      ⟨front, h, rfl, rfl⟩) ((first_eq_none_iff openCall text).mp hfirst _)
  | some hit =>
    obtain ⟨hread, hleftmost⟩ := (first_eq_some_iff openCall text hit).mp hfirst
    obtain ⟨front', hbehind, hstart, -⟩ := (readsAt_openCall_iff text hit).mp hread
    refine ⟨front', hit.value, hbehind, fun front'' call' hbehind' => ?_⟩
    have hle := hleftmost ⟨front''.length, text.length, call'⟩
      ((readsAt_openCall_iff text _).mpr ⟨front'', hbehind', rfl, rfl⟩)
    rwa [hstart] at hle

end Signature
end CodeNav
