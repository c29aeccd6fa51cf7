import CodeNav.Proofs.Calls.CallSites
import CodeNav.Proofs.Calls.Outcome
import CodeNav.Proofs.Document.MemberWord

/-! A search from a call, and whether it finds that call again. What is searched for follows the
types that the whole document binds, the last one of each name; what is found follows the instances
bound down to the line of the call. The call is found exactly where the two agree on its receiver. -/
namespace CodeNav
set_option autoImplicit false
open Text

namespace CallSearch

/-! ## Receivers -/

-- Both calls end at the first bracket behind their common start.
theorem CallAt.receiver_unique {receiver receiver' function line : List Char} {start : Nat}
    (hword : IsWord function) (hreceiver : '(' ∉ receiver) (hreceiver' : '(' ∉ receiver')
    (h : CallAt receiver function line start) (h' : CallAt receiver' function line start) :
    receiver = receiver' := by
  obtain ⟨front, text, tail, rfl, hstart, htext⟩ := h
  obtain ⟨front', text', tail', hline, hstart', htext'⟩ := h'
  have hmarked : (⟨start, start + text.length, ()⟩ : Scan.Hit Unit).Marked '('
      (front ++ (text ++ tail)) :=
    Scan.Occurs.marked (L := fun _ => CallText receiver function)
      (fun _ _ h => h.exists_body hreceiver hword)
      ⟨front, text, tail, rfl, htext, hstart.symm, by rw [hstart]⟩
  have hmarked' : (⟨start, start + text'.length, ()⟩ : Scan.Hit Unit).Marked '('
      (front ++ (text ++ tail)) :=
    Scan.Occurs.marked (L := fun _ => CallText receiver' function)
      (fun _ _ h => h.exists_body hreceiver' hword)
      ⟨front', text', tail', hline, htext', hstart'.symm, by rw [hstart']⟩
  have hstop : start + text.length = start + text'.length :=
    hmarked.stop_eq hmarked' (Nat.le_refl start) hmarked.start_lt_stop
  have hends := htext.receiver_end hword htext' (append_eq_of_same_end hline (by omega))
  exact List.append_inj_right hends (by omega)

theorem notAfter_isNameChar {line : List Char} {start : Nat}
    (hword : NotAfter isWordChar line start) (hident : NotAfter isIdentChar line start) :
    NotAfter isNameChar line start := by
  intro i c hi hc
  have hdollar : ¬ (c == '$') = true := by
    intro hdollar
    have hc' := hident i c hi hc
    simp [isIdentChar, hdollar] at hc'
  rw [isNameChar, hword i c hi hc, Bool.false_or]
  exact Bool.eq_false_iff.mpr hdollar

/-- Where a call stands, it counts for the owner that it names, or that its receiver is bound to. -/
theorem isCall_iff {target : Target} {receiver line : List Char} {start : Nat}
    (howner : '(' ∉ target.owner.toList) (hword : IsWord target.function.toList)
    (hreceiver : ∀ c ∈ receiver, isNameChar c = true) (hne : receiver ≠ [])
    (hthis : receiver ≠ "this".toList) (hcall : CallAt receiver target.function.toList line start)
    (hident : NotAfter isIdentChar line start) (hname : NotAfter isNameChar line start)
    (onInstance : Bool) (instances : Bindings) :
    IsCall target onInstance instances line start ↔
      target.owner = String.ofList receiver ∨
        instances.get? (String.ofList receiver) = some target.owner := by
  have hbracket : isNameChar '(' = false := by decide +kernel
  have hnone : '(' ∉ receiver := not_mem_of_class hreceiver hbracket
  constructor
  · intro h
    cases h with
    | direct hdirect _ =>
      rw [← hdirect.receiver_unique hword howner hnone hcall]
      exact .inl String.ofList_toList.symm
    | inner _ hinner _ =>
      exact absurd (hcall.receiver_unique hword hnone (by decide) hinner) hthis
    | onVariable other _ hother hvariable _ hbound =>
      have hsame : other = receiver :=
        hvariable.receiver_unique hword (not_mem_of_class hother hbracket) hnone hcall
      exact .inr (hsame ▸ hbound)
  · intro h
    rcases h with hown | hbound
    · refine .direct ?_ hident
      rw [hown, String.toList_ofList]
      exact hcall
    · exact .onVariable receiver hne hreceiver hcall hname hbound

end CallSearch

open CallSearch

/-- The position lies on the word of a call `receiver.word (`, whose receiver is a whole identifier
and starts at `start`. -/
structure OnCall (doc : Document) (pos : Position) (receiver word : List Char) (start : Nat) :
    Prop where
  call : CallAt receiver word (doc.line pos.line) start
  receiver_word : IsWord receiver
  receiver_whole : NotAfter isIdentChar (doc.line pos.line) start
  word_word : IsWord word
  from_word : start + receiver.length < pos.character
  to_word : pos.character ≤ start + receiver.length + 1 + word.length

section OwnCall

variable {doc : Document} {pos : Position} {receiver word : List Char} {start : Nat}

theorem OnCall.exists_cut (h : OnCall doc pos receiver word start) :
    ∃ front right, front.length = start ∧
      doc.line pos.line = (front ++ receiver ++ ['.']) ++ (word ++ right) ∧
      ∀ c, right.head? = some c → isIdentChar c = false := by
  obtain ⟨front, text, tail, hline, hstart, gap, hgap, rfl⟩ := h.call
  refine ⟨front, gap ++ ('(' :: tail), hstart, ?_, fun c hc => ?_⟩
  · rw [hline]
    simp only [List.append_assoc, List.cons_append, List.nil_append]
  · cases gap with
    | nil =>
      obtain rfl : '(' = c := Option.some.inj hc
      decide +kernel
    | cons blank gap =>
      obtain rfl : blank = c := Option.some.inj hc
      have hblank := hgap blank List.mem_cons_self
      rw [Bool.eq_false_iff]
      intro hident
      rw [not_isBlank_of_isIdentChar blank hident] at hblank
      cases hblank

theorem OnCall.line_mem (h : OnCall doc pos receiver word start) :
    doc.lines[pos.line]? = some (doc.line pos.line) := by
  obtain ⟨front, right, -, hline, -⟩ := h.exists_cut
  have hne : doc.line pos.line ≠ [] := by
    rw [hline]
    simp
  rw [Document.line, List.getD_eq_getElem?_getD] at hne ⊢
  cases hget : doc.lines[pos.line]? with
  | none => simp [hget] at hne
  | some line => rfl

/-- The search is for the function on the type of the receiver, or else on the receiver itself. -/
theorem OnCall.target_eq (h : OnCall doc pos receiver word start)
    (hthis : receiver ≠ "this".toList) (hreceiver : ∀ c ∈ receiver, isWordChar c = true)
    (hedge : NotAfter isWordChar (doc.line pos.line) start)
    (hundeclared : doc.declaredTarget? pos = none) :
    Service.target? doc pos = some
      ⟨((Bindings.ofDocument doc).get? (String.ofList receiver)).getD (String.ofList receiver),
        String.ofList word⟩ := by
  obtain ⟨front, right, rfl, hline, hright⟩ := h.exists_cut
  have hleft : (front ++ receiver ++ ['.']).length = front.length + receiver.length + 1 := by
    simp only [List.length_append, List.length_singleton]
  have hdot : ∀ c, (front ++ receiver ++ ['.']).getLast? = some c → isIdentChar c = false := by
    intro c hc
    rw [List.getLast?_concat] at hc
    obtain rfl : '.' = c := Option.some.inj hc
    decide +kernel
  have hrange := Document.wordRange_of_cut hline h.word_word.ident h.word_word.ne_nil hdot hright
    (by have := h.from_word; omega) (by have := h.to_word; omega)
  have hfront : ∀ c, front.getLast? = some c → isWordChar c = false := by
    rw [hline, List.append_assoc, List.append_assoc] at hedge
    exact (notAfter_append isWordChar front _).mp hedge
  have hname : String.ofList receiver ≠ "this" := by
    intro hsame
    exact hthis (by rw [← hsame, String.toList_ofList])
  rw [Service.target?, hrange, Option.bind_some, hundeclared, Option.none_or,
    Document.wordIn_of_cut hline, Document.memberTarget?, Document.before_of_cut hline,
    receiverWord_of_cut h.receiver_word.ne_nil hreceiver hfront]
  simp only [Option.bind_eq_bind, Option.bind_some, if_neg hname]
  rfl

end OwnCall

theorem Bindings.bracket_not_mem_owner (doc : Document) {name : String} (hname : '(' ∉ name.toList) :
    '(' ∉ (((Bindings.ofDocument doc).get? name).getD name).toList := by
  cases htype : (Bindings.ofDocument doc).get? name with
  | none => exact hname
  | some type =>
    exact not_mem_of_class ((Bindings.paths_ofDocument doc).dotted.of_get htype) (by decide +kernel)

namespace Service

variable (s : Service) (disk : Disk) (doc : Document) (pos : Position)

/-- The search from the position finds a call at the location. -/
def Finds (location : Location) : Prop :=
  ∃ reports set after, s.findReferences disk doc pos = (reports, .found set, after) ∧
    ∃ r ∈ set.references, r.location = location

variable {s disk doc pos}

theorem mem_allCallsOf_atHand (hlisted : doc.path ∈ s.admission.discover disk) (target : Target)
    {r : Reference} (hfile : r.location.file = doc.path) :
    r ∈ s.allCallsOf disk doc pos target ↔
      r ∈ scan target (Decidable.decide (doc.enclosingClass? pos.line = some target.owner)) doc := by
  have hsearched : Searched s disk target (some ⟨doc, doc.enclosingClass? pos.line⟩) doc.path doc
      (Decidable.decide (doc.enclosingClass? pos.line = some target.owner)) :=
    .atHand ⟨doc, doc.enclosingClass? pos.line⟩ rfl rfl
  have hdoc := inFile_eq hsearched
  rw [allCallsOf, callsOf, inFiles, List.mem_flatMap]
  constructor
  · intro h
    obtain ⟨file, -, hr⟩ := h
    obtain rfl : file = doc.path := (file_of_mem_inFile hr).symm.trans hfile
    exact hdoc ▸ hr
  · intro hr
    exact ⟨doc.path, hlisted, hdoc.symm ▸ hr⟩

theorem finds_atHand_iff (hlisted : doc.path ∈ s.admission.discover disk) {target : Target}
    (htarget : target? doc pos = some target) (howner : '(' ∉ target.owner.toList)
    (hword : IsWord target.function.toList) {index start : Nat} {line : List Char}
    (hline : doc.lines[index]? = some line) :
    s.Finds disk doc pos ⟨doc.path, index, start⟩ ↔
      IsCall target (Decidable.decide (doc.enclosingClass? pos.line = some target.owner))
        (instancesAt doc index) line start := by
  constructor
  · intro h
    obtain ⟨reports, set, after, hfound, r, hr, hlocation⟩ := h
    obtain ⟨other, hother, hmem⟩ := (s.found_iff disk doc pos r).mp ⟨reports, set, after, hfound, hr⟩
    obtain rfl : target = other := Option.some.inj (htarget.symm.trans hother)
    have hfile : r.location.file = doc.path := by rw [hlocation]
    rw [mem_allCallsOf_atHand hlisted target hfile, mem_scan howner hword] at hmem
    obtain ⟨line', hline', hcall, -⟩ := hmem.call
    rw [hlocation] at hline' hcall
    obtain rfl : line = line' := Option.some.inj (hline.symm.trans hline')
    exact hcall
  · intro hcall
    let r : Reference := ⟨⟨doc.path, index, start⟩, String.ofList (trim line)⟩
    have hmem : r ∈ s.allCallsOf disk doc pos target := by
      rw [mem_allCallsOf_atHand hlisted target rfl, mem_scan howner hword]
      exact ⟨rfl, line, hline, hcall, rfl⟩
    obtain ⟨reports, set, after, hfound, hr⟩ :=
      (s.found_iff disk doc pos r).mpr ⟨target, htarget, hmem⟩
    exact ⟨reports, set, after, hfound, r, hr, rfl⟩

variable (s disk) in
/-- A search from a call on a receiver of word characters finds that call exactly if the type that
the document binds the receiver to, where there is one, is the receiver itself or the one that it
is bound to at the call. -/
theorem search_finds_own_call_iff {receiver word : List Char} {start : Nat}
    (hlisted : doc.path ∈ s.admission.discover disk) (hcall : OnCall doc pos receiver word start)
    (hthis : receiver ≠ "this".toList) (hundeclared : doc.declaredTarget? pos = none)
    (hreceiver : ∀ c ∈ receiver, isWordChar c = true)
    (hedge : NotAfter isWordChar (doc.line pos.line) start) :
    s.Finds disk doc pos ⟨doc.path, pos.line, start⟩ ↔
      ∀ type, (Bindings.ofDocument doc).get? (String.ofList receiver) = some type →
        type = String.ofList receiver ∨
          (instancesAt doc pos.line).get? (String.ofList receiver) = some type := by
  obtain ⟨target, htarget, hbound, hword⟩ : ∃ target, target? doc pos = some target ∧
      target.owner =
        ((Bindings.ofDocument doc).get? (String.ofList receiver)).getD (String.ofList receiver) ∧
      target.function.toList = word :=
    ⟨_, hcall.target_eq hthis hreceiver hedge hundeclared, rfl, String.toList_ofList⟩
  have hname : ∀ c ∈ receiver, isNameChar c = true := fun c hc => by
    rw [isNameChar, hreceiver c hc, Bool.true_or]
  have howner : '(' ∉ target.owner.toList := by
    rw [hbound]
    refine Bindings.bracket_not_mem_owner doc ?_
    rw [String.toList_ofList]
    exact not_mem_of_class hname (by decide +kernel)
  subst hword
  rw [finds_atHand_iff hlisted htarget howner hcall.word_word hcall.line_mem,
    isCall_iff howner hcall.word_word hname hcall.receiver_word.ne_nil hthis hcall.call
      hcall.receiver_whole (notAfter_isNameChar hedge hcall.receiver_whole), hbound]
  -- A receiver without a type is searched for under its own name.
  cases (Bindings.ofDocument doc).get? (String.ofList receiver) with
  | none => simp
  | some type => simp

/-! ## A variable that is used above its binding -/

def lateDisk : Disk :=
  ⟨[], [(["w".toList], .directory), (["w".toList, "a.js".toList], .file [])]⟩

def lateDocument : Document :=
  ⟨"a.js", ["p.run();".toList, "var p = new Foo();".toList, "p.run();".toList]⟩

theorem onCall_late (line character : Nat) (hline : lateDocument.line line = "p.run();".toList)
    (hfrom : 1 < character) (hto : character ≤ 5) :
    OnCall lateDocument ⟨line, character⟩ "p".toList "run".toList 0 where
  call := ⟨[], "p.run(".toList, ");".toList, hline, rfl, [], nofun, rfl⟩
  receiver_word := ⟨by decide, List.all_eq_true.mp (by decide +kernel)⟩
  receiver_whole := nofun
  word_word := ⟨by decide, List.all_eq_true.mp (by decide +kernel)⟩
  from_word := hfrom
  to_word := hto

/-- Below the binding the call is found. -/
theorem search_finds_own_call_below :
    lateDocument.path ∈ gaugeService.admission.discover lateDisk ∧
    OnCall lateDocument ⟨2, 5⟩ "p".toList "run".toList 0 ∧
    "p".toList ≠ "this".toList ∧ lateDocument.declaredTarget? ⟨2, 5⟩ = none ∧
    (∀ c ∈ "p".toList, isWordChar c = true) ∧ NotAfter isWordChar (lateDocument.line 2) 0 ∧
    gaugeService.Finds lateDisk lateDocument ⟨2, 5⟩ ⟨"a.js", 2, 0⟩ := by
  have hlisted : lateDocument.path ∈ gaugeService.admission.discover lateDisk := by decide +kernel
  have hcall := onCall_late 2 5 rfl (by decide) (by decide)
  have hthis : "p".toList ≠ "this".toList := by decide
  have hundeclared : lateDocument.declaredTarget? ⟨2, 5⟩ = none := by decide +kernel
  have hreceiver : ∀ c ∈ "p".toList, isWordChar c = true := List.all_eq_true.mp (by decide +kernel)
  have hedge : NotAfter isWordChar (lateDocument.line 2) 0 := nofun
  have hfound := search_finds_own_call_iff gaugeService lateDisk hlisted hcall hthis hundeclared
    hreceiver hedge
  refine ⟨hlisted, hcall, hthis, hundeclared, hreceiver, hedge, hfound.mpr fun type htype => ?_⟩
  have hbound : (Bindings.ofDocument lateDocument).get? "p" = some "Foo" := by decide +kernel
  obtain rfl : "Foo" = type := Option.some.inj (hbound.symm.trans htype)
  have hinstance : (instancesAt lateDocument 2).get? "p" = some "Foo" := by decide +kernel
  exact .inr hinstance

/-- Above the binding the search is for the type that the variable gets later, and the call that it
starts from is no call on an instance yet. -/
theorem search_misses_own_call_above :
    lateDocument.path ∈ gaugeService.admission.discover lateDisk ∧
    OnCall lateDocument ⟨0, 3⟩ "p".toList "run".toList 0 ∧
    "p".toList ≠ "this".toList ∧ lateDocument.declaredTarget? ⟨0, 3⟩ = none ∧
    ¬ gaugeService.Finds lateDisk lateDocument ⟨0, 3⟩ ⟨"a.js", 0, 0⟩ := by
  refine ⟨by decide +kernel, onCall_late 0 3 rfl (by decide) (by decide), by decide,
    by decide +kernel, ?_⟩
  intro h
  obtain ⟨reports, set, after, hfound, r, hr, hlocation⟩ := h
  have houtcome : (gaugeService.findReferences lateDisk lateDocument ⟨0, 3⟩).2.1 =
      .found { target := ⟨"Foo", "run"⟩, references := [⟨⟨"a.js", 2, 0⟩, "p.run();"⟩] } := by
    decide +kernel
  have hset : ReferencesOutcome.found set = _ :=
    (congrArg (fun result => result.2.1) hfound).symm.trans houtcome
  cases hset
  obtain rfl := List.mem_singleton.mp hr
  cases hlocation

end Service

end CodeNav
