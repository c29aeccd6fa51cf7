import CodeNav.Proofs.Assist.OpenCall

/-! Signature help for the call that is being typed. The help is about the first call of the line, so
it is about the call before the cursor where none stands in front of that one; and else only where
the first one has the same name and as many commas behind its bracket. -/
namespace CodeNav
set_option autoImplicit false
open Text

namespace Signature

/-- Somewhere in the text there is a call, with its bracket. -/
def HoldsCall (text : List Char) : Prop :=
  ∃ front call, CallBehind text front call

/-- A call up to the end of the text, whose receiver is the whole dotted path there. -/
structure TypedCall (text front : List Char) (call : OpenCall) : Prop where
  behind : CallBehind text front call
  front_end : ∀ c, front.getLast? = some c → isPathChar c = false

theorem not_holdsCall {text : List Char} (h : openCall.occurs text = false) : ¬ HoldsCall text := by
  rintro ⟨front, call, hbehind⟩
  obtain ⟨front', first, hfirst⟩ := exists_firstCall hbehind
  rw [Scan.occurs, hfirst.first_eq] at h
  cases h

/-- A call that starts in the front part has its bracket there too: the front part ends with a
character of no path, so that only a gap could go on behind it, and a receiver follows. -/
theorem TypedCall.holdsCall_of_earlier {text front front' : List Char} {call call' : OpenCall}
    (h : TypedCall text front call) (hearlier : CallBehind text front' call')
    (hlt : front'.length < front.length) : HoldsCall front := by
  obtain ⟨⟨rest, rfl, hcall⟩, hend⟩ := h
  obtain ⟨rest', heq, hcall'⟩ := hearlier
  have hclass := hcall'.isPathChar
  obtain ⟨hpath', hpart', gap, hgap, htext⟩ := hcall'
  have hreceiver (gap' typed' : List Char) (hgap' : ∀ c ∈ gap', isBlank c = true) :
      rest ≠ gap' ++ '(' :: typed' := by
    obtain ⟨hpath, -, -, -, rfl⟩ := hcall
    obtain ⟨c, later, hhead, hc⟩ := hpath.exists_head
    intro hsame
    have hfirst : (gap' ++ '(' :: typed').head? = some c := by
      rw [← hsame, hhead]
      rfl
    have hnot := Scan.head_of_gap hgap' (by decide +kernel) hfirst
    rw [isPathChar_of_isWordChar hc] at hnot
    cases hnot
  obtain ⟨mid, rfl, hmid⟩ : ∃ mid, front = front' ++ mid ∧ rest' = mid ++ rest := by
    rcases List.append_eq_append_iff.mp heq with ⟨mid, rfl, -⟩ | ⟨mid, hfront, hrest⟩
    · rw [List.length_append] at hlt
      omega
    · exact ⟨mid, hfront, hrest⟩
  rw [htext, ← List.cons_append, ← List.append_assoc] at hmid
  rcases List.append_eq_append_iff.mp hmid with ⟨more, hpath, htail⟩ | ⟨more, hpath, -⟩
  · rcases List.append_eq_append_iff.mp htail with ⟨typed, hgapped, hbracket⟩ | ⟨gap', hgapped, hrest⟩
    · cases typed with
      | nil => exact absurd hbracket.symm (hreceiver [] _ nofun)
      | cons bracket typed =>
        obtain ⟨rfl, -⟩ := List.cons.inj hbracket
        refine ⟨front', ⟨call'.receiver, call'.method, typed⟩, mid, rfl, hpath', hpart', gap, hgap, ?_⟩
        rw [hpath, hgapped]
        simp only [List.append_assoc, List.cons_append]
    · refine absurd hrest (hreceiver gap' _ fun c hc => hgap c ?_)
      rw [hgapped]
      exact List.mem_append_right more hc
  · -- The path would hold the character that ends the front part.
    cases hlast : mid.getLast? with
    | none =>
      rw [List.getLast?_eq_none_iff.mp hlast, List.append_nil] at hlt
      exact absurd hlt (Nat.lt_irrefl _)
    | some c =>
      have hnot := hend c (by rw [List.getLast?_append, hlast, Option.some_or])
      rw [hclass c (hpath ▸ List.mem_append_left more (List.mem_of_getLast? hlast))] at hnot
      cases hnot

theorem TypedCall.firstCall {text front : List Char} {call : OpenCall}
    (h : TypedCall text front call) (hnone : ¬ HoldsCall front) : FirstCall text front call :=
  ⟨h.behind, fun _ _ hearlier => Nat.le_of_not_lt fun hlt =>
    hnone (h.holdsCall_of_earlier hearlier hlt)⟩

end Signature

open Signature

namespace Document

/-- The name of the method that a call names: the type of its receiver, or the receiver itself, a
dot, and the method. -/
def calledName (doc : Document) (call : OpenCall) : String :=
  ((Bindings.ofDocument doc).get? (String.ofList call.receiver)).getD (String.ofList call.receiver)
    ++ "." ++ String.ofList call.method

/-- The signature that is shown at the position is the one for the call. -/
structure ShowsCall (doc : Document) (pos : Position) (table : Table) (call : OpenCall) : Prop where
  none_iff : doc.signature? pos table = none ↔ ∀ r ∈ table, r.name ≠ doc.calledName call
  first : ∀ r, table.findByName? (doc.calledName call) = some r →
    doc.signature? pos table = some
      { label := String.ofList call.method ++ "(" ++
          ", ".intercalate (r.params.map Parameter.display) ++ ")"
        parameters := r.params.map Parameter.display
        active := if r.params = [] then none
          else some (min (call.typed.count ',') (r.params.length - 1)) }

variable {doc : Document} {pos : Position} {front : List Char} {call : OpenCall}

theorem signature_of_firstCall (h : FirstCall (doc.before pos) front call) (table : Table) :
    doc.signature? pos table =
      (table.findByName? (doc.calledName call)).map (Signature.ofRecord call.method call.typed) := by
  rw [signature?, h.first_eq]
  simp only [Option.bind_eq_bind, Option.bind_some, calledName]
  cases table.findByName? _ with
  | none => rfl
  | some r => rfl

theorem showsCall_of_firstCall (h : FirstCall (doc.before pos) front call) (table : Table) :
    doc.ShowsCall pos table call := by
  have heq := signature_of_firstCall h table
  constructor
  · rw [heq, Option.map_eq_none_iff, Table.findByName?, List.find?_eq_none]
    simp only [beq_iff_eq, ne_eq]
  · intro r hr
    rw [heq, hr, Option.map_some, Signature.ofRecord, Record.parameterList]
    simp only [List.isEmpty_iff]

/-- Calls of one name with as many commas are shown alike. -/
theorem ShowsCall.congr {table : Table} {other : OpenCall} (h : doc.ShowsCall pos table call)
    (hname : doc.calledName call = doc.calledName other) (hmethod : call.method = other.method)
    (hcommas : call.typed.count ',' = other.typed.count ',') : doc.ShowsCall pos table other where
  none_iff := hname ▸ h.none_iff
  first r hr := by rw [h.first r (hname ▸ hr), hmethod, hcommas]

/-- Two calls that are shown alike, whatever the table, have one name and as many commas. A table
with one record of the second name, with more parameters than there are commas, tells them apart. -/
theorem ShowsCall.agree {other : OpenCall} (h : ∀ table, doc.ShowsCall pos table call)
    (hother : ∀ table, doc.ShowsCall pos table other) :
    doc.calledName call = doc.calledName other ∧ call.method = other.method ∧
      call.typed.count ',' = other.typed.count ',' := by
  let r : Record :=
    { file := "", name := doc.calledName other, line := 0
      params := List.replicate (call.typed.count ',' + other.typed.count ',' + 1) ⟨"", none⟩ }
  have hname : doc.calledName call = doc.calledName other := by
    refine Decidable.byContradiction fun hne => ?_
    have hnone := (h [r]).none_iff.mpr fun r' hr' => List.mem_singleton.mp hr' ▸ Ne.symm hne
    exact (hother [r]).none_iff.mp hnone r List.mem_cons_self rfl
  have hfound : Table.findByName? [r] (doc.calledName other) = some r :=
    List.find?_cons_of_pos (beq_iff_eq.mpr rfl)
  have hsame := ((h [r]).first r (hname ▸ hfound)).symm.trans ((hother [r]).first r hfound)
  simp only [Option.some.injEq, Signature.mk.injEq] at hsame
  obtain ⟨hlabel, -, hactive⟩ := hsame
  refine ⟨hname, ?_, ?_⟩
  · simp only [String.append_left_inj] at hlabel
    rw [← String.toList_ofList (l := call.method), hlabel, String.toList_ofList]
  · have hsome : r.params ≠ [] := List.cons_ne_nil _ _
    have hlength : r.params.length = call.typed.count ',' + other.typed.count ',' + 1 :=
      List.length_replicate
    rw [if_neg hsome, if_neg hsome, hlength, Option.some.injEq] at hactive
    omega

/-- Signature help shows the first call of the line. It shows the one that is being typed where no
call stands in front of that one, and for every table exactly if the first call has its name and as
many commas behind the bracket. -/
theorem signature_shows_typed_call_iff (h : TypedCall (doc.before pos) front call) :
    (¬ HoldsCall front → ∀ table, doc.ShowsCall pos table call) ∧
    ∃ front' first, FirstCall (doc.before pos) front' first ∧
      (∀ table, doc.ShowsCall pos table first) ∧
      ((∀ table, doc.ShowsCall pos table call) ↔
        doc.calledName first = doc.calledName call ∧ first.method = call.method ∧
          first.typed.count ',' = call.typed.count ',') := by
  obtain ⟨front', first, hfirst⟩ := exists_firstCall h.behind
  refine ⟨fun hnone => showsCall_of_firstCall (h.firstCall hnone), front', first, hfirst,
    showsCall_of_firstCall hfirst, fun hcall => ?_, fun hagree table => ?_⟩
  · exact ShowsCall.agree (showsCall_of_firstCall hfirst) hcall
  · exact (showsCall_of_firstCall hfirst table).congr hagree.1 hagree.2.1 hagree.2.2

/-! ## Two calls on a line -/

def vectorDocument : Document :=
  ⟨"a.js", ["let v = new Vec2();".toList, "if (a.b) v.add (1, 2".toList,
    "log.flush(); v.add(1, ".toList]⟩

def vectorTable : Table :=
  [⟨"l.js", "log.flush", 1, 0, []⟩, ⟨"v.ts", "Vec2.add", 3, 2, [⟨"x", some "number"⟩, ⟨"y", none⟩]⟩]

theorem isPart_of_all {part : List Char} (hne : part ≠ []) (hword : part.all isWordChar = true) :
    IsPart part :=
  ⟨hne, List.all_eq_true.mp hword⟩

theorem typedCall_of_eq (gap : List Char) {text front : List Char} {call : OpenCall}
    (heq : text = front ++ (call.receiver ++ ('.' :: (call.method ++ (gap ++ '(' :: call.typed)))))
    (hreceiver : IsPart call.receiver) (hmethod : IsPart call.method)
    (hgap : gap.all isBlank = true) (hend : front.getLast?.all (!isPathChar ·) = true) :
    TypedCall text front call where
  behind := ⟨_, heq, .part hreceiver, hmethod, gap, List.all_eq_true.mp hgap, rfl⟩
  front_end := by
    intro c hc
    rw [hc, Option.all_some, Bool.not_eq_true'] at hend
    exact hend

theorem signature_shows_typed_call_of_add :
    TypedCall (vectorDocument.before ⟨1, 20⟩) "if (a.b) ".toList ⟨['v'], "add".toList, "1, 2".toList⟩ ∧
    ¬ HoldsCall "if (a.b) ".toList ∧
    vectorDocument.signature? ⟨1, 20⟩ vectorTable =
      some ⟨"add(x: number, y)", ["x: number", "y"], some 1⟩ := by
  have hcall : TypedCall (vectorDocument.before ⟨1, 20⟩) "if (a.b) ".toList
      ⟨['v'], "add".toList, "1, 2".toList⟩ :=
    typedCall_of_eq [' '] (by decide +kernel) (isPart_of_all (by decide) (by decide +kernel))
      (isPart_of_all (by decide) (by decide +kernel)) (by decide +kernel) (by decide +kernel)
  have hnone : ¬ HoldsCall "if (a.b) ".toList := not_holdsCall (by decide +kernel)
  have hshows := (signature_shows_typed_call_iff hcall).1 hnone vectorTable
  exact ⟨hcall, hnone, hshows.first ⟨"v.ts", "Vec2.add", 3, 2, [⟨"x", some "number"⟩, ⟨"y", none⟩]⟩
    (by decide +kernel)⟩

/-- A finished call on the line takes the place of the one that is being typed. -/
theorem signature_shows_finished_call :
    TypedCall (vectorDocument.before ⟨2, 22⟩) "log.flush(); ".toList
      ⟨['v'], "add".toList, "1, ".toList⟩ ∧
    vectorDocument.signature? ⟨2, 22⟩ vectorTable = some ⟨"flush()", [], none⟩ ∧
    ¬ vectorDocument.ShowsCall ⟨2, 22⟩ vectorTable ⟨['v'], "add".toList, "1, ".toList⟩ := by
  have hflush : vectorDocument.signature? ⟨2, 22⟩ vectorTable = some ⟨"flush()", [], none⟩ := by
    decide +kernel
  refine ⟨typedCall_of_eq [] (by decide +kernel)
    (isPart_of_all (by decide) (by decide +kernel)) (isPart_of_all (by decide) (by decide +kernel))
    (by decide +kernel) (by decide +kernel), hflush, fun hshows => ?_⟩
  have hadd := hshows.first ⟨"v.ts", "Vec2.add", 3, 2, [⟨"x", some "number"⟩, ⟨"y", none⟩]⟩
    (by decide +kernel)
  rw [hflush] at hadd
  exact absurd hadd (by decide +kernel)

end Document

end CodeNav
