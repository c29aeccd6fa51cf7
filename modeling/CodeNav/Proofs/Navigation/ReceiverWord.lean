import CodeNav.Navigation.Lookup
import CodeNav.Proofs.Document.MemberWord
import CodeNav.Proofs.Text.Pieces

/-! The receiver of a member, as the answers at a position take it. The word at a position is cut by
identifier characters, and so is the receiver before its dot; the type of the receiver is looked up
under the word characters that end there, and the instance is known by the end of the text. -/
namespace CodeNav
set_option autoImplicit false
open Text

/-! ## Texts before a dot -/

/-- The longest run of word characters that ends a text. -/
def Text.wordRun (text : List Char) : List Char :=
  (text.reverse.takeWhile isWordChar).reverse

theorem Text.isWordChar_of_mem_wordRun {text : List Char} {c : Char} (hc : c ∈ wordRun text) :
    isWordChar c = true :=
  List.all_eq_true.mp List.all_takeWhile c (List.mem_reverse.mp hc)

theorem Text.wordRun_of_word {front word : List Char} (hword : ∀ c ∈ word, isWordChar c = true)
    (hfront : ∀ c, front.getLast? = some c → isWordChar c = false) :
    wordRun (front ++ word) = word := by
  rw [wordRun, takeWhile_reverse_append hword hfront, List.reverse_reverse]

theorem Text.wordRun_ne_nil {front word : List Char} (hne : word ≠ [])
    (hword : ∀ c ∈ word, isWordChar c = true) : wordRun (front ++ word) ≠ [] := by
  intro hnil
  have hlong : (front ++ word).reverse.takeWhile isWordChar =
      word.reverse ++ front.reverse.takeWhile isWordChar := by
    rw [List.reverse_append]
    exact List.takeWhile_append_of_pos fun c hc => hword c (List.mem_reverse.mp hc)
  rw [wordRun, hlong, List.reverse_eq_nil_iff, List.append_eq_nil_iff, List.reverse_eq_nil_iff]
    at hnil
  exact hne hnil.1

theorem receiverWord_concat (text : List Char) :
    receiverWord? (text ++ ['.']) =
      if wordRun text = [] then none else some (String.ofList (wordRun text)) := by
  have hrev : (text ++ ['.']).reverse = '.' :: text.reverse := List.reverse_concat
  rw [receiverWord?, hrev]
  by_cases hnil : wordRun text = []
  · rw [if_pos hnil]
    exact if_pos (List.isEmpty_iff.mpr hnil)
  · rw [if_neg hnil]
    exact if_neg fun h => hnil (List.isEmpty_iff.mp h)

/-- A text ends with the instance and a dot exactly if its last identifier ends with the instance. -/
theorem endsWithInstance_iff {front receiver : List Char}
    (hfront : ∀ c, front.getLast? = some c → isIdentChar c = false) :
    "this.".toList.isSuffixOf (front ++ receiver ++ ['.']) = true ↔ "this".toList <:+ receiver := by
  have hdot : "this.".toList = "this".toList ++ ['.'] := rfl
  have hident : ∀ c ∈ "this".toList, isIdentChar c = true := List.all_eq_true.mp (by decide +kernel)
  rw [List.isSuffixOf_iff_suffix, hdot]
  constructor
  · rintro ⟨before, hbefore⟩
    rw [← List.append_assoc] at hbefore
    have hends : before ++ "this".toList = front ++ receiver := List.append_cancel_right hbefore
    rcases List.append_eq_append_iff.mp hends with ⟨more, rfl, hthis⟩ | ⟨more, rfl, rfl⟩
    · -- What stands before the receiver would be part of the identifier.
      cases hmore : more.getLast? with
      | none =>
        rw [List.getLast?_eq_none_iff.mp hmore, List.nil_append] at hthis
        exact hthis ▸ List.suffix_refl _
      | some c =>
        have hc : c ∈ "this".toList :=
          hthis ▸ List.mem_append_left receiver (List.mem_of_getLast? hmore)
        have hlast := hfront c (by rw [List.getLast?_append, hmore, Option.some_or])
        rw [hident c hc] at hlast
        cases hlast
    · exact List.suffix_append more _
  · rintro ⟨before, rfl⟩
    exact ⟨front ++ before, by simp only [List.append_assoc]⟩

/-! ## Names of classes -/

namespace ClassLine

open Scan

theorem assignedClass_yields : assignedClass.Yields fun path => ∀ c ∈ path, isPathChar c = true :=
  yields_bind fun _ => (yields_run1 isPathChar).bind fun _ hpath => yields_bind fun _ =>
    yields_bind fun _ => yields_bind fun _ => yields_bind fun _ => yields_bind fun _ =>
      yields_bind fun _ => yields_bind fun _ => yields_bind fun _ => yields_bind fun _ =>
        yields_pure hpath

theorem declaredClass_yields : declaredClass.Yields fun path => ∀ c ∈ path, isPathChar c = true :=
  yields_bind fun _ => yields_bind fun _ => yields_bind fun _ => yields_bind fun _ =>
    yields_run1 isPathChar

theorem path_of_className {line : List Char} {name : String} (h : className? line = some name) :
    ∀ c ∈ name.toList, isPathChar c = true := by
  obtain ⟨path, hpath, rfl⟩ := Option.map_eq_some_iff.mp h
  rw [String.toList_ofList]
  rcases Option.or_eq_some_iff.mp hpath with hassigned | ⟨-, hdeclared⟩
  · obtain ⟨reading, hreading, rfl⟩ := Option.map_eq_some_iff.mp hassigned
    exact assignedClass_yields _ reading (List.mem_of_head? hreading)
  · obtain ⟨reading, hreading, rfl⟩ := Option.map_eq_some_iff.mp hdeclared
    exact declaredClass_yields _ reading (List.mem_of_head? hreading)

end ClassLine

theorem Document.path_of_enclosingClass {doc : Document} {line : Nat} {name : String}
    (h : doc.enclosingClass? line = some name) : ∀ c ∈ name.toList, isPathChar c = true := by
  obtain ⟨classLine, -, hname⟩ := List.exists_of_findSome?_eq_some h
  exact ClassLine.path_of_className hname

/-! ## The site of a member -/

/-- The position touches the word of `range`, and right before the word stand a receiver that is a
whole identifier, and a dot. -/
structure MemberSite (doc : Document) (pos : Position) (range : WordRange)
    (front receiver : List Char) : Prop where
  word : doc.wordRange? pos = some range
  before : doc.before ⟨pos.line, range.start⟩ = front ++ receiver ++ ['.']
  receiver_ne_nil : receiver ≠ []
  receiver_ident : ∀ c ∈ receiver, isIdentChar c = true
  front_end : ∀ c, front.getLast? = some c → isIdentChar c = false

namespace Document

def typeOf? (doc : Document) (receiver : List Char) : Option String :=
  (Bindings.ofDocument doc).get? (String.ofList receiver)

/-- The namespace that a receiver stands for: the enclosing class for the instance, the type of a
variable, and else the receiver itself. -/
def ownerOf? (doc : Document) (line : Nat) (receiver : List Char) : Option String :=
  if receiver = "this".toList then doc.enclosingClass? line
  else some ((doc.typeOf? receiver).getD (String.ofList receiver))

/-- The answers at a position are those for a member of the receiver. -/
structure TakesReceiver (doc : Document) (pos : Position) (range : WordRange) (table : Table)
    (receiver : List Char) : Prop where
  lookup : ∃ query, Lookup.at? doc pos table = some query ∧
    (query.onInstance = true ↔ receiver = "this".toList) ∧
    query.receiverType = doc.typeOf? receiver
  target : doc.memberTarget? ⟨pos.line, range.start⟩ (doc.wordIn range) =
    (doc.ownerOf? pos.line receiver).map fun owner => ⟨owner, doc.wordIn range⟩

theorem typeOf_eq_none (doc : Document) {receiver : List Char} {c : Char} (hc : c ∈ receiver)
    (hpath : isPathChar c = false) : doc.typeOf? receiver = none :=
  (Bindings.paths_ofDocument doc).named.get_eq_none (by rwa [String.toList_ofList]) hpath

/-- Only word characters and dots stand in what a receiver of word characters stands for. -/
theorem path_of_ownerOf {doc : Document} {line : Nat} {receiver : List Char} {owner : String}
    (hreceiver : ∀ c ∈ receiver, isWordChar c = true) (h : doc.ownerOf? line receiver = some owner) :
    ∀ c ∈ owner.toList, isPathChar c = true := by
  rw [ownerOf?] at h
  split at h
  · exact path_of_enclosingClass h
  · obtain rfl := Option.some.inj h
    cases htype : doc.typeOf? receiver with
    | none =>
      rw [Option.getD_none, String.toList_ofList]
      exact fun c hc => isPathChar_of_isWordChar (hreceiver c hc)
    | some type => exact (Bindings.paths_ofDocument doc).dotted.of_get htype

end Document

namespace MemberSite

section Site

variable {doc : Document} {pos : Position} {range : WordRange} {front receiver : List Char}
  (h : MemberSite doc pos range front receiver)

include h

theorem lookup_eq (table : Table) :
    ∃ query, Lookup.at? doc pos table = some query ∧
      (query.onInstance = true ↔ "this".toList <:+ receiver) ∧
      query.receiverType = if wordRun (front ++ receiver) = [] then doc.enclosingClass? pos.line
        else doc.typeOf? (wordRun (front ++ receiver)) := by
  refine ⟨_, by rw [Lookup.at?, h.word]; rfl, ?_, ?_⟩
  · rw [h.before]
    exact endsWithInstance_iff h.front_end
  · have hdot : trimEnd isBlank (front ++ receiver ++ ['.']) = front ++ receiver ++ ['.'] := by
      refine trimEnd_of_last isBlank _ fun c hc => ?_
      rw [List.getLast?_concat] at hc
      obtain rfl : '.' = c := Option.some.inj hc
      decide +kernel
    simp only [h.before, hdot, receiverWord_concat]
    by_cases hnil : wordRun (front ++ receiver) = []
    · simp only [if_pos hnil]
    · simp only [if_neg hnil]
      rfl

theorem target_eq : doc.memberTarget? ⟨pos.line, range.start⟩ (doc.wordIn range) =
    if wordRun (front ++ receiver) = [] then none
    else (doc.ownerOf? pos.line (wordRun (front ++ receiver))).map
      fun owner => ⟨owner, doc.wordIn range⟩ := by
  rw [Document.memberTarget?, h.before, receiverWord_concat]
  by_cases hnil : wordRun (front ++ receiver) = []
  · rw [if_pos hnil, if_pos hnil]
    rfl
  · rw [if_neg hnil, if_neg hnil, Document.ownerOf?]
    have hthis : String.ofList (wordRun (front ++ receiver)) = "this" ↔
        wordRun (front ++ receiver) = "this".toList := by
      rw [← String.toList_inj, String.toList_ofList]
    simp only [Option.bind_eq_bind, Option.bind_some, hthis]
    split
    · cases doc.enclosingClass? pos.line <;> rfl
    · rfl

/-- A character that is no word character keeps the receiver out of every answer: nothing is bound
to such a name, and no name that is read or bound has the character. -/
theorem word_of_target (htarget : doc.memberTarget? ⟨pos.line, range.start⟩ (doc.wordIn range) =
      (doc.ownerOf? pos.line receiver).map fun owner => ⟨owner, doc.wordIn range⟩) :
    ∀ c ∈ receiver, isWordChar c = true := by
  intro c hc
  refine Decidable.byContradiction fun hword => ?_
  have hpath : isPathChar c = false := by
    have hdot : c ≠ '.' := by
      rintro rfl
      exact absurd (h.receiver_ident '.' hc) (by decide +kernel)
    rw [isPathChar, Bool.eq_false_iff.mpr hword, Bool.false_or, beq_eq_false_iff_ne]
    exact hdot
  have hthis : receiver ≠ "this".toList := by
    rintro rfl
    exact hword (List.all_eq_true.mp (by decide +kernel : "this".toList.all isWordChar = true) c hc)
  have howner : doc.ownerOf? pos.line receiver = some (String.ofList receiver) := by
    rw [Document.ownerOf?, if_neg hthis, doc.typeOf_eq_none hc hpath, Option.getD_none]
  rw [h.target_eq, howner] at htarget
  split at htarget
  · cases htarget
  · obtain ⟨owner, hread, hsame⟩ := Option.map_eq_some_iff.mp htarget
    obtain rfl : owner = String.ofList receiver := congrArg Target.owner hsame
    have hin := Document.path_of_ownerOf (fun c hc => isWordChar_of_mem_wordRun hc) hread c
      (by rwa [String.toList_ofList])
    rw [hin] at hpath
    cases hpath

/-- The receiver is taken as the whole identifier before the dot exactly if it is the instance or
does not end like it, consists of word characters, and none of them stands right before it; one that
does may still lead to the same type and the same namespace. -/
theorem receiver_taken_whole_iff (table : Table) :
    doc.TakesReceiver pos range table receiver ↔
      ("this".toList <:+ receiver → receiver = "this".toList) ∧
      (∀ c ∈ receiver, isWordChar c = true) ∧
      ((∀ c, front.getLast? = some c → isWordChar c = false) ∨
        (doc.typeOf? (wordRun (front ++ receiver)) = doc.typeOf? receiver ∧
          doc.ownerOf? pos.line (wordRun (front ++ receiver)) =
            doc.ownerOf? pos.line receiver)) := by
  obtain ⟨query, hquery, hinstance, htype⟩ := h.lookup_eq table
  constructor
  · rintro ⟨⟨other, hother, honly, htyped⟩, htarget⟩
    obtain rfl : query = other := Option.some.inj (hquery.symm.trans hother)
    have hword := h.word_of_target htarget
    have hne : wordRun (front ++ receiver) ≠ [] := wordRun_ne_nil h.receiver_ne_nil hword
    rw [htype, if_neg hne] at htyped
    rw [h.target_eq, if_neg hne] at htarget
    refine ⟨fun hends => honly.mp (hinstance.mpr hends), hword, Or.inr ⟨htyped, ?_⟩⟩
    exact Option.map_injective (fun _ _ hsame => congrArg Target.owner hsame) htarget
  · rintro ⟨honly, hword, hread⟩
    have hne : wordRun (front ++ receiver) ≠ [] := wordRun_ne_nil h.receiver_ne_nil hword
    have hsame : doc.typeOf? (wordRun (front ++ receiver)) = doc.typeOf? receiver ∧
        doc.ownerOf? pos.line (wordRun (front ++ receiver)) = doc.ownerOf? pos.line receiver := by
      rcases hread with hfront | hsame
      · rw [wordRun_of_word hword hfront]
        exact ⟨rfl, rfl⟩
      · exact hsame
    refine ⟨⟨query, hquery, ?_, ?_⟩, ?_⟩
    · rw [hinstance]
      exact ⟨honly, fun hthis => hthis ▸ List.suffix_refl _⟩
    · rw [htype, if_neg hne, hsame.1]
    · rw [h.target_eq, if_neg hne, hsame.2]

end Site

/-! ## Receivers on a line -/

/-- A variable, a name that ends with it behind a dollar sign, and one that ends like the instance. -/
def receiverDocument : Document :=
  ⟨"a.js", ["let p = new Foo();".toList, "q.p.run();".toList, "$p.run();".toList,
    "mythis.run();".toList]⟩

theorem of_cut {doc : Document} {pos : Position} {range : WordRange} {front receiver : List Char}
    (hword : doc.wordRange? pos = some range)
    (hbefore : doc.before ⟨pos.line, range.start⟩ = front ++ receiver ++ ['.'])
    (hne : receiver ≠ []) (hident : receiver.all isIdentChar = true)
    (hend : front.getLast?.all (!isIdentChar ·) = true) :
    MemberSite doc pos range front receiver where
  word := hword
  before := hbefore
  receiver_ne_nil := hne
  receiver_ident := List.all_eq_true.mp hident
  front_end := by
    intro c hc
    rw [hc, Option.all_some, Bool.not_eq_true'] at hend
    exact hend

theorem receiver_taken_whole_of_p :
    MemberSite receiverDocument ⟨1, 6⟩ ⟨1, 4, 7⟩ "q.".toList "p".toList ∧
    receiverDocument.TakesReceiver ⟨1, 6⟩ ⟨1, 4, 7⟩ [] "p".toList ∧
    receiverDocument.typeOf? "p".toList = some "Foo" := by
  have hsite : MemberSite receiverDocument ⟨1, 6⟩ ⟨1, 4, 7⟩ "q.".toList "p".toList :=
    of_cut (by decide +kernel) (by decide +kernel) (by decide) (by decide +kernel) (by decide +kernel)
  refine ⟨hsite, (receiver_taken_whole_iff hsite []).mpr ⟨?_, ?_, Or.inl ?_⟩, by decide +kernel⟩
  · exact fun hends => absurd hends.length_le (by decide)
  · exact List.all_eq_true.mp (by decide +kernel)
  · intro c hc
    obtain rfl : '.' = c := Option.some.inj hc
    decide +kernel

/-- Behind a dollar sign the variable is taken for another one, and a name that ends like the
instance for the instance. -/
theorem receiver_taken_in_part :
    MemberSite receiverDocument ⟨2, 4⟩ ⟨2, 3, 6⟩ [] "$p".toList ∧
    receiverDocument.memberTarget? ⟨2, 3⟩ "run" = some ⟨"Foo", "run"⟩ ∧
    ¬ receiverDocument.TakesReceiver ⟨2, 4⟩ ⟨2, 3, 6⟩ [] "$p".toList ∧
    MemberSite receiverDocument ⟨3, 8⟩ ⟨3, 7, 10⟩ [] "mythis".toList ∧
    ¬ receiverDocument.TakesReceiver ⟨3, 8⟩ ⟨3, 7, 10⟩ [] "mythis".toList := by
  have hdollar : MemberSite receiverDocument ⟨2, 4⟩ ⟨2, 3, 6⟩ [] "$p".toList :=
    of_cut (by decide +kernel) (by decide +kernel) (by decide) (by decide +kernel) rfl
  have hends : MemberSite receiverDocument ⟨3, 8⟩ ⟨3, 7, 10⟩ [] "mythis".toList :=
    of_cut (by decide +kernel) (by decide +kernel) (by decide) (by decide +kernel) rfl
  refine ⟨hdollar, by decide +kernel, fun htaken => ?_, hends, fun htaken => ?_⟩
  · have hword := hdollar.word_of_target htaken.target '$' (by decide)
    exact absurd hword (by decide +kernel)
  · obtain ⟨query, hquery, honly, -⟩ := htaken.lookup
    obtain ⟨other, hother, hinstance, -⟩ := hends.lookup_eq []
    obtain rfl : query = other := Option.some.inj (hquery.symm.trans hother)
    have hthis := honly.mp (hinstance.mpr ⟨"my".toList, rfl⟩)
    exact absurd hthis (by decide)

end MemberSite

end CodeNav
