import CodeNav.Calls.Target
import CodeNav.Proofs.Text.Hits

/-! The named block around a declaration. Matching braces one by one tells which blocks are open at
any place; counting them line by line, openings before closings, gives the same blocks after lines
that are in order. -/
namespace CodeNav
set_option autoImplicit false
open Text Text.Scan

namespace Block

/-! ## Braces of a line -/

/-- An opening brace comes with the name of its block, if it has one. -/
inductive Brace where
  | opening (name : Option String)
  | closing
  deriving DecidableEq

def Brace.isOpening : Brace → Bool
  | opening _ => true
  | closing => false

@[simp] theorem Brace.isOpening_opening (name : Option String) : (opening name).isOpening = true :=
  rfl

@[simp] theorem Brace.isOpening_closing : closing.isOpening = false :=
  rfl

/-- The name of the block that the opening brace at `index` opens: that of an object which is not
closed before a semicolon, or, for the first brace, that of the class which the line introduces. -/
def nameAt? (line : List Char) (index : Nat) : Option String :=
  let object := (literalOpening.hits line).find? fun hit =>
    hit.stop == index + 1 && !closesAhead (line.drop hit.stop)
  (object.map fun hit => String.ofList hit.value).or
    (if line.idxOf '\x7b' = index then openedClass? line else none)

def braceAt? (line : List Char) (place : Char × Nat) : Option Brace :=
  if place.1 = '\x7b' then some (.opening (nameAt? line place.2))
  else if place.1 = '\x7d' then some .closing
  else none

def braces (line : List Char) : List Brace :=
  line.zipIdx.filterMap (braceAt? line)

theorem countP_braces {line : List Char} {p : Brace → Bool} {c : Char}
    (h : ∀ place, (braceAt? line place).any p = (place.1 == c)) :
    (braces line).countP p = line.count c := by
  have hplaces : (braces line).countP p = line.zipIdx.countP fun place => place.1 == c := by
    rw [braces, List.countP_filterMap]
    apply List.countP_congr
    intro place _
    rw [← h place]
    cases braceAt? line place <;> simp
  rw [hplaces, List.count, ← List.zipIdx_map_fst 0 line, List.countP_map, List.zipIdx_map_fst]
  rfl

theorem count_opening_braces (line : List Char) :
    (braces line).countP Brace.isOpening = line.count '\x7b' := by
  apply countP_braces
  rintro ⟨c, index⟩
  by_cases hopen : c = '\x7b'
  · simp [braceAt?, hopen]
  · by_cases hclose : c = '\x7d' <;> simp [braceAt?, hopen, hclose]

theorem count_closing_braces (line : List Char) :
    (braces line).countP (!·.isOpening) = line.count '\x7d' := by
  apply countP_braces
  rintro ⟨c, index⟩
  by_cases hopen : c = '\x7b'
  · simp [braceAt?, hopen]
  · by_cases hclose : c = '\x7d' <;> simp [braceAt?, hopen, hclose]

/-! ## Matching one by one -/

/-- The blocks open behind a brace, the innermost first. -/
def step (blocks : List (Option String)) : Brace → List (Option String)
  | .opening name => name :: blocks
  | .closing => blocks.tail

def matched (bs : List Brace) (blocks : List (Option String)) : List (Option String) :=
  bs.foldl step blocks

/-- The braces that find no partner among the ones read: closing ones, then opening ones, given by
their blocks with the innermost first. -/
structure Unmatched where
  closings : Nat
  openings : List (Option String)
  deriving DecidableEq

def Unmatched.next (u : Unmatched) : Brace → Unmatched
  | .opening name => { u with openings := name :: u.openings }
  | .closing =>
    match u.openings with
    | [] => { u with closings := u.closings + 1 }
    | _ :: openings => { u with openings := openings }

def unmatched (bs : List Brace) : Unmatched :=
  bs.foldl Unmatched.next ⟨0, []⟩

theorem step_unmatched (u : Unmatched) (b : Brace) (blocks : List (Option String)) :
    step (u.openings ++ blocks.drop u.closings) b
      = (u.next b).openings ++ blocks.drop (u.next b).closings := by
  cases b with
  | opening name => rfl
  | closing =>
    obtain ⟨closings, openings⟩ := u
    cases openings with
    | nil => simp [step, Unmatched.next]
    | cons name openings => rfl

theorem matched_eq (bs : List Brace) (blocks : List (Option String)) :
    matched bs blocks = (unmatched bs).openings ++ blocks.drop (unmatched bs).closings := by
  have hrun : ∀ u : Unmatched,
      bs.foldl step (u.openings ++ blocks.drop u.closings)
        = (bs.foldl Unmatched.next u).openings
          ++ blocks.drop (bs.foldl Unmatched.next u).closings := by
    induction bs with
    | nil => intro u; rfl
    | cons b bs ih =>
      intro u
      rw [List.foldl_cons, step_unmatched]
      exact ih (u.next b)
  exact hrun ⟨0, []⟩

/-- Partners cancel out. -/
theorem unmatched_count (bs : List Brace) :
    (unmatched bs).openings.length + bs.countP (!·.isOpening)
        = bs.countP Brace.isOpening + (unmatched bs).closings ∧
      (unmatched bs).closings ≤ bs.countP (!·.isOpening) := by
  have hrun : ∀ u : Unmatched,
      (bs.foldl Unmatched.next u).openings.length + bs.countP (!·.isOpening) + u.closings
          = u.openings.length + bs.countP Brace.isOpening + (bs.foldl Unmatched.next u).closings ∧
        (bs.foldl Unmatched.next u).closings ≤ u.closings + bs.countP (!·.isOpening) := by
    induction bs with
    | nil => intro u; simp
    | cons b bs ih =>
      intro u
      have hlater := ih (u.next b)
      rw [List.foldl_cons]
      cases b with
      | opening name =>
        simp [Unmatched.next, List.countP_cons] at hlater ⊢
        omega
      | closing =>
        obtain ⟨closings, openings⟩ := u
        cases openings with
        | nil =>
          simp [Unmatched.next] at hlater ⊢
          omega
        | cons name openings =>
          simp [Unmatched.next] at hlater ⊢
          omega
  have h := hrun ⟨0, []⟩
  simp only [List.length_nil, Nat.zero_add, Nat.add_zero] at h
  exact h

/-! ## Counting by lines -/

/-- The blocks that a line is taken to leave open when `n` of its braces find no partner: plain ones
inside one with the name that it opens. -/
def leftOpen (name : Option String) : Nat → List (Option String)
  | 0 => []
  | n + 1 => List.replicate n none ++ [name]

theorem leftOpen_none (n : Nat) : leftOpen none n = List.replicate n none := by
  cases n with
  | zero => rfl
  | succ n => rw [leftOpen, List.replicate_succ']

theorem length_leftOpen (name : Option String) (n : Nat) : (leftOpen name n).length = n := by
  cases n <;> simp [leftOpen]

theorem drop_leftOpen (name : Option String) (n count : Nat) :
    (leftOpen name (n + count)).drop count = leftOpen name n := by
  cases n with
  | zero => exact List.drop_eq_nil_of_le (by rw [length_leftOpen]; omega)
  | succ n =>
    have hsum : n + 1 + count = n + count + 1 := by omega
    rw [hsum, leftOpen, leftOpen, List.drop_append_of_le_length (by simp)]
    simp

theorem literalOpening_needs : literalOpening.Needs '\x7b' := by
  have hskip1 : ∀ p, (skip1 p).Advances := fun p =>
    (advances_run1 p).bind fun _ => advances_pure ()
  have hblanks : blanks.Advances := (advances_run isBlank).bind fun _ => advances_pure ()
  have hnameParts : nameParts.Advances := by
    apply Advances.text
    apply (hskip1 isNameChar).bind
    intro _ here
    apply advances_repeatUpTo
    exact (advances_chars _).bind fun _ => hskip1 isNameChar
  have hbrace : (lit "\x7b").Needs '\x7b' := needs_chars (by decide)
  apply hnameParts.needs_bind
  intro path
  apply hblanks.needs_bind
  intro _
  apply (advances_chars _).needs_bind
  intro _
  apply hblanks.needs_bind
  intro _
  exact hbrace.bind _

theorem brace_of_openedName {line : List Char} {name : String} (h : openedName? line = some name) :
    '\x7b' ∈ line := by
  rcases Option.or_eq_some_iff.mp h with hobject | ⟨-, hclass⟩
  · obtain ⟨hit, hfound, -⟩ := Option.map_eq_some_iff.mp hobject
    exact literalOpening_needs.mem_of_hit (List.mem_of_find?_eq_some hfound)
  · rw [openedClass?] at hclass
    split at hclass
    · next hmem => simpa using hmem
    · contradiction

theorem afterLine_eq (blocks : List (Option String)) (line : List Char) :
    afterLine blocks line = (leftOpen (openedName? line) (unmatched (braces line)).openings.length
      ++ blocks).drop (unmatched (braces line)).closings := by
  have hopened : afterLine blocks line
      = (leftOpen (openedName? line) (line.count '\x7b') ++ blocks).drop (line.count '\x7d') := by
    unfold afterLine
    cases hname : openedName? line with
    | none => rw [leftOpen_none]
    | some name =>
      have hpos := List.count_pos_iff.mpr (brace_of_openedName hname)
      obtain ⟨n, hn⟩ : ∃ n, line.count '\x7b' = n + 1 := ⟨line.count '\x7b' - 1, by omega⟩
      simp [hn, leftOpen]
  obtain ⟨hcount, hle⟩ := unmatched_count (braces line)
  rw [count_opening_braces, count_closing_braces] at hcount
  rw [count_closing_braces] at hle
  rw [hopened]
  generalize unmatched (braces line) = u at hcount hle ⊢
  -- the pairs take the same number of openings and closings away
  obtain ⟨pairs, hpairs⟩ : ∃ pairs, line.count '\x7d' = pairs + u.closings :=
    ⟨line.count '\x7d' - u.closings, by omega⟩
  have hopenings : line.count '\x7b' = u.openings.length + pairs := by omega
  rw [hpairs, hopenings, ← List.drop_drop,
    List.drop_append_of_le_length (by rw [length_leftOpen]; omega), drop_leftOpen]

/-- Taking the openings first makes no difference: no block is left open; or plain ones inside one
with the given name, and nothing that was open is closed; or all that is opened and closed is
plain. -/
def Unmatched.InOrder (u : Unmatched) (name : Option String)
    (blocks : List (Option String)) : Prop :=
  u.openings = [] ∨ u.openings = leftOpen name u.openings.length ∧
    (u.closings = 0 ∨ name = none ∧ blocks.take u.closings = List.replicate u.closings none)

def InOrder (blocks : List (Option String)) (line : List Char) : Prop :=
  (unmatched (braces line)).InOrder (openedName? line) blocks

instance (u : Unmatched) (name : Option String) (blocks : List (Option String)) :
    Decidable (u.InOrder name blocks) :=
  inferInstanceAs (Decidable (_ ∨ _ ∧ (_ ∨ _ ∧ _)))

instance (blocks : List (Option String)) (line : List Char) : Decidable (InOrder blocks line) :=
  inferInstanceAs (Decidable (Unmatched.InOrder _ _ _))

theorem drop_plain_append (opened closed : Nat) (blocks : List (Option String)) :
    (List.replicate opened none ++ (List.replicate closed none ++ blocks)).drop closed
      = List.replicate opened none ++ blocks := by
  rw [← List.append_assoc, List.replicate_append_replicate, Nat.add_comm,
    ← List.replicate_append_replicate, List.append_assoc, List.drop_left' List.length_replicate]

theorem afterLine_of_inOrder {blocks : List (Option String)} {line : List Char}
    (h : InOrder blocks line) : afterLine blocks line = matched (braces line) blocks := by
  rw [afterLine_eq, matched_eq]
  rcases h with hnone | ⟨hopen, hclosed | ⟨hplain, hblocks⟩⟩
  · simp [hnone, leftOpen]
  · rw [← hopen, hclosed, List.drop_zero, List.drop_zero]
  · generalize (unmatched (braces line)).closings = closings at hblocks ⊢
    have hcut : blocks = List.replicate closings none ++ blocks.drop closings := by
      rw [← hblocks, List.take_append_drop]
    rw [hopen, length_leftOpen, hplain, leftOpen_none]
    conv => lhs; rw [hcut]
    exact drop_plain_append _ closings _

/-! ## The innermost named block -/

theorem innermost_append (inner blocks : List (Option String)) :
    innermost? (inner ++ blocks) = (innermost? inner).or (innermost? blocks) :=
  List.findSome?_append

theorem innermost_plain {blocks : List (Option String)} (h : ∀ b ∈ blocks, b = none) :
    innermost? blocks = none :=
  List.findSome?_eq_none_iff.mpr h

/-- Braces that leave no named block open, and close none of those open before them. -/
def Keeps (bs : List Brace) (blocks : List (Option String)) : Prop :=
  (∀ b ∈ (unmatched bs).openings, b = none) ∧ ∀ b ∈ blocks.take (unmatched bs).closings, b = none

instance (bs : List Brace) (blocks : List (Option String)) : Decidable (Keeps bs blocks) :=
  inferInstanceAs (Decidable (_ ∧ _))

theorem innermost_of_keeps {bs : List Brace} {blocks : List (Option String)} (h : Keeps bs blocks) :
    innermost? (matched bs blocks) = innermost? blocks := by
  have hcut := List.take_append_drop (unmatched bs).closings blocks
  rw [matched_eq, innermost_append, innermost_plain h.1, Option.none_or]
  conv => rhs; rw [← hcut, innermost_append, innermost_plain h.2, Option.none_or]

end Block

/-- Where the word starts. -/
def WordRange.first (range : WordRange) : Position :=
  ⟨range.line, range.start⟩

namespace Document
open Block

/-! ## Blocks of a document -/

/-- The blocks open after the first `n` lines, all braces matched one by one. -/
def openAfter (doc : Document) (n : Nat) : List (Option String) :=
  (doc.lines.take n).foldl (fun blocks line => matched (braces (trim line)) blocks) []

def bracesBefore (doc : Document) (pos : Position) : Nat :=
  (doc.before pos).countP fun c => c == '\x7b' || c == '\x7d'

/-- The braces of the line of the position that do not stand before it. -/
def bracesFrom (doc : Document) (pos : Position) : List Brace :=
  (braces (trim (doc.line pos.line))).drop (doc.bracesBefore pos)

/-- The blocks open at the position, all braces before it matched one by one. -/
def openAt (doc : Document) (pos : Position) : List (Option String) :=
  matched ((braces (trim (doc.line pos.line))).take (doc.bracesBefore pos)) (doc.openAfter pos.line)

theorem openAfter_succ (doc : Document) (n : Nat) :
    doc.openAfter (n + 1) = matched (braces (trim (doc.line n))) (doc.openAfter n) := by
  rw [openAfter, List.take_add_one, List.foldl_append, ← openAfter, line,
    List.getD_eq_getElem?_getD]
  cases doc.lines[n]? with
  | none => rfl
  | some line => rfl

theorem openAfter_succ_eq (doc : Document) (pos : Position) :
    doc.openAfter (pos.line + 1) = matched (doc.bracesFrom pos) (doc.openAt pos) := by
  rw [openAfter_succ, openAt, bracesFrom, matched, matched, matched, ← List.foldl_append,
    List.take_append_drop]

theorem afterLines_succ (doc : Document) (n : Nat) :
    afterLines (doc.lines.take (n + 1))
      = afterLine (afterLines (doc.lines.take n)) (trim (doc.line n)) := by
  rw [afterLines, List.take_add_one, List.foldl_append, ← afterLines, line,
    List.getD_eq_getElem?_getD]
  cases doc.lines[n]? with
  | none =>
    have hempty : InOrder (afterLines (doc.lines.take n)) [] := Or.inl rfl
    exact (afterLine_of_inOrder hempty).symm
  | some line => rfl

theorem afterLines_eq_openAfter (doc : Document) (n : Nat)
    (h : ∀ i < n, InOrder (doc.openAfter i) (trim (doc.line i))) :
    afterLines (doc.lines.take n) = doc.openAfter n := by
  induction n with
  | zero => simp [afterLines, openAfter]
  | succ n ih =>
    rw [afterLines_succ, openAfter_succ, ih fun i hi => h i (by omega)]
    exact afterLine_of_inOrder (h n (by omega))

/-! ## Declarations -/

/-- The word in the innermost named block that is open where it starts. -/
def attributed? (doc : Document) (range : WordRange) : Option Target :=
  (innermost? (doc.openAt range.first)).map fun owner => ⟨owner, doc.wordIn range⟩

theorem line_of_wordRange {doc : Document} {pos : Position} {range : WordRange}
    (h : doc.wordRange? pos = some range) : range.line = pos.line := by
  rw [wordRange?] at h
  split at h
  · contradiction
  · rw [← Option.some.inj h]

theorem declaredTarget_eq {doc : Document} {pos : Position} {range : WordRange}
    (hword : doc.wordRange? pos = some range)
    (hdeclares :
      DeclaringLine.declares (doc.wordIn range).toList (trim (doc.line pos.line)) = true) :
    doc.declaredTarget? pos
      = ((innermost? (afterLines (doc.lines.take (pos.line + 1)))).or
          (openedName? (trim (doc.line pos.line)))).map fun owner => ⟨owner, doc.wordIn range⟩ := by
  have hword? : doc.word? pos = some (doc.wordIn range) := by rw [word?, hword, Option.map_some]
  rw [declaredTarget?, hword?]
  simp only [Option.bind_eq_bind, Option.bind_some, hdeclares, if_true]
  cases (innermost? (afterLines (doc.lines.take (pos.line + 1)))).or
      (openedName? (trim (doc.line pos.line))) with
  | none => rfl
  | some owner => rfl

theorem map_target_inj (word : String) {owner owner' : Option String} :
    owner.map (fun owner => Target.mk owner word) = owner'.map (fun owner => Target.mk owner word) ↔
      owner = owner' := by
  cases owner <;> cases owner' <;> simp

/-- A word that its line declares goes to the innermost named block open where it starts exactly
when this is still the innermost named one at the end of the line or, where no named one is open
then, the one that the line opens. So it does where the rest of the line neither leaves a named
block open nor closes one, and the line opens none when none is open at the word. -/
theorem declared_in_block_at_word_iff (doc : Document) (pos : Position) (range : WordRange)
    (hword : doc.wordRange? pos = some range)
    (hdeclares : DeclaringLine.declares (doc.wordIn range).toList (trim (doc.line pos.line)) = true)
    (horder : ∀ i ≤ pos.line, InOrder (doc.openAfter i) (trim (doc.line i))) :
    (doc.declaredTarget? pos = doc.attributed? range ↔
      innermost? (doc.openAt range.first)
        = (innermost? (doc.openAfter (pos.line + 1))).or (openedName? (trim (doc.line pos.line)))) ∧
    (Keeps (doc.bracesFrom range.first) (doc.openAt range.first) →
      (innermost? (doc.openAt range.first) = none → openedName? (trim (doc.line pos.line)) = none) →
      doc.declaredTarget? pos = doc.attributed? range) := by
  have hblocks := afterLines_eq_openAfter doc (pos.line + 1) fun i hi => horder i (by omega)
  have hiff : doc.declaredTarget? pos = doc.attributed? range ↔
      innermost? (doc.openAt range.first)
        = (innermost? (doc.openAfter (pos.line + 1))).or
          (openedName? (trim (doc.line pos.line))) := by
    rw [declaredTarget_eq hword hdeclares, hblocks, attributed?, map_target_inj, eq_comm]
  have hend : doc.openAfter (pos.line + 1)
      = matched (doc.bracesFrom range.first) (doc.openAt range.first) := by
    rw [← line_of_wordRange hword]
    exact openAfter_succ_eq doc range.first
  refine ⟨hiff, fun hkeeps hopened => hiff.mpr ?_⟩
  rw [hend, innermost_of_keeps hkeeps]
  cases hinner : innermost? (doc.openAt range.first) with
  | none => simp [hopened hinner]
  | some name => simp

def branchingDocument : Document :=
  ⟨"util.js", ["ns.util = \x7b", "  if (v) \x7b", "  \x7d else \x7b", "  \x7d",
    "  clamp: function (v) \x7b return v; \x7d", "\x7d;"].map String.toList⟩

theorem declared_in_block_at_clamp :
    branchingDocument.wordRange? ⟨4, 4⟩ = some ⟨4, 2, 7⟩ ∧
      (∀ i ≤ 4, InOrder (branchingDocument.openAfter i) (trim (branchingDocument.line i))) ∧
      branchingDocument.declaredTarget? ⟨4, 4⟩ = some ⟨"ns.util", "clamp"⟩ := by
  have hword : branchingDocument.wordRange? ⟨4, 4⟩ = some ⟨4, 2, 7⟩ := by decide +kernel
  have horder : ∀ i ≤ 4,
      InOrder (branchingDocument.openAfter i) (trim (branchingDocument.line i)) := by
    decide +kernel
  refine ⟨hword, horder, ?_⟩
  have htarget := (declared_in_block_at_word_iff branchingDocument ⟨4, 4⟩ ⟨4, 2, 7⟩ hword
    (by decide +kernel) horder).2 (by decide +kernel) (by decide +kernel)
  rw [htarget]
  decide +kernel

def reopeningDocument : Document :=
  .ofText "a.js"
    "a = \x7b\n  f: function () \x7b\x7d\n\x7d; b = \x7b\n  g: function () \x7b\x7d\n\x7d;".toList

def nestingDocument : Document :=
  .ofText "a.js" "if (x) \x7b a = \x7b\n  \x7d\n  h: function () \x7b\x7d\n\x7d".toList

def closingDocument : Document :=
  .ofText "a.js" "a = \x7b\n  f: function () \x7b\x7d \x7d;".toList

/-- The two differ behind a line that closes one object and opens another, behind one that opens an
object inside a plain block, and on a line that closes the object around what it declares. -/
theorem declared_outside_block_at_word :
    (reopeningDocument.wordRange? ⟨3, 2⟩ = some ⟨3, 2, 3⟩ ∧
      DeclaringLine.declares ['g'] (trim (reopeningDocument.line 3)) = true ∧
      reopeningDocument.attributed? ⟨3, 2, 3⟩ = some ⟨"b", "g"⟩ ∧
      reopeningDocument.declaredTarget? ⟨3, 2⟩ = some ⟨"a", "g"⟩) ∧
    (nestingDocument.wordRange? ⟨2, 2⟩ = some ⟨2, 2, 3⟩ ∧
      DeclaringLine.declares ['h'] (trim (nestingDocument.line 2)) = true ∧
      nestingDocument.attributed? ⟨2, 2, 3⟩ = none ∧
      nestingDocument.declaredTarget? ⟨2, 2⟩ = some ⟨"a", "h"⟩) ∧
    (closingDocument.wordRange? ⟨1, 2⟩ = some ⟨1, 2, 3⟩ ∧
      DeclaringLine.declares ['f'] (trim (closingDocument.line 1)) = true ∧
      closingDocument.attributed? ⟨1, 2, 3⟩ = some ⟨"a", "f"⟩ ∧
      closingDocument.declaredTarget? ⟨1, 2⟩ = none) := by
  decide +kernel

end Document

end CodeNav
