import CodeNav.Document.Receiver
import CodeNav.Proofs.Document.MemberWord
import CodeNav.Proofs.Text.Pieces
import Mathlib.Data.List.Induction

/-! The types of the properties of an instance. Only `this.name = new Type(` binds the name on the
instance; an assignment from a variable binds the bare name of the property and leaves the other one
as it was. So the type on the instance is that of the last construction, which is the type of the
last assignment only where no later assignment from a variable has another. -/
namespace CodeNav
set_option autoImplicit false
open Text Text.Scan

namespace BindingLine

/-! ## Texts of constructions -/

/-- `= new Type(`, with blanks where they may stand. -/
structure IsConstructor (type text : List Char) : Prop where
  type_ne_nil : type ≠ []
  type_path : ∀ c ∈ type, isPathChar c = true
  eq_append : ∃ gap₁ gap₂ gap₃ gap₄,
    (∀ c ∈ gap₁ ++ (gap₂ ++ (gap₃ ++ gap₄)), isBlank c = true) ∧ gap₃ ≠ [] ∧
    text = gap₁ ++ '=' :: (gap₂ ++ ("new".toList ++ (gap₃ ++ (type ++ (gap₄ ++ ['('])))))

/-- `this.name = new Type(`. -/
structure IsConstruction (name type text : List Char) : Prop where
  name_ne_nil : name ≠ []
  name_word : ∀ c ∈ name, isWordChar c = true
  eq_append : ∃ rest, IsConstructor type rest ∧ text = "this.".toList ++ (name ++ rest)

theorem stops_of_path {here next : Place} {word rest : List Char} (hne : word ≠ [])
    (hword : ∀ c ∈ word, isPathChar c = true) (h : Passes here (word ++ rest) next) :
    Stops isBlank here := by
  obtain ⟨c, word, rfl⟩ := List.exists_cons_of_ne_nil hne
  exact h.stops_of_cons (not_isBlank_of_isPathChar c (hword c List.mem_cons_self))

theorem mem_constructed (here next : Place) (type : List Char) :
    (type, next) ∈ constructed isPathChar here ↔
      ∃ text, IsConstructor type text ∧ Passes here text next := by
  simp only [constructed, lit, mem_bind, mem_chars]
  constructor
  · rintro ⟨⟨_, atEquals⟩, hgap₁, ⟨_, behindEquals⟩, hequals, ⟨_, atNew⟩, hgap₁₂, ⟨_, behindNew⟩, hnew,
      ⟨_, atType⟩, hgap₁₃, ⟨type', behindType⟩, htype, ⟨_, atBracket⟩, hgap₁₄, ⟨_, behind⟩,
      hbracket, hpure⟩
    obtain ⟨rfl, rfl⟩ := Prod.mk.inj ((mem_pure _ behind _).mp hpure)
    obtain ⟨gap₁, hblank₁, hgap₁, -⟩ := (mem_blanks_iff here atEquals).mp hgap₁
    obtain ⟨gap₂, hblank₁₂, hgap₁₂, -⟩ := (mem_blanks_iff behindEquals atNew).mp hgap₁₂
    obtain ⟨gap₃, hne, hblank₁₃, hgap₁₃, -⟩ := (mem_blanks1_iff behindNew atType).mp hgap₁₃
    obtain ⟨htypene, hpath, htype, -⟩ := (mem_run1_iff isPathChar atType behindType type).mp htype
    obtain ⟨gap₄, hblank₁₄, hgap₁₄, -⟩ := (mem_blanks_iff behindType atBracket).mp hgap₁₄
    refine ⟨_, ⟨htypene, hpath, gap₁, gap₂, gap₃, gap₄, ?_, hne, rfl⟩, hgap₁.append (hequals.append
      (hgap₁₂.append (hnew.append (hgap₁₃.append (htype.append (hgap₁₄.append hbracket))))))⟩
    simp only [List.forall_mem_append]
    exact ⟨hblank₁, hblank₁₂, hblank₁₃, hblank₁₄⟩
  · rintro ⟨_, ⟨htypene, hpath, gap₁, gap₂, gap₃, gap₄, hblank₁, hne, rfl⟩, hpasses⟩
    simp only [List.forall_mem_append] at hblank₁
    obtain ⟨hblank₁, hblank₁₂, hblank₁₃, hblank₁₄⟩ := hblank₁
    obtain ⟨atEquals, hgap₁, hfromEquals⟩ := (passes_append _ _ _ _).mp hpasses
    obtain ⟨behindEquals, hequals, hpasses⟩ := (passes_append _ _ ['='] _).mp hfromEquals
    obtain ⟨atNew, hgap₁₂, hfromNew⟩ := (passes_append _ _ _ _).mp hpasses
    obtain ⟨behindNew, hnew, hpasses⟩ := (passes_append _ _ _ _).mp hfromNew
    obtain ⟨atType, hgap₁₃, hfromType⟩ := (passes_append _ _ _ _).mp hpasses
    obtain ⟨behindType, htype, hbehindType⟩ := (passes_append _ _ _ _).mp hfromType
    obtain ⟨atBracket, hgap₁₄, hbracket⟩ := (passes_append _ _ _ _).mp hbehindType
    exact ⟨((), atEquals),
      (mem_blanks_iff _ _).mpr ⟨gap₁, hblank₁, hgap₁, hfromEquals.stops_of_cons (by decide +kernel)⟩,
      ((), behindEquals), hequals,
      ((), atNew),
      (mem_blanks_iff _ _).mpr ⟨gap₂, hblank₁₂, hgap₁₂, hfromNew.stops_of_cons (by decide +kernel)⟩,
      ((), behindNew), hnew,
      ((), atType),
      (mem_blanks1_iff _ _).mpr ⟨gap₃, hne, hblank₁₃, hgap₁₃, stops_of_path htypene hpath hfromType⟩,
      (type, behindType),
      (mem_run1_iff _ _ _ _).mpr ⟨htypene, hpath, htype,
        hbehindType.stops_of_gap hblank₁₄ (by decide +kernel)⟩,
      ((), atBracket),
      (mem_blanks_iff _ _).mpr ⟨gap₄, hblank₁₄, hgap₁₄, hbracket.stops_of_cons (by decide +kernel)⟩,
      ((), next), hbracket, (mem_pure _ _ _).mpr rfl⟩

-- The name is read as far as it goes, and it goes as far as the gap before the equals sign.
theorem mem_newProperty (here next : Place) (bound : List Char × List Char) :
    (bound, next) ∈ newProperty isWordChar isPathChar here ↔
      (∀ c, here.before.head? = some c → isWordChar c = false) ∧
      ∃ text, IsConstruction bound.1 bound.2 text ∧ Passes here text next := by
  have hedge_iff {text : List Char} (h : Passes here ("this.".toList ++ text) next) :
      (((), here) : Unit × Place) ∈ wordEdge here ↔
        ∀ c, here.before.head? = some c → isWordChar c = false := by
    have hright : here.after.head?.any isWordChar = true := by
      rw [h.after]
      show isWordChar 't' = true
      decide +kernel
    rw [mem_wordEdge, and_iff_right rfl, hright]
    cases here.before.head? <;> simp
  simp only [newProperty, lit, mem_bind, mem_chars]
  constructor
  · rintro ⟨⟨_, atThis⟩, hedge, ⟨_, atName⟩, hthis, ⟨name, behindName⟩, hname, ⟨type, behind⟩, htype,
      hpure⟩
    obtain rfl := congrArg Prod.snd ((mem_wordEdge here _).mp hedge).1
    obtain ⟨rfl, rfl⟩ := Prod.mk.inj ((mem_pure _ behind _).mp hpure)
    obtain ⟨hne, hword, hname, -⟩ := (mem_run1_iff isWordChar atName behindName name).mp hname
    obtain ⟨rest, hrest, htype⟩ := (mem_constructed behindName next type).mp htype
    have hwhole := hthis.append (hname.append htype)
    exact ⟨(hedge_iff hwhole).mp hedge, _, ⟨hne, hword, rest, hrest, rfl⟩, hwhole⟩
  · rintro ⟨hedge, _, ⟨hne, hword, rest, hrest, rfl⟩, hpasses⟩
    obtain ⟨atName, hthis, hbehind⟩ := (passes_append _ _ _ _).mp hpasses
    obtain ⟨behindName, hname, htype⟩ := (passes_append _ _ _ _).mp hbehind
    refine ⟨((), here), (hedge_iff hpasses).mpr hedge, ((), atName), hthis, (bound.1, behindName),
      (mem_run1_iff _ _ _ _).mpr ⟨hne, hword, hname, ?_⟩, (bound.2, next),
      (mem_constructed _ _ _).mpr ⟨rest, hrest, htype⟩, (mem_pure _ _ _).mpr rfl⟩
    obtain ⟨-, -, gap₁, _, _, _, hblank₁, -, rfl⟩ := hrest
    exact (htype.stops_of_gap (fun c hc => hblank₁ c (List.mem_append_left _ hc))
      (by decide +kernel)).word_of_path

/-! ## Constructions on a line -/

/-- At `start` the line constructs the property with the type. -/
def ConstructedAt (line name type : List Char) (start : Nat) : Prop :=
  ∃ front text tail, line = front ++ (text ++ tail) ∧ IsConstruction name type text ∧
    (∀ c, front.getLast? = some c → isWordChar c = false) ∧ front.length = start

/-- The hit covers a construction on the line. -/
def Constructs (line : List Char) (hit : Hit (List Char × List Char)) : Prop :=
  ∃ front text tail, line = front ++ (text ++ tail) ∧ IsConstruction hit.value.1 hit.value.2 text ∧
    (∀ c, front.getLast? = some c → isWordChar c = false) ∧
    hit.start = front.length ∧ hit.stop = front.length + text.length

theorem single_newProperty : (newProperty isWordChar isPathChar).Single := by
  have hconstructed : (constructed isPathChar).Single :=
    single_blanks.bind fun _ => (single_chars _).bind fun _ => single_blanks.bind fun _ =>
      (single_chars _).bind fun _ => ((single_run1 _).bind fun _ => single_pure _).bind fun _ =>
        (single_run1 _).bind fun _ => single_blanks.bind fun _ => (single_chars _).bind fun _ =>
          single_pure _
  have hedge : wordEdge.Single := by
    intro here
    rw [wordEdge]
    split <;> simp
  exact hedge.bind fun _ => (single_chars _).bind fun _ => (single_run1 _).bind fun _ =>
    hconstructed.bind fun _ => single_pure _

theorem readsAt_newProperty (line : List Char) (hit : Hit (List Char × List Char)) :
    (newProperty isWordChar isPathChar).ReadsAt 0 [] line hit ↔ Constructs line hit := by
  have hlast (front : List Char) : (front.reverse ++ []).head? = front.getLast? := by
    rw [List.append_nil, List.head?_reverse]
  constructor
  · rintro ⟨front, rest, next, more, rfl, hread, hstart, hstop⟩
    obtain ⟨hedge, text, htext, hpasses⟩ :=
      (mem_newProperty _ next hit.value).mp (hread ▸ List.mem_cons_self)
    obtain rfl : rest = text ++ next.after := hpasses.after
    rw [List.length_append] at hstop
    exact ⟨front, text, next.after, rfl, htext, hlast front ▸ hedge, by omega, by omega⟩
  · rintro ⟨front, text, tail, rfl, htext, hedge, hstart, hstop⟩
    have hmem := (mem_newProperty ⟨front.reverse ++ [], text ++ tail⟩ ⟨_, tail⟩ hit.value).mpr
      ⟨hlast front ▸ hedge, text, htext, rfl, rfl⟩
    refine ⟨front, text ++ tail, _, [], rfl, single_newProperty.eq_singleton hmem, by omega, ?_⟩
    rw [List.length_append]
    show hit.stop = hit.start + (text.length + tail.length - tail.length)
    omega

theorem IsConstruction.exists_body {name type text : List Char} (h : IsConstruction name type text) :
    ∃ body, '(' ∉ body ∧ text = body ++ ['('] := by
  obtain ⟨-, hword, rest, ⟨-, hpath, gap₁, gap₂, gap₃, gap₄, hblank, -, rfl⟩, rfl⟩ := h
  have hname := not_mem_of_class hword (show isWordChar '(' = false by decide +kernel)
  have htype := not_mem_of_class hpath (show isPathChar '(' = false by decide +kernel)
  have hgaps := not_mem_of_class hblank (show isBlank '(' = false by decide +kernel)
  simp only [List.mem_append, not_or] at hgaps
  refine ⟨"this.".toList ++ (name ++ (gap₁ ++ '=' ::
    (gap₂ ++ ("new".toList ++ (gap₃ ++ (type ++ gap₄)))))), ?_, ?_⟩
  · simp [hname, htype, hgaps]
  · simp only [List.append_assoc, List.cons_append]

/-- Behind the last equals sign stands the type, before it the name, and before the last dot there
the instance. -/
theorem IsConstruction.cut {name type text : List Char} (h : IsConstruction name type text)
    (front : List Char) :
    ∃ head back, splitLast? '=' (front ++ text) = some (head, back) ∧
      splitLast? '.' (trimEnd isBlank head) = some (front ++ "this".toList, name) := by
  obtain ⟨hne, hword, rest, ⟨-, hpath, gap₁, gap₂, gap₃, gap₄, hblank, -, rfl⟩, rfl⟩ := h
  have htype := not_mem_of_class hpath (show isPathChar '=' = false by decide +kernel)
  have hgaps := not_mem_of_class hblank (show isBlank '=' = false by decide +kernel)
  simp only [List.mem_append, not_or] at hgaps
  have hlast : ∀ c, (front ++ "this.".toList ++ name).getLast? = some c → isBlank c = false := by
    intro c hc
    rw [List.getLast?_append, List.getLast?_eq_some_getLast hne, Option.some_or] at hc
    exact not_isBlank_of_isPathChar c
      (isPathChar_of_isWordChar (hword c (Option.some.inj hc ▸ List.getLast_mem hne)))
  refine ⟨front ++ "this.".toList ++ name ++ gap₁,
    gap₂ ++ ("new".toList ++ (gap₃ ++ (type ++ (gap₄ ++ ['('])))), ?_, ?_⟩
  · rw [← splitLast_append '=' _ _ (by simp [htype, hgaps])]
    simp only [List.append_assoc]
  · rw [trimEnd_append_of_stop (fun c hc => hblank c (List.mem_append_left _ hc)) hlast,
      ← splitLast_append '.' _ _ (not_mem_of_class hword (by decide +kernel))]
    simp

theorem IsConstruction.front_unique {name type text name' type' text' front front' : List Char}
    (h : IsConstruction name type text) (h' : IsConstruction name' type' text')
    (heq : front ++ text = front' ++ text') : front = front' := by
  obtain ⟨head, back, hsplit, hcut⟩ := h.cut front
  obtain ⟨head', back', hsplit', hcut'⟩ := h'.cut front'
  rw [heq, hsplit', Option.some.injEq, Prod.mk.injEq] at hsplit
  rw [← hsplit.1, hcut', Option.some.injEq, Prod.mk.injEq] at hcut
  exact (List.append_cancel_right hcut.1).symm

theorem mem_newProperty_hits (line : List Char) (hit : Hit (List Char × List Char)) :
    hit ∈ (newProperty isWordChar isPathChar).hits line ↔ Constructs line hit := by
  have hmarked (g : Hit (List Char × List Char)) (hg : Constructs line g) : g.Marked '(' line := by
    obtain ⟨front, text, tail, hline, htext, -, hstart, hstop⟩ := hg
    exact Occurs.marked (L := fun bound text => IsConstruction bound.1 bound.2 text)
      (fun _ _ h => h.exists_body) ⟨front, text, tail, hline, htext, hstart, hstop⟩
  rw [mem_hits_of_marked (readsAt_newProperty line) hmarked]
  refine and_iff_left_of_imp ?_
  rintro ⟨front, text, tail, rfl, htext, -, hstart, hstop⟩ g
    ⟨front', text', tail', hline, htext', -, hstart', hstop'⟩ hlt heq
  have hfront := htext.front_unique htext' (append_eq_of_same_end hline (by omega))
  rw [hfront] at hstart
  omega

/-- `name = source;`, with blanks where they may stand. -/
def IsAssignment (name source text : List Char) : Prop :=
  (∀ c ∈ name, isWordChar c = true) ∧
  ∃ gap₁ gap₂ gap₃, (∀ c ∈ gap₁ ++ (gap₂ ++ gap₃), isBlank c = true) ∧
    text = name ++ (gap₁ ++ '=' :: (gap₂ ++ (source ++ (gap₃ ++ [';']))))

end BindingLine

namespace Bindings
open BindingLine

/-! ## Bindings by name -/

theorem get_insert (types : Bindings) (name type other : String) :
    (types.insert name type).get? other = if other = name then some type else types.get? other := by
  rw [get?, insert, List.lookup_cons]
  split
  · next heq => rw [if_pos (beq_iff_eq.mp heq)]
  · next hne =>
    have hne : other ≠ name := fun heq => by simp [heq] at hne
    rw [if_neg hne, lookup_filter_other hne, get?]

/-- The name of a property on the instance. -/
def ownName (name : List Char) : String :=
  String.ofList (instancePrefix ++ name)

theorem ownName_inj (name other : List Char) : ownName name = ownName other ↔ name = other := by
  rw [ownName, ownName, String.ofList_inj, List.append_cancel_left_eq]

theorem ownName_ne_bare (name : List Char) {bare : List Char}
    (hbare : ∀ c ∈ bare, isWordChar c = true) : ownName name ≠ String.ofList bare := by
  rw [ownName, Ne, String.ofList_inj]
  intro heq
  have hdot : '.' ∈ bare := heq ▸ List.mem_append_left name (by decide)
  exact absurd (hbare '.' hdot) (by decide +kernel)

section Observe

variable (name line : List Char) (types : Bindings)

theorem own_insert_bare {bare : List Char} (hbare : ∀ c ∈ bare, isWordChar c = true)
    (type : String) :
    (types.insert (String.ofList bare) type).get? (ownName name) = types.get? (ownName name) := by
  rw [get_insert, if_neg (ownName_ne_bare name hbare)]

theorem own_bindNewVariables : (bindNewVariables line types).get? (ownName name) =
    types.get? (ownName name) := by
  refine List.foldlRecOn
    (motive := fun later : Bindings => later.get? (ownName name) = types.get? (ownName name))
    _ _ rfl (fun later hlater hit hhit => ?_)
  rw [insertText, own_insert_bare name later ((newVariable_yields _ _).value_of_mem hhit).1, hlater]

theorem own_bindAlias : (bindAlias line types).get? (ownName name) = types.get? (ownName name) := by
  rw [bindAlias]
  split
  · rfl
  · next hit hhit =>
    split
    · exact own_insert_bare name types ((aliased_yields _ _).value_of_mem (List.mem_of_head? hhit)) _
    · rfl

theorem own_bindParams : (bindParams line types).get? (ownName name) = types.get? (ownName name) := by
  rw [bindParams]
  split
  · rfl
  · refine List.foldlRecOn
      (motive := fun later : Bindings => later.get? (ownName name) = types.get? (ownName name))
      _ _ rfl (fun later hlater param _ => ?_)
    split
    · next typed htyped =>
      have hword := (typedParam_yields.value_of_mem (List.mem_of_head? htyped)).1
      rw [insertText, own_insert_bare name later hword, hlater]
    · exact hlater

/-- The last construction of the property on the line. -/
def lastConstruction? : Option (Hit (List Char × List Char)) :=
  ((newProperty isWordChar isPathChar).hits line).reverse.find? (·.value.1 == name)

theorem own_insertBoth {bare : List Char} (hbare : ∀ c ∈ bare, isWordChar c = true)
    (type : List Char) :
    ((types.insertText bare type).insertText (instancePrefix ++ bare) type).get? (ownName name) =
      if bare = name then some (String.ofList type) else types.get? (ownName name) := by
  rw [insertText, insertText, get_insert, own_insert_bare name types hbare]
  show (if ownName name = ownName bare then _ else _) = _
  by_cases heq : bare = name
  · rw [if_pos heq, if_pos (congrArg ownName heq.symm)]
  · rw [if_neg heq, if_neg (fun h => heq ((ownName_inj name bare).mp h).symm)]

theorem own_bindNewProperties : (bindNewProperties line types).get? (ownName name) =
    match lastConstruction? name line with
    | some hit => some (String.ofList hit.value.2)
    | none => types.get? (ownName name) := by
  have hword : ∀ hit ∈ (newProperty isWordChar isPathChar).hits line,
      ∀ c ∈ hit.value.1, isWordChar c = true :=
    fun hit hhit => ((newProperty_yields _ _).value_of_mem hhit).1
  rw [bindNewProperties, lastConstruction?]
  generalize (newProperty isWordChar isPathChar).hits line = hits at hword
  induction hits generalizing types with
  | nil => rfl
  | cons hit hits ih =>
    obtain ⟨hhit, hlater⟩ := List.forall_mem_cons.mp hword
    rw [List.foldl_cons, ih _ hlater, List.reverse_cons, List.find?_append]
    cases hits.reverse.find? (·.value.1 == name) with
    | some later => rfl
    | none =>
      rw [own_insertBoth name types hhit, List.find?_singleton, Option.none_or]
      by_cases heq : hit.value.1 = name
      · rw [if_pos heq, if_pos (beq_iff_eq.mpr heq)]
      · rw [if_neg heq, if_neg (fun h => heq (beq_iff_eq.mp h))]

theorem own_observe : (observe types line).get? (ownName name) =
    match lastConstruction? name line with
    | some hit => some (String.ofList hit.value.2)
    | none => types.get? (ownName name) := by
  rw [observe, own_bindParams, own_bindAlias, own_bindNewProperties, own_bindNewVariables]

end Observe

/-! ## Constructions in a document -/

theorem lastConstruction_eq_some_iff (name line : List Char) (hit : Hit (List Char × List Char)) :
    lastConstruction? name line = some hit ↔ Constructs line hit ∧ hit.value.1 = name ∧
      ∀ g, Constructs line g → g.value.1 = name → g.start ≤ hit.start := by
  have hasc := hits_ascending (newProperty isWordChar isPathChar) line
  simp only [lastConstruction?, List.find?_eq_some_iff_append, ← mem_newProperty_hits, beq_iff_eq,
    List.reverse_eq_iff, List.reverse_append, List.reverse_cons, List.append_assoc,
    List.singleton_append, Bool.not_eq_true', beq_eq_false_iff_ne]
  generalize (newProperty isWordChar isPathChar).hits line = hits at hasc
  constructor
  · rintro ⟨hname, later, earlier, rfl, hlater⟩
    obtain ⟨-, -, hbefore⟩ := List.pairwise_append.mp hasc
    refine ⟨List.mem_append_right _ List.mem_cons_self, hname, fun g hg hgname => ?_⟩
    rcases List.mem_append.mp hg with hg | hg
    · exact Nat.le_of_lt (hbefore g hg hit List.mem_cons_self)
    · rcases List.mem_cons.mp hg with rfl | hg
      · exact Nat.le_refl _
      · exact absurd hgname (hlater g (List.mem_reverse.mp hg))
  · rintro ⟨hmem, hname, hlast⟩
    obtain ⟨earlier, later, rfl⟩ := List.append_of_mem hmem
    obtain ⟨-, hbehind, -⟩ := List.pairwise_append.mp hasc
    refine ⟨hname, later.reverse, earlier.reverse, by simp, fun g hg hgname => ?_⟩
    have hg := List.mem_reverse.mp hg
    have hle := hlast g (List.mem_append_right _ (List.mem_cons_of_mem hit hg)) hgname
    have hlt := List.rel_of_pairwise_cons hbehind hg
    omega

theorem lastConstruction_eq_none_iff (name line : List Char) :
    lastConstruction? name line = none ↔ ∀ g, Constructs line g → g.value.1 ≠ name := by
  simp only [lastConstruction?, List.find?_eq_none, List.mem_reverse, mem_newProperty_hits, beq_iff_eq]

/-- How lines assign a property: with this type, and from this place on, where the lines above bind
the variables like this. -/
abbrev Assignments := Bindings → List Char → String → Nat → Prop

/-- The last assignment of the lines stands on `line`, at `start`, and gives the type. -/
structure LastAt (assigns : Assignments) (lines above : List (List Char)) (line : List Char)
    (below : List (List Char)) (type : String) (start : Nat) : Prop where
  lines_eq : lines = above ++ line :: below
  assigned : assigns (above.foldl observe []) line type start
  last_on_line : ∀ other later, assigns (above.foldl observe []) line other later → later ≤ start
  none_below : ∀ mid next rest, below = mid ++ next :: rest → ∀ other later,
    ¬ assigns ((above ++ line :: mid).foldl observe []) next other later

/-- The last assignment of the lines gives the type. -/
def LastGives (assigns : Assignments) (lines : List (List Char)) (type : String) : Prop :=
  ∃ above line below start, LastAt assigns lines above line below type start

theorem lastGives_concat (assigns : Assignments) (lines : List (List Char)) (line : List Char)
    (type : String) :
    LastGives assigns (lines ++ [line]) type ↔
      (∃ start, assigns (lines.foldl observe []) line type start ∧
        ∀ other later, assigns (lines.foldl observe []) line other later → later ≤ start) ∨
      (∀ other later, ¬ assigns (lines.foldl observe []) line other later) ∧
        LastGives assigns lines type := by
  constructor
  · rintro ⟨above, last, below, start, hlines, hassigned, hlast, hnone⟩
    rcases List.eq_nil_or_concat below with rfl | ⟨below, next, rfl⟩
    · obtain ⟨rfl, hline⟩ := List.append_inj' hlines rfl
      obtain rfl := List.singleton_inj.mp hline
      exact Or.inl ⟨start, hassigned, hlast⟩
    · rw [List.concat_eq_append] at hlines hnone
      rw [← List.cons_append, ← List.append_assoc] at hlines
      obtain ⟨rfl, hline⟩ := List.append_inj' hlines rfl
      obtain rfl := List.singleton_inj.mp hline
      exact Or.inr ⟨hnone below line [] rfl, above, last, below, start, rfl, hassigned, hlast,
        fun mid next rest hbelow => hnone mid next (rest ++ [line]) (by rw [hbelow]; simp)⟩
  · rintro (⟨start, hassigned, hlast⟩ | ⟨hnot, above, last, below, start, rfl, hassigned, hlast, hnone⟩)
    · exact ⟨lines, line, [], start, rfl, hassigned, hlast, fun mid next rest h => by simp at h⟩
    · refine ⟨above, last, below ++ [line], start, by simp, hassigned, hlast, fun mid next rest h => ?_⟩
      rcases List.eq_nil_or_concat rest with rfl | ⟨rest, final, rfl⟩
      · obtain ⟨rfl, hline⟩ := List.append_inj' h rfl
        obtain rfl := List.singleton_inj.mp hline
        exact hnot
      · rw [List.concat_eq_append, ← List.cons_append, ← List.append_assoc] at h
        exact hnone mid next rest (List.append_inj' h rfl).1

/-- The constructions of a property, whatever the variables are. -/
def constructions (name : List Char) : Assignments :=
  fun _ line type start => ConstructedAt line name type.toList start

theorem constructions_iff (name : List Char) (types : Bindings) (line : List Char) (type : String)
    (start : Nat) :
    constructions name types line type start ↔
      ∃ g, Constructs line g ∧ g.value.1 = name ∧ String.ofList g.value.2 = type ∧ g.start = start := by
  constructor
  · rintro ⟨front, text, tail, hline, htext, hfront, hstart⟩
    exact ⟨⟨start, _, (name, type.toList)⟩, ⟨front, text, tail, hline, htext, hfront, hstart.symm, rfl⟩,
      rfl, String.ofList_toList, rfl⟩
  · rintro ⟨g, ⟨front, text, tail, hline, htext, hfront, hstart, -⟩, rfl, rfl, rfl⟩
    rw [constructions, ConstructedAt, String.toList_ofList]
    exact ⟨front, text, tail, hline, htext, hfront, hstart.symm⟩

theorem own_foldl_observe (name : List Char) (lines : List (List Char)) (type : String) :
    (lines.foldl observe []).get? (ownName name) = some type ↔
      LastGives (constructions name) lines type := by
  induction lines using List.reverseRecOn with
  | nil =>
    refine iff_of_false nofun ?_
    rintro ⟨above, line, below, start, hlines, -⟩
    simp at hlines
  | append_singleton lines line ih =>
    rw [List.foldl_append, List.foldl_cons, List.foldl_nil, own_observe, lastGives_concat, ← ih]
    simp only [constructions_iff]
    cases hlast : lastConstruction? name line with
    | none =>
      have hnone := (lastConstruction_eq_none_iff name line).mp hlast
      refine ⟨fun hget => Or.inr ⟨?_, hget⟩, ?_⟩
      · rintro other later ⟨g, hg, hname, -⟩
        exact hnone g hg hname
      · rintro (⟨start, ⟨g, hg, hname, -⟩, -⟩ | ⟨-, hget⟩)
        · exact absurd hname (hnone g hg)
        · exact hget
    | some hit =>
      obtain ⟨hhit, hname, hlatest⟩ := (lastConstruction_eq_some_iff name line hit).mp hlast
      constructor
      · intro htype
        refine Or.inl ⟨hit.start, ⟨hit, hhit, hname, Option.some.inj htype, rfl⟩, ?_⟩
        rintro other later ⟨g, hg, hgname, -, rfl⟩
        exact hlatest g hg hgname
      · rintro (⟨start, ⟨g, hg, hgname, rfl, rfl⟩, hmax⟩ | ⟨hnone, -⟩)
        · have hother := (lastConstruction_eq_some_iff name line g).mpr ⟨hg, hgname,
            fun g' hg' hname' => hmax _ _ ⟨g', hg', hname', rfl, rfl⟩⟩
          rw [hlast, Option.some.injEq] at hother
          rw [hother]
        · exact absurd ⟨hit, hhit, hname, rfl, rfl⟩ (hnone _ _)

/-! ## The last assignment -/

/-- The assignments from a variable: the first on the line that binds a name from another, written
on the instance, where the type of the source is known. -/
def copies (name : List Char) : Assignments := fun types line type start =>
  ∃ front text tail source, line = front ++ ("this.".toList ++ (text ++ tail)) ∧
    IsAssignment name source text ∧ (∀ c, front.getLast? = some c → isWordChar c = false) ∧
    front.length = start ∧
    (aliased isWordChar isPathChar).first? line =
      some ⟨start + 5, start + 5 + text.length, (name, source)⟩ ∧
    (bindNewProperties line (bindNewVariables line types)).sourceType? source = some type

/-- All assignments of a property. -/
def assignments (name : List Char) : Assignments := fun types line type start =>
  constructions name types line type start ∨ copies name types line type start

theorem name_word_of_assignment {name line : List Char} {types : Bindings} {type : String}
    {start : Nat} (h : assignments name types line type start) : ∀ c ∈ name, isWordChar c = true := by
  rcases h with ⟨_, _, _, -, htext, -⟩ | ⟨_, _, _, _, -, htext, -⟩
  · exact htext.name_word
  · exact htext.1

theorem LastAt.lastGives {name line : List Char} {lines above below : List (List Char)}
    {type : String} {start : Nat} (h : LastAt (assignments name) lines above line below type start)
    (hconstruction : constructions name (above.foldl observe []) line type start) :
    LastGives (constructions name) lines type :=
  ⟨above, line, below, start, h.lines_eq, hconstruction,
    fun other later hother => h.last_on_line other later (Or.inl hother),
    fun mid next rest hbelow other later hother =>
      h.none_below mid next rest hbelow other later (Or.inl hother)⟩

/-- A property has the type of its last construction. That is the type of its last assignment if this
is a construction, and otherwise only where the two agree; before a dot a property that nothing
constructs stands for the symbols that start with its name. -/
theorem last_assignment_wins_iff {doc : Document} {name line : List Char}
    {above below : List (List Char)} {type : String} {start : Nat}
    (h : LastAt (assignments name) doc.lines above line below type start) :
    (constructions name (above.foldl observe []) line type start →
      LastGives (constructions name) doc.lines type) ∧
    ((ofDocument doc).get? (ownName name) = some type ↔
      LastGives (constructions name) doc.lines type) ∧
    ∀ pos front, doc.before pos = front ++ (instancePrefix ++ name) ++ ['.'] →
      (∀ c, front.getLast? = some c → isPathChar c = false) → ∀ table,
      (doc.objectType pos table (ofDocument doc) = type ↔
        LastGives (constructions name) doc.lines type ∨
        (∀ other, ¬ LastGives (constructions name) doc.lines other) ∧
          type = if (table.firstStartingWith? (instancePrefix ++ name)).isSome then ownName name
            else "") := by
  have hget (type : String) : (ofDocument doc).get? (ownName name) = some type ↔
      LastGives (constructions name) doc.lines type := own_foldl_observe name doc.lines type
  refine ⟨h.lastGives, hget type, fun pos front hbefore hfront table => ?_⟩
  have hpath : ∀ c ∈ instancePrefix ++ name, isPathChar c = true :=
    List.forall_mem_append.mpr ⟨List.all_eq_true.mp (by decide +kernel),
      fun c hc => isPathChar_of_isWordChar (name_word_of_assignment h.assigned c hc)⟩
  rw [Document.objectType, hbefore, receiverPath_of_cut (by simp [instancePrefix]) hpath hfront]
  simp only [← hget, Table.symbolPath_eq]
  rw [show String.ofList (instancePrefix ++ name) = ownName name from rfl]
  cases (ofDocument doc).get? (ownName name) with
  | some other =>
    exact ⟨fun htype => Or.inl (congrArg some htype),
      fun h => h.elim Option.some.inj fun hnone => absurd rfl (hnone.1 other)⟩
  | none =>
    exact ⟨fun htype => Or.inr ⟨fun other => (Option.some_ne_none other).symm, htype.symm⟩,
      fun h => h.elim (fun hsome => absurd hsome.symm (Option.some_ne_none type)) fun h => h.2.symm⟩

/-- No line of these assigns a property, under whatever name. -/
def Quiet (lines : List (List Char)) : Prop :=
  ∀ line ∈ lines, (newProperty isWordChar isPathChar).occurs line = false ∧
    (aliased isWordChar isPathChar).occurs line = false

theorem Quiet.not_assigned {below mid rest : List (List Char)} {next : List Char} (h : Quiet below)
    (hbelow : below = mid ++ next :: rest) (name : List Char) (types : Bindings) (type : String)
    (start : Nat) : ¬ assignments name types next type start := by
  obtain ⟨hconstructions, hcopies⟩ := h next (hbelow ▸ List.mem_append_right mid List.mem_cons_self)
  rintro (h | ⟨_, _, _, _, -, -, -, -, hfirst, -⟩)
  · obtain ⟨g, hg, -⟩ := (constructions_iff _ _ _ _ _).mp h
    rw [occurs, first?, Option.isSome_eq_false_iff, Option.isNone_iff_eq_none,
      List.head?_eq_none_iff] at hconstructions
    rw [← mem_newProperty_hits, hconstructions] at hg
    cases hg
  · rw [occurs, hfirst] at hcopies
    cases hcopies

theorem start_le_of_assignment {name line : List Char} {bound : Nat}
    (hconstructions :
      ((newProperty isWordChar isPathChar).hits line).all (·.start ≤ bound) = true)
    (hcopies : ((aliased isWordChar isPathChar).first? line).all (·.start ≤ bound + 5) = true)
    (types : Bindings) (type : String) (start : Nat)
    (h : assignments name types line type start) : start ≤ bound := by
  rcases h with h | ⟨_, _, _, _, -, -, -, -, hfirst, -⟩
  · obtain ⟨g, hg, -, -, rfl⟩ := (constructions_iff _ _ _ _ _).mp h
    exact of_decide_eq_true
      (List.all_eq_true.mp hconstructions g ((mem_newProperty_hits line g).mpr hg))
  · rw [hfirst, Option.all_some, decide_eq_true_eq] at hcopies
    exact Nat.le_of_add_le_add_right hcopies

theorem construction_of_any {name line : List Char} {type : String} {start : Nat}
    (h : ((newProperty isWordChar isPathChar).hits line).any (fun hit => hit.value.1 == name &&
      String.ofList hit.value.2 == type && hit.start == start) = true) (types : Bindings) :
    constructions name types line type start := by
  obtain ⟨hit, hmem, hhit⟩ := List.any_eq_true.mp h
  simp only [Bool.and_eq_true, beq_iff_eq] at hhit
  exact (constructions_iff _ _ _ _ _).mpr
    ⟨hit, (mem_newProperty_hits line hit).mp hmem, hhit.1.1, hhit.1.2, hhit.2⟩

/-! ## A property that is assigned twice -/

/-- A document that assigns from a variable and then a new object. -/
def renewedDocument : Document :=
  ⟨"a.js", ["let y = new B();".toList, "this.p = y;".toList, "  this.p = new A (1);".toList,
    "this.p.".toList]⟩

theorem quiet_of_use : Quiet ["this.p.".toList] := by
  show ∀ line ∈ _, _
  decide +kernel

theorem last_assignment_wins_of_renewed :
    LastAt (assignments ['p']) renewedDocument.lines
      ["let y = new B();".toList, "this.p = y;".toList] "  this.p = new A (1);".toList
      ["this.p.".toList] "A" 2 ∧
    (ofDocument renewedDocument).get? "this.p" = some "A" ∧
    renewedDocument.objectType ⟨3, 7⟩ [] (ofDocument renewedDocument) = "A" := by
  have hconstruction (types : Bindings) :
      constructions ['p'] types "  this.p = new A (1);".toList "A" 2 :=
    construction_of_any (by decide +kernel) types
  have hlast : LastAt (assignments ['p']) renewedDocument.lines
      ["let y = new B();".toList, "this.p = y;".toList] "  this.p = new A (1);".toList
      ["this.p.".toList] "A" 2 :=
    ⟨rfl, Or.inl (hconstruction _),
      start_le_of_assignment (by decide +kernel) (by decide +kernel) _,
      fun _ _ _ hbelow => quiet_of_use.not_assigned hbelow ['p'] _⟩
  obtain ⟨hgives, hget, hbefore⟩ := last_assignment_wins_iff hlast
  have hgives := hgives (hconstruction _)
  exact ⟨hlast, hget.mpr hgives,
    (hbefore ⟨3, 7⟩ [] (by decide +kernel) nofun []).mpr (Or.inl hgives)⟩

/-- A document that assigns a new object and then from a variable of another type. -/
def reassignedDocument : Document :=
  ⟨"a.js", ["this.p = new A();".toList, "let y = new B();".toList, "this.p = y;".toList,
    "this.p.".toList]⟩

/-- The assignment from the variable leaves the property with the type of the object before. -/
theorem reassigned_property_keeps_type :
    LastAt (assignments ['p']) reassignedDocument.lines
      ["this.p = new A();".toList, "let y = new B();".toList] "this.p = y;".toList
      ["this.p.".toList] "B" 0 ∧
    (ofDocument reassignedDocument).get? "this.p" = some "A" ∧
    reassignedDocument.objectType ⟨3, 7⟩ [] (ofDocument reassignedDocument) = "A" := by
  have hcopy : copies ['p']
      (["this.p = new A();".toList, "let y = new B();".toList].foldl observe [])
      "this.p = y;".toList "B" 0 := by
    have hfirst : ((aliased isWordChar isPathChar).first? "this.p = y;".toList).map
        (fun hit => (hit.start, hit.stop, hit.value)) = some (5, 11, ['p'], ['y']) := by
      decide +kernel
    obtain ⟨⟨start, stop, value⟩, hhit, heq⟩ := Option.map_eq_some_iff.mp hfirst
    obtain ⟨rfl, rfl, rfl⟩ := heq
    have htext : IsAssignment ['p'] ['y'] "p = y;".toList :=
      ⟨List.all_eq_true.mp (by decide +kernel), [' '], [' '], [],
        List.all_eq_true.mp (by decide +kernel), rfl⟩
    exact ⟨[], "p = y;".toList, [], ['y'], rfl, htext, nofun, rfl, hhit, by decide +kernel⟩
  exact ⟨⟨rfl, Or.inr hcopy, start_le_of_assignment (by decide +kernel) (by decide +kernel) _,
    fun _ _ _ hbelow => quiet_of_use.not_assigned hbelow ['p'] _⟩, by decide +kernel, by decide +kernel⟩

end Bindings

end CodeNav
