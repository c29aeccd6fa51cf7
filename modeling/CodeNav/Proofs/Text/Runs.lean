import CodeNav.Proofs.Text.Hits

/-! Runs of a class of characters that go as far as the class does: a word in front of something of
another class, blanks in front of a mark, and the classes that leave each other out. -/
namespace CodeNav
set_option autoImplicit false
open Text Text.Scan

/-! ## Words and what stands around them -/

theorem Text.takeWhile_append_of_stop {p : Char → Bool} {word rest : List Char}
    (hword : ∀ c ∈ word, p c = true) (hrest : ∀ c, rest.head? = some c → p c = false) :
    (word ++ rest).takeWhile p = word := by
  rw [List.takeWhile_append_of_pos hword]
  cases rest with
  | nil => rw [List.takeWhile_nil, List.append_nil]
  | cons c rest =>
    rw [List.takeWhile_cons_of_neg (Bool.eq_false_iff.mp (hrest c rfl)), List.append_nil]

theorem Text.dropWhile_append_of_stop {p : Char → Bool} {word rest : List Char}
    (hword : ∀ c ∈ word, p c = true) (hrest : ∀ c, rest.head? = some c → p c = false) :
    (word ++ rest).dropWhile p = rest := by
  rw [List.dropWhile_append_of_pos hword]
  cases rest with
  | nil => rfl
  | cons c rest => exact List.dropWhile_cons_of_neg (Bool.eq_false_iff.mp (hrest c rfl))

theorem Text.takeWhile_reverse_append {p : Char → Bool} {front word : List Char}
    (hword : ∀ c ∈ word, p c = true) (hfront : ∀ c, front.getLast? = some c → p c = false) :
    (front ++ word).reverse.takeWhile p = word.reverse := by
  rw [List.reverse_append]
  refine takeWhile_append_of_stop (fun c hc => hword c (List.mem_reverse.mp hc)) (fun c hc => ?_)
  rw [List.head?_reverse] at hc
  exact hfront c hc

theorem Text.trimEnd_append_of_stop {p : Char → Bool} {body gap : List Char}
    (hgap : ∀ c ∈ gap, p c = true) (hbody : ∀ c, body.getLast? = some c → p c = false) :
    trimEnd p (body ++ gap) = body := by
  rw [trimEnd, List.reverse_append, dropWhile_append_of_stop
    (fun c hc => hgap c (List.mem_reverse.mp hc)) (fun c hc => hbody c (List.head?_reverse ▸ hc)),
    List.reverse_reverse]

theorem Text.append_eq_of_same_end {front text tail front' text' tail' : List Char}
    (hline : front ++ (text ++ tail) = front' ++ (text' ++ tail'))
    (hend : front.length + text.length = front'.length + text'.length) :
    front ++ text = front' ++ text' := by
  rw [← List.append_assoc, ← List.append_assoc] at hline
  exact List.append_inj_left hline (by rw [List.length_append, List.length_append, hend])

/-! ## Classes of characters -/

theorem Text.not_mem_of_class {p : Char → Bool} {cs : List Char} (hcs : ∀ c ∈ cs, p c = true) {c : Char}
    (hc : p c = false) : c ∉ cs := by
  intro hmem
  rw [hcs c hmem] at hc
  exact Bool.noConfusion hc

theorem Text.isPathChar_of_isWordChar {c : Char} (h : isWordChar c = true) :
    isPathChar c = true := by
  rw [isPathChar, h, Bool.true_or]

/-- A class of characters that leaves out the blanks of each table leaves out every blank. -/
theorem Text.not_isBlank_of_class {p : Char → Bool}
    (hascii : ∀ code < 128, p (Char.ofNat code) = true → isBlank (Char.ofNat code) = false)
    (hwide : ∀ r ∈ blankRanges, ∀ k < r.2 + 1 - r.1, p (Char.ofNat (r.1 + k)) = false)
    {c : Char} (hclass : p c = true) : isBlank c = false := by
  by_cases hlow : c.toNat < 128
  · have hc := hascii c.toNat hlow
    rw [Char.ofNat_toNat] at hc
    exact hc hclass
  · rw [isBlank, if_neg hlow, Bool.eq_false_iff, inRanges]
    intro hblank
    obtain ⟨r, hr, hin⟩ := List.any_eq_true.mp hblank
    simp only [Bool.and_eq_true, decide_eq_true_eq] at hin
    have hc := hwide r hr (c.toNat - r.1) (by omega)
    rw [Nat.add_sub_cancel' hin.1, Char.ofNat_toNat, hclass] at hc
    exact Bool.noConfusion hc

theorem Text.not_isBlank_of_isIdentChar (c : Char) (hident : isIdentChar c = true) :
    isBlank c = false :=
  not_isBlank_of_class (by decide +kernel) (by decide +kernel) hident

theorem Text.not_isBlank_of_isPathChar (c : Char) (hpath : isPathChar c = true) :
    isBlank c = false :=
  not_isBlank_of_class (by decide +kernel) (by decide +kernel) hpath

/-! ## Runs that go as far as they can -/

namespace Text.Scan

/-- No character of the class follows. -/
def Stops (p : Char → Bool) (here : Place) : Prop :=
  ∀ c, here.after.head? = some c → p c = false

theorem mem_run_iff (p : Char → Bool) (here next : Place) (taken : List Char) :
    (taken, next) ∈ run p here ↔
      (∀ c ∈ taken, p c = true) ∧ Passes here taken next ∧ Stops p next := by
  rw [mem_run]
  constructor
  · rintro ⟨htaken, hpasses⟩
    simp only at htaken hpasses
    refine ⟨fun c hc => List.all_eq_true.mp List.all_takeWhile c (htaken ▸ hc), hpasses, ?_⟩
    intro c hc
    have hdrop : here.after.dropWhile p = next.after := by
      have hcut := @List.takeWhile_append_dropWhile _ p here.after
      rw [← htaken] at hcut
      exact List.append_cancel_left (hcut.trans hpasses.after)
    have hnot := List.head?_dropWhile_not p here.after
    rw [hdrop, hc] at hnot
    exact hnot
  · rintro ⟨hclass, hpasses, hstop⟩
    refine ⟨?_, hpasses⟩
    rw [hpasses.after, takeWhile_append_of_stop hclass hstop]

theorem mem_blanks_iff (here next : Place) :
    ((), next) ∈ blanks here ↔
      ∃ gap, (∀ c ∈ gap, isBlank c = true) ∧ Passes here gap next ∧ Stops isBlank next := by
  rw [blanks, skip, mem_bind]
  constructor
  · rintro ⟨⟨gap, mid⟩, hrun, hnext⟩
    obtain rfl := congrArg Prod.snd ((mem_pure () mid ((), next)).mp hnext)
    exact ⟨gap, (mem_run_iff isBlank here next gap).mp hrun⟩
  · rintro ⟨gap, hgap⟩
    exact ⟨(gap, next), (mem_run_iff isBlank here next gap).mpr hgap, (mem_pure () next _).mpr rfl⟩

theorem mem_run1_iff (p : Char → Bool) (here next : Place) (taken : List Char) :
    (taken, next) ∈ run1 p here ↔
      taken ≠ [] ∧ (∀ c ∈ taken, p c = true) ∧ Passes here taken next ∧ Stops p next := by
  rw [mem_run1, mem_run_iff]

theorem mem_blanks1_iff (here next : Place) :
    ((), next) ∈ blanks1 here ↔
      ∃ gap, gap ≠ [] ∧ (∀ c ∈ gap, isBlank c = true) ∧ Passes here gap next ∧
        Stops isBlank next := by
  rw [blanks1, skip1, mem_bind]
  constructor
  · rintro ⟨⟨gap, mid⟩, hrun, hnext⟩
    obtain rfl := congrArg Prod.snd ((mem_pure () mid ((), next)).mp hnext)
    exact ⟨gap, (mem_run1_iff isBlank here next gap).mp hrun⟩
  · rintro ⟨gap, hgap⟩
    exact ⟨(gap, next), (mem_run1_iff isBlank here next gap).mpr hgap, (mem_pure () next _).mpr rfl⟩

theorem mem_wordEdge (here : Place) (reading : Unit × Place) :
    reading ∈ wordEdge here ↔ reading = ((), here) ∧
      here.before.head?.any isWordChar ≠ here.after.head?.any isWordChar := by
  rw [wordEdge]
  split
  · next hedge => rw [List.mem_singleton, and_iff_left (bne_iff_ne.mp hedge)]
  · next hedge => exact iff_of_false List.not_mem_nil (fun h => hedge (bne_iff_ne.mpr h.2))

theorem mem_rest (here next : Place) (taken : List Char) :
    (taken, next) ∈ rest here ↔ Passes here taken next ∧ next.after = [] := by
  rw [rest, mem_run_iff]
  constructor
  · rintro ⟨-, hpasses, hstop⟩
    refine ⟨hpasses, ?_⟩
    cases hnext : next.after with
    | nil => rfl
    | cons c _ => cases hstop c (by rw [hnext]; rfl)
  · rintro ⟨hpasses, hend⟩
    refine ⟨fun _ _ => rfl, hpasses, fun c hc => ?_⟩
    rw [hend] at hc
    cases hc

theorem Passes.stops_of_cons {p : Char → Bool} {here next : Place} {c : Char} {text : List Char}
    (h : Passes here (c :: text) next) (hc : p c = false) : Stops p here := by
  intro first hfirst
  rw [h.after] at hfirst
  exact Option.some.inj hfirst ▸ hc

/-- Behind a gap comes a mark, and neither belongs to a path. -/
theorem head_of_gap {gap rest : List Char} {mark : Char} (hgap : ∀ c ∈ gap, isBlank c = true)
    (hmark : isPathChar mark = false) {c : Char} (hc : (gap ++ mark :: rest).head? = some c) :
    isPathChar c = false := by
  cases gap with
  | nil => exact Option.some.inj hc ▸ hmark
  | cons blank gap =>
    obtain rfl : blank = c := Option.some.inj hc
    refine Bool.eq_false_iff.mpr fun hpath => ?_
    have hnot := not_isBlank_of_isPathChar blank hpath
    rw [hgap blank List.mem_cons_self] at hnot
    cases hnot

theorem Passes.stops_of_gap {here next : Place} {gap rest : List Char} {mark : Char}
    (h : Passes here (gap ++ mark :: rest) next) (hgap : ∀ c ∈ gap, isBlank c = true)
    (hmark : isPathChar mark = false) : Stops isPathChar here := by
  intro c hc
  rw [h.after, List.append_assoc, List.cons_append] at hc
  exact head_of_gap hgap hmark hc

theorem Stops.word_of_path {here : Place} (h : Stops isPathChar here) : Stops isWordChar here := by
  intro c hc
  refine Bool.eq_false_iff.mpr fun hword => ?_
  have hnot := h c hc
  rw [isPathChar_of_isWordChar hword] at hnot
  cases hnot

end Text.Scan

end CodeNav
