import CodeNav.Text.Scan

/-! All hits of a scanner on a line. A search goes through the readings of the line from left to
right and keeps each one that does not start inside the last one kept. Where every text that is read
holds one mark, at its end, readings that overlap end at the same mark; then the hits are the
readings that no earlier one ends together with. -/
namespace CodeNav.Text.Scan
set_option autoImplicit false

variable {α β : Type}

/-! ## Readings of the parts -/

/-- From one place to the other the line reads `text`. -/
structure Passes (here : Place) (text : List Char) (next : Place) : Prop where
  after : here.after = text ++ next.after
  before : next.before = text.reverse ++ here.before

theorem passes_append (here next : Place) (text more : List Char) :
    Passes here (text ++ more) next ↔ ∃ mid, Passes here text mid ∧ Passes mid more next := by
  constructor
  · rintro ⟨hafter, hbefore⟩
    refine ⟨⟨text.reverse ++ here.before, more ++ next.after⟩, ⟨?_, rfl⟩, ⟨rfl, ?_⟩⟩
    · rw [hafter, List.append_assoc]
    · rw [hbefore, List.reverse_append, List.append_assoc]
  · rintro ⟨mid, hfirst, hsecond⟩
    refine ⟨?_, ?_⟩
    · rw [hfirst.after, hsecond.after, List.append_assoc]
    · rw [hsecond.before, hfirst.before, List.reverse_append, List.append_assoc]

theorem Passes.append {here mid next : Place} {text more : List Char} (h : Passes here text mid)
    (hmore : Passes mid more next) : Passes here (text ++ more) next :=
  (passes_append here next text more).mpr ⟨mid, h, hmore⟩

theorem mem_bind (s : Scan α) (f : α → Scan β) (here : Place) (reading : β × Place) :
    reading ∈ (s >>= f) here ↔ ∃ first ∈ s here, reading ∈ f first.1 first.2 :=
  List.mem_flatMap

theorem mem_pure (a : α) (here : Place) (reading : α × Place) :
    reading ∈ (pure a : Scan α) here ↔ reading = (a, here) :=
  List.mem_singleton

theorem mem_chars (word : List Char) (here : Place) (reading : Unit × Place) :
    reading ∈ chars word here ↔ Passes here word reading.2 := by
  obtain ⟨⟨⟩, before, after⟩ := reading
  rw [chars]
  split
  · next hword =>
    obtain ⟨rest, hrest⟩ := List.isPrefixOf_iff_prefix.mp hword
    rw [← hrest, List.take_left, List.drop_left, List.mem_singleton]
    constructor
    · rintro ⟨rfl, rfl⟩
      exact ⟨hrest.symm, rfl⟩
    · rintro ⟨hafter, hbefore⟩
      rw [← hrest] at hafter
      obtain rfl := List.append_cancel_left hafter
      simp only at hbefore
      rw [hbefore]
  · next hword =>
    rw [List.isPrefixOf_iff_prefix] at hword
    exact iff_of_false List.not_mem_nil (fun h => hword ⟨after, h.after.symm⟩)

theorem mem_run (p : Char → Bool) (here : Place) (reading : List Char × Place) :
    reading ∈ run p here ↔
      reading.1 = here.after.takeWhile p ∧ Passes here reading.1 reading.2 := by
  obtain ⟨taken, before, after⟩ := reading
  have hcut := @List.takeWhile_append_dropWhile _ p here.after
  rw [run, List.mem_singleton]
  constructor
  · rintro ⟨rfl, rfl, rfl⟩
    exact ⟨rfl, hcut.symm, rfl⟩
  · rintro ⟨rfl, hafter, hbefore⟩
    simp only at hafter hbefore
    rw [hbefore, List.append_cancel_left (hcut.trans hafter)]

theorem mem_run1 (p : Char → Bool) (here : Place) (reading : List Char × Place) :
    reading ∈ run1 p here ↔ reading.1 ≠ [] ∧ reading ∈ run p here := by
  rw [run1]
  split
  · next hnone =>
    refine iff_of_false List.not_mem_nil (fun h => h.1 ?_)
    rw [((mem_run p here reading).mp h.2).1]
    exact List.isEmpty_iff.mp hnone
  · next hsome =>
    refine ⟨fun h => ⟨?_, h⟩, fun h => h.2⟩
    rw [((mem_run p here reading).mp h).1]
    exact fun hnil => hsome (List.isEmpty_iff.mpr hnil)

theorem mem_blanks (here : Place) (reading : Unit × Place) :
    reading ∈ blanks here ↔ Passes here (here.after.takeWhile isBlank) reading.2 := by
  rw [blanks, skip, mem_bind]
  constructor
  · rintro ⟨⟨gap, next⟩, hrun, hreading⟩
    obtain ⟨rfl, hpasses⟩ := (mem_run isBlank here (gap, next)).mp hrun
    rw [(mem_pure () next reading).mp hreading]
    exact hpasses
  · intro hpasses
    exact ⟨(_, reading.2), (mem_run isBlank here _).mpr ⟨rfl, hpasses⟩,
      (mem_pure () reading.2 reading).mpr rfl⟩

/-! ## One reading at a place -/

/-- At most one reading at each place. -/
def Single (s : Scan α) : Prop :=
  ∀ here, (s here).length ≤ 1

theorem single_chars (word : List Char) : (chars word).Single := by
  intro here
  rw [chars]
  split <;> simp

theorem single_run (p : Char → Bool) : (run p).Single :=
  fun _ => Nat.le_refl 1

theorem single_run1 (p : Char → Bool) : (run1 p).Single := by
  intro here
  rw [run1]
  split
  · exact Nat.zero_le 1
  · exact single_run p here

theorem single_pure (a : α) : (pure a : Scan α).Single :=
  fun _ => Nat.le_refl 1

theorem Single.bind {s : Scan α} {f : α → Scan β} (hs : s.Single) (hf : ∀ a, (f a).Single) :
    (s >>= f).Single := by
  intro here
  have hlen := hs here
  show ((s here).flatMap fun reading => f reading.1 reading.2).length ≤ 1
  match s here, hlen with
  | [], _ => exact Nat.zero_le 1
  | [reading], _ => simpa using hf reading.1 reading.2

theorem single_blanks : blanks.Single :=
  (single_run isBlank).bind fun _ => single_pure ()

theorem Single.eq_singleton {s : Scan α} (hs : s.Single) {here : Place} {reading : α × Place}
    (hmem : reading ∈ s here) : s here = [reading] := by
  have hlen := hs here
  match s here, hlen, hmem with
  | [only], _, hmem => rw [List.mem_singleton.mp hmem]

/-! ## Readings of a line -/

/-- The preferred reading at each place from `pos` on where there is one, overlapping or not. -/
def readingsFrom (s : Scan α) (pos : Nat) (before : List Char) : List Char → List (Hit α)
  | [] =>
    match s ⟨before, []⟩ with
    | [] => []
    | (value, _) :: _ => [⟨pos, pos, value⟩]
  | c :: after =>
    match s ⟨before, c :: after⟩ with
    | [] => readingsFrom s (pos + 1) (c :: before) after
    | (value, next) :: _ =>
      ⟨pos, pos + (after.length + 1 - next.after.length), value⟩ ::
        readingsFrom s (pos + 1) (c :: before) after

/-- Keeps the hits that start neither before `resume` nor inside the last one kept. -/
def spaced (resume : Nat) : List (Hit α) → List (Hit α)
  | [] => []
  | hit :: hits => if hit.start < resume then spaced resume hits else hit :: spaced hit.stop hits

theorem hitsFrom_eq (s : Scan α) (resume pos : Nat) (before after : List Char) :
    hitsFrom s resume pos before after = spaced resume (readingsFrom s pos before after) := by
  induction after generalizing resume pos before with
  | nil =>
    rw [hitsFrom, readingsFrom]
    cases s ⟨before, []⟩ with
    | nil => exact ite_self []
    | cons reading _ => rfl
  | cons c after ih =>
    rw [hitsFrom, readingsFrom]
    cases s ⟨before, c :: after⟩ with
    | nil =>
      simp only [ih]
      exact ite_self _
    | cons reading _ =>
      simp only [ih]
      rfl

/-- The hit is the preferred reading behind some front part of `after`. -/
def ReadsAt (s : Scan α) (pos : Nat) (before after : List Char) (hit : Hit α) : Prop :=
  ∃ front rest next more, after = front ++ rest ∧
    s ⟨front.reverse ++ before, rest⟩ = (hit.value, next) :: more ∧
    hit.start = pos + front.length ∧ hit.stop = hit.start + (rest.length - next.after.length)

theorem readsAt_cons (s : Scan α) (pos : Nat) (before : List Char) (c : Char) (after : List Char)
    (hit : Hit α) :
    s.ReadsAt pos before (c :: after) hit ↔
      (∃ next more, s ⟨before, c :: after⟩ = (hit.value, next) :: more ∧
        hit = ⟨pos, pos + (after.length + 1 - next.after.length), hit.value⟩) ∨
      s.ReadsAt (pos + 1) (c :: before) after hit := by
  obtain ⟨start, stop, value⟩ := hit
  constructor
  · rintro ⟨front, rest, next, more, hcut, hread, hstart, hstop⟩
    cases front with
    | nil =>
      obtain rfl : c :: after = rest := hcut
      simp only [List.length_nil, Nat.add_zero, List.length_cons] at hstart hstop
      subst hstart hstop
      exact Or.inl ⟨next, more, hread, rfl⟩
    | cons c' front =>
      obtain ⟨rfl, hafter⟩ := List.cons.inj hcut
      simp only [List.reverse_cons, List.append_assoc, List.singleton_append] at hread
      simp only [List.length_cons] at hstart
      exact Or.inr ⟨front, rest, next, more, hafter, hread, by simp only; omega, hstop⟩
  · rintro (⟨next, more, hread, hhit⟩ | ⟨front, rest, next, more, hcut, hread, hstart, hstop⟩)
    · simp only [Hit.mk.injEq, and_true] at hhit
      exact ⟨[], c :: after, next, more, rfl, hread, hhit.1, hhit.1 ▸ hhit.2⟩
    · refine ⟨c :: front, rest, next, more, by rw [hcut]; rfl, ?_, ?_, hstop⟩
      · simpa only [List.reverse_cons, List.append_assoc, List.singleton_append] using hread
      · simp only [List.length_cons] at hstart ⊢
        omega

theorem mem_readingsFrom (s : Scan α) (pos : Nat) (before after : List Char) (hit : Hit α) :
    hit ∈ readingsFrom s pos before after ↔ s.ReadsAt pos before after hit := by
  induction after generalizing pos before with
  | nil =>
    rw [readingsFrom, ReadsAt]
    constructor
    · intro hmem
      cases hread : s ⟨before, []⟩ with
      | nil => simp [hread] at hmem
      | cons reading more =>
        simp only [hread, List.mem_singleton] at hmem
        subst hmem
        exact ⟨[], [], reading.2, more, rfl, hread, rfl, by simp⟩
    · rintro ⟨front, rest, next, more, hcut, hread, hstart, hstop⟩
      obtain ⟨rfl, rfl⟩ := List.append_eq_nil_iff.mp hcut.symm
      obtain ⟨start, stop, value⟩ := hit
      simp only [List.reverse_nil, List.nil_append, List.length_nil, Nat.add_zero, Nat.zero_sub]
        at hread hstart hstop
      subst hstop hstart
      simp [hread]
  | cons c after ih =>
    rw [readingsFrom, readsAt_cons, ← ih]
    cases hread : s ⟨before, c :: after⟩ with
    | nil => simp
    | cons reading more =>
      obtain ⟨value, next⟩ := reading
      simp only [List.mem_cons, List.cons.injEq, Prod.mk.injEq]
      refine or_congr_left ⟨?_, ?_⟩
      · rintro rfl
        exact ⟨next, more, ⟨⟨rfl, rfl⟩, rfl⟩, rfl⟩
      · rintro ⟨_, _, ⟨⟨rfl, rfl⟩, rfl⟩, hhit⟩
        exact hhit

theorem readingsFrom_ascending (s : Scan α) (pos : Nat) (before after : List Char) :
    (readingsFrom s pos before after).Pairwise fun g h => g.start < h.start := by
  induction after generalizing pos before with
  | nil =>
    rw [readingsFrom]
    split
    · exact List.Pairwise.nil
    · exact List.pairwise_singleton _ _
  | cons c after ih =>
    rw [readingsFrom]
    split
    · exact ih (pos + 1) (c :: before)
    · refine List.pairwise_cons.mpr ⟨fun hit hmem => ?_, ih (pos + 1) (c :: before)⟩
      obtain ⟨_, _, _, _, _, _, hstart, _⟩ := (mem_readingsFrom s _ _ _ hit).mp hmem
      show pos < hit.start
      omega

/-! ## The leftmost hit -/

theorem first_eq_head (s : Scan α) (line : List Char) :
    s.first? line = (readingsFrom s 0 [] line).head? := by
  rw [first?, hits, hitsFrom_eq]
  cases readingsFrom s 0 [] line with
  | nil => rfl
  | cons hit hits => rw [spaced, if_neg (Nat.not_lt_zero _), List.head?_cons, List.head?_cons]

theorem first_eq_some_iff (s : Scan α) (line : List Char) (hit : Hit α) :
    s.first? line = some hit ↔
      s.ReadsAt 0 [] line hit ∧ ∀ g, s.ReadsAt 0 [] line g → hit.start ≤ g.start := by
  have hasc := readingsFrom_ascending s 0 [] line
  simp only [first_eq_head, ← mem_readingsFrom]
  cases hreadings : readingsFrom s 0 [] line with
  | nil => exact iff_of_false nofun (fun h => List.not_mem_nil h.1)
  | cons head later =>
    obtain ⟨hhead, -⟩ := List.pairwise_cons.mp (hreadings ▸ hasc)
    rw [List.head?_cons, Option.some.injEq]
    constructor
    · rintro rfl
      exact ⟨List.mem_cons_self, List.forall_mem_cons.mpr
        ⟨Nat.le_refl _, fun g hg => Nat.le_of_lt (hhead g hg)⟩⟩
    · rintro ⟨hmem, hfirst⟩
      rcases List.mem_cons.mp hmem with rfl | hmem
      · rfl
      · exact absurd (hhead hit hmem) (Nat.not_lt.mpr (hfirst head List.mem_cons_self))

theorem first_eq_none_iff (s : Scan α) (line : List Char) :
    s.first? line = none ↔ ∀ hit, ¬ s.ReadsAt 0 [] line hit := by
  rw [first_eq_head, List.head?_eq_none_iff, List.eq_nil_iff_forall_not_mem]
  simp only [mem_readingsFrom]

/-! ## Texts that end with a mark -/

/-- The scanner reads at each place the texts of `L` that stand there. -/
def Reads (s : Scan α) (L : α → List Char → Prop) : Prop :=
  ∀ here reading, reading ∈ s here ↔ ∃ text, L reading.1 text ∧ Passes here text reading.2

/-- The hit covers a text of `L` on the line. -/
def Occurs (L : α → List Char → Prop) (line : List Char) (hit : Hit α) : Prop :=
  ∃ front text tail, line = front ++ (text ++ tail) ∧ L hit.value text ∧
    hit.start = front.length ∧ hit.stop = front.length + text.length

theorem readsAt_iff_occurs {s : Scan α} {L : α → List Char → Prop} (hsingle : s.Single)
    (hs : s.Reads L) (line : List Char) (hit : Hit α) :
    s.ReadsAt 0 [] line hit ↔ Occurs L line hit := by
  constructor
  · rintro ⟨front, rest, next, more, rfl, hread, hstart, hstop⟩
    obtain ⟨text, htext, hpasses⟩ := (hs _ (hit.value, next)).mp (hread ▸ List.mem_cons_self)
    obtain rfl : rest = text ++ next.after := hpasses.after
    rw [List.length_append] at hstop
    exact ⟨front, text, next.after, rfl, htext, by omega, by omega⟩
  · rintro ⟨front, text, tail, rfl, htext, hstart, hstop⟩
    have hmem := (hs ⟨front.reverse ++ [], text ++ tail⟩ (hit.value, ⟨_, tail⟩)).mpr
      ⟨text, htext, rfl, rfl⟩
    refine ⟨front, text ++ tail, _, [], rfl, hsingle.eq_singleton hmem, by omega, ?_⟩
    rw [List.length_append]
    show hit.stop = hit.start + (text.length + tail.length - tail.length)
    omega

/-- Each text holds one `mark`, at its end. -/
def EndsWith (L : α → List Char → Prop) (mark : Char) : Prop :=
  ∀ value text, L value text → ∃ body, mark ∉ body ∧ text = body ++ [mark]

/-- The part of the line that the hit covers holds one `mark`, at its end. -/
structure Hit.Marked (hit : Hit α) (mark : Char) (cs : List Char) : Prop where
  start_lt_stop : hit.start < hit.stop
  mark_at_stop : cs[hit.stop - 1]? = some mark
  no_mark_before : ∀ i, hit.start ≤ i → i + 1 < hit.stop → cs[i]? ≠ some mark

theorem Occurs.marked {L : α → List Char → Prop} {mark : Char} (hL : EndsWith L mark)
    {line : List Char} {hit : Hit α} (hoccurs : Occurs L line hit) : hit.Marked mark line := by
  obtain ⟨front, text, tail, rfl, htext, hstart, hstop⟩ := hoccurs
  obtain ⟨body, hbody, rfl⟩ := hL hit.value text htext
  rw [List.length_append, List.length_singleton] at hstop
  rw [List.append_assoc, List.singleton_append]
  refine ⟨by omega, ?_, fun i hfrom hto => ?_⟩
  · rw [hstop, ← Nat.add_assoc, Nat.add_sub_cancel, List.getElem?_append_right (by omega),
      List.getElem?_append_right (by omega)]
    simp
  · rw [List.getElem?_append_right (by omega), List.getElem?_append_left (by omega)]
    exact fun hmark => hbody (List.mem_of_getElem? hmark)

-- Behind the later start both look for the same mark, and the earlier one has not met it yet.
theorem Hit.Marked.stop_eq {g h : Hit α} {mark : Char} {line : List Char}
    (hg : g.Marked mark line) (hh : h.Marked mark line)
    (hstart : g.start ≤ h.start) (hinside : h.start < g.stop) : g.stop = h.stop := by
  have := hh.start_lt_stop
  rcases Nat.lt_trichotomy g.stop h.stop with hlt | heq | hgt
  · exact absurd hg.mark_at_stop (hh.no_mark_before (g.stop - 1) (by omega) (by omega))
  · exact heq
  · exact absurd hh.mark_at_stop (hg.no_mark_before (h.stop - 1) (by omega) (by omega))

theorem mem_spaced {mark : Char} {line : List Char} {hits : List (Hit α)}
    (hasc : hits.Pairwise fun g h => g.start < h.start) (hmarked : ∀ h ∈ hits, h.Marked mark line)
    (resume : Nat) (hit : Hit α) :
    hit ∈ spaced resume hits ↔ hit ∈ hits ∧ resume ≤ hit.start ∧
      ∀ g ∈ hits, resume ≤ g.start → g.start < hit.start → g.stop ≠ hit.stop := by
  induction hits generalizing resume with
  | nil => simp [spaced]
  | cons head hits ih =>
    obtain ⟨hhead, hasc⟩ := List.pairwise_cons.mp hasc
    obtain ⟨hmarkhead, hmarked⟩ := List.forall_mem_cons.mp hmarked
    rw [spaced]
    split
    · next hskip =>
      rw [ih hasc hmarked resume]
      constructor
      · rintro ⟨hmem, hresume, hfirst⟩
        refine ⟨List.mem_cons_of_mem head hmem, hresume, List.forall_mem_cons.mpr ⟨?_, hfirst⟩⟩
        intro hge
        omega
      · rintro ⟨hmem, hresume, hfirst⟩
        rcases List.mem_cons.mp hmem with rfl | hmem
        · omega
        · exact ⟨hmem, hresume, (List.forall_mem_cons.mp hfirst).2⟩
    · next hkeep =>
      rw [List.mem_cons, ih hasc hmarked head.stop]
      have hpos := hmarkhead.start_lt_stop
      constructor
      · rintro (rfl | ⟨hmem, hresume, hfirst⟩)
        · refine ⟨List.mem_cons_self, by omega, List.forall_mem_cons.mpr ⟨?_, ?_⟩⟩
          · intro _ hlt
            omega
          · intro g hg _ hlt
            have := hhead g hg
            omega
        · have hlong := (hmarked hit hmem).start_lt_stop
          refine ⟨List.mem_cons_of_mem head hmem, by omega, List.forall_mem_cons.mpr ⟨?_, ?_⟩⟩
          · intro _ _
            omega
          · intro g hg _ hlt
            -- A reading that starts inside the head ends with it, before the hit starts.
            by_cases hinside : g.start < head.stop
            · have heq := hmarkhead.stop_eq (hmarked g hg) (Nat.le_of_lt (hhead g hg)) hinside
              omega
            · exact hfirst g hg (by omega) hlt
      · rintro ⟨hmem, hresume, hfirst⟩
        obtain ⟨hnot, hfirst⟩ := List.forall_mem_cons.mp hfirst
        rcases List.mem_cons.mp hmem with rfl | hmem
        · exact Or.inl rfl
        · have hlater := hhead hit hmem
          have hdiffer := hnot (by omega) hlater
          have houtside : head.stop ≤ hit.start := Nat.le_of_not_lt fun hinside =>
            hdiffer (hmarkhead.stop_eq (hmarked hit hmem) (Nat.le_of_lt hlater) hinside)
          refine Or.inr ⟨hmem, houtside, fun g hg hge hlt => hfirst g hg ?_ hlt⟩
          have := hhead g hg
          omega

/-- Where every reading is marked at its end, a search loses one only to an earlier one that ends at
the same place. -/
theorem mem_hits_of_marked {s : Scan α} {P : Hit α → Prop} {mark : Char} {line : List Char}
    (hread : ∀ hit, s.ReadsAt 0 [] line hit ↔ P hit) (hmarked : ∀ hit, P hit → hit.Marked mark line)
    (hit : Hit α) :
    hit ∈ s.hits line ↔ P hit ∧ ∀ g, P g → g.start < hit.start → g.stop ≠ hit.stop := by
  have hmem : ∀ h, h ∈ readingsFrom s 0 [] line ↔ P h := fun h =>
    (mem_readingsFrom s 0 [] line h).trans (hread h)
  have hmarked : ∀ h ∈ readingsFrom s 0 [] line, h.Marked mark line := fun h hh =>
    hmarked h ((hmem h).mp hh)
  rw [hits, hitsFrom_eq, mem_spaced (readingsFrom_ascending s 0 [] line) hmarked]
  simp only [hmem, Nat.zero_le, true_and, true_implies]

theorem mem_hits {s : Scan α} {L : α → List Char → Prop} {mark : Char} (hsingle : s.Single)
    (hs : s.Reads L) (hL : EndsWith L mark) (line : List Char) (hit : Hit α) :
    hit ∈ s.hits line ↔ Occurs L line hit ∧
      ∀ g, Occurs L line g → g.start < hit.start → g.stop ≠ hit.stop :=
  mem_hits_of_marked (readsAt_iff_occurs hsingle hs line) (fun _ h => h.marked hL) hit

/-! ## Values of hits -/

/-- Every value that the scanner reads satisfies `P`. -/
def Yields (s : Scan α) (P : α → Prop) : Prop :=
  ∀ here, ∀ reading ∈ s here, P reading.1

theorem yields_pure {P : α → Prop} {a : α} (ha : P a) : (pure a : Scan α).Yields P := by
  intro here reading hreading
  rw [(mem_pure a here reading).mp hreading]
  exact ha

theorem yields_run1 (p : Char → Bool) : (run1 p).Yields fun taken => ∀ c ∈ taken, p c = true := by
  intro here reading hreading c hc
  have htaken := ((mem_run p here reading).mp ((mem_run1 p here reading).mp hreading).2).1
  rw [htaken] at hc
  exact List.all_eq_true.mp List.all_takeWhile c hc

theorem Yields.bind {Q : α → Prop} {P : β → Prop} {s : Scan α} {f : α → Scan β}
    (hs : s.Yields Q) (hf : ∀ a, Q a → (f a).Yields P) : (s >>= f).Yields P := by
  intro here reading hreading
  obtain ⟨first, hfirst, hsecond⟩ := (mem_bind s f here reading).mp hreading
  exact hf first.1 (hs here first hfirst) first.2 reading hsecond

theorem yields_bind {P : β → Prop} {s : Scan α} {f : α → Scan β} (hf : ∀ a, (f a).Yields P) :
    (s >>= f).Yields P :=
  Yields.bind (Q := fun _ => True) (fun _ _ _ => trivial) fun a _ => hf a

theorem spaced_sublist (resume : Nat) (hits : List (Hit α)) : (spaced resume hits).Sublist hits := by
  induction hits generalizing resume with
  | nil => exact List.Sublist.refl _
  | cons head hits ih =>
    rw [spaced]
    split
    · exact (ih resume).cons head
    · exact (ih head.stop).cons_cons head

theorem mem_of_mem_spaced {resume : Nat} {hits : List (Hit α)} {hit : Hit α}
    (hmem : hit ∈ spaced resume hits) : hit ∈ hits :=
  (spaced_sublist resume hits).subset hmem

theorem hits_ascending (s : Scan α) (line : List Char) :
    (s.hits line).Pairwise fun g h => g.start < h.start := by
  rw [hits, hitsFrom_eq]
  exact (readingsFrom_ascending s 0 [] line).sublist (spaced_sublist 0 _)

theorem Yields.value_of_mem {s : Scan α} {P : α → Prop} (hs : s.Yields P) {line : List Char}
    {hit : Hit α} (hmem : hit ∈ s.hits line) : P hit.value := by
  rw [hits, hitsFrom_eq] at hmem
  obtain ⟨front, rest, next, more, -, hread, -, -⟩ :=
    (mem_readingsFrom s 0 [] line hit).mp (mem_of_mem_spaced hmem)
  exact hs _ (hit.value, next) (hread ▸ List.mem_cons_self)

/-! ## Characters that every hit needs -/

/-- A reading only goes forward in the line. -/
def Advances (s : Scan α) : Prop :=
  ∀ here, ∀ reading ∈ s here, reading.2.after <:+ here.after

/-- Where the scanner reads anything, `c` is still to come. -/
def Needs (s : Scan α) (c : Char) : Prop :=
  ∀ here, ∀ reading ∈ s here, c ∈ here.after

theorem Passes.suffix {here next : Place} {text : List Char} (h : Passes here text next) :
    next.after <:+ here.after :=
  ⟨text, h.after.symm⟩

theorem advances_pure (a : α) : (pure a : Scan α).Advances := by
  intro here reading hreading
  obtain rfl := (mem_pure a here reading).mp hreading
  exact List.suffix_refl _

theorem advances_chars (word : List Char) : (chars word).Advances :=
  fun here reading hreading => ((mem_chars word here reading).mp hreading).suffix

theorem advances_run (p : Char → Bool) : (run p).Advances :=
  fun here reading hreading => ((mem_run p here reading).mp hreading).2.suffix

theorem advances_run1 (p : Char → Bool) : (run1 p).Advances :=
  fun here reading hreading => advances_run p here reading ((mem_run1 p here reading).mp hreading).2

theorem Advances.bind {s : Scan α} {f : α → Scan β} (hs : s.Advances) (hf : ∀ a, (f a).Advances) :
    (s >>= f).Advances := by
  intro here reading hreading
  obtain ⟨first, hfirst, hsecond⟩ := (mem_bind s f here reading).mp hreading
  exact (hf first.1 first.2 reading hsecond).trans (hs here first hfirst)

theorem advances_repeatUpTo (s : Scan α) (bound : Nat) (hs : s.Advances) :
    (repeatUpTo s bound).Advances := by
  induction bound with
  | zero =>
    intro here reading hreading
    obtain rfl := List.mem_singleton.mp hreading
    exact List.suffix_refl _
  | succ bound ih =>
    intro here reading hreading
    rw [repeatUpTo, List.mem_append, List.mem_flatMap] at hreading
    rcases hreading with ⟨first, hfirst, hlater⟩ | hstop
    · split at hlater
      · exact (ih first.2 reading hlater).trans (hs here first hfirst)
      · exact absurd hlater List.not_mem_nil
    · obtain rfl := List.mem_singleton.mp hstop
      exact List.suffix_refl _

theorem Advances.text {s : Scan α} (hs : s.Advances) : s.text.Advances := by
  intro here reading hreading
  obtain ⟨first, hfirst, rfl⟩ := List.mem_map.mp hreading
  exact hs here first hfirst

theorem advances_blanks : blanks.Advances :=
  (advances_run isBlank).bind fun _ => advances_pure ()

theorem advances_blanks1 : blanks1.Advances :=
  (advances_run1 isBlank).bind fun _ => advances_pure ()

theorem advances_wordEdge : wordEdge.Advances := by
  intro here reading hreading
  rw [wordEdge] at hreading
  split at hreading
  · obtain rfl := List.mem_singleton.mp hreading
    exact List.suffix_refl _
  · cases hreading

theorem advances_oneOf (literals : List String) : (oneOf literals).Advances := by
  intro here reading hreading
  obtain ⟨word, -, hword⟩ := List.mem_flatMap.mp hreading
  exact advances_chars word.toList here reading hword

theorem Advances.opt {s : Scan α} (hs : s.Advances) : (opt s).Advances := by
  intro here reading hreading
  rcases List.mem_append.mp hreading with hread | hskip
  · obtain ⟨first, hfirst, rfl⟩ := List.mem_map.mp hread
    exact hs here first hfirst
  · obtain rfl := List.mem_singleton.mp hskip
    exact List.suffix_refl _

theorem needs_chars {word : List Char} {c : Char} (hc : c ∈ word) : (chars word).Needs c := by
  intro here reading hreading
  rw [((mem_chars word here reading).mp hreading).after]
  exact List.mem_append_left _ hc

theorem Needs.bind {s : Scan α} {c : Char} (hs : s.Needs c) (f : α → Scan β) :
    (s >>= f).Needs c := by
  intro here reading hreading
  obtain ⟨first, hfirst, -⟩ := (mem_bind s f here reading).mp hreading
  exact hs here first hfirst

theorem Advances.needs_bind {s : Scan α} {f : α → Scan β} {c : Char} (hs : s.Advances)
    (hf : ∀ a, (f a).Needs c) : (s >>= f).Needs c := by
  intro here reading hreading
  obtain ⟨first, hfirst, hsecond⟩ := (mem_bind s f here reading).mp hreading
  exact (hs here first hfirst).mem (hf first.1 first.2 reading hsecond)

theorem Needs.mem_of_hit {s : Scan α} {c : Char} (hs : s.Needs c) {line : List Char} {hit : Hit α}
    (hmem : hit ∈ s.hits line) : c ∈ line := by
  rw [hits, hitsFrom_eq] at hmem
  obtain ⟨front, rest, next, more, hcut, hread, -, -⟩ :=
    (mem_readingsFrom s 0 [] line hit).mp (mem_of_mem_spaced hmem)
  have hc := hs _ (hit.value, next) (hread ▸ List.mem_cons_self)
  rw [hcut]
  exact List.mem_append_right _ hc

/-! ## Parts of the line -/

/-- This part of every value is copied from the text ahead. -/
def Excerpts (s : Scan α) (part : α → List Char) : Prop :=
  ∀ here, ∀ reading ∈ s here, part reading.1 <:+: here.after

theorem excerpts_run1 (p : Char → Bool) : (run1 p).Excerpts id := by
  intro here reading hreading
  have htaken := ((mem_run p here reading).mp ((mem_run1 p here reading).mp hreading).2).1
  show reading.1 <:+: here.after
  rw [htaken]
  exact (List.takeWhile_prefix p).isInfix

/-- The part is read behind `s`. -/
theorem Advances.excerpts_bind {s : Scan α} {f : α → Scan β} {part : β → List Char}
    (hs : s.Advances) (hf : ∀ a, (f a).Excerpts part) : (s >>= f).Excerpts part := by
  intro here reading hreading
  obtain ⟨first, hfirst, hsecond⟩ := (mem_bind s f here reading).mp hreading
  exact (hf first.1 first.2 reading hsecond).trans (hs here first hfirst).isInfix

/-- The part is read by `s` and handed on. -/
theorem Excerpts.bind {s : Scan α} {f : α → Scan β} {own : α → List Char} {part : β → List Char}
    (hs : s.Excerpts own) (hf : ∀ a, (f a).Yields fun b => part b = own a) :
    (s >>= f).Excerpts part := by
  intro here reading hreading
  obtain ⟨first, hfirst, hsecond⟩ := (mem_bind s f here reading).mp hreading
  rw [hf first.1 first.2 reading hsecond]
  exact hs here first hfirst

theorem Excerpts.of_hit {s : Scan α} {part : α → List Char} (hs : s.Excerpts part)
    {line : List Char} {hit : Hit α} (hmem : hit ∈ s.hits line) : part hit.value <:+: line := by
  rw [hits, hitsFrom_eq] at hmem
  obtain ⟨front, rest, next, more, rfl, hread, -, -⟩ :=
    (mem_readingsFrom s 0 [] line hit).mp (mem_of_mem_spaced hmem)
  exact (hs _ (hit.value, next) (hread ▸ List.mem_cons_self)).trans
    (List.suffix_append front rest).isInfix

theorem Excerpts.of_atStart {s : Scan α} {part : α → List Char} (hs : s.Excerpts part)
    {line : List Char} {value : α} (h : s.atStart? line = some value) : part value <:+: line := by
  obtain ⟨reading, hread, rfl⟩ := Option.map_eq_some_iff.mp h
  exact hs ⟨[], line⟩ reading (List.mem_of_head? hread)

theorem bounds_of_hit {s : Scan α} {line : List Char} {hit : Hit α} (hmem : hit ∈ s.hits line) :
    hit.start ≤ line.length ∧ hit.stop ≤ line.length := by
  rw [hits, hitsFrom_eq] at hmem
  obtain ⟨front, rest, next, more, rfl, -, hstart, hstop⟩ :=
    (mem_readingsFrom s 0 [] line hit).mp (mem_of_mem_spaced hmem)
  rw [List.length_append]
  omega

end CodeNav.Text.Scan
