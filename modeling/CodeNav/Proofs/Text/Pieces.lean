import CodeNav.Text.Basic

/-! Cutting undoes joining: what splitting, trimming, replacing and reading numerals give on texts
that were put together from pieces without the separator. -/
namespace CodeNav.Text
set_option autoImplicit false

/-! ## Splitting at every separator -/

theorem splitOn_sep (sep : Char) (cs : List Char) :
    splitOn sep (sep :: cs) = [] :: splitOn sep cs := by
  simp [splitOn, splitWhere]

theorem splitOn_ne_nil (sep : Char) (cs : List Char) : splitOn sep cs ≠ [] := by
  unfold splitOn
  fun_induction splitWhere (· == sep) cs <;> simp

theorem splitOn_cons_of_ne (sep c : Char) (cs : List Char) (hc : c ≠ sep) :
    ∃ piece pieces, splitOn sep cs = piece :: pieces ∧
      splitOn sep (c :: cs) = (c :: piece) :: pieces := by
  cases h : splitOn sep cs with
  | nil => exact absurd h (splitOn_ne_nil sep cs)
  | cons piece pieces =>
    refine ⟨piece, pieces, rfl, ?_⟩
    rw [splitOn] at h ⊢
    simp [splitWhere, h, hc]

theorem length_splitOn (sep : Char) (cs : List Char) :
    (splitOn sep cs).length = cs.count sep + 1 := by
  induction cs with
  | nil => rfl
  | cons c cs ih =>
    by_cases hc : c = sep
    · rw [hc, splitOn_sep, List.length_cons, ih, List.count_cons_self]
    · obtain ⟨piece, pieces, hcs, hccs⟩ := splitOn_cons_of_ne sep c cs hc
      rw [hcs, List.length_cons] at ih
      rw [hccs, List.length_cons, ih, List.count_cons_of_ne hc]

theorem splitOn_free (sep : Char) (cs : List Char) (h : sep ∉ cs) : splitOn sep cs = [cs] := by
  induction cs with
  | nil => rfl
  | cons c cs ih =>
    rw [List.mem_cons, not_or] at h
    obtain ⟨piece, pieces, hcs, hc⟩ := splitOn_cons_of_ne sep c cs (Ne.symm h.1)
    rw [ih h.2] at hcs
    cases hcs
    exact hc

theorem splitOn_append (sep : Char) (before after : List Char) :
    splitOn sep (before ++ sep :: after) = splitOn sep before ++ splitOn sep after := by
  induction before with
  | nil => exact splitOn_sep sep after
  | cons c before ih =>
    by_cases hc : c = sep
    · rw [hc, List.cons_append, splitOn_sep, splitOn_sep, ih, List.cons_append]
    · obtain ⟨piece, pieces, hb, hcb⟩ := splitOn_cons_of_ne sep c before hc
      obtain ⟨first, others, hs, hcs⟩ := splitOn_cons_of_ne sep c (before ++ sep :: after) hc
      rw [ih, hb, List.cons_append] at hs
      cases hs
      rw [List.cons_append, hcs, hcb, List.cons_append]

theorem splitOn_free_append (sep : Char) (front rest : List Char) (h : sep ∉ front) :
    ∃ piece pieces, splitOn sep rest = piece :: pieces ∧
      splitOn sep (front ++ rest) = (front ++ piece) :: pieces := by
  induction front with
  | nil =>
    obtain ⟨piece, pieces, hrest⟩ := List.exists_cons_of_ne_nil (splitOn_ne_nil sep rest)
    exact ⟨piece, pieces, hrest, hrest⟩
  | cons c front ih =>
    rw [List.mem_cons, not_or] at h
    obtain ⟨piece, pieces, hrest, hall⟩ := ih h.2
    obtain ⟨first, others, hsame, hcons⟩ := splitOn_cons_of_ne sep c (front ++ rest) (Ne.symm h.1)
    rw [hall] at hsame
    cases hsame
    exact ⟨piece, pieces, hrest, hcons⟩

theorem mem_splitOn (sep : Char) (cs piece : List Char) (h : piece ∈ splitOn sep cs) :
    sep ∉ piece := by
  induction cs generalizing piece with
  | nil =>
    rw [splitOn_free sep [] List.not_mem_nil, List.mem_singleton] at h
    exact h ▸ List.not_mem_nil
  | cons c cs ih =>
    by_cases hc : c = sep
    · rw [hc, splitOn_sep, List.mem_cons] at h
      rcases h with rfl | h
      · exact List.not_mem_nil
      · exact ih piece h
    · obtain ⟨first, pieces, hcs, hccs⟩ := splitOn_cons_of_ne sep c cs hc
      rw [hccs, List.mem_cons] at h
      rw [hcs] at ih
      rcases h with rfl | h
      · rw [List.mem_cons, not_or]
        exact ⟨Ne.symm hc, ih first List.mem_cons_self⟩
      · exact ih piece (List.mem_cons_of_mem first h)

theorem mem_of_mem_splitOn (sep c : Char) (cs piece : List Char) (hpiece : piece ∈ splitOn sep cs)
    (hc : c ∈ piece) : c ∈ cs := by
  induction cs generalizing piece with
  | nil =>
    rw [splitOn_free sep [] List.not_mem_nil, List.mem_singleton] at hpiece
    exact hpiece ▸ hc
  | cons d cs ih =>
    by_cases hd : d = sep
    · rw [hd, splitOn_sep, List.mem_cons] at hpiece
      rcases hpiece with rfl | hpiece
      · cases hc
      · exact List.mem_cons_of_mem d (ih piece hpiece hc)
    · obtain ⟨first, pieces, hcs, hdcs⟩ := splitOn_cons_of_ne sep d cs hd
      rw [hcs] at ih
      rw [hdcs, List.mem_cons] at hpiece
      rcases hpiece with rfl | hpiece
      · rcases List.mem_cons.mp hc with rfl | hc
        · exact List.mem_cons_self
        · exact List.mem_cons_of_mem d (ih first List.mem_cons_self hc)
      · exact List.mem_cons_of_mem d (ih piece (List.mem_cons_of_mem first hpiece) hc)

/-- A text is its last piece, or ends with a separator and its last piece. -/
theorem splitOn_last (sep : Char) (cs : List Char) :
    ∃ last, sep ∉ last ∧ (cs = last ∨ ∃ before, cs = before ++ sep :: last) := by
  induction cs with
  | nil => exact ⟨[], List.not_mem_nil, .inl rfl⟩
  | cons c cs ih =>
    obtain ⟨last, hfree, rfl | ⟨before, rfl⟩⟩ := ih
    · by_cases hc : c = sep
      · exact ⟨cs, hfree, .inr ⟨[], by rw [hc]; rfl⟩⟩
      · refine ⟨c :: cs, ?_, .inl rfl⟩
        rw [List.mem_cons, not_or]
        exact ⟨Ne.symm hc, hfree⟩
    · exact ⟨last, hfree, .inr ⟨c :: before, rfl⟩⟩

theorem joinWith_cons_cons (sep : Char) (piece next : List Char) (pieces : List (List Char)) :
    joinWith sep (piece :: next :: pieces) = piece ++ sep :: joinWith sep (next :: pieces) := rfl

theorem joinWith_cons (sep : Char) (piece : List Char) (pieces : List (List Char)) :
    joinWith sep (piece :: pieces) = piece ++ pieces.flatMap (sep :: ·) := by
  induction pieces generalizing piece with
  | nil => exact (List.append_nil piece).symm
  | cons next pieces ih => rw [joinWith_cons_cons, ih, List.flatMap_cons, List.cons_append]

theorem joinWith_append (sep : Char) (first second : List (List Char)) (h1 : first ≠ [])
    (h2 : second ≠ []) :
    joinWith sep (first ++ second) = joinWith sep first ++ sep :: joinWith sep second := by
  induction first with
  | nil => exact absurd rfl h1
  | cons piece pieces ih =>
    cases pieces with
    | nil =>
      cases second with
      | nil => exact absurd rfl h2
      | cons next rest => rfl
    | cons next pieces =>
      have hnext := ih (List.cons_ne_nil next pieces)
      rw [List.cons_append] at hnext
      rw [List.cons_append, List.cons_append, joinWith_cons_cons, hnext, joinWith_cons_cons,
        List.append_assoc, List.cons_append]

theorem joinWith_cons_concat (sep : Char) (piece : List Char) (front : List (List Char))
    (last : List Char) :
    joinWith sep (piece :: (front ++ [last])) = piece ++ sep :: joinWith sep (front ++ [last]) :=
  joinWith_append sep [piece] (front ++ [last]) (List.cons_ne_nil _ _) (by simp)

theorem joinWith_concat_append (sep : Char) (front : List (List Char)) (last tail : List Char) :
    joinWith sep (front ++ [last ++ tail]) = joinWith sep (front ++ [last]) ++ tail := by
  induction front with
  | nil => rfl
  | cons piece front ih =>
    rw [List.cons_append, List.cons_append, joinWith_cons_concat, joinWith_cons_concat, ih,
      List.append_assoc, List.cons_append]

theorem joinWith_splitOn (sep : Char) (cs : List Char) : joinWith sep (splitOn sep cs) = cs := by
  induction cs with
  | nil => rfl
  | cons c cs ih =>
    by_cases hc : c = sep
    · rw [hc, splitOn_sep]
      cases hcs : splitOn sep cs with
      | nil => exact absurd hcs (splitOn_ne_nil sep cs)
      | cons piece pieces =>
        rw [joinWith_cons_cons, ← hcs, ih, List.nil_append]
    · obtain ⟨piece, pieces, hcs, hccs⟩ := splitOn_cons_of_ne sep c cs hc
      rw [hcs] at ih
      rw [hccs, ← ih]
      cases pieces <;> rfl

/-- Splitting gives back the pieces that were joined. No pieces at all are the exception: they join
to the empty text, which is one empty piece. -/
theorem splitOn_joinWith (sep : Char) (piece : List Char) (pieces : List (List Char))
    (h : ∀ p ∈ piece :: pieces, sep ∉ p) :
    splitOn sep (joinWith sep (piece :: pieces)) = piece :: pieces := by
  induction pieces generalizing piece with
  | nil => exact splitOn_free sep piece (h piece (List.mem_singleton_self piece))
  | cons next pieces ih =>
    rw [joinWith_cons_cons, splitOn_append, splitOn_free sep piece (h piece List.mem_cons_self),
      ih next (fun p hp => h p (List.mem_cons_of_mem piece hp))]
    rfl

theorem splitOn_joinWith_last (sep : Char) (front : List (List Char)) (last : List Char)
    (h : ∀ piece ∈ front, sep ∉ piece) :
    splitOn sep (joinWith sep (front ++ [last])) = front ++ splitOn sep last := by
  induction front with
  | nil => rfl
  | cons piece front ih =>
    have hrest := ih (fun other hother => h other (List.mem_cons_of_mem piece hother))
    rw [List.cons_append, joinWith_cons_concat, splitOn_append,
      splitOn_free sep piece (h piece List.mem_cons_self), hrest]
    rfl

theorem mem_joinWith (sep c : Char) (pieces : List (List Char)) (h : c ∈ joinWith sep pieces) :
    c = sep ∨ ∃ p ∈ pieces, c ∈ p := by
  induction pieces with
  | nil => cases h
  | cons piece pieces ih =>
    cases pieces with
    | nil => exact Or.inr ⟨piece, List.mem_singleton_self piece, h⟩
    | cons next pieces =>
      rw [joinWith_cons_cons, List.mem_append, List.mem_cons] at h
      rcases h with h | h | h
      · exact Or.inr ⟨piece, List.mem_cons_self, h⟩
      · exact Or.inl h
      · rcases ih h with h | ⟨p, hp, hc⟩
        · exact Or.inl h
        · exact Or.inr ⟨p, List.mem_cons_of_mem piece hp, hc⟩

theorem mem_joinWith_of_mem (sep c : Char) (pieces : List (List Char)) (piece : List Char)
    (hpiece : piece ∈ pieces) (hc : c ∈ piece) : c ∈ joinWith sep pieces := by
  induction pieces with
  | nil => cases hpiece
  | cons first pieces ih =>
    rw [joinWith_cons, List.mem_append, List.mem_flatMap]
    rcases List.mem_cons.mp hpiece with rfl | hlater
    · exact .inl hc
    · exact .inr ⟨piece, hlater, List.mem_cons_of_mem sep hc⟩

theorem joinWith_sublist (sep : Char) {kept pieces : List (List Char)} (h : kept.Sublist pieces) :
    (joinWith sep kept).Sublist (joinWith sep pieces) := by
  induction h with
  | slnil => exact List.nil_sublist _
  | @cons kept pieces piece h ih =>
    cases pieces with
    | nil =>
      rw [List.sublist_nil.mp h]
      exact List.nil_sublist _
    | cons next pieces =>
      rw [joinWith_cons_cons]
      exact (ih.cons sep).trans (List.sublist_append_right piece _)
  | @cons_cons kept pieces piece h ih =>
    cases pieces with
    | nil =>
      obtain rfl := List.sublist_nil.mp h
      exact List.Sublist.refl _
    | cons next pieces =>
      rw [joinWith_cons_cons]
      cases kept with
      | nil => exact List.sublist_append_left piece _
      | cons other kept =>
        rw [joinWith_cons_cons]
        exact (List.Sublist.refl piece).append (ih.cons_cons sep)

/-! ## Splitting at the first separators -/

theorem splitFirst_append (sep : Char) (before after : List Char) (h : sep ∉ before) :
    splitFirst? sep (before ++ sep :: after) = some (before, after) := by
  induction before with
  | nil => simp [splitFirst?]
  | cons c before ih =>
    rw [List.mem_cons, not_or] at h
    simp [splitFirst?, ih h.2, Ne.symm h.1]

theorem splitFirst_free (sep : Char) (cs before after : List Char)
    (h : splitFirst? sep cs = some (before, after)) : sep ∉ before := by
  induction cs generalizing before with
  | nil => simp [splitFirst?] at h
  | cons c cs ih =>
    by_cases hc : c = sep
    · simp only [splitFirst?, hc, beq_self_eq_true, ↓reduceIte, Option.some.injEq,
        Prod.mk.injEq] at h
      rw [← h.1]
      exact List.not_mem_nil
    · have hcs : (c == sep) = false := beq_false_of_ne hc
      simp only [splitFirst?, hcs, Bool.false_eq_true, ↓reduceIte, Option.map_eq_some_iff] at h
      obtain ⟨⟨inner, rest⟩, hrest, heq⟩ := h
      simp only [Prod.mk.injEq] at heq
      rw [← heq.1, List.mem_cons, not_or]
      exact ⟨Ne.symm hc, ih inner (by rw [hrest, heq.2])⟩

theorem splitFirst_eq (sep : Char) (cs before after : List Char)
    (h : splitFirst? sep cs = some (before, after)) : cs = before ++ sep :: after := by
  induction cs generalizing before with
  | nil => cases h
  | cons c cs ih =>
    rw [splitFirst?] at h
    by_cases hc : c = sep
    · simp only [hc, BEq.rfl, ↓reduceIte, Option.some.injEq, Prod.mk.injEq] at h
      obtain ⟨rfl, rfl⟩ := h
      rw [hc, List.nil_append]
    · rw [if_neg (by simpa using hc)] at h
      obtain ⟨⟨inner, rest⟩, hrest, heq⟩ := Option.map_eq_some_iff.mp h
      simp only [Prod.mk.injEq] at heq
      obtain ⟨rfl, rfl⟩ := heq
      rw [List.cons_append, ← ih inner hrest]

theorem splitFirst_eq_none_iff (sep : Char) (cs : List Char) :
    splitFirst? sep cs = none ↔ sep ∉ cs := by
  induction cs with
  | nil => simp [splitFirst?]
  | cons c cs ih =>
    rw [splitFirst?, List.mem_cons, not_or]
    by_cases hc : c = sep
    · simp [hc]
    · rw [if_neg (by simpa using hc), Option.map_eq_none_iff, ih]
      exact (and_iff_right (Ne.symm hc)).symm

theorem splitAtMost_append (sep : Char) (limit : Nat) (before after : List Char)
    (h : sep ∉ before) :
    splitAtMost sep (limit + 1) (before ++ sep :: after) =
      before :: splitAtMost sep limit after := by
  rw [splitAtMost, splitFirst_append sep before after h]

/-- How a text is cut at its first separators, `limit` of them at most. The last piece holds
separators only if all of these were used. -/
structure IsCut (sep : Char) (limit : Nat) (front : List (List Char)) (last : List Char) :
    Prop where
  free : ∀ piece ∈ front, sep ∉ piece
  length_le : front.length ≤ limit
  last_free : front.length < limit → sep ∉ last

theorem splitAtMost_joinWith (sep : Char) (limit : Nat) (front : List (List Char))
    (last : List Char) (h : IsCut sep limit front last) :
    splitAtMost sep limit (joinWith sep (front ++ [last])) = front ++ [last] := by
  induction front generalizing limit with
  | nil =>
    cases limit with
    | zero => rfl
    | succ limit =>
      have hnone := (splitFirst_eq_none_iff sep last).mpr (h.last_free (Nat.succ_pos limit))
      rw [List.nil_append, joinWith, splitAtMost, hnone]
  | cons piece front ih =>
    obtain ⟨limit, rfl⟩ := Nat.exists_eq_succ_of_ne_zero (Nat.ne_of_gt
      (Nat.lt_of_lt_of_le (Nat.succ_pos front.length) h.length_le))
    have hrest : IsCut sep limit front last :=
      ⟨fun other hother => h.free other (List.mem_cons_of_mem piece hother),
        Nat.le_of_succ_le_succ h.length_le, fun hlt => h.last_free (Nat.succ_lt_succ hlt)⟩
    rw [List.cons_append, joinWith_cons_concat,
      splitAtMost_append sep limit _ _ (h.free piece List.mem_cons_self), ih limit hrest]

theorem exists_cut (sep : Char) (limit : Nat) (cs : List Char) :
    ∃ front last, cs = joinWith sep (front ++ [last]) ∧ IsCut sep limit front last := by
  induction limit generalizing cs with
  | zero => exact ⟨[], cs, rfl, by simp, Nat.le_refl 0, fun h => absurd h (Nat.lt_irrefl 0)⟩
  | succ limit ih =>
    cases hfirst : splitFirst? sep cs with
    | none =>
      have hfree := (splitFirst_eq_none_iff sep cs).mp hfirst
      exact ⟨[], cs, rfl, by simp, Nat.zero_le _, fun _ => hfree⟩
    | some parts =>
      obtain ⟨front, last, hafter, hcut⟩ := ih parts.2
      refine ⟨parts.1 :: front, last, ?_, ?_, Nat.succ_le_succ hcut.length_le,
        fun hlt => hcut.last_free (Nat.lt_of_succ_lt_succ hlt)⟩
      · rw [List.cons_append, joinWith_cons_concat, ← hafter]
        exact splitFirst_eq sep cs parts.1 parts.2 hfirst
      · intro piece hpiece
        rcases List.mem_cons.mp hpiece with rfl | hpiece
        · exact splitFirst_free sep cs parts.1 parts.2 hfirst
        · exact hcut.free piece hpiece

/-! ## Splitting at the last separator -/

theorem splitLast_eq (sep : Char) (cs before after : List Char)
    (h : splitLast? sep cs = some (before, after)) : cs = before ++ sep :: after := by
  induction cs generalizing before after with
  | nil => cases h
  | cons c cs ih =>
    rw [splitLast?] at h
    cases hcs : splitLast? sep cs with
    | some pair =>
      simp only [hcs, Option.some.injEq, Prod.mk.injEq] at h
      obtain ⟨rfl, rfl⟩ := h
      rw [List.cons_append, ← ih pair.1 pair.2 hcs]
    | none =>
      by_cases hc : c = sep
      · simp only [hcs, hc, BEq.rfl, ↓reduceIte, Option.some.injEq, Prod.mk.injEq] at h
        obtain ⟨rfl, rfl⟩ := h
        rw [hc, List.nil_append]
      · simp [hcs, hc] at h

theorem splitLast_append (sep : Char) (before after : List Char) (h : sep ∉ after) :
    splitLast? sep (before ++ sep :: after) = some (before, after) := by
  induction before with
  | nil =>
    have hnone : splitLast? sep after = none := by
      cases hs : splitLast? sep after with
      | none => rfl
      | some pair =>
        have := splitLast_eq sep after pair.1 pair.2 hs
        rw [this] at h
        simp at h
    simp [splitLast?, hnone]
  | cons c before ih => rw [List.cons_append, splitLast?, ih]

theorem splitLast_eq_none (sep : Char) (cs : List Char) (h : splitLast? sep cs = none) :
    sep ∉ cs := by
  induction cs with
  | nil => exact List.not_mem_nil
  | cons c cs ih =>
    rw [splitLast?] at h
    cases hcs : splitLast? sep cs with
    | some pair => simp [hcs] at h
    | none =>
      have hc : c ≠ sep := by
        rintro rfl
        simp [hcs] at h
      exact List.not_mem_cons_of_ne_of_not_mem hc.symm (ih hcs)

theorem splitLast_free (sep : Char) (cs before after : List Char)
    (h : splitLast? sep cs = some (before, after)) : sep ∉ after := by
  induction cs generalizing before after with
  | nil => cases h
  | cons c cs ih =>
    rw [splitLast?] at h
    cases hcs : splitLast? sep cs with
    | some pair =>
      simp only [hcs, Option.some.injEq, Prod.mk.injEq] at h
      exact h.2 ▸ ih pair.1 pair.2 hcs
    | none =>
      by_cases hc : c = sep
      · simp only [hcs, hc, BEq.rfl, ↓reduceIte, Option.some.injEq, Prod.mk.injEq] at h
        exact h.2 ▸ splitLast_eq_none sep cs hcs
      · simp [hcs, hc] at h

/-! ## Trimming and replacing -/

theorem dropWhile_ne_append {sep : Char} {front : List Char} (h : sep ∉ front) (rest : List Char) :
    (front ++ sep :: rest).dropWhile (· != sep) = sep :: rest := by
  rw [List.dropWhile_append_of_pos]
  · rw [List.dropWhile_cons, bne_self_eq_false]
    rfl
  · exact fun c hc => bne_iff_ne.mpr (ne_of_mem_of_not_mem hc h)

theorem dropWhile_free {α : Type} (p : α → Bool) (cs : List α) (h : ∀ c ∈ cs, p c = false) :
    cs.dropWhile p = cs := by
  cases cs with
  | nil => rfl
  | cons c cs => simp [h c List.mem_cons_self]

theorem dropWhile_eq_self_iff_head {α : Type} (p : α → Bool) (cs : List α) :
    cs.dropWhile p = cs ↔ ∀ c ∈ cs.head?, p c = false := by
  constructor
  · intro h c hc
    have hnot := List.head?_dropWhile_not p cs
    rw [h, hc] at hnot
    exact hnot
  · intro h
    cases cs with
    | nil => rfl
    | cons c cs => exact List.dropWhile_cons_of_neg (by simp [h c rfl])

/-- Trimming changes nothing exactly if neither end asks for it. -/
theorem trimmed_eq_self_iff {α : Type} (p : α → Bool) (cs : List α) :
    ((cs.dropWhile p).reverse.dropWhile p).reverse = cs ↔
      (∀ c ∈ cs.head?, p c = false) ∧ ∀ c ∈ cs.getLast?, p c = false := by
  rw [← dropWhile_eq_self_iff_head, ← List.head?_reverse, ← dropWhile_eq_self_iff_head]
  constructor
  · intro h
    have hfront : cs.dropWhile p = cs := by
      have hstart := (List.dropWhile_sublist (l := cs) p).length_le
      have hend := (List.dropWhile_sublist (l := (cs.dropWhile p).reverse) p).length_le
      have hlength := congrArg List.length h
      rw [List.length_reverse] at hend hlength
      exact (List.dropWhile_sublist p).eq_of_length (by omega)
    rw [hfront] at h
    exact ⟨hfront, List.reverse_eq_iff.mp h⟩
  · rintro ⟨hfront, hback⟩
    rw [hfront, hback, List.reverse_reverse]

theorem trimEnd_of_last (p : Char → Bool) (cs : List Char)
    (h : ∀ c, cs.getLast? = some c → p c = false) : trimEnd p cs = cs := by
  cases hr : cs.reverse with
  | nil =>
    rw [List.reverse_eq_nil_iff] at hr
    subst hr
    rfl
  | cons c rest =>
    have hlast : cs.getLast? = some c := by rw [← List.head?_reverse, hr, List.head?_cons]
    rw [trimEnd, hr, List.dropWhile_cons_of_neg (by simp [h c hlast]), ← hr, List.reverse_reverse]

theorem trimEnd_free (p : Char → Bool) (cs : List Char) (h : ∀ c ∈ cs, p c = false) :
    trimEnd p cs = cs :=
  trimEnd_of_last p cs (fun c hc => h c (List.mem_of_getLast? hc))

theorem trim_free (cs : List Char) (h : ∀ c ∈ cs, isBlank c = false) : trim cs = cs := by
  rw [trim, trimStart, dropWhile_free isBlank cs h, trimEnd_free isBlank cs h]

theorem mem_trimEnd (p : Char → Bool) (c : Char) (cs : List Char) (h : c ∈ trimEnd p cs) :
    c ∈ cs := by
  rw [trimEnd, List.mem_reverse] at h
  exact List.mem_reverse.mp ((List.dropWhile_sublist p).subset h)

theorem trimEnd_snoc (p : Char → Bool) (cs : List Char) (c : Char) (h : p c = true) :
    trimEnd p (cs ++ [c]) = trimEnd p cs := by
  rw [trimEnd, List.reverse_append, List.reverse_singleton, List.singleton_append,
    List.dropWhile_cons_of_pos h, trimEnd]

theorem trim_snoc (cs : List Char) (c : Char) (h : isBlank c = true) :
    trim (cs ++ [c]) = trim cs := by
  rw [trim, trim, trimStart, trimStart, List.dropWhile_append]
  split
  · next hblank =>
    rw [List.isEmpty_iff.mp hblank, List.dropWhile_cons_of_pos h, List.dropWhile_nil]
  · exact trimEnd_snoc isBlank _ c h

theorem mem_replaceChar (old new c : Char) (cs : List Char) (h : c ∈ replaceChar old new cs) :
    c = new ∨ (c ∈ cs ∧ c ≠ old) := by
  rw [replaceChar, List.mem_map] at h
  obtain ⟨d, hd, hc⟩ := h
  by_cases he : d = old
  · rw [if_pos (beq_iff_eq.mpr he)] at hc
    exact Or.inl hc.symm
  · rw [if_neg (by simpa using he)] at hc
    rw [← hc]
    exact Or.inr ⟨hd, he⟩

theorem replaceChar_free (old new : Char) (cs : List Char) (h : old ∉ cs) :
    replaceChar old new cs = cs := by
  rw [replaceChar]
  conv => rhs; rw [← List.map_id cs]
  apply List.map_congr_left
  intro c hc
  have hne : c ≠ old := fun he => h (he ▸ hc)
  simp [hne]

/-! ## Lists read item by item -/

theorem mapM_map_of_read {α β γ : Type} (read : β → Option γ) (write : α → β) (value : α → γ)
    (xs : List α) (h : ∀ x ∈ xs, read (write x) = some (value x)) :
    (xs.map write).mapM read = some (xs.map value) := by
  induction xs with
  | nil => rfl
  | cons x xs ih =>
    obtain ⟨hx, hxs⟩ := List.forall_mem_cons.mp h
    simp [List.mapM_cons, hx, ih hxs]

/-! ## Entries found by their key -/

theorem lookup_filter_other {κ ε : Type} [BEq κ] [LawfulBEq κ] {entries : List (κ × ε)}
    {key other : κ} (h : other ≠ key) :
    (entries.filter (·.1 != key)).lookup other = entries.lookup other := by
  induction entries with
  | nil => rfl
  | cons e entries ih =>
    obtain ⟨own, entry⟩ := e
    by_cases hs : own = key
    · have ho : (other == own) = false := beq_false_of_ne (hs ▸ h)
      rw [List.filter_cons_of_neg (by simp [hs]), ih, List.lookup_cons, ho]
    · rw [List.filter_cons_of_pos (by simp [hs]), List.lookup_cons, List.lookup_cons, ih]

/-! ## Numerals -/

theorem digit_of_mem_digits (n : Nat) (c : Char) (h : c ∈ digits n) : c.isDigit = true :=
  Nat.isDigit_of_mem_toDigits (by decide) (by decide) h

theorem not_mem_digits (n : Nat) (c : Char) (h : c.isDigit = false) : c ∉ digits n :=
  fun hc => Bool.false_ne_true (h.symm.trans (digit_of_mem_digits n c hc))

theorem digits_ne_nil (n : Nat) : digits n ≠ [] := Nat.toDigits_ne_nil

theorem digitValue_digitChar (d : Nat) (h : d < 10) : digitValue (Nat.digitChar d) = d := by
  have hall : ∀ d < 10, digitValue (Nat.digitChar d) = d := by decide
  exact hall d h

theorem numeralValue_snoc (cs : List Char) (c : Char) :
    numeralValue (cs ++ [c]) = 10 * numeralValue cs + digitValue c := by
  simp [numeralValue, List.foldl_append]

theorem numeralValue_digits (n : Nat) : numeralValue (digits n) = n := by
  induction n using Nat.strongRecOn with
  | ind n ih =>
    rw [digits, Nat.toDigits_eq_if (by decide)]
    by_cases hn : n < 10
    · rw [if_pos hn]
      have h := numeralValue_snoc [] (Nat.digitChar n)
      rw [List.nil_append, digitValue_digitChar n hn] at h
      rw [h, numeralValue]
      simp
    · have h := ih (n / 10) (by omega)
      rw [digits] at h
      rw [if_neg hn, numeralValue_snoc, h, digitValue_digitChar (n % 10) (by omega)]
      omega

theorem readNumeral_digits (bound n : Nat) (h : n ≤ bound) :
    readNumeral? bound (digits n) = some n := by
  have hall : (digits n).all Char.isDigit = true :=
    List.all_eq_true.mpr (fun c hc => digit_of_mem_digits n c hc)
  have hplus : ∀ rest, digits n ≠ '+' :: rest := by
    intro rest he
    exact not_mem_digits n '+' (by decide) (he ▸ List.mem_cons_self)
  cases hd : digits n with
  | nil => exact absurd hd (digits_ne_nil n)
  | cons c cs =>
    have hc : c ≠ '+' := fun he => hplus cs (by rw [hd, he])
    have hv := numeralValue_digits n
    rw [hd] at hall hv
    unfold readNumeral?
    simp [hc, hall, hv, h]

/-- ASCII digits are no blanks. -/
theorem isBlank_digit (c : Char) (h : c.isDigit = true) : isBlank c = false := by
  simp only [Char.isDigit, Bool.and_eq_true, decide_eq_true_eq] at h
  have h1 : 48 ≤ c.toNat := h.1
  have h2 : c.toNat ≤ 57 := h.2
  unfold isBlank
  rw [if_pos (by omega)]
  simp only [Bool.or_eq_false_iff, Bool.and_eq_false_iff, decide_eq_false_iff_not,
    beq_eq_false_iff_ne]
  omega

end CodeNav.Text
