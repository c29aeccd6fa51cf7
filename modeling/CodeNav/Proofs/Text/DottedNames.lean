import CodeNav.Proofs.Text.Pieces

/-! Names with dots: when a name belongs to an owner, where one text occurs in another, and that a
dotted name is the same whether its last part is added whole or cut at its own dots. -/
namespace CodeNav.Text
set_option autoImplicit false

/-! ## Owners and occurrences -/

theorem isMemberName_iff (name owner member : String) :
    isMemberName name owner member = true ↔ name = owner ++ "." ++ member := by
  rw [isMemberName, beq_iff_eq, ← String.toList_inj, String.toList_append, String.toList_append,
    List.append_assoc]
  rfl

theorem occursIn_iff (part cs : List Char) : occursIn part cs = true ↔ part <:+: cs := by
  induction cs with
  | nil => rw [occursIn, List.isEmpty_iff, List.infix_nil]
  | cons c cs ih =>
    rw [occursIn, Bool.or_eq_true, List.isPrefixOf_iff_prefix, ih, List.infix_cons_iff]

/-! ## Joining with dots -/

theorem joinWith_ends (sep : Char) (front : List (List Char)) (body tail : List Char) :
    ∃ text, joinWith sep (front ++ [body ++ tail]) = text ++ tail := by
  by_cases hfront : front = []
  · exact ⟨body, by rw [hfront]; rfl⟩
  · refine ⟨joinWith sep front ++ sep :: body, ?_⟩
    rw [joinWith_append sep front _ hfront (List.cons_ne_nil _ _), List.append_assoc]
    rfl

/-- The dots of the last part count as dots of the whole name. -/
theorem joinDots_append_splitDots (scope : List String) (name : String) :
    joinDots (scope ++ splitDots name) = joinDots (scope ++ [name]) := by
  have hpieces : (splitDots name).map String.toList = splitOn '.' name.toList := by
    rw [splitDots, List.map_map]
    conv => rhs; rw [← List.map_id (splitOn '.' name.toList)]
    apply List.map_congr_left
    intro piece _
    exact String.toList_ofList
  rw [joinDots, joinDots, List.map_append, List.map_append, hpieces, List.map_singleton]
  cases scope with
  | nil => rw [List.map_nil, List.nil_append, List.nil_append, joinWith_splitOn]; rfl
  | cons part parts =>
    rw [joinWith_append '.' _ _ (by simp) (splitOn_ne_nil '.' name.toList), joinWith_splitOn,
      joinWith_append '.' _ _ (by simp) (List.cons_ne_nil _ _)]
    rfl

theorem joinDots_concat (scope : List String) (name : String) (h : scope ≠ []) :
    joinDots (scope ++ [name]) = joinDots scope ++ "." ++ name := by
  rw [← String.toList_inj, String.toList_append, String.toList_append, joinDots, joinDots,
    String.toList_ofList, String.toList_ofList, List.map_append, List.map_singleton,
    joinWith_append '.' _ _ (by simp [h]) (List.cons_ne_nil _ _), List.append_assoc]
  rfl

end CodeNav.Text
