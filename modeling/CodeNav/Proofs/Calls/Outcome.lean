import CodeNav.Workspace.Service

/-! What a search for calls comes to: the four ways in which it can end, each with the reports it
makes and what it does to the history. -/
namespace CodeNav.Service
set_option autoImplicit false

variable (s : Service) (disk : Disk) (doc : Document) (pos : Position)

/-- The calls of a target in all files that the workspace lists. -/
def allCallsOf (target : Target) : List Reference :=
  s.callsOf disk target doc pos (s.admission.discover disk)

/-- The reports, the outcome and the service of a search. Files are gone through only for a target,
and only a search that finds calls is remembered. -/
inductive Search : List (Nat × Nat) × ReferencesOutcome × Service → Prop
  | noWord (hword : doc.word? pos = none) : Search ([], .noWord, s)
  | noTarget (word : String) (hword : doc.word? pos = some word) (htarget : target? doc pos = none) :
      Search ([], .noTarget word, s)
  | noMatch (target : Target) (htarget : target? doc pos = some target)
      (hcalls : s.allCallsOf disk doc pos target = []) :
      Search (CallSearch.progress (s.admission.discover disk).length, .noMatch target, s)
  | found (target : Target) (htarget : target? doc pos = some target)
      (hcalls : s.allCallsOf disk doc pos target ≠ []) :
      Search (CallSearch.progress (s.admission.discover disk).length,
        .found { target, references := s.allCallsOf disk doc pos target },
        { s with history :=
            s.history.push { target, references := s.allCallsOf disk doc pos target } })

theorem search_findReferences : s.Search disk doc pos (s.findReferences disk doc pos) := by
  rw [findReferences]
  cases hword : doc.word? pos with
  | none => exact .noWord hword
  | some word =>
    cases htarget : target? doc pos with
    | none => exact .noTarget word hword htarget
    | some target =>
      simp only
      split
      · next hcalls => exact .noMatch target htarget hcalls
      · next hcalls =>
        exact .found target htarget hcalls

theorem target_of_word_none (hword : doc.word? pos = none) : target? doc pos = none := by
  have hrange : doc.wordRange? pos = none := Option.map_eq_none_iff.mp hword
  rw [target?, hrange, Option.bind_none]

/-- A search finds a call exactly if there is a target and the call is one of its calls. -/
theorem found_iff (r : Reference) :
    (∃ reports set after, s.findReferences disk doc pos = (reports, .found set, after) ∧
      r ∈ set.references) ↔
    ∃ target, target? doc pos = some target ∧ r ∈ s.allCallsOf disk doc pos target := by
  have hsearch := s.search_findReferences disk doc pos
  constructor
  · intro h
    obtain ⟨reports, set, after, hfound, hr⟩ := h
    rw [hfound] at hsearch
    cases hsearch with
    | found target htarget hcalls => exact ⟨target, htarget, hr⟩
  · intro h
    obtain ⟨target, htarget, hr⟩ := h
    generalize hresult : s.findReferences disk doc pos = result at hsearch
    cases hsearch with
    | noWord hword =>
      rw [target_of_word_none doc pos hword] at htarget
      cases htarget
    | noTarget word _ hnone =>
      rw [hnone] at htarget
      cases htarget
    | noMatch other hother hcalls =>
      obtain rfl : other = target := Option.some.inj (hother.symm.trans htarget)
      rw [hcalls] at hr
      exact absurd hr List.not_mem_nil
    | found other hother hcalls =>
      obtain rfl : other = target := Option.some.inj (hother.symm.trans htarget)
      exact ⟨_, _, _, rfl, hr⟩

end CodeNav.Service
