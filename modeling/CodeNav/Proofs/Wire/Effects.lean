import CodeNav.Proofs.Wire.Framing

/-! What a request or the news of a file changes. A request that is no rebuild, and fills no empty
table, leaves the table and the disk as they were; the history changes by a search that finds calls,
by a choice of an entry that is there and by a step back, and by nothing else. -/
namespace CodeNav
set_option autoImplicit false

/-- The set lies on the history as it was, less the oldest set if the history was full. -/
structure History.OnTop (before : History) (set : ReferenceSet) (after : History) : Prop where
  room : before.sets.length < 32 → after.sets = set :: before.sets
  full : before.sets.length = 32 → after.sets = set :: before.sets.dropLast

theorem History.onTop_push (h : History) (set : ReferenceSet) : h.OnTop set (h.push set) where
  room hlen := List.take_of_length_le (Nat.succ_le_of_lt hlen)
  full hlen := by
    have htake : (set :: h.sets).take (31 + 1) = set :: h.sets.take 31 := List.take_succ_cons
    have hlast : h.sets.dropLast = h.sets.take 31 := by rw [List.dropLast_eq_take, hlen]
    rw [hlast]
    exact htake

/-- How the history turns with a request and its last response. The cases exclude each other. -/
inductive History.Turns (request : Request) (final : Response) (before : History) : History → Prop
  | pushed (cursor : Cursor) (set : ReferenceSet) (after : History)
      (hrequest : request = .findReferences cursor) (hfinal : final = .references (.found set))
      (hnew : set.lastSelected = none) (htop : before.OnTop set after) :
      Turns request final before after
  | chosen (index : Nat) (top : ReferenceSet) (older : List ReferenceSet)
      (hrequest : request = .selectReference index) (hsets : before.sets = top :: older)
      (hindex : index < top.references.length)
      (hfinal : final = .selected (top.references[index]?.map (·.location))) :
      Turns request final before ⟨{ top with lastSelected := some index } :: older⟩
  | dropped (top : ReferenceSet) (older : List ReferenceSet) (hrequest : request = .popReferences)
      (hsets : before.sets = top :: older) (hfinal : final = .lastReferences older.head?) :
      Turns request final before ⟨older⟩
  | kept (hsearch : ∀ cursor set, request = .findReferences cursor →
        final ≠ .references (.found set))
      (hchoice : ∀ index top older, request = .selectReference index →
        before.sets = top :: older → top.references.length ≤ index)
      (hback : request = .popReferences → before.sets = []) : Turns request final before before

namespace History

theorem Turns.of_failure {request : Request} {h after : History} {message : String}
    (hturns : h.Turns request (.failure message) after) : after = h := by
  cases hturns with
  | pushed _ _ _ _ hfinal => cases hfinal
  | chosen _ _ _ _ _ _ hfinal => cases hfinal
  | dropped _ _ _ _ hfinal => cases hfinal
  | kept => rfl

theorem turns_select (h : History) (index : Nat) :
    h.Turns (.selectReference index) (.selected ((h.entry? index).map (·.location)))
      (h.select index) := by
  obtain ⟨sets⟩ := h
  cases sets with
  | nil =>
    refine .kept nofun ?_ nofun
    intro _ _ _ _ hsets
    cases hsets
  | cons top older =>
    rw [select]
    simp only
    split
    · next hlt => exact .chosen index top older rfl rfl hlt rfl
    · next hge =>
      refine .kept nofun ?_ nofun
      intro other set rest hrequest hsets
      cases hrequest
      cases hsets
      omega

theorem turns_pop (h : History) : h.Turns .popReferences (.lastReferences h.pop.top?) h.pop := by
  obtain ⟨sets⟩ := h
  cases sets with
  | nil => exact .kept nofun nofun (fun _ => rfl)
  | cons top older => exact .dropped top older rfl rfl rfl

end History

namespace Service

/-! ## Commands -/

theorem history_goto (grammar : Grammar) (s : Service) (disk : Disk) (doc : Document)
    (pos : Position) : (s.goto grammar disk doc pos).service.history = s.history := by
  rw [goto]
  split <;> rfl

theorem goto_of_table (grammar : Grammar) (s : Service) (disk : Disk) (doc : Document)
    (pos : Position) (htable : s.table ≠ []) :
    (s.goto grammar disk doc pos).service = s ∧ (s.goto grammar disk doc pos).disk = disk := by
  rw [goto, if_neg (fun hempty => htable (List.isEmpty_iff.mp hempty))]
  exact ⟨rfl, rfl⟩

theorem turns_findReferences (s : Service) (disk : Disk) (doc : Document) (cursor : Cursor) :
    let found := s.findReferences disk doc cursor.position
    found.2.2 = { s with table := found.2.2.table, history := found.2.2.history } ∧
    found.2.2.table = s.table ∧
    s.history.Turns (.findReferences cursor) (.references found.2.1) found.2.2.history := by
  intro found
  have hsearch : s.Search disk doc cursor.position found :=
    s.search_findReferences disk doc cursor.position
  generalize found = result at hsearch
  cases hsearch with
  | noWord | noTarget | noMatch =>
    refine ⟨rfl, rfl, .kept ?_ nofun nofun⟩
    intro _ set _ hfinal
    cases hfinal
  | found target =>
    exact ⟨rfl, rfl, .pushed cursor _ _ rfl rfl rfl (s.history.onTop_push _)⟩

/-! ## Requests -/

/-- The requests that go through the files and make the table and the index anew. -/
def Reindexes (s : Service) (disk : Disk) (request : Request) : Prop :=
  request = .rebuildIndex ∨
    ∃ cursor doc, request = .gotoDefinition cursor ∧ s.table = [] ∧
      s.documentOf disk cursor = .ok doc

/-- What a request does to the service and the disk, given its responses. -/
structure Effect (s : Service) (disk : Disk) (request : Request) (after : Dispatch) : Prop where
  rest : after.service =
    { s with table := after.service.table, history := after.service.history }
  table : ¬ s.Reindexes disk request → after.service.table = s.table ∧ after.disk = disk
  history : ∃ final, after.responses.getLast? = some final ∧
    s.history.Turns request final after.service.history

theorem effect_onDocument {request : Request} (s : Service) (disk : Disk) (cursor : Cursor)
    (answer : Document → Dispatch)
    (hchoice : ∀ index, request ≠ .selectReference index) (hback : request ≠ .popReferences)
    (hanswer : ∀ doc, s.documentOf disk cursor = .ok doc → s.Effect disk request (answer doc)) :
    s.Effect disk request (s.onDocument disk cursor answer) := by
  rcases s.onDocument_cases disk cursor answer with ⟨cause, -, heq⟩ | ⟨doc, hdoc, heq⟩
  · rw [heq]
    refine ⟨rfl, fun _ => ⟨rfl, rfl⟩, _, rfl, .kept ?_ ?_ ?_⟩
    · intro _ _ _ hfinal
      cases hfinal
    · intro index _ _ hrequest
      exact absurd hrequest (hchoice index)
    · intro hrequest
      exact absurd hrequest hback
  · rw [heq]
    exact hanswer doc hdoc

theorem effect_dispatch (grammar : Grammar) (s : Service) (disk : Disk) (request : Request) :
    s.Effect disk request (s.dispatch grammar disk request) := by
  cases request with
  | rebuildIndex =>
    obtain ⟨reports, final, hresponses, -⟩ := s.framed_dispatch grammar disk .rebuildIndex
    refine ⟨rfl, fun hnot => absurd (.inl rfl) hnot, final, ?_, .kept nofun nofun nofun⟩
    rw [hresponses, List.getLast?_append, List.getLast?_singleton, Option.some_or]
  | gotoDefinition cursor =>
    refine s.effect_onDocument disk cursor _ nofun nofun (fun doc hdoc => ?_)
    have hhistory := s.history_goto grammar disk doc cursor.position
    refine ⟨?_, ?_, _, rfl, ?_⟩
    · show (s.goto grammar disk doc cursor.position).service = _
      rw [goto]
      split <;> rfl
    · intro hnot
      have htable : s.table ≠ [] := fun hempty =>
        hnot (.inr ⟨cursor, doc, rfl, hempty, hdoc⟩)
      obtain ⟨hservice, hdisk⟩ := s.goto_of_table grammar disk doc cursor.position htable
      exact ⟨congrArg Service.table hservice, hdisk⟩
    · show s.history.Turns _ _ (s.goto grammar disk doc cursor.position).service.history
      rw [hhistory]
      exact .kept nofun nofun nofun
  | findReferences cursor =>
    refine s.effect_onDocument disk cursor _ nofun nofun (fun doc _ => ?_)
    obtain ⟨hrest, htable, hturns⟩ := s.turns_findReferences disk doc cursor
    exact ⟨hrest, fun _ => ⟨htable, rfl⟩, _, List.getLast?_concat, hturns⟩
  | showLastReferences => exact ⟨rfl, fun _ => ⟨rfl, rfl⟩, _, rfl, .kept nofun nofun nofun⟩
  | selectReference index =>
    exact ⟨rfl, fun _ => ⟨rfl, rfl⟩, _, rfl, s.history.turns_select index⟩
  | popReferences => exact ⟨rfl, fun _ => ⟨rfl, rfl⟩, _, rfl, s.history.turns_pop⟩
  | complete cursor | signatureHelp cursor =>
    refine s.effect_onDocument disk cursor _ nofun nofun (fun doc _ => ?_)
    exact ⟨rfl, fun _ => ⟨rfl, rfl⟩, _, rfl, .kept nofun nofun nofun⟩
  | shutdown => exact ⟨rfl, fun _ => ⟨rfl, rfl⟩, _, rfl, .kept nofun nofun nofun⟩

/-! ## News of files -/

/-- What the news of a file does to the service and the disk. -/
structure Settles (s : Service) (disk : Disk) (after : Step (Except ServiceError Bool)) : Prop where
  rest : after.service = { s with table := after.service.table }
  idle : after.result = .ok false → after.service.table = s.table ∧ after.disk = disk

theorem settles_handleEvent (grammar : Grammar) (s : Service) (disk : Disk) (event : FileEvent) :
    s.Settles disk (s.handleEvent grammar disk event) := by
  have hunchanged : s.Settles disk ⟨.ok false, disk, s⟩ := ⟨rfl, fun _ => ⟨rfl, rfl⟩⟩
  -- An update and a removal of a file tell that the index changed, unless they fail.
  have hfile (op : Shelf → Except StoreError Nat × Shelf) : s.Settles disk
      ⟨(s.onShelf disk op).result.map fun _ => true, (s.onShelf disk op).disk,
        (s.onShelf disk op).service⟩ := by
    refine ⟨rfl, fun hresult => ?_⟩
    simp only at hresult
    cases hop : (s.onShelf disk op).result with
    | ok count => simp [hop, Except.map] at hresult
    | error cause => simp [hop, Except.map] at hresult
  have hdirectory (dir : String) : s.Settles disk
      ⟨(s.onShelf disk (s.store.removeDirectory dir)).result.map fun removed => 0 < removed,
        (s.onShelf disk (s.store.removeDirectory dir)).disk,
        (s.onShelf disk (s.store.removeDirectory dir)).service⟩ := by
    refine ⟨rfl, fun hresult => ?_⟩
    simp only [onShelf] at hresult ⊢
    have hzero : (s.store.removeDirectory dir ⟨disk, s.table⟩).1 = .ok 0 := by
      cases hop : (s.store.removeDirectory dir ⟨disk, s.table⟩).1 with
      | ok count =>
        rw [hop] at hresult
        have hcount : ¬ 0 < count := of_decide_eq_false (Except.ok.inj hresult)
        rw [Nat.eq_zero_of_not_pos hcount]
      | error cause =>
        rw [hop] at hresult
        cases hresult
    rw [s.store.removeDirectory_of_zero dir ⟨disk, s.table⟩ hzero]
    exact ⟨rfl, rfl⟩
  cases event with
  | changed path =>
    rw [handleEvent]
    cases s.admission.relative? path with
    | none => exact hunchanged
    | some file =>
      simp only
      split
      · exact hfile (s.store.update grammar file)
      · exact hunchanged
  | removed path =>
    rw [handleEvent]
    cases s.admission.relative? path with
    | none => exact hunchanged
    | some file =>
      simp only
      split
      · exact hfile (s.store.removeFile file)
      · exact hdirectory file

/-- A request changes nothing but the table and the history. The table and the disk stay as they
were unless the request reindexes; the history turns as the request and its last response say, and
not at all if that is an error. The news of a file leaves the history alone, and the table and the
disk too if it is told that nothing changed. -/
theorem request_changes_only (grammar : Grammar) (s : Service) (disk : Disk) :
    (∀ request,
      let after := s.dispatch grammar disk request
      after.service =
        { s with table := after.service.table, history := after.service.history } ∧
      (¬ s.Reindexes disk request → after.service.table = s.table ∧ after.disk = disk) ∧
      (∃ final, after.responses.getLast? = some final ∧
        s.history.Turns request final after.service.history) ∧
      ∀ message, after.responses.getLast? = some (.failure message) →
        after.service.history = s.history) ∧
    ∀ event,
      let after := s.handleEvent grammar disk event
      after.service.history = s.history ∧
      (after.result = .ok false → after.service.table = s.table ∧ after.disk = disk) := by
  constructor
  · intro request after
    have heffect := s.effect_dispatch grammar disk request
    refine ⟨heffect.rest, heffect.table, heffect.history, fun message herror => ?_⟩
    obtain ⟨final, hfinal, hturns⟩ := heffect.history
    obtain rfl : final = .failure message := Option.some.inj (hfinal.symm.trans herror)
    exact hturns.of_failure
  · intro event after
    have hsettles := s.settles_handleEvent grammar disk event
    have hhistory : after.service.history = s.history := by
      rw [hsettles.rest]
    exact ⟨hhistory, hsettles.idle⟩

end Service

end CodeNav
