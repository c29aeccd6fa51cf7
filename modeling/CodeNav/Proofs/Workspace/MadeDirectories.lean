import CodeNav.Proofs.Workspace.DiskFrame
import CodeNav.Proofs.Workspace.PathText

/-! Directories made along a path. A path passes one place for each of its parts; where none of these
is a file, all of them are directories afterwards, and nothing else has changed. -/
namespace CodeNav.Disk
set_option autoImplicit false

/-! ## The way of a path -/

/-- Where a part of a path leads, if nothing stands in the way. -/
def stepTo (place : Place) (part : Path.Part) : Place :=
  if Path.isFiller part then place
  else if part = Path.parent then place.dropLast
  else place ++ [part]

/-- The places that a path passes, its start and its end with them. -/
def stops (place : Place) : List Path.Part → List Place
  | [] => [place]
  | part :: rest => place :: stops (stepTo place part) rest

theorem mem_stops_start (place : Place) (parts : List Path.Part) : place ∈ stops place parts := by
  cases parts <;> exact List.mem_cons_self

theorem follow_directory (disk : Disk) (place : Place) (part : Path.Part) (rest : List Path.Part)
    (h : disk.entry? place = some .directory) :
    disk.follow place (part :: rest) = disk.follow (stepTo place part) rest := by
  simp only [follow, h, stepTo]
  split
  · rfl
  · split <;> rfl

theorem follow_cons_ok (disk : Disk) (place found : Place) (part : Path.Part)
    (rest : List Path.Part) (h : disk.follow place (part :: rest) = .ok found) :
    disk.entry? place = some .directory := by
  rw [follow] at h
  split at h
  · cases h
  · cases h
  · assumption

/-- Before its last part a path has to pass directories only. -/
theorem follow_snoc_iff (disk : Disk) (place found : Place) (parts : List Path.Part)
    (last : Path.Part) :
    disk.follow place (parts ++ [last]) = .ok found ↔
      (∀ spot ∈ stops place parts, disk.entry? spot = some .directory) ∧
        found = stepTo (parts.foldl stepTo place) last := by
  induction parts generalizing place with
  | nil =>
    rw [List.nil_append, stops, List.forall_mem_singleton, List.foldl_nil]
    constructor
    · intro h
      have hplace := disk.follow_cons_ok place found last [] h
      rw [follow_directory disk place last [] hplace, follow] at h
      exact ⟨hplace, (Except.ok.inj h).symm⟩
    · rintro ⟨hplace, rfl⟩
      rw [follow_directory disk place last [] hplace, follow]
  | cons part parts ih =>
    rw [List.cons_append, stops, List.forall_mem_cons, List.foldl_cons, and_assoc,
      ← ih (stepTo place part)]
    constructor
    · intro h
      have hplace := disk.follow_cons_ok place found part _ h
      rw [follow_directory disk place part _ hplace] at h
      exact ⟨hplace, h⟩
    · rintro ⟨hplace, h⟩
      rwa [follow_directory disk place part _ hplace]

/-! ## Rooted places -/

/-- The place and all places above it are directories. -/
def Rooted (disk : Disk) (place : Place) : Prop :=
  ∀ front, front <+: place → disk.entry? front = some .directory

theorem rooted_nil (disk : Disk) : disk.Rooted [] := by
  intro front hfront
  rw [List.prefix_nil.mp hfront]
  exact disk.entry_root

theorem Rooted.stepTo {disk : Disk} {place : Place} (h : disk.Rooted place) (part : Path.Part)
    (hnext : disk.entry? (stepTo place part) = some .directory) :
    disk.Rooted (stepTo place part) := by
  intro front hfront
  rw [Disk.stepTo] at hfront hnext
  split at hfront
  · exact h front hfront
  · split at hfront
    · exact h front (hfront.trans (List.dropLast_prefix place))
    · next hfiller hparent =>
      rw [if_neg hfiller, if_neg hparent] at hnext
      rcases List.prefix_concat_iff.mp hfront with rfl | habove
      · exact hnext
      · exact h front habove

/-! ## Making directories -/

def makePresent (disk : Disk) (spot : Place) : Disk :=
  if (disk.entry? spot).isSome then disk else disk.put spot .directory

theorem entry_makePresent_self (disk : Disk) (spot : Place) :
    entry? (disk.makePresent spot) spot = some ((disk.entry? spot).getD .directory) := by
  rw [makePresent]
  cases hentry : disk.entry? spot with
  | none =>
    have hne : spot ≠ [] := disk.ne_root_of_entry spot (by rw [hentry]; simp)
    exact disk.entry_put_self spot .directory hne
  | some entry => exact hentry

theorem entry_makePresent_other (disk : Disk) (spot other : Place) (h : other ≠ spot) :
    entry? (disk.makePresent spot) other = disk.entry? other := by
  rw [makePresent]
  split
  · rfl
  · exact disk.entry_put_other spot other .directory h

theorem entry_makePresent_of_some (disk : Disk) (spot other : Place) (entry : Entry)
    (h : disk.entry? other = some entry) :
    entry? (disk.makePresent spot) other = some entry := by
  by_cases hother : other = spot
  · rw [← hother, entry_makePresent_self, h]
    rfl
  · rw [entry_makePresent_other disk spot other hother, h]

theorem current_makeAlong (disk : Disk) (place : Place) (parts : List Path.Part) :
    (disk.makeAlong place parts).current = disk.current := by
  induction parts generalizing disk place with
  | nil => rfl
  | cons part rest ih =>
    rw [makeAlong]
    split
    · exact ih disk place
    · split
      · exact ih disk place.dropLast
      · rw [ih]
        split <;> rfl

/-- What is on the disk stays as it is. -/
theorem entry_makeAlong_of_some (disk : Disk) (place other : Place) (parts : List Path.Part)
    (entry : Entry) (h : disk.entry? other = some entry) :
    entry? (disk.makeAlong place parts) other = some entry := by
  induction parts generalizing disk place with
  | nil => exact h
  | cons part rest ih =>
    rw [makeAlong]
    split
    · exact ih disk place h
    · split
      · exact ih disk place.dropLast h
      · exact ih _ _ (disk.entry_makePresent_of_some (place ++ [part]) other entry h)

theorem makeAlong_cons {disk : Disk} {place : Place} (h : disk.Rooted place) (part : Path.Part)
    (rest : List Path.Part) :
    disk.makeAlong place (part :: rest) =
      (disk.makePresent (stepTo place part)).makeAlong (stepTo place part) rest := by
  -- A filler and a step to the parent lead to places that are there.
  have hpresent (spot : Place) (hspot : spot <+: place) : disk.makePresent spot = disk := by
    rw [makePresent, h spot hspot]
    rfl
  rw [makeAlong, stepTo]
  split
  · rw [hpresent place List.prefix_rfl]
  · split
    · rw [hpresent _ (List.dropLast_prefix place)]
    · rfl

theorem entry_makeAlong (disk : Disk) (place spot : Place) (parts : List Path.Part)
    (hrooted : disk.Rooted place)
    (hfree : ∀ other ∈ stops place parts, ∀ bytes, disk.entry? other ≠ some (.file bytes)) :
    entry? (disk.makeAlong place parts) spot =
      if spot ∈ stops place parts then some .directory else disk.entry? spot := by
  induction parts generalizing disk place with
  | nil =>
    rw [makeAlong, stops]
    split
    · next hspot =>
      rw [List.mem_singleton.mp hspot]
      exact hrooted place List.prefix_rfl
    · rfl
  | cons part rest ih =>
    obtain ⟨-, hfreeRest⟩ := List.forall_mem_cons.mp hfree
    have hnext : entry? (disk.makePresent (stepTo place part)) (stepTo place part) =
        some .directory := by
      rw [entry_makePresent_self]
      cases hentry : disk.entry? (stepTo place part) with
      | none => rfl
      | some entry =>
        cases entry with
        | directory => rfl
        | file bytes => exact absurd hentry (hfreeRest _ (mem_stops_start _ rest) bytes)
    have hkept : (disk.makePresent (stepTo place part)).Rooted place := fun front hfront =>
      disk.entry_makePresent_of_some _ front _ (hrooted front hfront)
    rw [makeAlong_cons hrooted, ih _ _ (hkept.stepTo part hnext)]
    · by_cases hrest : spot ∈ stops (stepTo place part) rest
      · have hspot : spot ∈ stops place (part :: rest) := List.mem_cons_of_mem place hrest
        rw [if_pos hrest, if_pos hspot]
      · have hother : spot ≠ stepTo place part := fun hsame => hrest (hsame ▸ mem_stops_start _ rest)
        have hspot : spot ∈ stops place (part :: rest) ↔ spot = place := by
          rw [stops, List.mem_cons, or_iff_left hrest]
        rw [if_neg hrest, entry_makePresent_other disk _ spot hother]
        simp only [hspot]
        split
        · next hsame =>
          rw [hsame]
          exact hrooted place List.prefix_rfl
        · rfl
    · intro other hother bytes
      by_cases hsame : other = stepTo place part
      · rw [hsame, hnext]
        simp
      · rw [entry_makePresent_other disk _ other hsame]
        exact hfreeRest other hother bytes

/-- After directories were made along a path, a name below it is reached exactly if no file stood
in the way. -/
theorem follow_makeAlong_iff (disk : Disk) (place found : Place) (parts : List Path.Part)
    (last : Path.Part) (hrooted : disk.Rooted place) :
    (disk.makeAlong place parts).follow place (parts ++ [last]) = .ok found ↔
      (∀ spot ∈ stops place parts, ∀ bytes, disk.entry? spot ≠ some (.file bytes)) ∧
        found = stepTo (parts.foldl stepTo place) last := by
  rw [follow_snoc_iff]
  refine and_congr_left fun _ => ?_
  constructor
  · intro h spot hspot bytes hfile
    have hkept := disk.entry_makeAlong_of_some place spot parts _ hfile
    rw [h spot hspot] at hkept
    cases hkept
  · intro hfree spot hspot
    rw [disk.entry_makeAlong place spot parts hrooted hfree, if_pos hspot]

end CodeNav.Disk
