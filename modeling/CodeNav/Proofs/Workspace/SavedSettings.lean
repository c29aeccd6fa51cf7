import CodeNav.Proofs.Json.ReadBack
import CodeNav.Proofs.Text.Utf8
import CodeNav.Proofs.Workspace.MadeDirectories
import CodeNav.Workspace.Settings

/-! Settings that were saved are loaded again, and what is taken out of their JSON comes back as
defaults. Saving succeeds unless something stands in the way of the file. -/
namespace CodeNav
set_option autoImplicit false
open Text

namespace Json

/-! ## Keys left out -/

mutual

/-- The value without the fields that are gone, each known by its key behind those that lead to it.
Objects within arrays stay as they are. -/
def without (gone : List String → Bool) (path : List String) : Json → Json
  | .obj fields => .obj (withoutFields gone path fields)
  | j => j

def withoutFields (gone : List String → Bool) (path : List String) :
    List (String × Json) → List (String × Json)
  | [] => []
  | (key, value) :: fields =>
    if gone (path ++ [key]) then withoutFields gone path fields
    else (key, without gone (path ++ [key]) value) :: withoutFields gone path fields

end

section

variable (gone : List String → Bool) (path : List String)

theorem without_strings (items : List String) :
    (strings items).without gone path = strings items := by
  rw [strings, without]
  simp

theorem filter_withoutFields (key : String) (fields : List (String × Json)) :
    (withoutFields gone path fields).filter (·.1 == key) =
      if gone (path ++ [key]) then []
      else (fields.filter (·.1 == key)).map fun f => (f.1, f.2.without gone (path ++ [key])) := by
  induction fields with
  | nil => simp [withoutFields]
  | cons field fields ih =>
    obtain ⟨other, value⟩ := field
    rw [withoutFields]
    by_cases hkey : other = key
    · subst hkey
      by_cases hgone : gone (path ++ [other]) = true
      · rw [if_pos hgone, ih, if_pos hgone, if_pos hgone]
      · rw [if_neg hgone, List.filter_cons_of_pos (by simp), ih, if_neg hgone, if_neg hgone,
          List.filter_cons_of_pos (by simp), List.map_cons]
    · rw [List.filter_cons_of_neg (by simpa using hkey), ← ih]
      split
      · rfl
      · rw [List.filter_cons_of_neg (by simpa using hkey)]

theorem filter_key (fields : List (String × Json)) (field : String × Json)
    (hkeys : (fields.map (·.1)).Nodup) (h : field ∈ fields) :
    fields.filter (·.1 == field.1) = [field] := by
  induction fields with
  | nil => cases h
  | cons head fields ih =>
    rw [List.map_cons, List.nodup_cons] at hkeys
    rcases List.mem_cons.mp h with rfl | hrest
    · rw [List.filter_cons_of_pos (by simp), List.filter_eq_nil_iff.mpr]
      intro other hother hsame
      exact hkeys.1 (beq_iff_eq.mp hsame ▸ List.mem_map_of_mem hother)
    · have hother : head.1 ≠ field.1 := fun hsame => hkeys.1 (hsame ▸ List.mem_map_of_mem hrest)
      rw [List.filter_cons_of_neg (by simpa using hother), ih hkeys.2 hrest]

/-- The fields of an object that are not gone are found under their keys. -/
theorem structFields_without (fields : List (String × Json)) (keys : List String)
    (hkeys : fields.map (·.1) = keys) (hdistinct : keys.Nodup) :
    ((obj fields).without gone path).structFields? keys =
      some (fields.map fun f =>
        if gone (path ++ [f.1]) then none else some (f.2.without gone (path ++ [f.1]))) := by
  subst hkeys
  have hobject : ((obj fields).without gone path).structFields? (fields.map (·.1)) =
      (fields.map (·.1)).mapM (field? (withoutFields gone path fields)) := by
    rw [without]
    rfl
  rw [hobject]
  apply mapM_map_of_read
  intro field hfield
  rw [field?, filter_withoutFields, filter_key fields field hdistinct hfield]
  by_cases hgone : gone (path ++ [field.1]) = true
  · rw [if_pos hgone, if_pos hgone]
  · rw [if_neg hgone, if_neg hgone]
    rfl

theorem mem_withoutFields (field : String × Json) (fields : List (String × Json))
    (h : field ∈ withoutFields gone path fields) :
    ∃ other ∈ fields, field.2 = other.2.without gone (path ++ [other.1]) := by
  induction fields with
  | nil => cases h
  | cons head fields ih =>
    rw [withoutFields] at h
    split at h
    · obtain ⟨other, hother, hvalue⟩ := ih h
      exact ⟨other, List.mem_cons_of_mem head hother, hvalue⟩
    · rcases List.mem_cons.mp h with rfl | hrest
      · exact ⟨head, List.mem_cons_self, rfl⟩
      · obtain ⟨other, hother, hvalue⟩ := ih hrest
        exact ⟨other, List.mem_cons_of_mem head hother, hvalue⟩

end

theorem Plain.without {j : Json} (h : j.Plain) (gone : List String → Bool) (path : List String) :
    (j.without gone path).Plain := by
  induction h generalizing path with
  | null => exact .null
  | bool b => exact .bool b
  | nat n => exact .nat n
  | str s => exact .str s
  | arr h _ => exact .arr h
  | @obj fields _ ih =>
    refine .obj fun field hfield => ?_
    obtain ⟨other, hother, hvalue⟩ := mem_withoutFields gone path field fields hfield
    exact hvalue ▸ ih other hother (path ++ [other.1])

theorem Plain.without_nothing {j : Json} (h : j.Plain) (path : List String) :
    j.without (fun _ => false) path = j := by
  induction h generalizing path with
  | null | bool | nat | str | arr => rfl
  | @obj fields _ ih =>
    have hfields (some : List (String × Json)) (hsome : some ⊆ fields) :
        withoutFields (fun _ => false) path some = some := by
      induction some with
      | nil => rw [withoutFields]
      | cons field rest ihRest =>
        obtain ⟨hfield, hrest⟩ := List.cons_subset.mp hsome
        rw [withoutFields, ih field hfield, ihRest hrest]
        rfl
    rw [Json.without, hfields fields (List.Subset.refl fields)]

theorem plain_strings (items : List String) : (strings items).Plain := by
  refine .arr fun j hj => ?_
  obtain ⟨s, -, rfl⟩ := List.mem_map.mp hj
  exact .str s

theorem strings_read (items : List String) : (strings items).strings? = some items := by
  rw [strings, strings?, mapM_map_of_read str? .str id items (fun _ _ => rfl), List.map_id]

theorem word64_read (n : UInt64) :
    ((Json.nat n.toNat).word64?.map UInt64.ofNat) = some n := by
  have hsize : n.toNat < UInt64.size := n.toNat_lt
  rw [word64?, natBelow?, if_pos hsize, Option.map_some, UInt64.ofNat_toNat]

end Json

/-! ## Settings with defaults -/

theorem orDefault_left {α : Type} (read : Json → Option α) (default value : α) (j : Json)
    (gone : Bool) (h : read j = some value) :
    orDefault read default (if gone then none else some j) =
      some (if gone then default else value) := by
  cases gone with
  | true => rfl
  | false => exact h

/-- The settings with the default in place of each field that is gone. -/
def IndexSettings.withDefaults (s : IndexSettings) (gone : String → Bool) : IndexSettings :=
  let base : IndexSettings := {}
  { fileName := if gone "file_name" then base.fileName else s.fileName
    extensions := if gone "extensions" then base.extensions else s.extensions
    excludeDirs := if gone "exclude_dirs" then base.excludeDirs else s.excludeDirs
    excludeFiles := if gone "exclude_files" then base.excludeFiles else s.excludeFiles
    respectIgnoreFile :=
      if gone "respect_gitignore" then base.respectIgnoreFile else s.respectIgnoreFile }

def ResolverSettings.withDefaults (s : ResolverSettings) (gone : String → Bool) :
    ResolverSettings :=
  let base : ResolverSettings := {}
  { wellKnownNamespaces :=
      if gone "well_known_namespaces" then base.wellKnownNamespaces else s.wellKnownNamespaces }

def WatcherSettings.withDefaults (s : WatcherSettings) (gone : String → Bool) : WatcherSettings :=
  let base : WatcherSettings := {}
  { debounce := if gone "debounce_ms" then base.debounce else s.debounce }

/-- A section that is gone is the default section, whatever else is gone. -/
def Settings.withDefaults (s : Settings) (gone : List String → Bool) : Settings :=
  let base : Settings := {}
  { index := if gone ["index"] then base.index
      else s.index.withDefaults fun key => gone ["index", key]
    resolver := if gone ["resolver"] then base.resolver
      else s.resolver.withDefaults fun key => gone ["resolver", key]
    watcher := if gone ["watcher"] then base.watcher
      else s.watcher.withDefaults fun key => gone ["watcher", key] }

section

variable (gone : List String → Bool) (path : List String)

theorem IndexSettings.ofJson_without (s : IndexSettings) :
    ofJson? (s.toJson.without gone path) =
      some (s.withDefaults fun key => gone (path ++ [key])) := by
  have hfields : (s.toJson.without gone path).structFields? keys = some _ :=
    Json.structFields_without gone path _ _ rfl (by decide)
  rw [ofJson?, hfields]
  simp [Json.without, Json.without_strings, Json.strings_read, Json.str?, Json.bool?, orDefault_left,
    withDefaults]

theorem ResolverSettings.ofJson_without (s : ResolverSettings) :
    ofJson? (s.toJson.without gone path) =
      some (s.withDefaults fun key => gone (path ++ [key])) := by
  have hfields : (s.toJson.without gone path).structFields? ["well_known_namespaces"] = some _ :=
    Json.structFields_without gone path _ _ rfl (by decide)
  rw [ofJson?, hfields]
  simp [Json.without_strings, Json.strings_read, orDefault_left, withDefaults]

theorem WatcherSettings.ofJson_without (s : WatcherSettings) :
    ofJson? (s.toJson.without gone path) =
      some (s.withDefaults fun key => gone (path ++ [key])) := by
  have hfields : (s.toJson.without gone path).structFields? ["debounce_ms"] = some _ :=
    Json.structFields_without gone path _ _ rfl (by decide)
  rw [ofJson?, hfields]
  simp [Json.without, Json.word64_read, orDefault_left, withDefaults]

theorem Settings.ofJson_without (s : Settings) :
    ofJson? (s.toJson.without gone []) = some (s.withDefaults gone) := by
  have hfields : (s.toJson.without gone []).structFields? ["index", "resolver", "watcher"] =
      some _ := Json.structFields_without gone [] _ _ rfl (by decide)
  rw [ofJson?, hfields]
  simp [IndexSettings.ofJson_without, ResolverSettings.ofJson_without,
    WatcherSettings.ofJson_without, orDefault_left, withDefaults]

end

namespace Settings

theorem plain_toJson (s : Settings) : s.toJson.Plain := by
  have hstrings (items : List String) := Json.plain_strings items
  have hindex : s.index.toJson.Plain := by
    apply Json.Plain.obj
    simp [Json.Plain.str, Json.Plain.bool, hstrings]
  have hresolver : s.resolver.toJson.Plain := by
    apply Json.Plain.obj
    simp [hstrings]
  have hwatcher : s.watcher.toJson.Plain := by
    apply Json.Plain.obj
    simp [Json.Plain.nat]
  apply Json.Plain.obj
  simp [hindex, hresolver, hwatcher]

theorem withDefaults_nothing (s : Settings) : s.withDefaults (fun _ => false) = s := rfl

theorem parse_pretty (s : Settings) : parse? s.toJson.pretty = some s := by
  have hread := s.ofJson_without fun _ => false
  rw [s.plain_toJson.without_nothing, s.withDefaults_nothing] at hread
  rw [parse?, s.plain_toJson.parse_pretty, Option.bind_some, hread]

/-! ## On the disk -/

theorem parts_filePath (root : List Char) :
    Path.isAbsolute (filePath root) = Path.isAbsolute (directory root) ∧
      Path.parts (filePath root) = Path.parts (directory root) ++ ["settings.json".toList] := by
  obtain ⟨above, habove⟩ := Path.parts_join root ".scriptnav".toList
  have hdirectory : Path.parts (directory root) = above ++ [".scriptnav".toList] := habove
  have hne := Path.ne_nil_of_parts _ above _ hdirectory (by decide)
  obtain ⟨habsolute, first, front, hjoin, hfront⟩ :=
    Path.parts_join_base (directory root) "settings.json".toList hne rfl
  refine ⟨habsolute, ?_⟩
  rcases hfront with hfront | hfront
  · rw [hfront]
    exact hjoin
  · -- the directory does not end with a slash
    rw [hdirectory] at hfront
    have hlast := congrArg List.getLast? hfront
    rw [List.getLast?_concat, List.getLast?_concat] at hlast
    exact absurd hlast (by decide)

def start (disk : Disk) (root : List Char) : Place :=
  if Path.isAbsolute (directory root) then [] else disk.current

theorem endsInName_filePath (root : List Char) : Path.endsInName (filePath root) = true := by
  obtain ⟨front, hparts⟩ := Path.parts_join (directory root) "settings.json".toList
  exact Path.endsInName_of_parts _ front "settings.json".toList hparts

/-- The places on the way to the directory of the settings. -/
def way (disk : Disk) (root : List Char) : List Place :=
  Disk.stops (start disk root) (Path.parts (directory root))

/-- The place of the settings file. -/
def place (disk : Disk) (root : List Char) : Place :=
  (Path.parts (directory root)).foldl Disk.stepTo (start disk root) ++ ["settings.json".toList]

/-- Nothing stands in the way of the settings file. -/
structure CanSave (disk : Disk) (root : List Char) : Prop where
  text : (filePath root).contains (Char.ofNat 0) = false
  way : ∀ spot ∈ way disk root, ∀ bytes, disk.entry? spot ≠ some (.file bytes)
  file : place disk root ∉ Settings.way disk root ∧
    disk.entry? (place disk root) ≠ some .directory

section

variable {disk : Disk} (root : List Char) (hcurrent : disk.Rooted disk.current)
include hcurrent

theorem rooted_start : disk.Rooted (start disk root) := by
  rw [start]
  split
  · exact disk.rooted_nil
  · exact hcurrent

theorem locate_prepared_iff (found : Place) :
    (disk.makeDirectories (directory root)).locate (filePath root) = .ok found ↔
      (filePath root).contains (Char.ofNat 0) = false ∧
        (∀ spot ∈ way disk root, ∀ bytes, disk.entry? spot ≠ some (.file bytes)) ∧
          found = place disk root := by
  obtain ⟨habsolute, hparts⟩ := parts_filePath root
  have hne := Path.ne_nil_of_parts _ _ _ hparts (by decide)
  have hplace : Disk.stepTo ((Path.parts (directory root)).foldl Disk.stepTo (start disk root))
      "settings.json".toList = place disk root := rfl
  rw [Disk.locate_iff_follow, habsolute, hparts, and_iff_right hne, Disk.makeDirectories,
    Disk.current_makeAlong, ← start, Disk.follow_makeAlong_iff disk _ found _ _
      (rooted_start root hcurrent), hplace, way]

theorem entry_prepared (hway : ∀ spot ∈ way disk root, ∀ bytes,
    disk.entry? spot ≠ some (.file bytes)) (spot : Place) :
    Disk.entry? (disk.makeDirectories (directory root)) spot =
      if spot ∈ way disk root then some .directory else disk.entry? spot :=
  disk.entry_makeAlong _ spot _ (rooted_start root hcurrent) hway

theorem save_ok_iff (s : Settings) :
    (∃ written, save disk root s = .ok written) ↔ CanSave disk root := by
  have hsave (written : Disk) : save disk root s = .ok written ↔
      (disk.makeDirectories (directory root)).write (filePath root)
        (Utf8.encode s.toJson.pretty) = .ok written := by
    rw [save]
    cases (disk.makeDirectories (directory root)).write (filePath root)
      (Utf8.encode s.toJson.pretty) <;> simp
  constructor
  · rintro ⟨written, hwritten⟩
    obtain ⟨found, hfound, hentry, -⟩ := Disk.write_ok _ _ _ _ ((hsave written).mp hwritten)
    obtain ⟨htext, hway, rfl⟩ := (locate_prepared_iff root hcurrent found).mp hfound
    rw [entry_prepared root hcurrent hway] at hentry
    refine ⟨htext, hway, ?_⟩
    split at hentry
    · exact absurd rfl hentry
    · next hother => exact ⟨hother, hentry⟩
  · rintro ⟨htext, hway, hother, hentry⟩
    have hfound := (locate_prepared_iff root hcurrent _).mpr ⟨htext, hway, rfl⟩
    refine ⟨_, (hsave _).mpr (Disk.write_of_locate _ _ _ _ hfound ?_ (endsInName_filePath root))⟩
    rwa [entry_prepared root hcurrent hway, if_neg hother]

end

theorem load_of_read (s : Settings) (disk : Disk) (root text : List Char)
    (hread : disk.read (filePath root) = .ok (Utf8.encode text)) (htext : parse? text = some s) :
    load disk root = .ok (some s) := by
  obtain ⟨found, hlocate, hfile⟩ := (Disk.read_ok_iff disk _ _).mp hread
  have hpresent := (Disk.isPresent_iff disk (filePath root)).mpr
    ⟨found, hlocate, Option.isSome_of_eq_some hfile⟩
  rw [load, if_pos hpresent, hread]
  simp only [Utf8.decode_encode, htext]

theorem load_of_save (s : Settings) (disk written : Disk) (root : List Char)
    (h : save disk root s = .ok written) : load written root = .ok (some s) := by
  rw [save] at h
  split at h
  · next after hwrite =>
    cases h
    obtain ⟨found, hfound, hentry, rfl⟩ := Disk.write_ok _ _ _ _ hwrite
    have hlocate := Disk.locate_of_same
      (Disk.sameDirectories_put _ found (Utf8.encode s.toJson.pretty) hentry) _ found hfound
    have hfile := Disk.entry_put_self (disk.makeDirectories (directory root)) found
      (.file (Utf8.encode s.toJson.pretty)) (Disk.ne_root_of_entry _ found hentry)
    exact load_of_read s _ root _ ((Disk.read_ok_iff _ _ _).mpr ⟨found, hlocate, hfile⟩)
      s.parse_pretty
  · cases h

/-- Saved settings are loaded again, and saving succeeds exactly if nothing is in the way of the
file. What is left of their JSON without any of the sections and fields is read, in each form, as
the same settings with the defaults of these. -/
theorem settings_survive_saving (s : Settings) :
    (∀ disk root written, save disk root s = .ok written → load written root = .ok (some s)) ∧
    (∀ disk root, disk.Rooted disk.current →
      ((∃ written, save disk root s = .ok written) ↔ CanSave disk root)) ∧
    ∀ gone : List String → Bool,
      let rest := s.toJson.without gone []
      ofJson? rest = some (s.withDefaults gone) ∧
      parse? rest.compact = some (s.withDefaults gone) ∧
      parse? rest.pretty = some (s.withDefaults gone) := by
  refine ⟨fun disk root written => load_of_save s disk written root,
    fun disk root hcurrent => save_ok_iff root hcurrent s, ?_⟩
  intro gone rest
  have hread : ofJson? rest = some (s.withDefaults gone) := s.ofJson_without gone
  have hplain : rest.Plain := s.plain_toJson.without gone []
  refine ⟨hread, ?_, ?_⟩
  · rw [parse?, hplain.parse_compact, Option.bind_some, hread]
  · rw [parse?, hplain.parse_pretty, Option.bind_some, hread]

/-- Settings with escapes, an empty list and the greatest number of 64 bits. -/
def unusual : Settings :=
  { index := { fileName := "a\"b\n\\", extensions := [], respectIgnoreFile := false }
    resolver := ⟨["é", ""]⟩
    watcher := ⟨18446744073709551615⟩ }

theorem settings_survive_saving_unusual :
    let disk : Disk := ⟨[], [(["w".toList], .directory)]⟩
    let gone : List String → Bool := fun path =>
      path == ["resolver"] || path == ["index", "file_name"] || path == ["watcher", "debounce_ms"]
    disk.Rooted disk.current ∧ CanSave disk "/w".toList ∧
      (∃ written, save disk "/w".toList unusual = .ok written ∧
        load written "/w".toList = .ok (some unusual)) ∧
      parse? (unusual.toJson.without gone []).pretty =
        some { index := { extensions := [], respectIgnoreFile := false } } := by
  intro disk gone
  obtain ⟨hload, hsave, hrest⟩ := settings_survive_saving unusual
  have hcurrent : disk.Rooted disk.current := disk.rooted_nil
  have hway : ∀ spot ∈ way disk "/w".toList,
      disk.entry? spot = none ∨ disk.entry? spot = some .directory := by decide +kernel
  have hcan : CanSave disk "/w".toList := by
    refine ⟨by decide +kernel, ?_, by decide +kernel⟩
    intro spot hspot bytes hfile
    rcases hway spot hspot with hentry | hentry <;> rw [hentry] at hfile <;> cases hfile
  obtain ⟨written, hwritten⟩ := (hsave disk "/w".toList hcurrent).mpr hcan
  exact ⟨hcurrent, hcan, ⟨written, hwritten, hload disk _ written hwritten⟩, (hrest gone).2.2⟩

end Settings

end CodeNav
