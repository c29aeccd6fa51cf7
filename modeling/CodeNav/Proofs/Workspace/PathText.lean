import CodeNav.Proofs.Text.Pieces
import CodeNav.Workspace.Disk

/-! Path texts and where they lead. The parts of a joined path end with those of its second half, the
last name of a path is the last name of the place that it leads to, and a path that was put below a
base is found there again. -/
namespace CodeNav.Path
set_option autoImplicit false
open Text

/-! ## The last part -/

theorem parts_append (before after : List Char) :
    parts (before ++ '/' :: after) = parts before ++ parts after :=
  splitOn_append '/' before after

/-- The last part of a path, and the text up to it. -/
theorem parts_last (path : List Char) :
    ∃ front last, parts path = front ++ [last] ∧ '/' ∉ last ∧
      (path = last ∨ ∃ before, path = before ++ '/' :: last) := by
  obtain ⟨last, hfree, rfl | ⟨before, rfl⟩⟩ := splitOn_last '/' path
  · exact ⟨[], path, splitOn_free '/' path hfree, hfree, .inl rfl⟩
  · refine ⟨parts before, last, ?_, hfree, .inr ⟨before, rfl⟩⟩
    rw [parts_append]
    exact congrArg _ (splitOn_free '/' last hfree)

theorem ne_nil_of_parts (path : List Char) (front : List Part) (last : Part)
    (h : parts path = front ++ [last]) (hlast : last ≠ []) : path ≠ [] := by
  rintro rfl
  have hends := congrArg List.getLast? h
  rw [List.getLast?_concat] at hends
  exact hlast (Option.some.inj hends).symm

theorem parts_joinWith (names : List Part) (hne : names ≠ []) (h : ∀ name ∈ names, '/' ∉ name) :
    parts (joinWith '/' names) = names := by
  cases names with
  | nil => exact absurd rfl hne
  | cons name names => exact splitOn_joinWith '/' name names h

theorem slash_not_mem_stem (name : Part) (h : '/' ∉ name) : '/' ∉ stem name := by
  rw [stem]
  split
  · next before after hsplit =>
    split
    · exact h
    · rw [splitLast_eq '.' name before after hsplit, List.mem_append, not_or] at h
      exact h.1
  · exact h

theorem endsInName_of_parts (path : List Char) (front : List Part) (last : Part)
    (h : parts path = front ++ [last]) :
    endsInName path = (!isFiller last && last != parent) := by
  rw [endsInName, h, List.getLast?_concat, Option.any_some]

/-! ## Joined paths -/

/-- The parts of a base, with one empty part less where it ends with a slash, come first in a path
below it. -/
theorem parts_join_base (base path : List Char) (hbase : base ≠ []) (hpath : isAbsolute path = false) :
    isAbsolute (join base path) = isAbsolute base ∧ ∃ first front,
      parts (join base path) = first :: front ++ parts path ∧
      (parts base = first :: front ∨ parts base = first :: front ++ [[]]) := by
  have hparts (text : List Char) : ∃ first front, parts text = first :: front := by
    cases h : parts text with
    | nil => exact absurd h (splitOn_ne_nil '/' text)
    | cons first front => exact ⟨first, front, rfl⟩
  rcases List.eq_nil_or_concat base with rfl | ⟨before, c, rfl⟩
  · exact absurd rfl hbase
  rw [List.concat_eq_append, join, hpath, List.getLast?_concat]
  by_cases hc : c = '/'
  · subst hc
    obtain ⟨first, front, hbefore⟩ := hparts before
    simp only [Bool.false_eq_true, ↓reduceIte, BEq.rfl, List.append_assoc, List.singleton_append]
    refine ⟨?_, first, front, ?_, .inr ?_⟩
    · cases before <;> rfl
    · rw [parts_append, hbefore]
    · rw [parts_append, hbefore]
      rfl
  · obtain ⟨first, front, hbase⟩ := hparts (before ++ [c])
    simp only [Bool.false_eq_true, ↓reduceIte, beq_iff_eq, hc]
    refine ⟨?_, first, front, ?_, .inl hbase⟩
    · cases before <;> rfl
    · rw [parts_append, hbase]

/-- A joined path ends with the parts of its second half. -/
theorem parts_join (base path : List Char) :
    ∃ front, parts (join base path) = front ++ parts path := by
  by_cases hpath : isAbsolute path = true
  · exact ⟨[], by rw [join, if_pos hpath]; rfl⟩
  by_cases hbase : base = []
  · subst hbase
    exact ⟨[], by rw [join, if_neg hpath]; rfl⟩
  · obtain ⟨_, first, front, hparts, _⟩ :=
      parts_join_base base path hbase (Bool.eq_false_iff.mpr hpath)
    exact ⟨first :: front, hparts⟩

theorem length_join (base path : List Char) (hpath : isAbsolute path = false) :
    base.length + path.length ≤ (join base path).length := by
  rw [join, hpath, if_neg Bool.false_ne_true]
  split
  · next hlast =>
    rw [List.getLast?_eq_none_iff.mp hlast, List.length_nil]
    omega
  · split
    · exact Nat.le_of_eq List.length_append.symm
    · rw [List.length_append, List.length_cons]
      omega

theorem contains_join (base path : List Char) (c : Char) (hc : c ≠ '/')
    (hpath : isAbsolute path = false) :
    (join base path).contains c = (base.contains c || path.contains c) := by
  rw [join, hpath, if_neg Bool.false_ne_true]
  split
  · next hlast =>
    rw [List.getLast?_eq_none_iff.mp hlast]
    rfl
  · split
    · rw [List.contains_append]
    · rw [List.contains_append, List.contains_cons, beq_false_of_ne hc, Bool.false_or]

/-! ## Below a base -/

/-- A name that an entry of a directory can have. -/
def Proper (name : Part) : Prop :=
  isFiller name = false ∧ name ≠ parent ∧ '/' ∉ name

instance (name : Part) : Decidable (Proper name) :=
  inferInstanceAs (Decidable (_ ∧ _ ∧ _))

theorem dropLeading_filler (part name : Part) (names rest : List Part)
    (h : isFiller part = true) :
    dropLeading? (name :: names) (part :: rest) = dropLeading? (name :: names) rest := by
  rw [dropLeading?, dropLeading?, List.dropWhile_cons_of_pos h]

/-- The names of a path are found at the start of any longer path; fillers may be left over. -/
theorem dropLeading_append (front names : List Part) :
    ∃ fillers, (∀ part ∈ fillers, isFiller part = true) ∧
      dropLeading? (front.filter (!isFiller ·)) (front ++ names) = some (fillers ++ names) := by
  induction front with
  | nil => exact ⟨[], fun _ h => absurd h List.not_mem_nil, rfl⟩
  | cons part front ih =>
    obtain ⟨fillers, hfillers, hdrop⟩ := ih
    by_cases hpart : isFiller part = true
    · rw [List.filter_cons_of_neg (by simp [hpart]), List.cons_append]
      cases hf : front.filter (!isFiller ·) with
      | nil =>
        refine ⟨part :: front, ?_, rfl⟩
        have hall := List.filter_eq_nil_iff.mp hf
        intro other hother
        rcases List.mem_cons.mp hother with rfl | hother
        · exact hpart
        · simpa using hall other hother
      | cons name rest =>
        rw [hf] at hdrop
        exact ⟨fillers, hfillers, (dropLeading_filler part name rest _ hpart).trans hdrop⟩
    · refine ⟨fillers, hfillers, ?_⟩
      rw [List.filter_cons_of_pos (by simp [hpart]), List.cons_append, dropLeading?,
        List.dropWhile_cons_of_neg hpart]
      simpa using hdrop

theorem trimFillers_append (fillers names : List Part)
    (hfillers : ∀ part ∈ fillers, isFiller part = true) :
    trimFillers (fillers ++ names) = trimFillers names := by
  rw [trimFillers, trimFillers, List.dropWhile_append_of_pos hfillers]

theorem trimLastFillers_free (names : List Part) (h : ∀ name ∈ names, isFiller name = false) :
    trimLastFillers names = names := by
  have hback : ∀ name ∈ names.reverse, isFiller name = false :=
    fun name hname => h name (List.mem_reverse.mp hname)
  rw [trimLastFillers, dropWhile_free _ _ hback, List.reverse_reverse]

theorem trimFillers_free (names : List Part) (h : ∀ name ∈ names, isFiller name = false) :
    trimFillers names = names := by
  rw [trimFillers, dropWhile_free _ names h, trimLastFillers_free names h]

/-- Trimming takes fillers from both ends. -/
theorem trimFillers_cut (ps : List Part) :
    ∃ lead trail, (∀ part ∈ lead, isFiller part = true) ∧ (∀ part ∈ trail, isFiller part = true) ∧
      ps = lead ++ (trimFillers ps ++ trail) := by
  have hfront := List.takeWhile_append_dropWhile (p := isFiller) (l := ps)
  have hback := List.takeWhile_append_dropWhile (p := isFiller)
    (l := (ps.dropWhile isFiller).reverse)
  refine ⟨ps.takeWhile isFiller, ((ps.dropWhile isFiller).reverse.takeWhile isFiller).reverse,
    List.all_eq_true.mp List.all_takeWhile,
    fun part h => List.all_eq_true.mp List.all_takeWhile part (List.mem_reverse.mp h), ?_⟩
  rw [trimFillers, trimLastFillers, ← List.reverse_append, hback, List.reverse_reverse, hfront]

theorem trimFillers_head (ps : List Part) (part : Part) (rest : List Part)
    (h : trimFillers ps = part :: rest) : isFiller part = false := by
  have hfront : trimFillers ps <+: ps.dropWhile isFiller := by
    have hback := List.reverse_prefix.mpr
      (List.dropWhile_suffix isFiller (l := (ps.dropWhile isFiller).reverse))
    rwa [List.reverse_reverse] at hback
  obtain ⟨behind, hbehind⟩ := hfront
  have hnot := List.head?_dropWhile_not isFiller ps
  rwa [← hbehind, h] at hnot

theorem trimFillers_sublist (ps : List Part) : (trimFillers ps).Sublist ps := by
  obtain ⟨lead, trail, -, -, hcut⟩ := trimFillers_cut ps
  conv => rhs; rw [hcut]
  exact (List.sublist_append_left _ trail).trans (List.sublist_append_right lead _)

theorem filter_trimFillers (ps : List Part) :
    (trimFillers ps).filter (!isFiller ·) = ps.filter (!isFiller ·) := by
  obtain ⟨lead, trail, hlead, htrail, hcut⟩ := trimFillers_cut ps
  have hnone (fillers : List Part) (h : ∀ part ∈ fillers, isFiller part = true) :
      fillers.filter (!isFiller ·) = [] :=
    List.filter_eq_nil_iff.mpr fun part hpart => by simp [h part hpart]
  conv => rhs; rw [hcut]
  rw [List.filter_append, List.filter_append, hnone lead hlead, hnone trail htrail, List.nil_append,
    List.append_nil]

theorem anchored_eq (path : List Char) (first : Part) (rest : List Part)
    (h : parts path = first :: rest) :
    anchored path =
      if isAbsolute path then (.root, rest)
      else if first == ['.'] then (.current, rest)
      else (.unsaid, first :: rest) := by
  rw [anchored, h]

theorem below_of_anchored (base path : List Char) (anchor : Anchor) (tail front rest : List Part)
    (hne : base ≠ []) (hbase : anchored base = (anchor, tail))
    (hpath : anchored path = (anchor, front ++ rest))
    (hsame : tail.filter (!isFiller ·) = front.filter (!isFiller ·)) :
    below? base path = some (joinWith '/' (trimFillers rest)) := by
  obtain ⟨fillers, hfillers, hdrop⟩ := dropLeading_append front rest
  rw [below?, if_neg (by simpa using hne)]
  simp only [hbase, hpath, hsame, hdrop, ↓reduceIte, Option.map_some,
    trimFillers_append fillers rest hfillers]

/-- A relative path that was put below a base is found there, without the fillers at its ends. -/
theorem below_join_relative (base path : List Char) (hbase : base ≠ [])
    (hpath : isAbsolute path = false) :
    below? base (join base path) = some (joinWith '/' (trimFillers (parts path))) := by
  obtain ⟨habsolute, first, front, hjoin, hfront⟩ := parts_join_base base path hbase hpath
  rw [List.cons_append] at hjoin
  -- A last empty part of the base is a filler, so the names of the base are those of the front.
  obtain ⟨tail, htail, hsame⟩ : ∃ tail, parts base = first :: tail ∧
      tail.filter (!isFiller ·) = front.filter (!isFiller ·) := by
    rcases hfront with hfront | hfront
    · exact ⟨front, hfront, rfl⟩
    · rw [List.cons_append] at hfront
      exact ⟨front ++ [[]], hfront, by simp [isFiller]⟩
  have hbaseAnchored := anchored_eq base first tail htail
  have hpathAnchored := anchored_eq _ first (front ++ parts path) hjoin
  rw [habsolute] at hpathAnchored
  by_cases hroot : isAbsolute base = true
  · rw [if_pos hroot] at hbaseAnchored hpathAnchored
    exact below_of_anchored _ _ .root tail front _ hbase hbaseAnchored hpathAnchored hsame
  rw [if_neg hroot] at hbaseAnchored hpathAnchored
  by_cases hdot : (first == ['.']) = true
  · rw [if_pos hdot] at hbaseAnchored hpathAnchored
    exact below_of_anchored _ _ .current tail front _ hbase hbaseAnchored hpathAnchored hsame
  · rw [if_neg hdot] at hbaseAnchored hpathAnchored
    refine below_of_anchored _ _ .unsaid (first :: tail) (first :: front) _ hbase hbaseAnchored
      hpathAnchored ?_
    rw [List.filter_cons, List.filter_cons, hsame]

theorem not_absolute_joinWith_cons (name : Part) (rest : List Part) (hname : name ≠ [])
    (hslash : '/' ∉ name) : isAbsolute (joinWith '/' (name :: rest)) = false := by
  rw [isAbsolute, beq_eq_false_iff_ne]
  intro hhead
  cases name with
  | nil => exact hname rfl
  | cons c name =>
    have hc : c = '/' := by
      cases rest with
      | nil => simpa [joinWith] using hhead
      | cons next rest => simpa [joinWith] using hhead
    exact hslash (hc ▸ List.mem_cons_self)

theorem ne_nil_of_not_filler (name : Part) (h : isFiller name = false) : name ≠ [] := by
  rintro rfl
  cases h

theorem not_absolute_joinWith (names : List Part) (h : ∀ name ∈ names, Proper name) :
    isAbsolute (joinWith '/' names) = false := by
  cases names with
  | nil => rfl
  | cons name rest =>
    obtain ⟨hfiller, _, hslash⟩ := h name List.mem_cons_self
    exact not_absolute_joinWith_cons name rest (ne_nil_of_not_filler name hfiller) hslash

/-- A path of proper names that was put below a base is found there. -/
theorem below_join (base : List Char) (names : List Part) (hne : names ≠ [])
    (h : ∀ name ∈ names, Proper name) :
    below? base (join base (joinWith '/' names)) = some (joinWith '/' names) := by
  have hfree : ∀ name ∈ names, isFiller name = false := fun name hname => (h name hname).1
  have hparts := parts_joinWith names hne (fun name hname => (h name hname).2.2)
  have hrelative := not_absolute_joinWith names h
  by_cases hbase : base = []
  · subst hbase
    have hjoin : join [] (joinWith '/' names) = joinWith '/' names := by
      rw [join, hrelative]
      rfl
    have hanchored : anchored (joinWith '/' names) = (.unsaid, names) := by
      cases names with
      | nil => exact absurd rfl hne
      | cons name rest =>
        have hdot : name ≠ ['.'] := by
          rintro rfl
          cases hfree ['.'] List.mem_cons_self
        rw [anchored_eq _ name rest hparts, hrelative]
        simp [hdot]
    rw [hjoin, below?, if_pos List.isEmpty_nil, withoutLastFillers, hanchored]
    simp only [trimLastFillers_free names hfree]
  · rw [below_join_relative base _ hbase hrelative, hparts, trimFillers_free names hfree]

end CodeNav.Path

namespace CodeNav.Disk
set_option autoImplicit false
open Text

/-! ## Following a path -/

theorem follow_append (disk : Disk) (front rest : List Path.Part) (place : Place) :
    disk.follow place (front ++ rest) =
      (disk.follow place front).bind fun middle => disk.follow middle rest := by
  induction front generalizing place with
  | nil => rfl
  | cons part front ih =>
    rw [List.cons_append, follow, follow]
    split
    · rfl
    · rfl
    · split
      · exact ih place
      · split
        · exact ih place.dropLast
        · exact ih (place ++ [part])

theorem follow_append_ok (disk : Disk) (front rest : List Path.Part) (place found : Place)
    (h : disk.follow place (front ++ rest) = .ok found) :
    ∃ middle, disk.follow place front = .ok middle ∧ disk.follow middle rest = .ok found := by
  rw [follow_append] at h
  cases hfront : disk.follow place front with
  | error cause =>
    rw [hfront] at h
    cases h
  | ok middle =>
    rw [hfront] at h
    exact ⟨middle, rfl, h⟩

theorem follow_fillers (disk : Disk) (fillers : List Path.Part) (place found : Place)
    (hfillers : ∀ part ∈ fillers, Path.isFiller part = true)
    (h : disk.follow place fillers = .ok found) : found = place := by
  induction fillers with
  | nil => exact (Except.ok.inj h).symm
  | cons part fillers ih =>
    obtain ⟨hpart, hrest⟩ := List.forall_mem_cons.mp hfillers
    rw [follow] at h
    split at h
    · cases h
    · cases h
    · rw [if_pos hpart] at h
      exact ih hrest h

theorem follow_trimFillers (disk : Disk) (parts : List Path.Part) (place found : Place)
    (h : disk.follow place parts = .ok found) :
    disk.follow place (Path.trimFillers parts) = .ok found := by
  obtain ⟨lead, trail, hlead, htrail, hcut⟩ := Path.trimFillers_cut parts
  rw [hcut] at h
  obtain ⟨start, hstart, hrest⟩ := follow_append_ok disk _ _ _ found h
  obtain ⟨middle, hmiddle, hend⟩ := follow_append_ok disk _ _ _ found hrest
  rw [follow_fillers disk lead place start hlead hstart] at hmiddle
  rwa [follow_fillers disk trail middle found htrail hend]

theorem locate_iff_follow (disk : Disk) (path : List Char) (place : Place) :
    disk.locate path = .ok place ↔ path.contains (Char.ofNat 0) = false ∧ path ≠ [] ∧
      disk.follow (if Path.isAbsolute path then [] else disk.current) (Path.parts path) =
        .ok place := by
  rw [locate]
  by_cases hnull : path.contains (Char.ofNat 0) = true
  · rw [if_pos hnull, hnull]
    simp
  rw [if_neg hnull, Bool.eq_false_iff.mpr hnull]
  by_cases hempty : path = []
  · subst hempty
    simp
  · rw [if_neg (by simpa using hempty)]
    split <;> simp [hempty]

/-- A path whose last part is a name leads to a place of that name. -/
theorem follow_last (disk : Disk) (front : List Path.Part) (last : Path.Part) (place found : Place)
    (hfiller : Path.isFiller last = false) (hparent : last ≠ Path.parent)
    (h : disk.follow place (front ++ [last]) = .ok found) : ∃ before, found = before ++ [last] := by
  induction front generalizing place with
  | nil =>
    rw [List.nil_append, follow] at h
    split at h
    · cases h
    · cases h
    · rw [hfiller, if_neg Bool.false_ne_true, if_neg hparent, follow] at h
      exact ⟨place, (Except.ok.inj h).symm⟩
  | cons part front ih =>
    rw [List.cons_append, follow] at h
    split at h
    · cases h
    · cases h
    · split at h
      · exact ih place h
      · split at h
        · exact ih place.dropLast h
        · exact ih (place ++ [part]) h

theorem locate_last (disk : Disk) (path : List Char) (front : List Path.Part) (last : Path.Part)
    (place : Place) (hparts : Path.parts path = front ++ [last])
    (hfiller : Path.isFiller last = false) (hparent : last ≠ Path.parent)
    (h : disk.locate path = .ok place) : ∃ before, place = before ++ [last] := by
  rw [locate, hparts] at h
  split at h
  · cases h
  · split at h
    · cases h
    · split at h
      · exact follow_last disk front last _ place hfiller hparent h
      · exact follow_last disk front last _ place hfiller hparent h

/-! ## Names on the way -/

theorem follow_without_parent (disk : Disk) (parts : List Path.Part) (place found : Place)
    (hparts : Path.parent ∉ parts) (h : disk.follow place parts = .ok found) :
    found = place ++ parts.filter (!Path.isFiller ·) := by
  induction parts generalizing place with
  | nil => rw [← Except.ok.inj h, List.filter_nil, List.append_nil]
  | cons part parts ih =>
    rw [List.mem_cons, not_or] at hparts
    obtain ⟨hparent, hrest⟩ := hparts
    rw [follow] at h
    split at h
    · cases h
    · cases h
    · split at h
      · next hfiller =>
        rw [List.filter_cons_of_neg (by simp [hfiller])]
        exact ih place hrest h
      · next hfiller =>
        rw [if_neg (Ne.symm hparent)] at h
        rw [List.filter_cons_of_pos (by simp [hfiller]), ih (place ++ [part]) hrest h,
          List.append_assoc, List.singleton_append]

theorem follow_proper (disk : Disk) (names : List Path.Part) (place found : Place)
    (hnames : ∀ name ∈ names, Path.Proper name) (h : disk.follow place names = .ok found) :
    found = place ++ names := by
  have hparent : Path.parent ∉ names := fun hmem => (hnames _ hmem).2.1 rfl
  rw [follow_without_parent disk names place found hparent h,
    List.filter_eq_self.mpr fun name hname => by simp [(hnames name hname).1]]

/-- Beyond the first `n` names of a place, a path brings in only names that it is written with. -/
theorem mem_parts_of_follow (disk : Disk) (n : Nat) (parts : List Path.Part) (place found : Place)
    (name : Path.Part) (h : disk.follow place parts = .ok found) (hname : name ∈ found.drop n) :
    name ∈ place.drop n ∨ name ∈ parts := by
  induction parts generalizing place with
  | nil =>
    rw [← Except.ok.inj h] at hname
    exact .inl hname
  | cons part parts ih =>
    rw [follow] at h
    split at h
    · cases h
    · cases h
    · split at h
      · exact (ih place h).imp_right (List.mem_cons_of_mem part)
      · split at h
        · refine (ih place.dropLast h).imp (fun hdropped => ?_) (List.mem_cons_of_mem part)
          exact ((List.dropLast_sublist place).drop n).subset hdropped
        · rcases ih (place ++ [part]) h with hmem | hmem
          · rw [List.drop_append, List.mem_append] at hmem
            refine hmem.imp_right (fun hpart => ?_)
            rw [List.mem_singleton.mp (List.mem_of_mem_drop hpart)]
            exact List.mem_cons_self
          · exact .inr (List.mem_cons_of_mem part hmem)

/-- A path below a base is followed from where the base leads. -/
theorem locate_join_iff (disk : Disk) (base path : List Char) (place found : Place)
    (hpath : Path.isAbsolute path = false) (hbase : disk.locate base = .ok place) :
    disk.locate (Path.join base path) = .ok found ↔
      path.contains (Char.ofNat 0) = false ∧ disk.follow place (Path.parts path) = .ok found := by
  obtain ⟨hnull, hne, hplace⟩ := (locate_iff_follow disk base place).mp hbase
  obtain ⟨habsolute, first, front, hjoin, hparts⟩ := Path.parts_join_base base path hne hpath
  have hjoinNe : Path.join base path ≠ [] := by
    intro hnil
    rw [hnil, List.cons_append] at hjoin
    have hrest := (List.cons.inj hjoin).2
    exact splitOn_ne_nil '/' path (List.append_eq_nil_iff.mp hrest.symm).2
  have hfront : disk.follow (if Path.isAbsolute base then [] else disk.current) (first :: front) =
      .ok place := by
    rcases hparts with hparts | hparts
    · rwa [hparts] at hplace
    · rw [hparts] at hplace
      obtain ⟨last, hlast, hslash⟩ := follow_append_ok disk _ _ _ place hplace
      rwa [follow_fillers disk _ last place (by decide) hslash]
  have hbind : (Except.ok place : Except OsError Place).bind
      (fun middle => disk.follow middle (Path.parts path)) = disk.follow place (Path.parts path) :=
    rfl
  rw [locate_iff_follow, Path.contains_join base path _ (by decide) hpath, hnull, habsolute, hjoin,
    follow_append, hfront, hbind, Bool.false_or]
  exact and_congr_right fun _ => and_iff_right hjoinNe

theorem locate_join (disk : Disk) (base path : List Char) (place found : Place)
    (hpath : Path.isAbsolute path = false) (hbase : disk.locate base = .ok place)
    (h : disk.locate (Path.join base path) = .ok found) :
    disk.follow place (Path.parts path) = .ok found :=
  ((locate_join_iff disk base path place found hpath hbase).mp h).2

theorem mem_parts_of_join (disk : Disk) (base path : List Char) (place : Place)
    (names : List Path.Part) (hbase : disk.locate base = .ok place)
    (h : disk.locate (Path.join base path) = .ok (place ++ names)) :
    ∀ name ∈ names, name ∈ Path.parts path := by
  intro name hname
  by_cases hpath : Path.isAbsolute path = true
  · rw [Path.join, if_pos hpath] at h
    obtain ⟨-, -, hfollow⟩ := (locate_iff_follow disk path _).mp h
    rw [if_pos hpath] at hfollow
    exact (mem_parts_of_follow disk 0 _ [] _ name hfollow
      (List.mem_append_right place hname)).resolve_left List.not_mem_nil
  · have hfollow := locate_join disk base path place _ (Bool.eq_false_iff.mpr hpath) hbase h
    have hdrop : name ∈ (place ++ names).drop place.length := by rwa [List.drop_left]
    refine (mem_parts_of_follow disk place.length _ place _ name hfollow hdrop).resolve_left ?_
    rw [List.drop_length]
    exact List.not_mem_nil

end CodeNav.Disk
