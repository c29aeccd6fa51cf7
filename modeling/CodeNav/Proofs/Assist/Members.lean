import CodeNav.Assist.Completion
import CodeNav.Proofs.Text.Pieces

/-! What completions offer after a dot. The records below the type of the object are gone through in
the order of the table, and a label is taken from the first record that has it; so the items stand
for the first records of their names, in the order of the table. An item is a namespace when a record
lies directly below its name, which is not the same as when some record lies below it. -/
namespace CodeNav
set_option autoImplicit false
open Text

/-! ## Names below a type -/

theorem Text.dropPrefix_eq_some_iff (part cs rest : List Char) :
    dropPrefix? part cs = some rest ↔ cs = part ++ rest := by
  rw [dropPrefix?]
  split
  · next hpart =>
    obtain ⟨tail, rfl⟩ := List.isPrefixOf_iff_prefix.mp hpart
    rw [List.drop_left, Option.some.injEq, List.append_cancel_left_eq, eq_comm]
  · next hpart =>
    refine iff_of_false nofun (fun hcs => hpart ?_)
    rw [hcs]
    exact List.isPrefixOf_iff_prefix.mpr (List.prefix_append part rest)

namespace Table

/-- Some record's name is the type, a dot and `rest`. -/
def IsBelow (table : Table) (type rest : String) : Prop :=
  ∃ r ∈ table, r.name = type ++ "." ++ rest

/-- Some record lies directly below the type: what follows the type in its name has no dot. -/
def HasMember (table : Table) (type : String) : Prop :=
  ∃ last, table.IsBelow type last ∧ '.' ∉ last.toList

/-- The index of the first record of a name. -/
def firstIndex (table : Table) (name : String) : Nat :=
  table.findIdx (·.name == name)

variable {r : Record} {table : Table} {name : String}

theorem isBelow_cons (type rest : String) :
    IsBelow (r :: table) type rest ↔ r.name = type ++ "." ++ rest ∨ IsBelow table type rest := by
  simp only [IsBelow, List.mem_cons, or_and_right, exists_or, exists_eq_left]

theorem findByName_cons_self (h : r.name = name) : findByName? (r :: table) name = some r :=
  List.find?_cons_of_pos (beq_iff_eq.mpr h)

theorem findByName_cons_of_ne (h : r.name ≠ name) :
    findByName? (r :: table) name = findByName? table name :=
  List.find?_cons_of_neg (fun heq => h (beq_iff_eq.mp heq))

theorem firstIndex_cons_self (h : r.name = name) : firstIndex (r :: table) name = 0 := by
  rw [firstIndex, List.findIdx_cons, beq_iff_eq.mpr h]
  rfl

theorem firstIndex_cons_of_ne (h : r.name ≠ name) :
    firstIndex (r :: table) name = firstIndex table name + 1 := by
  rw [firstIndex, List.findIdx_cons, beq_eq_false_iff_ne.mpr h]
  rfl

end Table

namespace Completion

theorem memberPath_eq_some_iff (type : String) (r : Record) (path : List Char) :
    memberPath? type r = some path ↔ r.name = type ++ "." ++ String.ofList path := by
  rw [memberPath?, dropPrefix_eq_some_iff, ← String.toList_inj, String.toList_append,
    String.toList_append]
  simp only [String.toList_ofList]
  exact Iff.rfl

theorem mem_below (type : String) (table : Table) (path : List Char) (r : Record) :
    (path, r) ∈ below type table ↔ r ∈ table ∧ r.name = type ++ "." ++ String.ofList path := by
  simp only [below, List.mem_filterMap, Option.map_eq_some_iff, memberPath_eq_some_iff,
    Prod.mk.injEq]
  constructor
  · rintro ⟨r', hr', path', hname, rfl, rfl⟩
    exact ⟨hr', hname⟩
  · rintro ⟨hr, hname⟩
    exact ⟨r, hr, path, hname, rfl, rfl⟩

/-! ## First records -/

/-- The items are the first records of those names below the type whose labels are shown, in the
order of the table. -/
structure ListsFirsts (type : String) (shown : String → Prop) (table : Table)
    (items : List Completion) : Prop where
  labels : ∀ label, (∃ item ∈ items, item.label = label) ↔ shown label ∧ table.IsBelow type label
  ordered : items.Pairwise fun item later =>
    table.firstIndex (type ++ "." ++ item.label) < table.firstIndex (type ++ "." ++ later.label)
  details : ∀ item ∈ items, ∃ r, table.findByName? (type ++ "." ++ item.label) = some r ∧
    item.detail = if r.params = [] then none else some r.signature

namespace ListsFirsts

variable {type : String} {shown : String → Prop} {table : Table} {items : List Completion}
  {r : Record}

/-- Every item has a label of its own. -/
theorem nodup (h : ListsFirsts type shown table items) : (items.map (·.label)).Nodup := by
  refine List.pairwise_map.mpr (h.ordered.imp fun {item later} hlt hsame => ?_)
  rw [hsame] at hlt
  exact Nat.lt_irrefl _ hlt

theorem nil : ListsFirsts type shown [] [] where
  labels _ := iff_of_false nofun nofun
  ordered := List.Pairwise.nil
  details := nofun

theorem congr {other : String → Prop} (h : ListsFirsts type shown table items)
    (hother : ∀ label, other label ↔ shown label) : ListsFirsts type other table items where
  labels label := by rw [hother, h.labels]
  ordered := h.ordered
  details := h.details

/-- A record in front that no shown label stands for changes nothing. -/
theorem skip (h : ListsFirsts type shown table items)
    (hr : ∀ label, shown label → r.name ≠ type ++ "." ++ label) :
    ListsFirsts type shown (r :: table) items := by
  have hne : ∀ item ∈ items, r.name ≠ type ++ "." ++ item.label := fun item hitem =>
    hr item.label ((h.labels item.label).mp ⟨item, hitem, rfl⟩).1
  constructor
  · intro label
    rw [h.labels, Table.isBelow_cons]
    refine and_congr_right fun hshown => ?_
    rw [or_iff_right (hr label hshown)]
  · refine h.ordered.imp_of_mem fun hitem hlater hlt => ?_
    rw [Table.firstIndex_cons_of_ne (hne _ hitem), Table.firstIndex_cons_of_ne (hne _ hlater)]
    omega
  · intro item hitem
    rw [Table.findByName_cons_of_ne (hne item hitem)]
    exact h.details item hitem

/-- A record in front that a shown label stands for is the first one of its name. -/
theorem keep {item : Completion}
    (h : ListsFirsts type (fun label => shown label ∧ label ≠ item.label) table items)
    (hshown : shown item.label) (hr : r.name = type ++ "." ++ item.label)
    (hdetail : item.detail = if r.params = [] then none else some r.signature) :
    ListsFirsts type shown (r :: table) (item :: items) := by
  have hne : ∀ later ∈ items, r.name ≠ type ++ "." ++ later.label := by
    intro later hlater hsame
    rw [hr, String.append_right_inj] at hsame
    exact ((h.labels later.label).mp ⟨later, hlater, rfl⟩).1.2 hsame.symm
  constructor
  · intro label
    rw [Table.isBelow_cons, hr, String.append_right_inj]
    by_cases hlabel : item.label = label
    · subst hlabel
      exact iff_of_true ⟨item, List.mem_cons_self, rfl⟩ ⟨hshown, Or.inl rfl⟩
    · have hlater := h.labels label
      rw [and_iff_left (Ne.symm hlabel)] at hlater
      simp only [List.mem_cons, or_and_right, exists_or, exists_eq_left, hlabel, false_or, hlater]
  · refine List.pairwise_cons.mpr ⟨fun later hlater => ?_, h.ordered.imp_of_mem ?_⟩
    · rw [Table.firstIndex_cons_self hr, Table.firstIndex_cons_of_ne (hne later hlater)]
      exact Nat.succ_pos _
    · intro first later hfirst hlater hlt
      rw [Table.firstIndex_cons_of_ne (hne first hfirst),
        Table.firstIndex_cons_of_ne (hne later hlater)]
      omega
  · refine List.forall_mem_cons.mpr ⟨⟨r, Table.findByName_cons_self hr, hdetail⟩, ?_⟩
    intro later hlater
    rw [Table.findByName_cons_of_ne (hne later hlater)]
    exact h.details later hlater

end ListsFirsts

/-- The labels that a listing shows from here on: not empty, not seen before, and of the wanted
kind. -/
def IsNew (wanted : List Char → Bool) (seen : List (List Char)) (label : String) : Prop :=
  label ≠ "" ∧ label.toList ∉ seen ∧ wanted label.toList = true

theorem isNew_cons (wanted : List Char → Bool) (seen : List (List Char)) (path : List Char)
    (label : String) :
    IsNew wanted (path :: seen) label ↔ IsNew wanted seen label ∧ label ≠ String.ofList path := by
  have hlabel : label.toList = path ↔ label = String.ofList path := by
    rw [← String.toList_inj, String.toList_ofList]
  simp only [IsNew, List.mem_cons, not_or, hlabel]
  constructor
  · rintro ⟨hne, ⟨hother, hseen⟩, hwanted⟩
    exact ⟨⟨hne, hseen, hwanted⟩, hother⟩
  · rintro ⟨⟨hne, hseen, hwanted⟩, hother⟩
    exact ⟨hne, ⟨hother, hseen⟩, hwanted⟩

theorem listsFirsts_distinct (owners : List String) (type : String) (wanted : List Char → Bool)
    (table : Table) (seen : List (List Char)) :
    ListsFirsts type (IsNew wanted seen) table
      (distinct owners seen ((below type table).filter fun member => wanted member.1)) := by
  induction table generalizing seen with
  | nil => exact .nil
  | cons r table ih =>
    cases hpath : memberPath? type r with
    | none =>
      have hbelow : below type (r :: table) = below type table := by
        simp only [below, List.filterMap_cons, hpath, Option.map_none]
      rw [hbelow]
      refine (ih seen).skip fun label _ hname => ?_
      rw [← String.ofList_toList (s := label), ← memberPath_eq_some_iff, hpath] at hname
      cases hname
    | some path =>
      have hbelow : below type (r :: table) = (path, r) :: below type table := by
        simp only [below, List.filterMap_cons, hpath, Option.map_some]
      have hname := (memberPath_eq_some_iff type r path).mp hpath
      -- The record in front is passed over unless its label is new.
      have hskip (hold : ¬ IsNew wanted seen (String.ofList path)) (label : String)
          (hnew : IsNew wanted seen label) : r.name ≠ type ++ "." ++ label := by
        rw [hname, ne_eq, String.append_right_inj]
        rintro rfl
        exact hold hnew
      have hnew : IsNew wanted seen (String.ofList path) ↔
          path ≠ [] ∧ path ∉ seen ∧ wanted path = true := by
        rw [IsNew, String.toList_ofList, ne_eq, ← String.toList_eq_nil_iff, String.toList_ofList]
      rw [hbelow, List.filter_cons]
      split
      · next hwanted =>
        rw [distinct]
        split
        · next hold =>
          refine (ih seen).skip (hskip fun h => ?_)
          obtain ⟨hne, hseen, -⟩ := hnew.mp h
          simp [hne, hseen] at hold
        · next hfresh =>
          have hlabel : IsNew wanted seen (String.ofList path) := by
            rw [hnew]
            simpa [hwanted] using hfresh
          refine .keep ((ih (path :: seen)).congr fun label => ?_) hlabel hname ?_
          · exact (isNew_cons wanted seen path label).symm
          · simp only [ofRecord, List.isEmpty_iff]
      · next hwanted =>
        exact (ih seen).skip (hskip fun h => hwanted (hnew.mp h).2.2)

/-! ## What is offered -/

theorem exists_direct_iff (type : String) (table : Table) :
    (∃ member ∈ below type table, '.' ∉ member.1) ↔ table.HasMember type := by
  constructor
  · rintro ⟨⟨path, r⟩, hmem, hdirect⟩
    obtain ⟨hr, hname⟩ := (mem_below type table path r).mp hmem
    exact ⟨String.ofList path, ⟨r, hr, hname⟩, by rwa [String.toList_ofList]⟩
  · rintro ⟨last, ⟨r, hr, hname⟩, hdirect⟩
    refine ⟨(last.toList, r), (mem_below type table _ r).mpr ⟨hr, ?_⟩, hdirect⟩
    rw [String.ofList_toList, hname]

theorem offered_eq_filter (type : String) (table : Table) :
    ∃ wanted : List Char → Bool,
      offered (below type table) = (below type table).filter (fun member => wanted member.1) ∧
      ∀ path, wanted path = true ↔ (table.HasMember type → '.' ∉ path) := by
  have hempty : ((below type table).filter (!·.1.contains '.')).isEmpty = true ↔
      ¬ table.HasMember type := by
    rw [← exists_direct_iff]
    simp
  rw [offered]
  by_cases hdirect : table.HasMember type
  · refine ⟨(!·.contains '.'), if_neg (fun h => hempty.mp h hdirect), fun path => ?_⟩
    simp [hdirect]
  · refine ⟨fun _ => true, ?_, fun path => by simp [hdirect]⟩
    rw [if_pos (hempty.mpr hdirect)]
    exact (List.filter_eq_self.mpr fun _ _ => rfl).symm

theorem listsFirsts_offered (owners : List String) (type : String) (table : Table) :
    ListsFirsts type (fun label => label ≠ "" ∧ (table.HasMember type → '.' ∉ label.toList)) table
      (distinct owners [] (offered (below type table))) := by
  obtain ⟨wanted, hoffered, hwanted⟩ := offered_eq_filter type table
  rw [hoffered]
  refine (listsFirsts_distinct owners type wanted table []).congr fun label => ?_
  rw [IsNew, hwanted, and_iff_right List.not_mem_nil]

end Completion

namespace Document

/-- The type of the object before the cursor. -/
def typeBefore (doc : Document) (pos : Position) (table : Table) : String :=
  doc.objectType pos table (Bindings.ofDocument doc)

theorem completions_eq_nil {doc : Document} {pos : Position} {table : Table}
    (h : (doc.before pos).getLast? ≠ some '.' ∨ doc.typeBefore pos table = "") :
    doc.completions pos table = [] := by
  rw [completions]
  split
  · rfl
  · next hdot => exact if_pos (h.resolve_left hdot)

theorem completions_eq_distinct {doc : Document} {pos : Position} {table : Table}
    (hdot : (doc.before pos).getLast? = some '.') (htype : doc.typeBefore pos table ≠ "") :
    doc.completions pos table =
      Completion.distinct (Completion.owners (Completion.below (doc.typeBefore pos table) table)) []
        (Completion.offered (Completion.below (doc.typeBefore pos table) table)) := by
  rw [completions, if_neg (not_not_intro hdot)]
  exact if_neg htype

/-- Without a dot before the cursor, or without a type of the object, there are no completions.
Else they are the first records of the names of its members, in the order of the table; where the
type has no direct member, everything below it is offered. -/
theorem completions_list_members (doc : Document) (pos : Position) (table : Table) :
    ((doc.before pos).getLast? ≠ some '.' ∨ doc.typeBefore pos table = "" →
      doc.completions pos table = []) ∧
    ((doc.before pos).getLast? = some '.' → doc.typeBefore pos table ≠ "" →
      Completion.ListsFirsts (doc.typeBefore pos table)
        (fun label => label ≠ "" ∧
          (table.HasMember (doc.typeBefore pos table) → '.' ∉ label.toList))
        table (doc.completions pos table) ∧
      ((doc.completions pos table).map (·.label)).Nodup) := by
  refine ⟨completions_eq_nil, fun hdot htype => ?_⟩
  rw [completions_eq_distinct hdot htype]
  have hlists := Completion.listsFirsts_offered
    (Completion.owners (Completion.below (doc.typeBefore pos table) table))
    (doc.typeBefore pos table) table
  exact ⟨hlists, hlists.nodup⟩

/-- A table with two files of members, another type of the same beginning, and a gap: nothing has the
name `Player.stats.daily`. -/
def playerTable : Table :=
  [⟨"p.js", "Player", 1, 0, []⟩, ⟨"p.js", "Player.jump", 2, 1, [⟨"height", some "number"⟩]⟩,
    ⟨"s.js", "Players.join", 1, 0, []⟩, ⟨"p.js", "Player.stats", 5, 0, []⟩,
    ⟨"q.js", "Player.jump", 9, 0, []⟩, ⟨"p.js", "Player.stats.daily.reset", 6, 0, []⟩,
    ⟨"p.js", "Player.bag", 8, 0, []⟩, ⟨"p.js", "Player.bag.open", 9, 0, []⟩]

def playerDocument : Document :=
  ⟨"a.js", ["let p = new Player();".toList, "p.".toList]⟩

theorem completions_list_members_of_player :
    playerDocument.typeBefore ⟨1, 2⟩ playerTable = "Player" ∧
    (playerDocument.completions ⟨1, 2⟩ playerTable).map (·.label) = ["jump", "stats", "bag"] ∧
    Completion.ListsFirsts "Player"
      (fun label => label ≠ "" ∧ (playerTable.HasMember "Player" → '.' ∉ label.toList))
      playerTable (playerDocument.completions ⟨1, 2⟩ playerTable) := by
  have htype : playerDocument.typeBefore ⟨1, 2⟩ playerTable = "Player" := by decide +kernel
  have hlists := (completions_list_members playerDocument ⟨1, 2⟩ playerTable).2 (by decide +kernel)
    (by rw [htype]; decide)
  rw [htype] at hlists
  exact ⟨htype, by decide +kernel, hlists.1⟩

end Document

/-! ## Namespaces -/

namespace Completion

theorem mem_owners_below (type label : String) (table : Table) :
    type ++ "." ++ label ∈ owners (below type table) ↔ table.HasMember (type ++ "." ++ label) := by
  rw [owners, List.mem_filterMap]
  constructor
  · rintro ⟨⟨path, r⟩, hmem, howner⟩
    obtain ⟨⟨front, last⟩, hcut, hfront⟩ := Option.map_eq_some_iff.mp howner
    have hname : r.name = type ++ "." ++ label ++ "." ++ String.ofList last := by
      rw [← hfront, ← String.toList_inj, splitLast_eq '.' _ _ _ hcut]
      simp
    refine ⟨String.ofList last, ⟨r, ((mem_below type table path r).mp hmem).1, hname⟩, ?_⟩
    rw [String.toList_ofList]
    exact splitLast_free '.' _ _ _ hcut
  · rintro ⟨last, ⟨r, hr, hname⟩, hdirect⟩
    refine ⟨(label.toList ++ '.' :: last.toList, r), (mem_below type table _ r).mpr ⟨hr, ?_⟩, ?_⟩
    · rw [hname, ← String.toList_inj]
      simp
    · have hcut : r.name.toList = (type ++ "." ++ label).toList ++ '.' :: last.toList := by
        rw [hname]
        simp
      rw [hcut, splitLast_append '.' _ _ hdirect, Option.map_some, String.ofList_toList]

theorem exists_of_mem_distinct {owners : List String} {seen : List (List Char)}
    {members : List (List Char × Record)} {item : Completion}
    (hitem : item ∈ distinct owners seen members) :
    ∃ member ∈ members, item = ofRecord owners member.1 member.2 := by
  induction members generalizing seen with
  | nil => cases hitem
  | cons member members ih =>
    obtain ⟨label, r⟩ := member
    rw [distinct] at hitem
    split at hitem
    · obtain ⟨later, hlater, heq⟩ := ih hitem
      exact ⟨later, List.mem_cons_of_mem _ hlater, heq⟩
    · rcases List.mem_cons.mp hitem with heq | hitem
      · exact ⟨(label, r), List.mem_cons_self, heq⟩
      · obtain ⟨later, hlater, heq⟩ := ih hitem
        exact ⟨later, List.mem_cons_of_mem _ hlater, heq⟩

theorem mem_of_mem_offered {members : List (List Char × Record)} {member : List Char × Record}
    (h : member ∈ offered members) : member ∈ members := by
  rw [offered] at h
  split at h
  · exact h
  · exact (List.mem_filter.mp h).1

end Completion

namespace Document

variable {doc : Document} {pos : Position} {table : Table} {item : Completion}

theorem exists_record_of_mem_completions (hitem : item ∈ doc.completions pos table) :
    table.IsBelow (doc.typeBefore pos table) item.label ∧
      (item.kind = .namespaced ↔ doc.typeBefore pos table ++ "." ++ item.label ∈
        Completion.owners (Completion.below (doc.typeBefore pos table) table)) := by
  have hnil : doc.completions pos table ≠ [] := List.ne_nil_of_mem hitem
  have hdot : (doc.before pos).getLast? = some '.' :=
    Decidable.byContradiction fun h => hnil (completions_eq_nil (.inl h))
  have htype : doc.typeBefore pos table ≠ "" := fun h => hnil (completions_eq_nil (.inr h))
  rw [completions_eq_distinct hdot htype] at hitem
  obtain ⟨⟨path, r⟩, hmember, rfl⟩ := Completion.exists_of_mem_distinct hitem
  obtain ⟨hr, hname⟩ :=
    (Completion.mem_below _ table path r).mp (Completion.mem_of_mem_offered hmember)
  refine ⟨⟨r, hr, hname⟩, ?_⟩
  rw [Completion.ofRecord, ← hname]
  show (if r.name ∈ _ then Completion.Kind.namespaced else Completion.Kind.method) = .namespaced ↔ _
  split
  · next howner => exact iff_of_true rfl howner
  · next howner => exact iff_of_false nofun howner

/-- An item stands for a record, and is a namespace exactly if some record lies directly below the
name. So it is one whenever something lies below the name, and only then, exactly if nothing lies
below the name without something directly below it. -/
theorem completion_marks_namespace_iff (hitem : item ∈ doc.completions pos table) :
    let name := doc.typeBefore pos table ++ "." ++ item.label
    (∃ r ∈ table, r.name = name) ∧ (item.kind = .namespaced ↔ table.HasMember name) ∧
    ((item.kind = .namespaced ↔ ∃ rest, table.IsBelow name rest) ↔
      ((∃ rest, table.IsBelow name rest) → table.HasMember name)) := by
  obtain ⟨hrecord, hkind⟩ := exists_record_of_mem_completions hitem
  rw [Completion.mem_owners_below] at hkind
  refine ⟨hrecord, hkind, ?_⟩
  rw [hkind]
  refine ⟨fun h => h.mpr, fun h => ⟨fun hmember => ?_, h⟩⟩
  obtain ⟨last, hlast, -⟩ := hmember
  exact ⟨last, hlast⟩

theorem completion_marks_bag :
    (⟨"bag", .namespaced, none⟩ : Completion) ∈ playerDocument.completions ⟨1, 2⟩ playerTable ∧
    playerDocument.typeBefore ⟨1, 2⟩ playerTable = "Player" ∧
    (∃ r ∈ playerTable, r.name = "Player.bag") ∧ playerTable.HasMember "Player.bag" := by
  have hitem : (⟨"bag", .namespaced, none⟩ : Completion) ∈
      playerDocument.completions ⟨1, 2⟩ playerTable := by decide +kernel
  have htype : playerDocument.typeBefore ⟨1, 2⟩ playerTable = "Player" := by decide +kernel
  obtain ⟨hrecord, hmarked, -⟩ := completion_marks_namespace_iff hitem
  rw [htype] at hrecord hmarked
  exact ⟨hitem, htype, hrecord, hmarked.mp rfl⟩

/-- A record lies two levels below `Player.stats`, and the item is a method. -/
theorem completion_misses_namespace_above_gap :
    (⟨"stats", .method, none⟩ : Completion) ∈ playerDocument.completions ⟨1, 2⟩ playerTable ∧
    playerDocument.typeBefore ⟨1, 2⟩ playerTable = "Player" ∧
    playerTable.IsBelow "Player.stats" "daily.reset" := by
  refine ⟨by decide +kernel, by decide +kernel, ?_⟩
  exact ⟨⟨"p.js", "Player.stats.daily.reset", 6, 0, []⟩, by decide +kernel, by decide⟩

end Document

end CodeNav
