import CodeNav.Proofs.Symbol.LineFields

/-! Lines of the index, read back. A line holds the normal form of its record: line breaks are gone
everywhere, semicolons and colons of parameters are replaced, and a type spelled like the
placeholder is absent. Reading a line gives the normal form exactly when neither the path nor the
name has a comma, and the normal form is written as the same line. -/
namespace CodeNav
set_option autoImplicit false
open Text

/-! ## The normal form -/

def oneLine (s : String) : String :=
  String.ofList (s.toList.filter fun c => c != '\n' && c != '\r')

def substitute (old new : Char) (s : String) : String :=
  String.ofList (s.toList.map fun c => if c = old then new else c)

def Parameter.normalized (p : Parameter) : Parameter :=
  { name := substitute ':' '=' (substitute ';' ',' (oneLine p.name))
    type := (p.type.map fun t => substitute ';' ',' (oneLine t)).filter (· != "unknown") }

def Record.normalized (r : Record) : Record :=
  { r with file := oneLine r.file, name := oneLine r.name,
           params := r.params.map Parameter.normalized }

/-- Neither the path nor the name holds a comma. -/
def Record.CommaFree (r : Record) : Prop :=
  ',' ∉ r.file.toList ∧ ',' ∉ r.name.toList

/-- Neither the path nor the name holds a line break. -/
def Record.Unbroken (r : Record) : Prop :=
  ∀ c ∈ r.file.toList ++ r.name.toList, c ≠ '\n' ∧ c ≠ '\r'

/-- A parameter of which a line keeps everything. -/
structure Parameter.Plain (p : Parameter) : Prop where
  name : ∀ c ∈ p.name.toList, c ≠ '\n' ∧ c ≠ '\r' ∧ c ≠ ';' ∧ c ≠ ':'
  type : ∀ t ∈ p.type, t ≠ "unknown" ∧ ∀ c ∈ t.toList, c ≠ '\n' ∧ c ≠ '\r' ∧ c ≠ ';'

instance (r : Record) : Decidable r.CommaFree :=
  inferInstanceAs (Decidable (_ ∧ _))

instance (r : Record) : Decidable r.Unbroken :=
  decidable_of_iff ((r.file.toList ++ r.name.toList).all (fun c => c != '\n' && c != '\r') = true)
    (by simp [Record.Unbroken, -List.all_append])

instance (p : Parameter) : Decidable p.Plain :=
  decidable_of_iff
    (p.name.toList.all (fun c => c != '\n' && c != '\r' && c != ';' && c != ':') = true ∧
      p.type.all (fun t => t != "unknown" &&
        t.toList.all fun c => c != '\n' && c != '\r' && c != ';') = true)
    ⟨fun h => ⟨by simpa [and_assoc] using h.1, by simpa [and_assoc, Option.all_eq_true] using h.2⟩,
      fun h => ⟨by simpa [and_assoc] using h.name,
        by simpa [and_assoc, Option.all_eq_true] using h.type⟩⟩

namespace Line

/-! ## Texts as they are written -/

theorem isLineBreak_eq_false (c : Char) : isLineBreak c = false ↔ c ≠ '\n' ∧ c ≠ '\r' := by
  simp [isLineBreak]

theorem mem_unbroken (c : Char) (cs : List Char) :
    c ∈ unbroken cs ↔ c ∈ cs ∧ c ≠ '\n' ∧ c ≠ '\r' := by
  simp [unbroken, isLineBreak_eq_false]

theorem mem_typeText (c : Char) (cs : List Char) (h : c ∈ typeText cs) :
    c ≠ '\n' ∧ c ≠ '\r' ∧ c ≠ ';' := by
  rcases mem_replaceChar tokenSeparator ',' c (unbroken cs) h with rfl | ⟨hc, hne⟩
  · decide
  · have hb := (mem_unbroken c cs).mp hc
    exact ⟨hb.2.1, hb.2.2, hne⟩

theorem mem_nameText (c : Char) (cs : List Char) (h : c ∈ nameText cs) :
    c ≠ '\n' ∧ c ≠ '\r' ∧ c ≠ ';' ∧ c ≠ ':' := by
  rcases mem_replaceChar typeMark '=' c (typeText cs) h with rfl | ⟨hc, hne⟩
  · decide
  · obtain ⟨h1, h2, h3⟩ := mem_typeText c cs hc
    exact ⟨h1, h2, h3, hne⟩

theorem unbroken_of_plain (cs : List Char) (h : ∀ c ∈ cs, c ≠ '\n' ∧ c ≠ '\r') :
    unbroken cs = cs := by
  rw [unbroken, List.filter_eq_self]
  intro c hc
  simp [(isLineBreak_eq_false c).mpr (h c hc)]

theorem typeText_of_plain (cs : List Char) (h : ∀ c ∈ cs, c ≠ '\n' ∧ c ≠ '\r' ∧ c ≠ ';') :
    typeText cs = cs := by
  rw [typeText, unbroken_of_plain cs (fun c hc => ⟨(h c hc).1, (h c hc).2.1⟩)]
  exact replaceChar_free tokenSeparator ',' cs (fun hc => (h ';' hc).2.2 rfl)

theorem nameText_of_plain (cs : List Char)
    (h : ∀ c ∈ cs, c ≠ '\n' ∧ c ≠ '\r' ∧ c ≠ ';' ∧ c ≠ ':') : nameText cs = cs := by
  rw [nameText, typeText_of_plain cs (fun c hc => ⟨(h c hc).1, (h c hc).2.1, (h c hc).2.2.1⟩)]
  exact replaceChar_free typeMark '=' cs (fun hc => (h ':' hc).2.2.2 rfl)

theorem unbroken_unbroken (cs : List Char) : unbroken (unbroken cs) = unbroken cs :=
  unbroken_of_plain _ (fun c hc => ((mem_unbroken c cs).mp hc).2)

theorem typeText_typeText (cs : List Char) : typeText (typeText cs) = typeText cs :=
  typeText_of_plain _ (fun c hc => mem_typeText c cs hc)

theorem nameText_nameText (cs : List Char) : nameText (nameText cs) = nameText cs :=
  nameText_of_plain _ (fun c hc => mem_nameText c cs hc)

/-! ## The written texts are the normal ones -/

theorem toList_oneLine (s : String) : (oneLine s).toList = unbroken s.toList := by
  rw [oneLine, String.toList_ofList, unbroken]
  apply List.filter_congr
  intro c _
  simp [isLineBreak, Bool.not_or, bne]

theorem toList_normalType (t : String) :
    (substitute ';' ',' (oneLine t)).toList = typeText t.toList := by
  rw [substitute, String.toList_ofList, toList_oneLine, typeText, replaceChar]
  simp [tokenSeparator]

theorem toList_normalName (s : String) :
    (substitute ':' '=' (substitute ';' ',' (oneLine s))).toList = nameText s.toList := by
  rw [substitute, String.toList_ofList, toList_normalType, nameText, replaceChar]
  simp [typeMark]

theorem typeText_eq_unknown (t : String) :
    typeText t.toList = unknownType ↔ substitute ';' ',' (oneLine t) = "unknown" := by
  rw [← toList_normalType]
  exact String.toList_inj

theorem token_normalized (p : Parameter) : token p.normalized = token p := by
  cases hp : p.type with
  | none => simp [token, Parameter.normalized, hp, toList_normalName, nameText_nameText]
  | some t =>
    by_cases hu : substitute ';' ',' (oneLine t) = "unknown"
    · have ht := (typeText_eq_unknown t).mpr hu
      simp [token, Parameter.normalized, hp, hu, ht, toList_normalName, nameText_nameText,
        Option.filter_some]
    · simp [token, Parameter.normalized, hp, hu, toList_normalName, toList_normalType,
        nameText_nameText, typeText_typeText, Option.filter_some]

/-! ## Reading the fields -/

theorem readWord_digits (n : UInt32) : readWord? (digits n.toNat) = some n := by
  have htrim : trim (digits n.toNat) = digits n.toNat :=
    trim_free _ (fun c hc => isBlank_digit c (digit_of_mem_digits n.toNat c hc))
  have hbound : n.toNat ≤ UInt32.size - 1 := by
    have := UInt32.toNat_lt_size n
    omega
  rw [readWord?, htrim, readNumeral_digits _ _ hbound]
  simp

theorem parseToken_token (p : Parameter) : parseToken (token p) = p.normalized := by
  have hmark : typeMark ∉ nameText p.name.toList := fun hc => (mem_nameText ':' _ hc).2.2.2 rfl
  have hname : String.ofList (nameText p.name.toList) =
      substitute ':' '=' (substitute ';' ',' (oneLine p.name)) := by
    rw [← toList_normalName, String.ofList_toList]
  rw [parseToken, token, splitFirst_append typeMark _ _ hmark]
  cases hp : p.type with
  | none => simp [Parameter.normalized, hp, hname]
  | some t =>
    have htype : String.ofList (typeText t.toList) = substitute ';' ',' (oneLine t) := by
      rw [← toList_normalType, String.ofList_toList]
    by_cases hu : substitute ';' ',' (oneLine t) = "unknown"
    · have ht := (typeText_eq_unknown t).mpr hu
      simp [Parameter.normalized, hp, hname, hu, ht, Option.filter_some]
    · have hne : typeText t.toList ≠ unknownType := fun he => hu ((typeText_eq_unknown t).mp he)
      simp [Parameter.normalized, hp, hname, htype, hu, hne, Option.filter_some]

theorem mem_token (p : Parameter) (c : Char) (h : c ∈ token p) :
    c ≠ '\n' ∧ c ≠ '\r' ∧ c ≠ ';' := by
  rw [token, List.mem_append, List.mem_cons] at h
  rcases h with h | rfl | h
  · obtain ⟨h1, h2, h3, _⟩ := mem_nameText c _ h
    exact ⟨h1, h2, h3⟩
  · decide
  · cases hp : p.type with
    | none =>
      rw [hp] at h
      have hall : unknownType.all (fun c => c != '\n' && c != '\r' && c != ';') = true := by decide
      simpa [and_assoc] using List.all_eq_true.mp hall c h
    | some t =>
      rw [hp] at h
      exact mem_typeText c _ h

theorem parseParams_tokens (params : List Parameter) :
    parseParams (joinWith tokenSeparator (params.map token)) =
      params.map Parameter.normalized := by
  have hreturn : ∀ c ∈ joinWith tokenSeparator (params.map token), (c == '\r') = false := by
    intro c hc
    rcases mem_joinWith tokenSeparator c _ hc with rfl | ⟨piece, hpiece, hin⟩
    · decide
    · obtain ⟨p, _, rfl⟩ := List.mem_map.mp hpiece
      exact beq_false_of_ne (mem_token p c hin).2.1
  rw [parseParams, trimEnd_free _ _ hreturn]
  cases params with
  | nil => rfl
  | cons p ps =>
    have hfree : ∀ piece ∈ token p :: ps.map token, tokenSeparator ∉ piece := by
      intro piece hpiece
      rw [← List.map_cons] at hpiece
      obtain ⟨q, _, rfl⟩ := List.mem_map.mp hpiece
      exact fun hc => (mem_token q ';' hc).2.2 rfl
    have hsplit := splitOn_joinWith tokenSeparator (token p) (ps.map token) hfree
    have hne : joinWith tokenSeparator (token p :: ps.map token) ≠ [] := by
      intro he
      rw [he] at hsplit
      simp [splitOn, splitWhere, token] at hsplit
    rw [List.map_cons, List.isEmpty_eq_false_iff.mpr hne, hsplit, ← List.map_cons, List.map_map]
    simp only [Bool.false_eq_true, ↓reduceIte]
    apply List.map_congr_left
    intro q _
    exact parseToken_token q

/-- A line that can be read has a path and a name without commas. -/
theorem parse_commaFree (line : List Char) (r : Record) (h : parse line = .ok r) :
    r.CommaFree := by
  obtain ⟨file, name, _, _, _, hfields, hfile, hname, _⟩ := exists_fields_of_parse line r h
  rw [Record.CommaFree, hfile, hname, String.toList_ofList, String.toList_ofList]
  exact ⟨hfields.free file (by simp), hfields.free name (by simp)⟩

end Line

namespace Record
open Line

/-! ## Reading a written line -/

theorem commaFree_normalized (r : Record) : r.normalized.CommaFree ↔ r.CommaFree := by
  simp [CommaFree, normalized, toList_oneLine, mem_unbroken]

theorem toLine_normalized (r : Record) : r.normalized.toLine = r.toLine := by
  have htokens : r.normalized.params.map token = r.params.map token := by
    rw [normalized, List.map_map]
    apply List.map_congr_left
    intro p _
    exact token_normalized p
  rw [toLine, toLine, fields, fields, htokens]
  simp only [normalized, toList_oneLine, unbroken_unbroken]

theorem hasFields_toLine (r : Record) (h : r.CommaFree) :
    HasFields r.toLine (unbroken r.file.toList) (unbroken r.name.toList) (digits r.line.toNat)
      (digits r.arity.toNat) (some (joinWith tokenSeparator (r.params.map token))) := by
  refine ⟨rfl, ?_⟩
  intro field hfield
  simp only [List.mem_cons, List.not_mem_nil, or_false] at hfield
  rcases hfield with rfl | rfl | rfl | rfl
  · exact fun hc => h.1 ((mem_unbroken _ _).mp hc).1
  · exact fun hc => h.2 ((mem_unbroken _ _).mp hc).1
  · exact not_mem_digits _ ',' (by decide)
  · exact not_mem_digits _ ',' (by decide)

theorem parse_toLine (r : Record) (h : r.CommaFree) : Line.parse r.toLine = .ok r.normalized := by
  rw [parse_eq_ok_iff, (hasFields_toLine r h).toOption_parse, readWord_digits, readWord_digits,
    Option.bind_some, Option.map_some, Option.map_some, Option.getD_some, parseParams_tokens,
    ← toList_oneLine, ← toList_oneLine, String.ofList_toList, String.ofList_toList, normalized]

/-! ## Records that a line keeps whole -/

theorem oneLine_of_plain (s : String) (h : ∀ c ∈ s.toList, c ≠ '\n' ∧ c ≠ '\r') : oneLine s = s := by
  rw [← String.toList_inj, toList_oneLine, unbroken_of_plain _ h]

theorem normalized_of_plain (p : Parameter) (h : p.Plain) : p.normalized = p := by
  have hname : substitute ':' '=' (substitute ';' ',' (oneLine p.name)) = p.name := by
    rw [← String.toList_inj, toList_normalName, nameText_of_plain _ h.name]
  have htype : (p.type.map fun t => substitute ';' ',' (oneLine t)).filter (· != "unknown") =
      p.type := by
    cases hp : p.type with
    | none => rfl
    | some t =>
      obtain ⟨hu, hplain⟩ := h.type t hp
      have ht : substitute ';' ',' (oneLine t) = t := by
        rw [← String.toList_inj, toList_normalType, typeText_of_plain _ hplain]
      simp [ht, hu, Option.filter_some]
  rw [Parameter.normalized, hname, htype]

theorem normalized_eq_self (r : Record) (hr : r.Unbroken) (hp : ∀ p ∈ r.params, p.Plain) :
    r.normalized = r := by
  have hparams : r.params.map Parameter.normalized = r.params := by
    conv => rhs; rw [← List.map_id r.params]
    apply List.map_congr_left
    intro p hmem
    exact normalized_of_plain p (hp p hmem)
  rw [normalized, oneLine_of_plain _ (fun c hc => hr c (List.mem_append_left _ hc)),
    oneLine_of_plain _ (fun c hc => hr c (List.mem_append_right _ hc)), hparams]

/-- Reading undoes writing up to the normal form, exactly for records whose path and name have no
comma. A record without line breaks whose parameters are plain is restored as it was. -/
theorem line_restores_record (r : Record) :
    (Line.parse r.toLine = .ok r.normalized ↔ r.CommaFree) ∧
    r.normalized.toLine = r.toLine ∧
    (r.CommaFree → r.Unbroken → (∀ p ∈ r.params, p.Plain) → Line.parse r.toLine = .ok r) := by
  refine ⟨⟨?_, parse_toLine r⟩, toLine_normalized r, ?_⟩
  · intro h
    exact (commaFree_normalized r).mp (parse_commaFree r.toLine r.normalized h)
  · intro hcomma hbreak hplain
    rw [parse_toLine r hcomma, normalized_eq_self r hbreak hplain]

/-- Empty texts, separators inside a type, and a count that is not the number of parameters. -/
def oddRecord : Record :=
  { file := "", name := "", line := 4294967295, arity := 7,
    params := [⟨"", some ""⟩, ⟨"m", some "Map<string, { k: number }>"⟩, ⟨"x", none⟩] }

theorem line_restores_oddRecord :
    oddRecord.CommaFree ∧ oddRecord.Unbroken ∧ (∀ p ∈ oddRecord.params, p.Plain) ∧
      Line.parse oddRecord.toLine = .ok oddRecord := by
  have hcomma : oddRecord.CommaFree := by decide
  have hbreak : oddRecord.Unbroken := by decide
  have hplain : ∀ p ∈ oddRecord.params, p.Plain := by decide
  exact ⟨hcomma, hbreak, hplain, (line_restores_record oddRecord).2.2 hcomma hbreak hplain⟩

/-- A path that goes on after a line feed. -/
def brokenPath : Record := { file := "a\nb.js", name := "f", line := 1 }

/-- Plain parameters and no comma do not suffice: a line break in the path is lost. -/
theorem brokenPath_not_restored :
    brokenPath.CommaFree ∧ (∀ p ∈ brokenPath.params, p.Plain) ∧
      Line.parse brokenPath.toLine ≠ .ok brokenPath := by
  have hcomma : brokenPath.CommaFree := by decide
  have hother : brokenPath.normalized ≠ brokenPath := by decide
  refine ⟨hcomma, by decide, ?_⟩
  rw [parse_toLine brokenPath hcomma]
  exact fun h => hother (Except.ok.inj h)

end Record

end CodeNav
