import CodeNav.Json.Parser
import CodeNav.Proofs.Text.Pieces

/-! JSON that was written is read back. A value without uninterpreted parts is written so that the
reader, at the start of it and before anything that cannot continue a number, gives the value and
stops right behind it. The lemmas on items and fields leave the blanks around them open. -/
namespace CodeNav.Json
set_option autoImplicit false
open Text

/-! ## Blanks -/

def Gap (cs : List Char) : Prop :=
  ∀ c ∈ cs, isSpace c = true

theorem gap_nil : Gap [] := by
  simp [Gap]

theorem skipSpace_append {gap : List Char} (hgap : Gap gap) (cs : List Char) :
    skipSpace (gap ++ cs) = skipSpace cs :=
  List.dropWhile_append_of_pos hgap

theorem skipSpace_cons {c : Char} (hc : isSpace c = false) (cs : List Char) :
    skipSpace (c :: cs) = c :: cs :=
  List.dropWhile_cons_of_neg (by simp [hc])

/-! ## Texts -/

theorem hexValue_hexDigit (n : Nat) (h : n < 16) : hexValue? (hexDigit n) = some n := by
  have hall : ∀ n < 16, hexValue? (hexDigit n) = some n := by decide
  exact hall n h

theorem numericEscape_control (c : Char) (more : List Char) (h : c.toNat < 32) :
    numericEscape? ('0' :: '0' :: hexDigit (c.toNat / 16) :: hexDigit (c.toNat % 16) :: more)
      = some (some c, more) := by
  have hzero : hexValue? '0' = some 0 := by decide
  have hhigh := hexValue_hexDigit (c.toNat / 16) (by omega)
  have hlow := hexValue_hexDigit (c.toNat % 16) (by omega)
  have hsum : 16 * (c.toNat / 16) + c.toNat % 16 = c.toNat := by omega
  have h1 : isHighHalf c.toNat = false := by simp [isHighHalf]; omega
  have h2 : isLowHalf c.toNat = false := by simp [isLowHalf]; omega
  simp [numericEscape?, hex4?, hzero, hhigh, hlow, hsum, h1, h2]

section
variable {fuel : Nat} {c : Char} {more rest : List Char} {chars : List (Option Char)}

theorem textFrom_simple (e : Char) (hc : simpleEscape? e = some c)
    (h : textFrom fuel more = some (chars, rest)) :
    textFrom (fuel + 1) ('\\' :: e :: more) = some (some c :: chars, rest) := by
  -- keeps the branch of numeric escapes out
  have he : e ≠ 'u' := by
    rintro rfl
    simp [simpleEscape?] at hc
  simp [textFrom, hc, h]

theorem textFrom_control (hc : c.toNat < 32) (h : textFrom fuel more = some (chars, rest)) :
    textFrom (fuel + 1) ('\\' :: 'u' :: '0' :: '0' :: hexDigit (c.toNat / 16)
      :: hexDigit (c.toNat % 16) :: more) = some (some c :: chars, rest) := by
  simp [textFrom, numericEscape_control c more hc, h]

theorem textFrom_plain (hquote : c ≠ '"') (hslash : c ≠ '\\') (hc : 32 ≤ c.toNat)
    (h : textFrom fuel more = some (chars, rest)) :
    textFrom (fuel + 1) (c :: more) = some (some c :: chars, rest) := by
  have hsize : ¬ c.toNat < 32 := by omega
  simp [textFrom, hquote, hslash, hsize, h]

/-- One character of a text is read back from the form it is written in. -/
theorem textFrom_escaped (h : textFrom fuel more = some (chars, rest)) :
    textFrom (fuel + 1) (escaped c ++ more) = some (some c :: chars, rest) := by
  have hnamed : ∀ (n : Nat) (e : Char), c.toNat = n → simpleEscape? e = some (Char.ofNat n) →
      textFrom (fuel + 1) (['\\', e] ++ more) = some (some c :: chars, rest) := by
    intro n e hn hs
    have hc : c = Char.ofNat n := by rw [← hn, Char.ofNat_toNat]
    exact textFrom_simple e (hc ▸ hs) h
  simp only [escaped, beq_iff_eq]
  split
  case isTrue hc => exact hnamed 34 '"' (by simp [hc]) (by decide)
  split
  case isTrue hc => exact hnamed 92 '\\' (by simp [hc]) (by decide)
  split
  case isTrue hquote hslash hc => exact textFrom_plain hquote hslash hc h
  split
  case isTrue hc => exact hnamed 8 'b' hc (by decide)
  split
  case isTrue hc => exact hnamed 9 't' hc (by decide)
  split
  case isTrue hc => exact hnamed 10 'n' hc (by decide)
  split
  case isTrue hc => exact hnamed 12 'f' hc (by decide)
  split
  case isTrue hc => exact hnamed 13 'r' hc (by decide)
  exact textFrom_control (by omega) h

end

theorem textFrom_flatMap (cs rest : List Char) (fuel : Nat) (h : cs.length < fuel) :
    textFrom fuel (cs.flatMap escaped ++ '"' :: rest) = some (cs.map some, rest) := by
  induction cs generalizing fuel with
  | nil =>
    obtain ⟨n, rfl⟩ : ∃ n, fuel = n + 1 := ⟨fuel - 1, by simp at h; omega⟩
    simp [textFrom]
  | cons c cs ih =>
    obtain ⟨n, rfl⟩ : ∃ n, fuel = n + 1 := ⟨fuel - 1, by simp at h; omega⟩
    rw [List.flatMap_cons, List.append_assoc]
    exact textFrom_escaped (ih n (by simpa using h))

theorem escaped_ne_nil (c : Char) : escaped c ≠ [] := by
  unfold escaped
  repeat' split
  all_goals simp

theorem length_le_flatMap_escaped (cs : List Char) : cs.length ≤ (cs.flatMap escaped).length := by
  induction cs with
  | nil => simp
  | cons c cs ih =>
    have hc := List.length_pos_iff.mpr (escaped_ne_nil c)
    simp only [List.flatMap_cons, List.length_append, List.length_cons]
    omega

theorem string_map_some (cs : List Char) : string? (cs.map some) = some (String.ofList cs) := by
  rw [string?, mapM_map_of_read id some id cs (fun _ _ => rfl), List.map_id]
  rfl

/-- The reader finds the opening quote of a written text, then the text, then what follows it. -/
theorem quoted_read {gap : List Char} (hgap : Gap gap) (s : String) (rest : List Char) :
    ∃ cs chars, skipSpace (gap ++ (quoted s ++ rest)) = '"' :: cs ∧
      textFrom (cs.length + 1) cs = some (chars, rest) ∧ string? chars = some s := by
  have hlen := length_le_flatMap_escaped s.toList
  have htail : quoted s ++ rest = '"' :: (s.toList.flatMap escaped ++ '"' :: rest) := by
    simp [quoted]
  refine ⟨s.toList.flatMap escaped ++ '"' :: rest, s.toList.map some, ?_, ?_, ?_⟩
  · rw [skipSpace_append hgap, htail, skipSpace_cons (by decide)]
  · apply textFrom_flatMap
    simp only [List.length_append, List.length_cons]
    omega
  · rw [string_map_some, String.ofList_toList]

/-! ## Numbers -/

/-- Nothing that could belong to a number before it. -/
def Ends (rest : List Char) : Prop :=
  ∀ c ∈ rest.head?, c.isDigit = false ∧ c ≠ '.' ∧ c ≠ 'e' ∧ c ≠ 'E'

theorem digits_zero_first (n : Nat) (h : (digits n).head? = some '0') : (digits n).length = 1 := by
  induction n using Nat.strongRecOn with
  | ind n ih =>
    by_cases hn : n < 10
    · rw [digits, Nat.toDigits_eq_if (by decide), if_pos hn]
      rfl
    · have hsnoc : digits n = digits (n / 10) ++ [Nat.digitChar (n % 10)] := by
        rw [digits, digits, Nat.toDigits_eq_if (by decide), if_neg hn]
      -- a leading zero would be all of the higher digits, which then stand for zero
      obtain ⟨c, cs, hd⟩ := List.exists_cons_of_ne_nil (digits_ne_nil (n / 10))
      have hc : c = '0' := by simpa [hsnoc, hd] using h
      have hcs : cs = [] := by simpa [hd] using ih (n / 10) (by omega) (by simp [hd, hc])
      have hvalue := numeralValue_digits (n / 10)
      rw [hd, hc, hcs] at hvalue
      have : numeralValue ['0'] = 0 := by decide
      omega

theorem whole_digits (n : Nat) (rest : List Char) (h : Ends rest) :
    whole? (digits n ++ rest) = some (digits n, rest) := by
  have hall : ∀ c ∈ digits n, c.isDigit = true := fun c hc => digit_of_mem_digits n c hc
  have htake : rest.takeWhile Char.isDigit = [] := by
    cases rest with
    | nil => rfl
    | cons c cs => simp [(h c (by simp)).1]
  have hdrop : rest.dropWhile Char.isDigit = rest := by
    cases rest with
    | nil => rfl
    | cons c cs => simp [(h c (by simp)).1]
  have hzero : ¬ ((digits n).head? = some '0' ∧ 1 < (digits n).length) := by
    rintro ⟨h0, hlen⟩
    have := digits_zero_first n h0
    omega
  simp [whole?, digits?, List.takeWhile_append_of_pos hall, List.dropWhile_append_of_pos hall,
    htake, hdrop, digits_ne_nil, hzero]

theorem number_digits (n : Nat) (rest : List Char) (h : Ends rest) :
    number? (digits n ++ rest) = some (.nat n, rest) := by
  have hsign : ∀ cs, digits n ++ rest ≠ '-' :: cs := by
    intro cs he
    obtain ⟨c, ds, hd⟩ := List.exists_cons_of_ne_nil (digits_ne_nil n)
    have hc := digit_of_mem_digits n c (by simp [hd])
    rw [hd] at he
    rw [(List.cons.inj he).1] at hc
    simp [Char.isDigit] at hc
  have hfraction : fraction? rest = some ([], rest) := by
    cases rest with
    | nil => rfl
    | cons c cs => simp [fraction?, (h c (by simp)).2.1]
  have hexponent : exponent? rest = some ([], rest) := by
    cases rest with
    | nil => rfl
    | cons c cs => simp [exponent?, (h c (by simp)).2.2]
  simp [number?, whole_digits n rest h, hfraction, hexponent, numeralValue_digits]

theorem Ends.gap {gap rest : List Char} (hgap : Gap gap) (h : Ends rest) : Ends (gap ++ rest) := by
  intro c hc
  cases gap with
  | nil => exact h c hc
  | cons d gap =>
    obtain rfl : d = c := by simpa using hc
    have hd := hgap d List.mem_cons_self
    simp only [isSpace, Bool.or_eq_true, beq_iff_eq] at hd
    rcases hd with ((rfl | rfl) | rfl) | rfl <;> decide

theorem ends_comma (rest : List Char) : Ends (',' :: rest) := by
  simp [Ends, Char.isDigit]

theorem ends_bracket (rest : List Char) : Ends (']' :: rest) := by
  simp [Ends, Char.isDigit]

theorem ends_brace (rest : List Char) : Ends ('\x7d' :: rest) := by
  simp [Ends, Char.isDigit]

/-! ## Values -/

/-- The reader takes `text` for the value and stops behind it. Two steps per character are enough,
as in `parse?`. -/
def ReadsAs (text : List Char) (j : Json) : Prop :=
  ∀ fuel rest, 2 * text.length ≤ fuel → Ends rest → value? fuel (text ++ rest) = some (j, rest)

/-- A text that is not empty is read with some step left. -/
theorem readsAs_of_succ {c : Char} {text : List Char} {j : Json}
    (h : ∀ fuel rest, 2 * text.length < fuel → Ends rest →
      value? (fuel + 1) (c :: text ++ rest) = some (j, rest)) : ReadsAs (c :: text) j := by
  intro fuel rest hfuel hrest
  rw [List.length_cons] at hfuel
  obtain ⟨k, rfl⟩ : ∃ k, fuel = k + 1 := ⟨fuel - 1, by omega⟩
  exact h k rest (by omega) hrest

theorem readsAs_word {word : String} {c : Char} {j : Json} (hword : word.toList.head? = some c)
    (h : ∀ fuel rest, value? (fuel + 1) (c :: rest) = word? word j (c :: rest)) :
    ReadsAs word.toList j := by
  obtain ⟨cs, hword⟩ := List.head?_eq_some_iff.mp hword
  rw [hword]
  apply readsAs_of_succ
  intro fuel rest _ _
  rw [List.cons_append, h, ← List.cons_append, ← hword]
  simp [word?, dropPrefix?]

theorem readsAs_null : ReadsAs "null".toList .null := by
  apply readsAs_word (c := 'n') (by decide)
  intro fuel rest
  rw [value?, skipSpace_cons (by decide)]
  simp

theorem readsAs_true : ReadsAs "true".toList (.bool true) := by
  apply readsAs_word (c := 't') (by decide)
  intro fuel rest
  rw [value?, skipSpace_cons (by decide)]
  simp

theorem readsAs_false : ReadsAs "false".toList (.bool false) := by
  apply readsAs_word (c := 'f') (by decide)
  intro fuel rest
  rw [value?, skipSpace_cons (by decide)]
  simp

theorem value_digit {c : Char} (hc : c.isDigit = true) (fuel : Nat) (cs : List Char) :
    value? (fuel + 1) (c :: cs) = number? (c :: cs) := by
  have hne : ∀ d : Char, d.isDigit = false → c ≠ d := by
    rintro d hd rfl
    simp [hc] at hd
  have hspace : isSpace c = false := by
    simp [isSpace, hne ' ' (by decide), hne '\n' (by decide), hne '\t' (by decide),
      hne '\r' (by decide)]
  rw [value?, skipSpace_cons hspace]
  simp [hne '"' (by decide), hne '[' (by decide), hne '\x7b' (by decide), hne 'n' (by decide),
    hne 't' (by decide), hne 'f' (by decide)]

theorem readsAs_nat (n : Nat) : ReadsAs (digits n) (.nat n) := by
  obtain ⟨c, cs, hd⟩ := List.exists_cons_of_ne_nil (digits_ne_nil n)
  have hc := digit_of_mem_digits n c (by simp [hd])
  rw [hd]
  apply readsAs_of_succ
  intro fuel rest _ hrest
  rw [List.cons_append, value_digit hc, ← List.cons_append, ← hd]
  exact number_digits n rest hrest

theorem readsAs_str (s : String) : ReadsAs (quoted s) (.str s) := by
  apply readsAs_of_succ
  intro fuel rest _ _
  obtain ⟨cs, chars, hskip, htext, hstring⟩ := quoted_read gap_nil s rest
  change value? (fuel + 1) (quoted s ++ rest) = _
  rw [value?, ← List.nil_append (quoted s ++ rest), hskip]
  simp [htext, hstring]

/-! ## Items -/

section
variable {fuel : Nat} {text more rest after : List Char} {item : Json} {items : List Json}

theorem items_last (h : value? fuel text = some (item, rest))
    (hclose : skipSpace rest = ']' :: after) :
    items? (fuel + 1) text = some ([item], after) := by
  simp [items?, h, hclose]

theorem items_more (h : value? fuel text = some (item, ',' :: more))
    (hmore : items? fuel more = some (items, after)) :
    items? (fuel + 1) text = some (item :: items, after) := by
  simp [items?, h, skipSpace_cons (show isSpace ',' = false by decide), hmore]

theorem items_close (h : skipSpace text = ']' :: after) : items? fuel text = none := by
  have hvalue : ∀ n, value? n text = none := by
    intro n
    cases n with
    | zero => simp [value?]
    | succ n => simp [value?, h, number?, whole?, digits?, Char.isDigit]
  cases fuel with
  | zero => simp [items?]
  | succ fuel => simp [items?, hvalue]

end

section
variable {write : Json → List Char} {gap : List Char} (hgap : Gap gap)
include hgap

theorem items_joinWith (item : Json) (items : List Json)
    (h : ∀ j ∈ item :: items, ReadsAs (write j) j) (fuel : Nat) (rest : List Char)
    (hfuel : 2 * (joinWith ',' ((item :: items).map write)).length < fuel) :
    items? fuel (joinWith ',' ((item :: items).map write) ++ (gap ++ ']' :: rest))
      = some (item :: items, rest) := by
  obtain ⟨k, rfl⟩ : ∃ k, fuel = k + 1 := ⟨fuel - 1, by omega⟩
  have hitem := h item List.mem_cons_self
  induction items generalizing item k with
  | nil =>
    simp only [List.map_cons, List.map_nil, joinWith] at hfuel ⊢
    have hread := hitem k (gap ++ ']' :: rest) (by omega) ((ends_bracket rest).gap hgap)
    apply items_last hread
    rw [skipSpace_append hgap, skipSpace_cons (by decide)]
  | cons next items ih =>
    simp only [List.map_cons, joinWith_cons_cons, List.length_append, List.length_cons,
      List.append_assoc, List.cons_append] at hfuel ih ⊢
    obtain ⟨m, rfl⟩ : ∃ m, k = m + 1 := ⟨k - 1, by omega⟩
    apply items_more (hitem (m + 1) _ (by omega) (ends_comma _))
    exact ih next (fun j hj => h j (List.mem_cons_of_mem _ hj)) m (by omega) (h next (by simp))

theorem readsAs_arr (item : Json) (items : List Json)
    (h : ∀ j ∈ item :: items, ReadsAs (write j) j) :
    ReadsAs ('[' :: (joinWith ',' ((item :: items).map write) ++ (gap ++ [']'])))
      (.arr (item :: items)) := by
  apply readsAs_of_succ
  intro fuel rest hfuel _
  have hitems := items_joinWith hgap item items h fuel rest
    (by simp only [List.length_append] at hfuel; omega)
  generalize joinWith ',' ((item :: items).map write) = text at hitems ⊢
  -- the array is not taken for an empty one, as no value starts with a bracket that closes
  have hopen : ∀ after, skipSpace (text ++ (gap ++ ']' :: rest)) ≠ ']' :: after := by
    intro after hclose
    rw [items_close hclose] at hitems
    contradiction
  have htail : '[' :: (text ++ (gap ++ [']'])) ++ rest = '[' :: (text ++ (gap ++ ']' :: rest)) := by
    simp
  rw [htail, value?, skipSpace_cons (by decide)]
  simp [hitems]

end

theorem readsAs_nil_arr : ReadsAs ['[', ']'] (.arr []) := by
  apply readsAs_of_succ
  intro fuel rest _ _
  simp [value?, skipSpace_cons (show isSpace '[' = false by decide),
    skipSpace_cons (show isSpace ']' = false by decide)]

/-! ## Fields -/

/-- A field after a gap, with a written form of its value. -/
def member (gap : List Char) (write : Json → List Char) (field : String × Json) : List Char :=
  gap ++ (quoted field.1 ++ ':' :: write field.2)

theorem member_append (gap : List Char) (write : Json → List Char) (field : String × Json)
    (rest : List Char) :
    member gap write field ++ rest = gap ++ (quoted field.1 ++ ':' :: (write field.2 ++ rest)) := by
  simp [member]

theorem length_lt_member (gap : List Char) (write : Json → List Char) (field : String × Json) :
    (write field.2).length < (member gap write field).length := by
  simp only [member, List.length_append, List.length_cons]
  omega

section
variable {fuel : Nat} {gap text more rest after : List Char} {key : String} {value : Json}
  {fields : List (Option String × Json)} (hgap : Gap gap)
include hgap

theorem fields_last (h : value? fuel text = some (value, rest))
    (hclose : skipSpace rest = '\x7d' :: after) :
    fields? (fuel + 1) (gap ++ (quoted key ++ ':' :: text)) = some ([(some key, value)], after) := by
  obtain ⟨cs, chars, hskip, htext, hstring⟩ := quoted_read hgap key (':' :: text)
  rw [fields?, hskip]
  simp [htext, hstring, skipSpace_cons (show isSpace ':' = false by decide), h, hclose]

theorem fields_more (h : value? fuel text = some (value, ',' :: more))
    (hmore : fields? fuel more = some (fields, after)) :
    fields? (fuel + 1) (gap ++ (quoted key ++ ':' :: text))
      = some ((some key, value) :: fields, after) := by
  obtain ⟨cs, chars, hskip, htext, hstring⟩ := quoted_read hgap key (':' :: text)
  rw [fields?, hskip]
  simp [htext, hstring, skipSpace_cons (show isSpace ':' = false by decide),
    skipSpace_cons (show isSpace ',' = false by decide), h, hmore]

end

theorem fields_close {fuel : Nat} {text after : List Char} (h : skipSpace text = '\x7d' :: after) :
    fields? fuel text = none := by
  cases fuel with
  | zero => simp [fields?]
  | succ fuel => simp [fields?, h]

theorem objectOf_named (text : List Char) (fields : List (String × Json)) :
    objectOf text (fields.map fun field => (some field.1, field.2)) = .obj fields := by
  have h := mapM_map_of_read (fun (field : Option String × Json) => field.1.map (·, field.2))
    (fun field => (some field.1, field.2)) id fields (fun _ _ => rfl)
  rw [objectOf, h, List.map_id]

section
variable {write : Json → List Char} {gap close : List Char} (hgap : Gap gap) (hclose : Gap close)
include hgap hclose

theorem fields_joinWith (field : String × Json) (fields : List (String × Json))
    (h : ∀ f ∈ field :: fields, ReadsAs (write f.2) f.2) (fuel : Nat) (rest : List Char)
    (hfuel : 2 * (joinWith ',' ((field :: fields).map (member gap write))).length < fuel) :
    fields? fuel
        (joinWith ',' ((field :: fields).map (member gap write)) ++ (close ++ '\x7d' :: rest))
      = some ((field :: fields).map fun f => (some f.1, f.2), rest) := by
  obtain ⟨k, rfl⟩ : ∃ k, fuel = k + 1 := ⟨fuel - 1, by omega⟩
  have hfield := h field List.mem_cons_self
  have hlen := length_lt_member gap write field
  induction fields generalizing field k with
  | nil =>
    simp only [List.map_cons, List.map_nil, joinWith] at hfuel ⊢
    rw [member_append]
    apply fields_last hgap (hfield k _ (by omega) ((ends_brace rest).gap hclose))
    rw [skipSpace_append hclose, skipSpace_cons (by decide)]
  | cons next fields ih =>
    simp only [List.map_cons, joinWith_cons_cons, List.length_append, List.length_cons,
      List.append_assoc, List.cons_append] at hfuel ih ⊢
    obtain ⟨m, rfl⟩ : ∃ m, k = m + 1 := ⟨k - 1, by omega⟩
    rw [member_append]
    apply fields_more hgap (hfield (m + 1) _ (by omega) (ends_comma _))
    exact ih next (fun f hf => h f (List.mem_cons_of_mem _ hf)) m (by omega) (h next (by simp))
      (length_lt_member gap write next)

theorem readsAs_obj (field : String × Json) (fields : List (String × Json))
    (h : ∀ f ∈ field :: fields, ReadsAs (write f.2) f.2) :
    ReadsAs ('\x7b' :: (joinWith ',' ((field :: fields).map (member gap write))
      ++ (close ++ ['\x7d']))) (.obj (field :: fields)) := by
  apply readsAs_of_succ
  intro fuel rest hfuel _
  have hfields := fields_joinWith hgap hclose field fields h fuel rest
    (by simp only [List.length_append] at hfuel; omega)
  generalize joinWith ',' ((field :: fields).map (member gap write)) = text at hfields ⊢
  have hopen : ∀ after, skipSpace (text ++ (close ++ '\x7d' :: rest)) ≠ '\x7d' :: after := by
    intro after hskip
    rw [fields_close hskip] at hfields
    contradiction
  have htail : '\x7b' :: (text ++ (close ++ ['\x7d'])) ++ rest
      = '\x7b' :: (text ++ (close ++ '\x7d' :: rest)) := by
    simp
  have hobject := objectOf_named (written ('\x7b' :: (text ++ (close ++ '\x7d' :: rest))) rest)
    (field :: fields)
  rw [htail, value?, skipSpace_cons (by decide)]
  simpa [hfields] using hobject

end

theorem readsAs_nil_obj : ReadsAs ['\x7b', '\x7d'] (.obj []) := by
  apply readsAs_of_succ
  intro fuel rest _ _
  simp [value?, skipSpace_cons (show isSpace '\x7b' = false by decide),
    skipSpace_cons (show isSpace '\x7d' = false by decide)]

/-! ## One line -/

/-- A value all of whose parts are interpreted. -/
inductive Plain : Json → Prop
  | null : Plain .null
  | bool (b : Bool) : Plain (.bool b)
  | nat (n : Nat) : Plain (.nat n)
  | str (s : String) : Plain (.str s)
  | arr {items : List Json} (h : ∀ j ∈ items, Plain j) : Plain (.arr items)
  | obj {fields : List (String × Json)} (h : ∀ f ∈ fields, Plain f.2) : Plain (.obj fields)

theorem compactItems_eq (items : List Json) :
    compactItems items = joinWith ',' (items.map compact) := by
  induction items with
  | nil => rw [compactItems, List.map_nil, joinWith]
  | cons item items ih =>
    cases items with
    | nil => rw [compactItems, List.map_cons, List.map_nil, joinWith]
    | cons next items =>
      simp only [compactItems, ih, List.map_cons, joinWith_cons_cons]

theorem compactFields_eq (fields : List (String × Json)) :
    compactFields fields = joinWith ',' (fields.map (member [] compact)) := by
  induction fields with
  | nil => rw [compactFields, List.map_nil, joinWith]
  | cons field fields ih =>
    cases fields with
    | nil => simp [compactFields, joinWith, member]
    | cons next fields =>
      simp only [compactFields, ih, List.map_cons, joinWith_cons_cons, member_append]
      simp

theorem Plain.readsAs_compact {j : Json} (h : j.Plain) : ReadsAs j.compact j := by
  induction h with
  | null => exact readsAs_null
  | bool b =>
    cases b with
    | false => exact readsAs_false
    | true => exact readsAs_true
  | nat n => exact readsAs_nat n
  | str s => exact readsAs_str s
  | @arr items _ ih =>
    rw [compact, compactItems_eq]
    cases items with
    | nil => exact readsAs_nil_arr
    | cons item items => simpa using readsAs_arr gap_nil item items ih
  | @obj fields _ ih =>
    rw [compact, compactFields_eq]
    cases fields with
    | nil => exact readsAs_nil_obj
    | cons field fields => simpa using readsAs_obj gap_nil gap_nil field fields ih

/-! ## Many lines -/

theorem gap_newLine (level : Nat) : Gap (newLine level) := by
  intro c hc
  rcases List.mem_cons.mp hc with rfl | hc
  · decide
  · rw [List.eq_of_mem_replicate hc]
    decide

/-- Blanks before a value are passed over. -/
theorem ReadsAs.gap {gap text : List Char} {j : Json} (hgap : Gap gap) (h : ReadsAs text j) :
    ReadsAs (gap ++ text) j := by
  intro fuel rest hfuel hrest
  rw [List.length_append] at hfuel
  have hsame : value? fuel (gap ++ (text ++ rest)) = value? fuel (text ++ rest) := by
    cases fuel with
    | zero => rw [value?, value?]
    | succ fuel => rw [value?, value?, skipSpace_append hgap]
  rw [List.append_assoc, hsame]
  exact h fuel rest (by omega) hrest

theorem prettyItems_eq (level : Nat) (items : List Json) :
    prettyItems level items =
      joinWith ',' (items.map fun j => newLine level ++ prettyAt level j) := by
  induction items with
  | nil => rw [prettyItems, List.map_nil, joinWith]
  | cons item items ih =>
    cases items with
    | nil => rw [prettyItems, List.map_cons, List.map_nil, joinWith]
    | cons next items => simp only [prettyItems, ih, List.map_cons, joinWith_cons_cons]

theorem prettyFields_eq (level : Nat) (fields : List (String × Json)) :
    prettyFields level fields =
      joinWith ',' (fields.map (member (newLine level) fun j => ' ' :: prettyAt level j)) := by
  induction fields with
  | nil => rw [prettyFields, List.map_nil, joinWith]
  | cons field fields ih =>
    cases fields with
    | nil => simp [prettyFields, joinWith, member]
    | cons next fields =>
      simp only [prettyFields, ih, List.map_cons, joinWith_cons_cons, member_append]
      simp

theorem Plain.readsAs_pretty {j : Json} (h : j.Plain) (level : Nat) :
    ReadsAs (j.prettyAt level) j := by
  induction h generalizing level with
  | null => exact readsAs_null
  | bool b =>
    cases b with
    | false => exact readsAs_false
    | true => exact readsAs_true
  | nat n => exact readsAs_nat n
  | str s => exact readsAs_str s
  | @arr items _ ih =>
    cases items with
    | nil => exact readsAs_nil_arr
    | cons item items =>
      have hitems : ∀ j ∈ item :: items,
          ReadsAs (newLine (level + 1) ++ j.prettyAt (level + 1)) j :=
        fun j hj => (ih j hj (level + 1)).gap (gap_newLine (level + 1))
      rw [prettyAt, prettyItems_eq]
      simpa using readsAs_arr (gap_newLine level) item items hitems
  | @obj fields _ ih =>
    cases fields with
    | nil => exact readsAs_nil_obj
    | cons field fields =>
      have hspace : Gap [' '] := by simp [Gap, isSpace]
      have hfields : ∀ f ∈ field :: fields, ReadsAs (' ' :: f.2.prettyAt (level + 1)) f.2 :=
        fun f hf => (ih f hf (level + 1)).gap hspace
      rw [prettyAt, prettyFields_eq]
      simpa using readsAs_obj (gap_newLine (level + 1)) (gap_newLine level) field fields hfields

/-! ## Whole texts -/

theorem parse_of_readsAs {text : List Char} {j : Json} (h : ReadsAs text j) :
    parse? text = some j := by
  have hread := h (2 * text.length + 2) [] (by omega) (by simp [Ends])
  rw [List.append_nil] at hread
  rw [parse?, hread]
  rfl

theorem Plain.parse_compact {j : Json} (h : j.Plain) : parse? j.compact = some j :=
  parse_of_readsAs h.readsAs_compact

theorem Plain.parse_pretty {j : Json} (h : j.Plain) : parse? j.pretty = some j :=
  parse_of_readsAs (h.readsAs_pretty 0)

end CodeNav.Json
