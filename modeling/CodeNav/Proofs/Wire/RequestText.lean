import CodeNav.Proofs.Json.ReadBack
import CodeNav.Wire.Request

/-! Requests on the wire: the line a request is written as is read back as that request, whatever
its texts hold, exactly when its numbers have 64 bits. -/
namespace CodeNav
set_option autoImplicit false

/-! ## Reading values back -/

def Position.Fits (p : Position) : Prop :=
  p.line < UInt64.size ∧ p.character < UInt64.size

instance (p : Position) : Decidable p.Fits :=
  inferInstanceAs (Decidable (_ ∧ _))

theorem Json.word64_nat (n : Nat) :
    (Json.nat n).word64? = if n < UInt64.size then some n else none := rfl

theorem Position.structFields_toJson (p : Position) :
    p.toJson.structFields? ["line", "character"]
      = some [some (.nat p.line), some (.nat p.character)] := by
  simp [Position.toJson, Json.structFields?, Json.namedFields?, Json.field?]

theorem Position.ofJson_toJson (p : Position) :
    Position.ofJson? p.toJson = if p.Fits then some p else none := by
  unfold Position.ofJson? Position.Fits
  rw [Position.structFields_toJson]
  by_cases hline : p.line < UInt64.size
  · by_cases hchar : p.character < UInt64.size <;> simp [Json.word64_nat, hline, hchar]
  · simp [Json.word64_nat, hline]

theorem optionalText_map (text : Option String) : optionalText? (text.map .str) = some text := by
  cases text with
  | none => rfl
  | some s => rfl

theorem Cursor.structFields_toJson (c : Cursor) :
    c.toJson.structFields? ["file", "position", "text"]
      = some [some (.str c.file), some c.position.toJson, c.text.map .str] := by
  unfold Cursor.toJson
  cases c.text with
  | none => simp [Json.structFields?, Json.namedFields?, Json.field?]
  | some s => simp [Json.structFields?, Json.namedFields?, Json.field?]

theorem Cursor.ofJson_toJson (c : Cursor) :
    Cursor.ofJson? c.toJson = if c.position.Fits then some c else none := by
  unfold Cursor.ofJson?
  rw [Cursor.structFields_toJson]
  by_cases hfits : c.position.Fits <;>
    simp [Json.str?, Position.ofJson_toJson, optionalText_map, hfits]

namespace Request

def Fits : Request → Prop
  | gotoDefinition cursor | findReferences cursor | complete cursor | signatureHelp cursor =>
    cursor.position.Fits
  | selectReference index => index < UInt64.size
  | _ => True

theorem ofParts_self (r : Request) : ofParts? r.kindName r.payload? = some r ↔ r.Fits := by
  have hcursor : ∀ (make : Cursor → Request) (c : Cursor),
      withCursor? make (some c.toJson) = if c.position.Fits then some (make c) else none := by
    intro make c
    by_cases hfits : c.position.Fits <;> simp [withCursor?, Cursor.ofJson_toJson, hfits]
  cases r with
  | rebuildIndex => simp [ofParts?, kindName, payload?, plain?, Fits]
  | gotoDefinition c => simp [ofParts?, kindName, payload?, hcursor, Fits]
  | findReferences c => simp [ofParts?, kindName, payload?, hcursor, Fits]
  | showLastReferences => simp [ofParts?, kindName, payload?, plain?, Fits]
  | selectReference index =>
    simp [ofParts?, kindName, payload?, index?, Json.namedFields?, Json.field?, Json.word64_nat,
      Fits]
  | popReferences => simp [ofParts?, kindName, payload?, plain?, Fits]
  | complete c => simp [ofParts?, kindName, payload?, hcursor, Fits]
  | signatureHelp c => simp [ofParts?, kindName, payload?, hcursor, Fits]
  | shutdown => simp [ofParts?, kindName, payload?, plain?, Fits]

theorem ofJson_toJson (r : Request) : ofJson? r.toJson = ofParts? r.kindName r.payload? := by
  unfold toJson
  cases r.payload? with
  | none => simp [ofJson?, Json.namedFields?, Json.field?, isInOrder, kindName?]
  | some payload => simp [ofJson?, Json.namedFields?, Json.field?, isInOrder, kindName?]

end Request

/-! ## Reading lines back -/

theorem Position.plain_toJson (p : Position) : p.toJson.Plain := by
  apply Json.Plain.obj
  simp [Json.Plain.nat]

theorem Cursor.plain_toJson (c : Cursor) : c.toJson.Plain := by
  have htext : ∀ f ∈ (c.text.map fun text => ("text", Json.str text)).toList, f.2.Plain := by
    cases c.text with
    | none => simp
    | some s => simp [Json.Plain.str]
  apply Json.Plain.obj
  simp only [List.forall_mem_append, List.forall_mem_cons]
  exact ⟨⟨.str c.file, c.position.plain_toJson, by simp⟩, htext⟩

namespace Request

theorem plain_payload {r : Request} {j : Json} (h : r.payload? = some j) : j.Plain := by
  cases r with
  | gotoDefinition c | findReferences c | complete c | signatureHelp c =>
    obtain rfl : c.toJson = j := Option.some.inj h
    exact c.plain_toJson
  | selectReference index =>
    obtain rfl : Json.obj [("index", .nat index)] = j := Option.some.inj h
    apply Json.Plain.obj
    simp [Json.Plain.nat]
  | rebuildIndex | showLastReferences | popReferences | shutdown => simp [payload?] at h

theorem plain_toJson (r : Request) : r.toJson.Plain := by
  apply Json.Plain.obj
  rw [List.forall_mem_cons]
  refine ⟨.str r.kindName, ?_⟩
  cases h : r.payload? with
  | none => simp
  | some payload => simpa using plain_payload h

/-- The line of a request is read back as this very request, an absent text as absent and an empty
one as empty, exactly when its numbers have 64 bits. -/
theorem line_reads_back_iff (r : Request) : parse r.toJson.compact = .ok r ↔ r.Fits := by
  have hjson : Json.parse? r.toJson.compact = some r.toJson := r.plain_toJson.parse_compact
  rw [← ofParts_self, ← ofJson_toJson]
  simp only [parse, hjson]
  cases ofJson? r.toJson with
  | none => simp
  | some q => simp

end Request

end CodeNav
