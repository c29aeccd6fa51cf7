import CodeNav.Proofs.Text.Pieces
import CodeNav.Text.Utf8

/-! Byte offsets in a text. A text is as long as its encoding, every character takes one byte or
more, and a line feed is one byte that no other character holds. An offset may cut a character; the
characters before the cut then end before the offset. -/
namespace CodeNav.Text.Utf8
set_option autoImplicit false

/-! ## Lengths in bytes -/

/-- The length of a text in bytes. -/
def size (cs : List Char) : Nat :=
  (encode cs).length

theorem size_nil : size [] = 0 := rfl

theorem encode_append (front rest : List Char) : encode (front ++ rest) = encode front ++ encode rest :=
  List.flatMap_append

theorem size_append (front rest : List Char) : size (front ++ rest) = size front + size rest := by
  rw [size, encode_append, List.length_append]
  rfl

theorem size_cons (c : Char) (cs : List Char) : size (c :: cs) = c.utf8Size + size cs := by
  rw [size, encode, List.flatMap_cons, List.length_append, String.length_utf8EncodeChar]
  rfl

theorem length_le_size (cs : List Char) : cs.length ≤ size cs := by
  induction cs with
  | nil => exact Nat.zero_le _
  | cons c cs ih =>
    have hpos := c.utf8Size_pos
    rw [size_cons, List.length_cons]
    omega

theorem size_le_of_infix {part whole : List Char} (h : part <:+: whole) : size part ≤ size whole := by
  obtain ⟨front, rest, rfl⟩ := h
  rw [size_append, size_append]
  omega

/-! ## Single bytes in the encoding -/

/-- A byte below 128 is a character by itself, and no part of another one. -/
theorem eq_of_mem_encodeChar {b : UInt8} (hb : b.toNat < 0x80) {c : Char}
    (h : b ∈ String.utf8EncodeChar c) : c = Char.ofNat b.toNat := by
  have hbyte (n : Nat) (hn : n < 256) (heq : b = UInt8.ofNat n) : n = b.toNat := by
    rw [heq, UInt8.toNat_ofNat_of_lt' hn]
  have hc : Char.ofNat c.toNat = c := Char.ofNat_toNat c
  rw [String.utf8EncodeChar, show c.val.toNat = c.toNat from rfl] at h
  generalize c.toNat = n at h hc
  by_cases h1 : n ≤ 0x7f
  · rw [if_pos h1, List.mem_singleton] at h
    rw [← hc, hbyte n (by omega) h]
  -- All bytes of a longer encoding are greater.
  by_cases h2 : n ≤ 0x7ff
  · rw [if_neg h1, if_pos h2] at h
    simp only [List.mem_cons, List.not_mem_nil, or_false] at h
    rcases h with h | h
    all_goals
      have := hbyte _ (by omega) h
      omega
  by_cases h3 : n ≤ 0xffff
  · rw [if_neg h1, if_neg h2, if_pos h3] at h
    simp only [List.mem_cons, List.not_mem_nil, or_false] at h
    rcases h with h | h | h
    all_goals
      have := hbyte _ (by omega) h
      omega
  · rw [if_neg h1, if_neg h2, if_neg h3] at h
    simp only [List.mem_cons, List.not_mem_nil, or_false] at h
    rcases h with h | h | h | h
    all_goals
      have := hbyte _ (by omega) h
      omega

theorem lineFeed_of_mem_encodeChar {c : Char} (h : 10 ∈ String.utf8EncodeChar c) : c = '\n' :=
  eq_of_mem_encodeChar (by decide) h

/-- The first byte of a text is a dot only where its first character is. -/
theorem head_encode_eq_dot_iff (text : List Char) :
    (encode text).head? = some 0x2E ↔ ∃ rest, text = '.' :: rest := by
  constructor
  · intro h
    cases text with
    | nil => cases h
    | cons c rest =>
      have hmem : (0x2E : UInt8) ∈ String.utf8EncodeChar c := by
        obtain ⟨first, more, hbytes⟩ := List.exists_cons_of_length_pos
          (l := String.utf8EncodeChar c) (by rw [String.length_utf8EncodeChar]; exact c.utf8Size_pos)
        rw [encode, List.flatMap_cons, hbytes] at h
        rw [hbytes, ← Option.some.inj h]
        exact List.mem_cons_self
      exact ⟨rest, by rw [eq_of_mem_encodeChar (by decide) hmem]; rfl⟩
  · rintro ⟨rest, rfl⟩
    rfl

/-- A part of the encoding of a character from its start on holds a line feed only as a whole. -/
theorem count_take_encodeChar (c : Char) (offset : Nat) (h : offset < c.utf8Size) :
    ((String.utf8EncodeChar c).take offset).count 10 = 0 := by
  rw [List.count_eq_zero]
  intro hmem
  obtain rfl := lineFeed_of_mem_encodeChar (List.mem_of_mem_take hmem)
  have hzero : offset = 0 := Nat.lt_one_iff.mp h
  rw [hzero] at hmem
  cases hmem

theorem count_encodeChar (c : Char) :
    (String.utf8EncodeChar c).count 10 = if c = '\n' then 1 else 0 := by
  split
  · next h => rw [h]; decide
  · next h => exact List.count_eq_zero.mpr fun hmem => h (lineFeed_of_mem_encodeChar hmem)

/-! ## Cutting a text at an offset -/

/-- The characters up to the offset, and those from there on, of which the first ends behind it. -/
structure CutAt (text : List Char) (offset : Nat) (front rest : List Char) : Prop where
  text_eq : text = front ++ rest
  fits : size front ≤ offset
  passes : ∀ c later, rest = c :: later → offset < size front + c.utf8Size

/-- The line feeds among the bytes before an offset are those of the characters before it. -/
theorem exists_cutAt (text : List Char) (offset : Nat) :
    ∃ front rest, CutAt text offset front rest ∧
      ((encode text).take offset).count 10 = front.count '\n' := by
  induction text generalizing offset with
  | nil => exact ⟨[], [], ⟨rfl, Nat.zero_le _, nofun⟩, by simp [encode]⟩
  | cons c text ih =>
    have hlength := String.length_utf8EncodeChar c
    have hencode : encode (c :: text) = String.utf8EncodeChar c ++ encode text := List.flatMap_cons
    by_cases hcut : offset < c.utf8Size
    · refine ⟨[], c :: text, ⟨rfl, Nat.zero_le _, ?_⟩, ?_⟩
      · rintro _ _ ⟨⟩
        rwa [size_nil, Nat.zero_add]
      · rw [hencode, List.take_append_of_le_length (by omega), count_take_encodeChar c offset hcut,
          List.count_nil]
    · obtain ⟨offset, rfl⟩ := Nat.exists_eq_add_of_le (Nat.le_of_not_lt hcut)
      obtain ⟨front, rest, ⟨rfl, hfits, hpasses⟩, hcount⟩ := ih offset
      refine ⟨c :: front, rest, ⟨rfl, ?_, fun d later hrest => ?_⟩, ?_⟩
      · rw [size_cons]
        omega
      · have := hpasses d later hrest
        rw [size_cons]
        omega
      · rw [hencode, ← hlength, List.take_length_add_append, List.count_append, hcount,
          count_encodeChar, List.count_cons, Nat.add_comm]
        simp

end CodeNav.Text.Utf8
