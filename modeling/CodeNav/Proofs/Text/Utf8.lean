import CodeNav.Proofs.Text.Pieces
import CodeNav.Text.Utf8

/-! Reading bytes back: the byte machine, run on the encoding of a text, yields the characters of
that text and never an ill-formed unit. -/
namespace CodeNav.Text.Utf8
set_option autoImplicit false

/-! ## Bytes that start a sequence -/

theorem start_one (b : UInt8) (h : b.toNat < 0x80) :
    start b = ([some (Char.ofNat b.toNat)], none) := by
  have h1 : b < 0x80 := UInt8.lt_iff_toNat_lt.mpr h
  rw [start, if_pos h1]

theorem start_two (b : UInt8) (n : Nat) (hb : b.toNat = n + 0xC0) (hl : 2 ≤ n) (hu : n < 32) :
    start b = ([], some ⟨1, 0x80, 0xBF, n⟩) := by
  have h1 : ¬ b < 0x80 := by
    simp only [UInt8.lt_iff_toNat_lt, hb, UInt8.toNat_ofNat]
    omega
  have h2 : 0xC2 ≤ b ∧ b ≤ 0xDF := by
    simp only [UInt8.le_iff_toNat_le, hb, UInt8.toNat_ofNat]
    omega
  simp [start, h1, h2, hb]

/-- The least byte after the lead byte of three; a smaller one would make an overlong form. -/
def lowOfThree (n : Nat) : UInt8 := if n = 0 then 0xA0 else 0x80

/-- The greatest byte after the lead byte of three; a greater one would make a surrogate. -/
def highOfThree (n : Nat) : UInt8 := if n = 13 then 0x9F else 0xBF

theorem start_three (b : UInt8) (n : Nat) (hb : b.toNat = n + 0xE0) (h : n < 16) :
    start b = ([], some ⟨2, lowOfThree n, highOfThree n, n⟩) := by
  have h1 : ¬ b < 0x80 := by
    simp only [UInt8.lt_iff_toNat_lt, hb, UInt8.toNat_ofNat]
    omega
  have h2 : ¬ b ≤ 0xDF := by
    simp only [UInt8.le_iff_toNat_le, hb, UInt8.toNat_ofNat]
    omega
  have h3 : 0xE0 ≤ b ∧ b ≤ 0xEF := by
    simp only [UInt8.le_iff_toNat_le, hb, UInt8.toNat_ofNat]
    omega
  have h4 : b = 0xE0 ↔ n = 0 := by
    simp only [← UInt8.toNat_inj, hb, UInt8.toNat_ofNat]
    omega
  have h5 : b = 0xED ↔ n = 13 := by
    simp only [← UInt8.toNat_inj, hb, UInt8.toNat_ofNat]
    omega
  simp [start, h1, h2, h3, h4, h5, hb, lowOfThree, highOfThree]

/-- The least byte after the lead byte of four. -/
def lowOfFour (n : Nat) : UInt8 := if n = 0 then 0x90 else 0x80

/-- The greatest byte after the lead byte of four; a greater one would pass the last character. -/
def highOfFour (n : Nat) : UInt8 := if n = 4 then 0x8F else 0xBF

theorem start_four (b : UInt8) (n : Nat) (hb : b.toNat = n + 0xF0) (h : n ≤ 4) :
    start b = ([], some ⟨3, lowOfFour n, highOfFour n, n⟩) := by
  have h1 : ¬ b < 0x80 := by
    simp only [UInt8.lt_iff_toNat_lt, hb, UInt8.toNat_ofNat]
    omega
  have h2 : ¬ b ≤ 0xDF ∧ ¬ b ≤ 0xEF := by
    simp only [UInt8.le_iff_toNat_le, hb, UInt8.toNat_ofNat]
    omega
  have h3 : 0xF0 ≤ b ∧ b ≤ 0xF4 := by
    simp only [UInt8.le_iff_toNat_le, hb, UInt8.toNat_ofNat]
    omega
  have h4 : b = 0xF0 ↔ n = 0 := by
    simp only [← UInt8.toNat_inj, hb, UInt8.toNat_ofNat]
    omega
  have h5 : b = 0xF4 ↔ n = 4 := by
    simp only [← UInt8.toNat_inj, hb, UInt8.toNat_ofNat]
    omega
  simp [start, h1, h2, h3, h4, h5, hb, lowOfFour, highOfFour]

/-! ## Bytes that continue one -/

theorem step_continue (p : Pending) (b : UInt8) (n : Nat) (hb : b.toNat = n + 0x80)
    (hl : p.low.toNat ≤ n + 0x80) (hh : n + 0x80 ≤ p.high.toNat) :
    step (some p) b =
      if p.missing ≤ 1 then ([some (Char.ofNat (64 * p.bits + n))], none)
      else ([], some ⟨p.missing - 1, 0x80, 0xBF, 64 * p.bits + n⟩) := by
  have hin : p.low ≤ b ∧ b ≤ p.high := by
    simp only [UInt8.le_iff_toNat_le, hb]
    exact ⟨hl, hh⟩
  simp [step, hin, hb]

theorem step_last (low high b : UInt8) (bits n : Nat) (hb : b.toNat = n + 0x80)
    (hl : low.toNat ≤ n + 0x80) (hh : n + 0x80 ≤ high.toNat) :
    step (some ⟨1, low, high, bits⟩) b = ([some (Char.ofNat (64 * bits + n))], none) :=
  step_continue ⟨1, low, high, bits⟩ b n hb hl hh

theorem step_more (missing : Nat) (low high b : UInt8) (bits n : Nat) (hb : b.toNat = n + 0x80)
    (hl : low.toNat ≤ n + 0x80) (hh : n + 0x80 ≤ high.toNat) :
    step (some ⟨missing + 2, low, high, bits⟩) b =
      ([], some ⟨missing + 1, 0x80, 0xBF, 64 * bits + n⟩) := by
  rw [step_continue ⟨missing + 2, low, high, bits⟩ b n hb hl hh, if_neg (by simp)]
  rfl

/-! ## Characters -/

theorem unitsFrom_open (state : Option Pending) (p : Pending) (b : UInt8) (bs : Bytes)
    (h : step state b = ([], some p)) : unitsFrom state (b :: bs) = unitsFrom (some p) bs := by
  cases state <;> simp [unitsFrom, h]

theorem unitsFrom_close (state : Option Pending) (u : Option Char) (b : UInt8) (bs : Bytes)
    (h : step state b = ([u], none)) : unitsFrom state (b :: bs) = u :: unitsFrom none bs := by
  cases state <;> simp [unitsFrom, h]

theorem toNat_byte (n : Nat) (h : n < 256) : (UInt8.ofNat n).toNat = n := by
  simp [Nat.mod_eq_of_lt h]

/-- One character is read back from its bytes, whatever follows them. The cases are the lengths of
the encoding; in each, the value of the character says which bytes the machine accepts next. -/
theorem unitsFrom_encodeChar (c : Char) (rest : Bytes) :
    unitsFrom none (String.utf8EncodeChar c ++ rest) = some c :: unitsFrom none rest := by
  have hvalid : c.toNat < 0xD800 ∨ (0xDFFF < c.toNat ∧ c.toNat < 0x110000) := c.valid
  have hc : Char.ofNat c.toNat = c := Char.ofNat_toNat c
  rw [String.utf8EncodeChar, show c.val.toNat = c.toNat from rfl]
  generalize c.toNat = n at hvalid hc
  by_cases h1 : n ≤ 0x7f
  · have hb := toNat_byte n (by omega)
    have s1 := start_one (UInt8.ofNat n) (by omega)
    rw [hb, hc] at s1
    rw [if_pos h1]
    exact unitsFrom_close none _ _ _ s1
  by_cases h2 : n ≤ 0x7ff
  · rw [if_neg h1, if_pos h2, Nat.mod_eq_of_lt (by omega : n / 64 < 0x20)]
    have s1 := start_two (UInt8.ofNat (n / 64 + 0xc0)) (n / 64) (toNat_byte _ (by omega))
      (by omega) (by omega)
    have s2 := step_last 0x80 0xBF (UInt8.ofNat (n % 64 + 0x80)) (n / 64) (n % 64)
      (toNat_byte _ (by omega)) (by simp) (by simp; omega)
    rw [show 64 * (n / 64) + n % 64 = n by omega, hc] at s2
    simp only [List.cons_append, List.nil_append]
    rw [unitsFrom_open none _ _ _ s1, unitsFrom_close _ _ _ _ s2]
  by_cases h3 : n ≤ 0xffff
  · rw [if_neg h1, if_neg h2, if_pos h3, Nat.mod_eq_of_lt (by omega : n / 4096 < 0x10)]
    have s1 := start_three (UInt8.ofNat (n / 4096 + 0xe0)) (n / 4096) (toNat_byte _ (by omega))
      (by omega)
    have s2 := step_more 0 (lowOfThree (n / 4096)) (highOfThree (n / 4096))
      (UInt8.ofNat (n / 64 % 64 + 0x80)) (n / 4096) (n / 64 % 64) (toNat_byte _ (by omega))
      (by unfold lowOfThree; split <;> simp; omega)
      (by unfold highOfThree; split <;> simp <;> omega)
    have s3 := step_last 0x80 0xBF (UInt8.ofNat (n % 64 + 0x80)) (64 * (n / 4096) + n / 64 % 64)
      (n % 64) (toNat_byte _ (by omega)) (by simp) (by simp; omega)
    rw [show 64 * (64 * (n / 4096) + n / 64 % 64) + n % 64 = n by omega, hc] at s3
    simp only [List.cons_append, List.nil_append]
    rw [unitsFrom_open none _ _ _ s1, unitsFrom_open _ _ _ _ s2, unitsFrom_close _ _ _ _ s3]
  · rw [if_neg h1, if_neg h2, if_neg h3, Nat.mod_eq_of_lt (by omega : n / 262144 < 0x08)]
    have s1 := start_four (UInt8.ofNat (n / 262144 + 0xf0)) (n / 262144) (toNat_byte _ (by omega))
      (by omega)
    have s2 := step_more 1 (lowOfFour (n / 262144)) (highOfFour (n / 262144))
      (UInt8.ofNat (n / 4096 % 64 + 0x80)) (n / 262144) (n / 4096 % 64) (toNat_byte _ (by omega))
      (by unfold lowOfFour; split <;> simp; omega)
      (by unfold highOfFour; split <;> simp <;> omega)
    have s3 := step_more 0 0x80 0xBF (UInt8.ofNat (n / 64 % 64 + 0x80))
      (64 * (n / 262144) + n / 4096 % 64) (n / 64 % 64) (toNat_byte _ (by omega)) (by simp)
      (by simp; omega)
    have s4 := step_last 0x80 0xBF (UInt8.ofNat (n % 64 + 0x80))
      (64 * (64 * (n / 262144) + n / 4096 % 64) + n / 64 % 64) (n % 64) (toNat_byte _ (by omega))
      (by simp) (by simp; omega)
    rw [show 64 * (64 * (64 * (n / 262144) + n / 4096 % 64) + n / 64 % 64) + n % 64 = n by omega,
      hc] at s4
    simp only [List.cons_append, List.nil_append]
    rw [unitsFrom_open none _ _ _ s1, unitsFrom_open _ _ _ _ s2, unitsFrom_open _ _ _ _ s3,
      unitsFrom_close _ _ _ _ s4]

theorem units_encode (cs : List Char) : units (encode cs) = cs.map some := by
  induction cs with
  | nil => rfl
  | cons c cs ih =>
    rw [units, encode] at ih
    rw [units, encode, List.flatMap_cons, unitsFrom_encodeChar, ih, List.map_cons]

theorem decodeLossy_encode (cs : List Char) : decodeLossy (encode cs) = cs := by
  rw [decodeLossy, units_encode, List.map_map]
  exact List.map_id cs

theorem decode_encode (cs : List Char) : decode? (encode cs) = some cs := by
  rw [decode?, units_encode, mapM_map_of_read id some id cs (fun _ _ => rfl),
    List.map_id]

/-! ## Bytes that no sequence goes on with -/

/-- The open sequence, if there is one, asks for a continuation byte. -/
def AsksContinuation (state : Option Pending) : Prop :=
  ∀ p ∈ state, 0x80 ≤ p.low

theorem asksContinuation_start (b : UInt8) : AsksContinuation (start b).2 := by
  unfold AsksContinuation start
  split
  · simp
  split
  · simp
  split
  · simp only [Option.mem_some_iff, forall_eq']
    split <;> decide
  split
  · simp only [Option.mem_some_iff, forall_eq']
    split <;> decide
  · simp

theorem asksContinuation_step (state : Option Pending) (b : UInt8) :
    AsksContinuation (step state b).2 := by
  cases state with
  | none => exact asksContinuation_start b
  | some p =>
    rw [step]
    split
    · dsimp only
      split
      · simp [AsksContinuation]
      · simp [AsksContinuation]
    · exact asksContinuation_start b

/-- A single byte is read as itself, behind the ill-formed unit of a sequence that it cuts off. -/
theorem step_one (state : Option Pending) (b : UInt8) (h : AsksContinuation state) (hb : b < 0x80) :
    step state b = (unitsFrom state [] ++ [some (Char.ofNat b.toNat)], none) := by
  have hstart := start_one b (UInt8.lt_iff_toNat_lt.mp hb)
  cases state with
  | none => exact hstart
  | some p =>
    have hlow : ¬ p.low ≤ b := by
      have := h p rfl
      rw [UInt8.le_iff_toNat_le] at this ⊢
      rw [UInt8.lt_iff_toNat_lt] at hb
      omega
    simp [step, hlow, hstart, unitsFrom]

/-- What stands before a single byte is read without regard to what stands behind it. -/
theorem unitsFrom_append_one (state : Option Pending) (front rest : Bytes) (b : UInt8)
    (h : AsksContinuation state) (hb : b < 0x80) :
    unitsFrom state (front ++ b :: rest) =
      unitsFrom state front ++ some (Char.ofNat b.toNat) :: unitsFrom none rest := by
  induction front generalizing state with
  | nil =>
    have hstep := step_one state b h hb
    cases state <;> simp [unitsFrom, hstep]
  | cons c front ih =>
    have hrest := ih (step state c).2 (asksContinuation_step state c)
    cases state <;> simp only [List.cons_append, unitsFrom, hrest, List.append_assoc]

theorem decodeLossy_append_one (front rest : Bytes) (b : UInt8) (hb : b < 0x80) :
    decodeLossy (front ++ b :: rest) =
      decodeLossy front ++ Char.ofNat b.toNat :: decodeLossy rest := by
  have hnone : AsksContinuation none := by simp [AsksContinuation]
  rw [decodeLossy, units, unitsFrom_append_one none front rest b hnone hb, List.map_append,
    List.map_cons]
  rfl

end CodeNav.Text.Utf8
