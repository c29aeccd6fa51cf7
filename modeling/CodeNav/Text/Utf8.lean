import CodeNav.Text.Basic

/-! Reading bytes as UTF-8, one byte at a time.

The reader is a machine whose state is the sequence it is in the middle of, if any. A sequence that
a byte cannot continue is given up as one ill-formed unit, and that byte then starts afresh; so a
line feed, which continues nothing, always leaves the machine in its first state. -/
namespace CodeNav.Text.Utf8
set_option autoImplicit false

abbrev Bytes := List UInt8

/-- An unfinished sequence: how many bytes are still to come, the range of the next one, and the
bits read so far. -/
structure Pending where
  missing : Nat
  low : UInt8
  high : UInt8
  bits : Nat

/-- What one byte yields: the units completed by it (`none` is an ill-formed one), and the
sequence that is open after it. -/
abbrev Emission := List (Option Char) × Option Pending

/-- A byte at the start of a sequence. The first range of the next byte rules out overlong forms,
surrogates and values past the last character. -/
def start (b : UInt8) : Emission :=
  if b < 0x80 then ([some (Char.ofNat b.toNat)], none)
  else if 0xC2 ≤ b && b ≤ 0xDF then ([], some ⟨1, 0x80, 0xBF, b.toNat - 0xC0⟩)
  else if 0xE0 ≤ b && b ≤ 0xEF then
    let low : UInt8 := if b == 0xE0 then 0xA0 else 0x80
    let high : UInt8 := if b == 0xED then 0x9F else 0xBF
    ([], some ⟨2, low, high, b.toNat - 0xE0⟩)
  else if 0xF0 ≤ b && b ≤ 0xF4 then
    let low : UInt8 := if b == 0xF0 then 0x90 else 0x80
    let high : UInt8 := if b == 0xF4 then 0x8F else 0xBF
    ([], some ⟨3, low, high, b.toNat - 0xF0⟩)
  else ([none], none)

def step : Option Pending → UInt8 → Emission
  | none, b => start b
  | some p, b =>
    if p.low ≤ b && b ≤ p.high then
      let bits := 64 * p.bits + (b.toNat - 0x80)
      if p.missing ≤ 1 then ([some (Char.ofNat bits)], none)
      else ([], some ⟨p.missing - 1, 0x80, 0xBF, bits⟩)
    else
      let (units, rest) := start b
      (none :: units, rest)

/-- The units of a byte string, from a given state. An open sequence at the end is ill-formed. -/
def unitsFrom : Option Pending → Bytes → List (Option Char)
  | none, [] => []
  | some _, [] => [none]
  | state, b :: bs =>
    let (units, next) := step state b
    units ++ unitsFrom next bs

def units (bytes : Bytes) : List (Option Char) :=
  unitsFrom none bytes

def replacement : Char := Char.ofNat 0xFFFD

/-- Every ill-formed unit becomes one replacement character. -/
def decodeLossy (bytes : Bytes) : List Char :=
  (units bytes).map (·.getD replacement)

/-- Nothing when any unit is ill-formed. -/
def decode? (bytes : Bytes) : Option (List Char) :=
  (units bytes).mapM id

def encode (cs : List Char) : Bytes :=
  cs.flatMap String.utf8EncodeChar

end CodeNav.Text.Utf8
