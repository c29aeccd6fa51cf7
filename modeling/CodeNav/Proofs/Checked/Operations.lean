import CodeNav.Proofs.Document.LineOffsets

/-! Operations that a machine refuses. Numbers are words of 64 bits, lists are indexed from zero, and
texts are cut at byte offsets. A computation put together from these operations comes to a result
only if every sum fits in a word, no difference is below zero, every index lies in its list and every
cut of a text falls between two of its characters. -/
namespace CodeNav.Checked
set_option autoImplicit false
open Text

/-- Why a computation stops. -/
inductive Fault where
  | overflow
  | index
  | slice
  deriving DecidableEq, Repr

variable {α β : Type}

theorem pure_eq (a : α) : (pure a : Except Fault α) = .ok a := rfl

theorem ok_bind (a : α) (next : α → Except Fault β) : (Except.ok a >>= next) = next a := rfl

/-! ## Words and indices -/

def add (a b : Nat) : Except Fault Nat :=
  if a + b < UInt64.size then .ok (a + b) else .error .overflow

def sub (a b : Nat) : Except Fault Nat :=
  if b ≤ a then .ok (a - b) else .error .overflow

def get (xs : List α) (index : Nat) : Except Fault α :=
  match xs[index]? with
  | some x => .ok x
  | none => .error .index

theorem add_eq {a b : Nat} (h : a + b < UInt64.size) : add a b = .ok (a + b) :=
  if_pos h

theorem sub_eq {a b : Nat} (h : b ≤ a) : sub a b = .ok (a - b) :=
  if_pos h

theorem get_eq {xs : List α} {index : Nat} {x : α} (h : xs[index]? = some x) :
    get xs index = .ok x := by
  rw [get, h]

/-! ## Cutting texts -/

/-- The text before the byte offset and from there on. -/
def cut : List Char → Nat → Except Fault (List Char × List Char)
  | text, 0 => .ok ([], text)
  | [], _ + 1 => .error .slice
  | c :: text, offset + 1 =>
    if c.utf8Size ≤ offset + 1 then
      (cut text (offset + 1 - c.utf8Size)).map fun parts => (c :: parts.1, parts.2)
    else .error .slice

def upTo (text : List Char) (offset : Nat) : Except Fault (List Char) :=
  (cut text offset).map Prod.fst

def behind (text : List Char) (offset : Nat) : Except Fault (List Char) :=
  (cut text offset).map Prod.snd

theorem cut_append (front rest : List Char) :
    cut (front ++ rest) (Utf8.size front) = .ok (front, rest) := by
  induction front with
  | nil =>
    rw [List.nil_append, Utf8.size_nil]
    cases rest <;> rfl
  | cons c front ih =>
    obtain ⟨offset, hoffset⟩ : ∃ offset, Utf8.size (c :: front) = offset + 1 :=
      Nat.exists_eq_add_one.mpr
        (Nat.lt_of_lt_of_le (Nat.succ_pos front.length) (Utf8.length_le_size (c :: front)))
    have hsize := Utf8.size_cons c front
    rw [hoffset, List.cons_append, cut, if_pos (by omega),
      show offset + 1 - c.utf8Size = Utf8.size front by omega, ih]
    rfl

theorem behind_append (front rest : List Char) :
    behind (front ++ rest) (Utf8.size front) = .ok rest := by
  rw [behind, cut_append]
  rfl

/-- Closing parts of one text that take equally many bytes are the same. -/
theorem suffix_eq_of_size {text first second : List Char} (hfirst : first <:+ text)
    (hsecond : second <:+ text) (hsize : Utf8.size first = Utf8.size second) : first = second := by
  obtain ⟨front, rfl⟩ := hfirst
  obtain ⟨other, hother⟩ := hsecond
  have hfront : Utf8.size other = Utf8.size front := by
    have htext := congrArg Utf8.size hother
    rw [Utf8.size_append, Utf8.size_append] at htext
    omega
  have hbehind := behind_append front first
  rw [← hother, ← hfront, behind_append] at hbehind
  exact (Except.ok.inj hbehind).symm

/-- A cut comes to a result exactly at the ends of the front parts of a text. -/
theorem cut_eq_ok_iff (text : List Char) (offset : Nat) (parts : List Char × List Char) :
    cut text offset = .ok parts ↔ text = parts.1 ++ parts.2 ∧ Utf8.size parts.1 = offset := by
  constructor
  · intro h
    induction text generalizing offset parts with
    | nil =>
      cases offset with
      | zero => cases h; exact ⟨rfl, rfl⟩
      | succ offset => cases h
    | cons c text ih =>
      cases offset with
      | zero => cases h; exact ⟨rfl, rfl⟩
      | succ offset =>
        rw [cut] at h
        split at h
        · next hfits =>
          cases hlater : cut text (offset + 1 - c.utf8Size) with
          | error fault => rw [hlater] at h; cases h
          | ok later =>
            rw [hlater] at h
            cases h
            obtain ⟨htext, hsize⟩ := ih _ later hlater
            refine ⟨by rw [htext]; rfl, ?_⟩
            rw [Utf8.size_cons]
            omega
        · cases h
  · rintro ⟨rfl, rfl⟩
    exact cut_append parts.1 parts.2

example : cut ['é', 'a'] 2 = .ok (['é'], ['a']) := rfl

example : cut ['é', 'a'] 1 = .error .slice := rfl

/-! ## Characters and bytes -/

/-- The byte offset of a character, or of the end behind the last one. -/
def byteOf (text : List Char) (index : Nat) : Nat :=
  Utf8.size (text.take index)

/-- The number of characters before a byte offset, or of all where the text is shorter. -/
def charOf (text : List Char) (offset : Nat) : Except Fault Nat :=
  (upTo text (min offset (Utf8.size text))).map List.length

/-- The byte offset at which a search reports a place of the line. -/
def reported (line : List Char) (place : Nat) : Except Fault Nat :=
  if place ≤ line.length then .ok (byteOf line place) else .error .slice

theorem cut_byteOf (text : List Char) (index : Nat) :
    cut text (byteOf text index) = .ok (text.take index, text.drop index) :=
  (cut_eq_ok_iff text _ _).mpr ⟨(List.take_append_drop index text).symm, rfl⟩

theorem upTo_byteOf (text : List Char) (index : Nat) :
    upTo text (byteOf text index) = .ok (text.take index) := by
  rw [upTo, cut_byteOf]
  rfl

theorem behind_byteOf (text : List Char) (index : Nat) :
    behind text (byteOf text index) = .ok (text.drop index) := by
  rw [behind, cut_byteOf]
  rfl

theorem byteOf_le (text : List Char) (index : Nat) : byteOf text index ≤ Utf8.size text :=
  Utf8.size_le_of_infix (List.take_prefix index text).isInfix

theorem charOf_byteOf {text : List Char} {index : Nat} (h : index ≤ text.length) :
    charOf text (byteOf text index) = .ok index := by
  rw [charOf, Nat.min_eq_left (byteOf_le text index), upTo_byteOf]
  show Except.ok (text.take index).length = _
  rw [List.length_take, Nat.min_eq_left h]

theorem reported_eq {line : List Char} {place : Nat} (h : place ≤ line.length) :
    reported line place = .ok (byteOf line place) :=
  if_pos h

theorem byteOf_lt {text : List Char} {first second : Nat} (h : first < second)
    (hsecond : second ≤ text.length) : byteOf text first < byteOf text second := by
  obtain ⟨more, rfl⟩ := Nat.exists_eq_add_of_lt h
  have hlength := Utf8.length_le_size ((text.drop first).take (more + 1))
  rw [List.length_take, List.length_drop] at hlength
  rw [byteOf, byteOf, Nat.add_assoc, List.take_add, Utf8.size_append]
  omega

/-- Byte offsets are ordered like the characters that start there. -/
theorem byteOf_le_iff {text : List Char} {first second : Nat} (hfirst : first ≤ text.length)
    (hsecond : second ≤ text.length) :
    byteOf text first ≤ byteOf text second ↔ first ≤ second := by
  constructor
  · intro h
    exact Nat.le_of_not_lt fun hlt => Nat.not_lt.mpr h (byteOf_lt hlt hfirst)
  · intro h
    rcases Nat.lt_or_eq_of_le h with hlt | rfl
    · exact Nat.le_of_lt (byteOf_lt hlt hsecond)
    · exact Nat.le_refl _

/-! ## Lists -/

theorem mapM_eq {f : α → Except Fault β} {g : α → β} {xs : List α} (h : ∀ x ∈ xs, f x = .ok (g x)) :
    xs.mapM f = .ok (xs.map g) := by
  induction xs with
  | nil => rfl
  | cons x xs ih =>
    obtain ⟨hx, hxs⟩ := List.forall_mem_cons.mp h
    rw [List.mapM_cons, hx, ih hxs]
    rfl

theorem foldlM_eq {f : β → α → Except Fault β} {g : β → α → β} {xs : List α}
    (h : ∀ b, ∀ x ∈ xs, f b x = .ok (g b x)) (b : β) : xs.foldlM f b = .ok (xs.foldl g b) := by
  induction xs generalizing b with
  | nil => rfl
  | cons x xs ih =>
    obtain ⟨hx, hxs⟩ := List.forall_mem_cons.mp (fun y hy => h b y hy)
    rw [List.foldlM_cons, hx]
    exact ih (fun b y hy => h b y (List.mem_cons_of_mem x hy)) _

theorem findSomeM_eq {f : α → Except Fault (Option β)} {g : α → Option β} {xs : List α}
    (h : ∀ x ∈ xs, f x = .ok (g x)) : xs.findSomeM? f = .ok (xs.findSome? g) := by
  induction xs with
  | nil => rfl
  | cons x xs ih =>
    obtain ⟨hx, hxs⟩ := List.forall_mem_cons.mp h
    rw [List.findSomeM?, hx, List.findSome?_cons]
    cases g x with
    | none => exact ih hxs
    | some found => rfl

theorem filterM_eq {f : α → Except Fault Bool} {p : α → Bool} {xs : List α}
    (h : ∀ x ∈ xs, f x = .ok (p x)) : xs.filterM f = .ok (xs.filter p) := by
  have haux (kept : List α) : xs.filterAuxM f kept = .ok ((xs.filter p).reverse ++ kept) := by
    induction xs generalizing kept with
    | nil => rfl
    | cons x xs ih =>
      obtain ⟨hx, hxs⟩ := List.forall_mem_cons.mp h
      rw [List.filterAuxM, hx, ok_bind, ih hxs, List.filter_cons]
      cases p x with
      | true => rw [if_pos rfl, List.reverse_cons, List.append_assoc]; rfl
      | false => rfl
  rw [List.filterM, haux, ok_bind, List.append_nil, List.reverse_reverse]
  rfl

theorem anyM_eq {f : α → Except Fault Bool} {p : α → Bool} {xs : List α}
    (h : ∀ x ∈ xs, f x = .ok (p x)) : xs.anyM f = .ok (xs.any p) := by
  induction xs with
  | nil => rfl
  | cons x xs ih =>
    obtain ⟨hx, hxs⟩ := List.forall_mem_cons.mp h
    rw [List.anyM_cons, hx, ok_bind, List.any_cons]
    cases p x with
    | true => rfl
    | false => exact ih hxs

end CodeNav.Checked
