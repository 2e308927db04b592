import Mathlib.Data.BitVec
import Mathlib.Logic.Function.Iterate

/-!
# Cyclic redundancy checks

A check of width `k + 8`, bit by bit and with a table for the top byte.  One shift is linear in exclusive or, so a
table step is eight shifts of the register with the byte on top, up to the error of the entry it looked at; and what
a table computes differs from the check by the errors it met, each carried over the bytes after it.

    tableStep T c b = step c b ^^^ slip T (index c b)   (tableStep_eq)
    tableFold T c data = fold c data ^^^ drift T c data   (tableFold_eq)
-/

namespace Crc

variable {w k : Nat}

/-! ## Algorithm -/

/-- One bit of the division by the polynomial. -/
def shift (poly c : BitVec w) : BitVec w := if c.msb then c <<< 1 ^^^ poly else c <<< 1

def shifts (poly : BitVec w) (n : Nat) (c : BitVec w) : BitVec w := (shift poly)^[n] c

/-- A byte in the top eight bits. -/
def onTop (b : BitVec 8) : BitVec (k + 8) := b.setWidth (k + 8) <<< k

/-- One byte, bit by bit. -/
def step (poly : BitVec (k + 8)) (c : BitVec (k + 8)) (b : BitVec 8) : BitVec (k + 8) :=
  shifts poly 8 (c ^^^ onTop b)

def fold (poly : BitVec (k + 8)) (c : BitVec (k + 8)) (data : List (BitVec 8)) : BitVec (k + 8) :=
  data.foldl (step poly) c

/-- The table entry that a byte looks at. -/
def index (c : BitVec (k + 8)) (b : BitVec 8) : BitVec 8 := (c >>> k).setWidth 8 ^^^ b

def tableStep (T : BitVec 8 → BitVec (k + 8)) (c : BitVec (k + 8)) (b : BitVec 8) : BitVec (k + 8) :=
  c <<< 8 ^^^ T (index c b)

def tableFold (T : BitVec 8 → BitVec (k + 8)) (c : BitVec (k + 8)) (data : List (BitVec 8)) :
    BitVec (k + 8) :=
  data.foldl (tableStep T) c

/-- The right entry of the table. -/
def entry (poly : BitVec (k + 8)) (i : BitVec 8) : BitVec (k + 8) := shifts poly 8 (onTop i)

/-! ## Specification -/

/-- How far an entry of a table is off. -/
def slip (poly : BitVec (k + 8)) (T : BitVec 8 → BitVec (k + 8)) (i : BitVec 8) : BitVec (k + 8) :=
  T i ^^^ entry poly i

/-- The errors of the entries that a run looks at, each carried over the bytes after it. -/
def drift (poly : BitVec (k + 8)) (T : BitVec 8 → BitVec (k + 8)) :
    BitVec (k + 8) → List (BitVec 8) → BitVec (k + 8)
  | _, [] => 0
  | c, b :: data =>
    shifts poly (8 * data.length) (slip poly T (index c b)) ^^^ drift poly T (tableStep T c b) data

/-! ## Lemmas -/

section
variable (poly : BitVec w)

theorem shift_xor (a b : BitVec w) : shift poly (a ^^^ b) = shift poly a ^^^ shift poly b := by
  unfold shift
  rw [BitVec.msb_xor, BitVec.shiftLeft_xor_distrib]
  cases a.msb with
  | false =>
    cases b.msb with
    | false => rfl
    | true => exact BitVec.xor_assoc ..
  | true =>
    cases b.msb with
    | false =>
      show a <<< 1 ^^^ b <<< 1 ^^^ poly = a <<< 1 ^^^ poly ^^^ b <<< 1
      ac_rfl
    | true =>
      show a <<< 1 ^^^ b <<< 1 = a <<< 1 ^^^ poly ^^^ (b <<< 1 ^^^ poly)
      rw [BitVec.xor_assoc (a <<< 1) poly, ← BitVec.xor_assoc poly, BitVec.xor_comm poly,
        BitVec.xor_assoc (b <<< 1), BitVec.xor_self, BitVec.xor_zero]

theorem shifts_xor (n : Nat) (a b : BitVec w) :
    shifts poly n (a ^^^ b) = shifts poly n a ^^^ shifts poly n b := by
  induction n generalizing a b with
  | zero => rfl
  | succ n ih =>
    show shifts poly n (shift poly (a ^^^ b)) = _
    rw [shift_xor, ih]
    rfl

theorem shifts_add (m n : Nat) (c : BitVec w) :
    shifts poly (m + n) c = shifts poly m (shifts poly n c) := Function.iterate_add_apply ..

@[simp] theorem shifts_zero (n : Nat) : shifts poly n 0 = 0 := by
  have h : shift poly 0 = 0 := by simp [shift]
  exact Function.iterate_fixed h n

/-- What is clear in its top bits only moves up. -/
theorem shifts_low (n : Nat) (c : BitVec w) (h : ∀ i < n, c.getMsbD i = false) :
    shifts poly n c = c <<< n := by
  induction n generalizing c with
  | zero => exact (BitVec.shiftLeft_zero c).symm
  | succ n ih =>
    have h0 : c.msb = false := h 0 n.succ_pos
    have hs : shift poly c = c <<< 1 := by simp [shift, h0]
    show shifts poly n (shift poly c) = _
    rw [hs, ih]
    · rw [← BitVec.shiftLeft_add, Nat.add_comm]
    · intro i hi
      rw [BitVec.getMsbD_shiftLeft]
      exact h (i + 1) (by omega)

end

section
variable (poly : BitVec (k + 8))

/-- The register below its top byte. -/
def low (c : BitVec (k + 8)) : BitVec (k + 8) := c ^^^ onTop ((c >>> k).setWidth 8)

theorem getLsbD_onTop (b : BitVec 8) (i : Nat) :
    (onTop b : BitVec (k + 8)).getLsbD i = (decide (k ≤ i) && b.getLsbD (i - k)) := by
  have hb : i < k + 8 ∨ b.getLsbD (i - k) = false := by
    by_cases h : i < k + 8
    · exact .inl h
    · exact .inr (BitVec.getLsbD_of_ge b _ (by omega))
  rw [onTop, BitVec.getLsbD_shiftLeft, BitVec.getLsbD_setWidth]
  rcases hb with hb | hb
  · by_cases hk : k ≤ i
    · simp [hb, hk, show i - k < k + 8 by omega]
    · simp [hk, show i < k by omega]
  · simp [hb]

theorem onTop_xor (a b : BitVec 8) : (onTop (a ^^^ b) : BitVec (k + 8)) = onTop a ^^^ onTop b := by
  rw [onTop, BitVec.setWidth_xor, BitVec.shiftLeft_xor_distrib]
  rfl

theorem low_top (c : BitVec (k + 8)) : ∀ i < 8, (low c).getMsbD i = false := by
  intro i hi
  have h : k + 8 - 1 - i = k + (7 - i) := by omega
  rw [low, BitVec.getMsbD_xor, BitVec.getMsbD_eq_getLsbD, BitVec.getMsbD_eq_getLsbD, getLsbD_onTop, h]
  simp [show i < k + 8 by omega, show 7 - i < 8 by omega]

theorem low_shift (c : BitVec (k + 8)) : low c <<< 8 = c <<< 8 := by
  have hz : (onTop ((c >>> k).setWidth 8) : BitVec (k + 8)) <<< 8 = 0#(k + 8) := by
    apply BitVec.eq_of_getLsbD_eq
    intro i hi
    rw [BitVec.getLsbD_shiftLeft, getLsbD_onTop]
    by_cases h : i < 8
    · simp [h]
    · simp [show ¬ k ≤ i - 8 by omega]
  rw [low, BitVec.shiftLeft_xor_distrib, hz, BitVec.xor_zero]

theorem step_eq (c : BitVec (k + 8)) (b : BitVec 8) : step poly c b = c <<< 8 ^^^ entry poly (index c b) := by
  have hsplit : c ^^^ onTop b = low c ^^^ onTop (index c b) := by
    rw [index, onTop_xor, low]
    rw [BitVec.xor_assoc c, ← BitVec.xor_assoc (onTop _) (onTop _), BitVec.xor_self, BitVec.zero_xor]
  rw [step, hsplit, shifts_xor, shifts_low poly 8 _ (low_top c), low_shift]
  rfl

theorem tableStep_eq (T : BitVec 8 → BitVec (k + 8)) (c : BitVec (k + 8)) (b : BitVec 8) :
    tableStep T c b = step poly c b ^^^ slip poly T (index c b) := by
  rw [step_eq, tableStep, slip, BitVec.xor_comm (T _), ← BitVec.xor_assoc, BitVec.xor_assoc (c <<< 8),
    BitVec.xor_self, BitVec.xor_zero]

/-- An error in the register is carried through the bytes that follow. -/
theorem fold_xor (data : List (BitVec 8)) (c e : BitVec (k + 8)) :
    fold poly (c ^^^ e) data = fold poly c data ^^^ shifts poly (8 * data.length) e := by
  induction data generalizing c e with
  | nil => rfl
  | cons b data ih =>
    have hstep : step poly (c ^^^ e) b = step poly c b ^^^ shifts poly 8 e := by
      rw [step, step, ← shifts_xor]
      congr 1
      ac_rfl
    show fold poly (step poly (c ^^^ e) b) data = fold poly (step poly c b) data ^^^ _
    rw [hstep, ih, ← shifts_add, List.length_cons, Nat.mul_succ]

/-! ## Top theorem -/

theorem tableFold_eq (T : BitVec 8 → BitVec (k + 8)) (data : List (BitVec 8)) (c : BitVec (k + 8)) :
    tableFold T c data = fold poly c data ^^^ drift poly T c data := by
  induction data generalizing c with
  | nil => exact (BitVec.xor_zero).symm
  | cons b data ih =>
    show tableFold T (tableStep T c b) data = fold poly (step poly c b) data ^^^ drift poly T c (b :: data)
    rw [ih, drift]
    nth_rewrite 1 [tableStep_eq poly]
    rw [fold_xor, BitVec.xor_assoc]

end

end Crc
