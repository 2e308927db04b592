import Mathlib.Data.BitVec
import Mathlib.Data.List.Basic

/-!
# Strings of bits

A bit vector as the list of its bits, the highest first, and a list of bytes as the bits of one after the other.

    bits (x &&& y) = meet (bits x) (bits y)   (bits_and, of bytes_and, bits_or, bytes_or)
    value (meet l m) ≤ value l ≤ value (join l m)   (value_meet_le, value_le_join)
-/

namespace BitStrings

/-! ## Algorithm -/

def bits {w : Nat} (x : BitVec w) : List Bool := (List.range w).map x.getMsbD

def bytes (l : List UInt8) : List Bool := l.flatMap fun b => bits b.toBitVec

/-- `p` ones and then zeros. -/
def mask (w p : Nat) : List Bool := List.replicate p true ++ List.replicate (w - p) false

def meet (l m : List Bool) : List Bool := List.zipWith (· && ·) l m

def join (l m : List Bool) : List Bool := List.zipWith (· || ·) l m

/-- The number with these digits. -/
def value : List Bool → Nat
  | [] => 0
  | b :: l => b.toNat * 2 ^ l.length + value l

/-! ## Lemmas -/

variable {w : Nat}

@[simp] theorem length_bits (x : BitVec w) : (bits x).length = w := by simp [bits]

theorem bits_injective {x y : BitVec w} (h : bits x = bits y) : x = y := by
  apply BitVec.eq_of_getMsbD_eq
  intro i hi
  have hbit := List.map_inj_left.mp h i (List.mem_range.mpr hi)
  exact hbit

theorem bits_and (x y : BitVec w) : bits (x &&& y) = meet (bits x) (bits y) := by
  rw [bits, bits, bits, meet, List.zipWith_map, List.zipWith_self]
  apply List.map_congr_left
  intro i _
  exact BitVec.getMsbD_and

theorem bits_or (x y : BitVec w) : bits (x ||| y) = join (bits x) (bits y) := by
  rw [bits, bits, bits, join, List.zipWith_map, List.zipWith_self]
  apply List.map_congr_left
  intro i _
  exact BitVec.getMsbD_or

theorem bits_not (x : BitVec w) : bits (~~~x) = (bits x).map (!·) := by
  rw [bits, bits, List.map_map]
  apply List.map_congr_left
  intro i hi
  simp [BitVec.getMsbD_not, List.mem_range.mp hi]

@[simp] theorem length_bytes (l : List UInt8) : (bytes l).length = 8 * l.length := by
  induction l with
  | nil => rfl
  | cons b l ih =>
    rw [bytes, List.flatMap_cons, List.length_append, length_bits]
    show 8 + (bytes l).length = _
    rw [ih, List.length_cons]
    omega

theorem bytes_cons (b : UInt8) (l : List UInt8) : bytes (b :: l) = bits b.toBitVec ++ bytes l := List.flatMap_cons ..

theorem bytes_append (l m : List UInt8) : bytes (l ++ m) = bytes l ++ bytes m := List.flatMap_append ..

variable {l m : List UInt8}

theorem bytes_injective (hlen : l.length = m.length) (h : bytes l = bytes m) : l = m := by
  induction l generalizing m with
  | nil => exact (List.length_eq_zero_iff.mp hlen.symm).symm
  | cons b l ih =>
    cases m with
    | nil => cases hlen
    | cons c m =>
      obtain ⟨hhead, hrest⟩ := List.append_inj h (by rw [length_bits, length_bits])
      rw [UInt8.toBitVec_inj.mp (bits_injective hhead), ih (Nat.succ.inj hlen) hrest]

theorem meet_append {l l' m m' : List Bool} (h : l.length = m.length) :
    meet (l ++ l') (m ++ m') = meet l m ++ meet l' m' := List.zipWith_append h

theorem join_append {l l' m m' : List Bool} (h : l.length = m.length) :
    join (l ++ l') (m ++ m') = join l m ++ join l' m' := List.zipWith_append h

theorem bytes_and (h : l.length = m.length) :
    bytes (List.zipWith (· &&& ·) l m) = meet (bytes l) (bytes m) := by
  induction l generalizing m with
  | nil => rfl
  | cons b l ih =>
    cases m with
    | nil => cases h
    | cons c m =>
      rw [List.zipWith_cons_cons, bytes_cons, bytes_cons, bytes_cons, meet_append (by rw [length_bits, length_bits]),
        ← ih (Nat.succ.inj h), ← bits_and]
      rfl

theorem bytes_or (h : l.length = m.length) :
    bytes (List.zipWith (· ||| ·) l m) = join (bytes l) (bytes m) := by
  induction l generalizing m with
  | nil => rfl
  | cons b l ih =>
    cases m with
    | nil => cases h
    | cons c m =>
      rw [List.zipWith_cons_cons, bytes_cons, bytes_cons, bytes_cons, join_append (by rw [length_bits, length_bits]),
        ← ih (Nat.succ.inj h), ← bits_or]
      rfl

@[simp] theorem length_mask {w p : Nat} (h : p ≤ w) : (mask w p).length = w := by
  rw [mask, List.length_append, List.length_replicate, List.length_replicate]
  omega

theorem value_meet_le {l m : List Bool} (h : l.length = m.length) : value (meet l m) ≤ value l := by
  induction l generalizing m with
  | nil => exact Nat.le_refl _
  | cons b l ih =>
    cases m with
    | nil => cases h
    | cons c m =>
      have hrest := ih (Nat.succ.inj h)
      have hlen : (meet l m).length = l.length := by
        rw [meet, List.length_zipWith, Nat.succ.inj h, Nat.min_self]
      show (b && c).toNat * 2 ^ (meet l m).length + value (meet l m) ≤ b.toNat * 2 ^ l.length + value l
      have hbit : (b && c).toNat ≤ b.toNat := by cases b <;> cases c <;> decide
      rw [hlen]
      exact Nat.add_le_add (Nat.mul_le_mul_right _ hbit) hrest

theorem value_le_join {l m : List Bool} (h : l.length = m.length) : value l ≤ value (join l m) := by
  induction l generalizing m with
  | nil => exact Nat.zero_le _
  | cons b l ih =>
    cases m with
    | nil => cases h
    | cons c m =>
      have hrest := ih (Nat.succ.inj h)
      have hlen : (join l m).length = l.length := by
        rw [join, List.length_zipWith, Nat.succ.inj h, Nat.min_self]
      show b.toNat * 2 ^ l.length + value l ≤ (b || c).toNat * 2 ^ (join l m).length + value (join l m)
      have hbit : b.toNat ≤ (b || c).toNat := by cases b <;> cases c <;> decide
      rw [hlen]
      exact Nat.add_le_add (Nat.mul_le_mul_right _ hbit) hrest

theorem meet_meet (l m : List Bool) : meet (meet l m) m = meet l m := by
  induction l generalizing m with
  | nil => rfl
  | cons b l ih =>
    cases m with
    | nil => rfl
    | cons c m =>
      show (b && c && c) :: meet (meet l m) m = (b && c) :: meet l m
      rw [ih, Bool.and_assoc, Bool.and_self]

end BitStrings
