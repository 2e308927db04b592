import Mathlib.Algebra.Ring.Nat
import Mathlib.Data.List.Basic

/-!
# Numbers in groups of seven bits

A number is written least group first, one group a byte, with the high bit set on every byte but the last.

    groups n = n                                        n < 128
    groups n = (n mod 128 + 128) :: groups (n / 128)    128 ≤ n

    P holds of n < 128, and of n when it holds of n / 128  →  P holds of every number   (induct)
-/

namespace Varint

/-! ## Algorithm -/

/-- `fuel` bounds the number of groups. -/
def groupsGo : Nat → Nat → List UInt8
  | 0, n => [UInt8.ofNat n]
  | fuel + 1, n => if n < 128 then [UInt8.ofNat n] else UInt8.ofNat (n % 128 + 128) :: groupsGo fuel (n / 128)

def groups (n : Nat) : List UInt8 := groupsGo n n

/-! ## Lemmas -/

theorem groupsGo_eq (fuel fuel' n : Nat) (h : n ≤ fuel) (h' : n ≤ fuel') : groupsGo fuel n = groupsGo fuel' n := by
  induction fuel generalizing fuel' n with
  | zero =>
    obtain rfl : n = 0 := by omega
    cases fuel' with
    | zero => rfl
    | succ fuel' => rfl
  | succ fuel ih =>
    cases fuel' with
    | zero =>
      obtain rfl : n = 0 := by omega
      rfl
    | succ fuel' =>
      rw [groupsGo, groupsGo]
      by_cases hn : n < 128
      · rw [if_pos hn, if_pos hn]
      · rw [if_neg hn, if_neg hn, ih fuel' (n / 128) (by omega) (by omega)]

theorem groups_of_lt {n : Nat} (h : n < 128) : groups n = [UInt8.ofNat n] := by
  unfold groups
  cases n with
  | zero => rfl
  | succ n => rw [groupsGo, if_pos h]

theorem groups_of_ge {n : Nat} (h : 128 ≤ n) : groups n = UInt8.ofNat (n % 128 + 128) :: groups (n / 128) := by
  unfold groups
  obtain ⟨k, rfl⟩ : ∃ k, n = k + 1 := ⟨n - 1, by omega⟩
  rw [groupsGo, if_neg (by omega), groupsGo_eq k _ _ (by omega) (Nat.le_refl _)]

theorem low_group (n : Nat) : (UInt8.ofNat (n % 128 + 128)).toNat = n % 128 + 128 := by
  rw [UInt8.toNat_ofNat']
  omega

theorem last_group {n : Nat} (h : n < 128) : (UInt8.ofNat n).toNat = n := by
  rw [UInt8.toNat_ofNat']
  omega

theorem induct {P : Nat → Prop} (last : ∀ n, n < 128 → P n) (low : ∀ n, 128 ≤ n → P (n / 128) → P n) (n : Nat) :
    P n := by
  induction n using Nat.strongRecOn with
  | ind n ih =>
    by_cases h : n < 128
    · exact last n h
    · exact low n (by omega) (ih (n / 128) (by omega))

theorem split_shift (n m : Nat) : n * 2 ^ m = n % 128 * 2 ^ m + n / 128 * 2 ^ (m + 7) := by
  have hpow : 2 ^ (m + 7) = 128 * 2 ^ m := by rw [Nat.pow_add, Nat.mul_comm]
  rw [hpow, ← Nat.mul_assoc, ← Nat.add_mul, Nat.mod_add_div']

theorem next_shift_lt {n m w : Nat} (hn : 128 ≤ n) (h : n * 2 ^ m < 2 ^ w) : m + 7 < w := by
  have hge : 2 ^ (m + 7) ≤ n / 128 * 2 ^ (m + 7) := Nat.le_mul_of_pos_left _ (by omega)
  have hsplit := split_shift n m
  exact (Nat.pow_lt_pow_iff_right (show 1 < 2 by decide)).mp (by omega)

theorem groups_ne_nil (n : Nat) : groups n ≠ [] := by
  by_cases h : n < 128
  · rw [groups_of_lt h]
    exact List.cons_ne_nil _ _
  · rw [groups_of_ge (by omega)]
    exact List.cons_ne_nil _ _

end Varint
