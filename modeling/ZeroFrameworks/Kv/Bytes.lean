import Mathlib.Algebra.Ring.Int.Defs
import Mathlib.Algebra.Ring.Nat
import Mathlib.Data.List.TakeWhile
import Std.Data.ExtTreeMap
import Std.Data.ExtTreeSet

/-!
# Byte strings and the C library text functions the server uses

A `std::string` is a list of bytes.  The server reads numbers with `strtoll` /
`strtoull` and prints them with `std::to_string`; both are written out here, with
the facts the later modules need:

    strtoll (printInt n) = (n, (printInt n).length)     for n in the int64 range  (strtoll_printInt)

`strtoll` stops at the first byte that is not a digit and saturates, as the C
function does; callers compare the number of bytes it read with what they expect.
-/

namespace Kv

/-- Contents of a `std::string`. -/
abbrev Bytes := List UInt8

/-- Whether a string is among others. -/
instance decidableMemBytes (s : Bytes) (l : List Bytes) : Decidable (s ∈ l) :=
  inferInstanceAs (Decidable (s ∈ l))

/-- Whether a key, with its database, is among others. -/
instance decidableMemKeys (k : Int × Bytes) (l : List (Int × Bytes)) : Decidable (k ∈ l) :=
  inferInstanceAs (Decidable (k ∈ l))

/-- Maps keyed by strings (`std::map`, `std::unordered_map`): equal contents are equal values. -/
abbrev BMap (V : Type) := Std.ExtTreeMap Bytes V compare

/-- Sets of strings (`std::unordered_set`). -/
abbrev BSet := Std.ExtTreeSet Bytes compare

/-- A string literal of the source. -/
def lit (s : String) : Bytes := s.toUTF8.data.toList

/-! ## Characters -/

/-- `std::toupper` in the C locale. -/
def toUpper (b : UInt8) : UInt8 := if 97 ≤ b ∧ b ≤ 122 then b - 32 else b

/-- `std::tolower` in the C locale. -/
def toLower (b : UInt8) : UInt8 := if 65 ≤ b ∧ b ≤ 90 then b + 32 else b

def upper (s : Bytes) : Bytes := s.map toUpper

def lower (s : Bytes) : Bytes := s.map toLower

/-- `std::isspace` in the C locale. -/
def isSpace (b : UInt8) : Bool := b == 32 || (decide (9 ≤ b) && decide (b ≤ 13))

def isDigit (b : UInt8) : Bool := decide (48 ≤ b) && decide (b ≤ 57)

/-- What `c_str()` shows to a C function: the bytes before the first NUL. -/
def cstr (s : Bytes) : Bytes := s.takeWhile (· ≠ 0)

/-! ## Fixed-width integers -/

/-- The value a signed 64-bit variable holds after an operation whose exact result is `x`. -/
def i64 (x : Int) : Int := Int.bmod x (2 ^ 64)

/-- A value of `int64_t`. -/
def IsI64 (n : Int) : Prop := -2 ^ 63 ≤ n ∧ n < 2 ^ 63

instance (n : Int) : Decidable (IsI64 n) := inferInstanceAs (Decidable (_ ∧ _))

/-- The value an `int` holds after a conversion from `x`. -/
def i32 (x : Int) : Int := Int.bmod x (2 ^ 32)

/-- Saturation of `strtoll`. -/
def clamp64 (x : Int) : Int := max (-(2 ^ 63)) (min (2 ^ 63 - 1) x)

/-! ## Reading numbers -/

/-- Value of a run of decimal digits. -/
def natOf (ds : Bytes) : Nat := ds.foldl (fun n d => n * 10 + (d.toNat - 48)) 0

/-- `strtoll(s.c_str(), &end, 10)`: the value and the number of bytes before `end`
(`0` when there is no number). -/
def strtoll (s : Bytes) : Int × Nat :=
  let t := cstr s
  let u := t.dropWhile isSpace
  let neg := u.head? == some 45
  let v := if u.head? == some 45 || u.head? == some 43 then u.tail else u
  let ds := v.takeWhile isDigit
  if ds.isEmpty then (0, 0)
  else (clamp64 (if neg then -(natOf ds : Int) else natOf ds), t.length - v.length + ds.length)

/-- `strtoull(s.c_str(), &end, 10)`: as `strtoll`, into an unsigned 64-bit value. -/
def strtoull (s : Bytes) : Nat × Nat :=
  let t := cstr s
  let u := t.dropWhile isSpace
  let neg := u.head? == some 45
  let v := if u.head? == some 45 || u.head? == some 43 then u.tail else u
  let ds := v.takeWhile isDigit
  if ds.isEmpty then (0, 0)
  else
    let n := natOf ds
    (if n < 2 ^ 64 then (if neg then (2 ^ 64 - n) % 2 ^ 64 else n) else 2 ^ 64 - 1,
      t.length - v.length + ds.length)

/-! ## Printing numbers -/

/-- The digit `n`, for `n < 10`. -/
def digit (n : Nat) : UInt8 := UInt8.ofNat (48 + n)

/-- Digits of `n` in front of `acc`; `fuel` bounds the number of digits. -/
def digitsGo : Nat → Nat → Bytes → Bytes
  | 0, _, acc => acc
  | fuel + 1, n, acc =>
    if n < 10 then digit n :: acc else digitsGo fuel (n / 10) (digit (n % 10) :: acc)

/-- Decimal text of a natural number. -/
def printNat (n : Nat) : Bytes := digitsGo (n + 1) n []

/-- `std::to_string` of a signed integer. -/
def printInt (n : Int) : Bytes := if n < 0 then 45 :: printNat n.natAbs else printNat n.natAbs

/-! ## Lemmas -/

theorem forall_byte {P : UInt8 → Prop} (h : ∀ n < 256, P (UInt8.ofNat n)) (b : UInt8) : P b := by
  have := h b.toNat b.toNat_lt
  rwa [UInt8.ofNat_toNat] at this

theorem i64_eq (x : Int) :
    i64 x = if x % 18446744073709551616 < 9223372036854775808 then x % 18446744073709551616
      else x % 18446744073709551616 - 18446744073709551616 := by
  simp [i64, Int.bmod]

theorem isI64_i64 (n : Int) : IsI64 (i64 n) := by
  unfold IsI64
  rw [i64_eq]
  split <;> omega

theorem i64_of_range {n : Int} (h : IsI64 n) : i64 n = n := by
  obtain ⟨hlo, hhi⟩ := h
  rw [i64_eq]
  split <;> omega

theorem i64_eq_iff {n : Int} : i64 n = n ↔ IsI64 n :=
  ⟨fun h => h ▸ isI64_i64 n, i64_of_range⟩

theorem i32_of_range {n : Int} (h : -2 ^ 31 ≤ n ∧ n < 2 ^ 31) : i32 n = n := by
  obtain ⟨hlo, hhi⟩ := h
  unfold i32
  rw [Int.bmod_def]
  omega

theorem i32_natCast {m : Nat} (h : m < 2 ^ 31) : i32 (m : Int) = m := i32_of_range ⟨by omega, by omega⟩

theorem i32_lt (x : Int) : i32 x < 2 ^ 31 := by
  unfold i32
  rw [Int.bmod_def]
  omega

theorem isI64_clamp64 (n : Int) : IsI64 (clamp64 n) := by
  unfold IsI64 clamp64
  omega

theorem byte_spec (b : UInt8) : toUpper (toLower b) = toUpper b ∧ toLower (toUpper b) = toLower b ∧
    (isDigit b = true → isSpace b = false) := by
  refine forall_byte (P := fun b => toUpper (toLower b) = toUpper b ∧ toLower (toUpper b) = toLower b ∧
    (isDigit b = true → isSpace b = false)) ?_ b
  decide +kernel

theorem toUpper_toLower (b : UInt8) : toUpper (toLower b) = toUpper b := (byte_spec b).1

theorem upper_lower (s : Bytes) : upper (lower s) = upper s := by
  simp [upper, lower, toUpper_toLower]

theorem toLower_toUpper (b : UInt8) : toLower (toUpper b) = toLower b := (byte_spec b).2.1

theorem lower_upper (s : Bytes) : lower (upper s) = lower s := by
  simp [upper, lower, toLower_toUpper]

theorem digit_toNat (n : Nat) (h : n < 10) : (digit n).toNat = 48 + n := by
  unfold digit; simp; omega

theorem digit_isDigit (n : Nat) (h : n < 10) : isDigit (digit n) = true := by
  have := digit_toNat n h
  simp only [isDigit, Bool.and_eq_true, decide_eq_true_eq, UInt8.le_iff_toNat_le, this]
  exact ⟨by simp, by simp; omega⟩

/-- The digits printed by `digitsGo` read back as `n`, in front of what was there. -/
theorem natOf_digitsGo : ∀ (fuel n : Nat) (acc : Bytes), n < fuel →
    ∃ ds, digitsGo fuel n acc = ds ++ acc ∧ ds ≠ [] ∧ (∀ d ∈ ds, isDigit d = true) ∧
      ∀ m, ds.foldl (fun n d => n * 10 + (d.toNat - 48)) m = m * 10 ^ ds.length + n := by
  intro fuel
  induction fuel with
  | zero => intro n acc h; omega
  | succ fuel ih =>
    intro n acc h
    unfold digitsGo
    by_cases h10 : n < 10
    · rw [if_pos h10]
      refine ⟨[digit n], rfl, by simp, by simpa using digit_isDigit n h10, fun m => ?_⟩
      simp [digit_toNat n h10]
    · rw [if_neg h10]
      obtain ⟨ds, he, hne, hd, hv⟩ := ih (n / 10) (digit (n % 10) :: acc) (by omega)
      refine ⟨ds ++ [digit (n % 10)], by simp [he], by simp, ?_, fun m => ?_⟩
      · intro d hm
        rcases List.mem_append.mp hm with hm | hm
        · exact hd d hm
        · rw [List.mem_singleton.mp hm]; exact digit_isDigit _ (by omega)
      · rw [List.foldl_append, hv m]
        simp only [List.foldl_cons, List.foldl_nil, List.length_append, List.length_cons,
          List.length_nil, digit_toNat _ (show n % 10 < 10 by omega)]
        rw [Nat.pow_add, Nat.pow_one]
        have : m * (10 ^ ds.length * 10) = m * 10 ^ ds.length * 10 := by rw [Nat.mul_assoc]
        omega

theorem printNat_spec (n : Nat) :
    printNat n ≠ [] ∧ (∀ d ∈ printNat n, isDigit d = true) ∧ natOf (printNat n) = n := by
  obtain ⟨ds, he, hne, hd, hv⟩ := natOf_digitsGo (n + 1) n [] (by omega)
  have h : printNat n = ds := by simp [printNat, he]
  rw [h]
  exact ⟨hne, hd, by simpa [natOf] using hv 0⟩

theorem isDigit_iff (b : UInt8) : isDigit b = true ↔ 48 ≤ b.toNat ∧ b.toNat ≤ 57 := by
  simp [isDigit, UInt8.le_iff_toNat_le]

theorem isDigit_ne_zero (b : UInt8) (h : isDigit b = true) : b ≠ 0 := by
  rintro rfl
  exact absurd h (by decide)

theorem isDigit_not_space (b : UInt8) (h : isDigit b = true) : isSpace b = false := (byte_spec b).2.2 h

theorem isDigit_not_sign (b : UInt8) (h : isDigit b = true) : b ≠ 45 ∧ b ≠ 43 := by
  constructor <;> (rintro rfl; exact absurd h (by decide))

theorem takeWhile_digits (ds : Bytes) (h : ∀ d ∈ ds, isDigit d = true) : ds.takeWhile isDigit = ds := by
  rw [List.takeWhile_eq_self_iff]; exact h

theorem cstr_digits (ds : Bytes) (h : ∀ d ∈ ds, isDigit d = true) : cstr ds = ds := by
  unfold cstr
  rw [List.takeWhile_eq_self_iff]
  intro d hd
  simpa using isDigit_ne_zero d (h d hd)

/-- `strtoll` undoes `std::to_string` and reads all of it. -/
theorem strtoll_printInt (n : Int) (hlo : -(2 ^ 63) ≤ n) (hhi : n < 2 ^ 63) :
    strtoll (printInt n) = (n, (printInt n).length) := by
  obtain ⟨hne, hd, hv⟩ := printNat_spec n.natAbs
  obtain ⟨d, ds, hds⟩ := List.exists_cons_of_ne_nil hne
  have hd0 : isDigit d = true := hd d (by rw [hds]; exact List.mem_cons_self)
  have hsp := isDigit_not_space d hd0
  obtain ⟨h45, h43⟩ := isDigit_not_sign d hd0
  have htw : (printNat n.natAbs).takeWhile isDigit = printNat n.natAbs := takeWhile_digits _ hd
  by_cases hn : n < 0
  · have hc : cstr (45 :: printNat n.natAbs) = 45 :: printNat n.natAbs := by
      have := cstr_digits _ hd
      unfold cstr at this ⊢
      rw [List.takeWhile_cons_of_pos (by decide), this]
    have hcl : clamp64 (-(n.natAbs : Int)) = n := by unfold clamp64; omega
    simp only [printInt, if_pos hn, strtoll, hc]
    have hdw : (45 :: printNat n.natAbs).dropWhile isSpace = 45 :: printNat n.natAbs := by
      rw [List.dropWhile_cons_of_neg (by decide)]
    simp only [hdw, List.head?_cons, beq_self_eq_true, Bool.true_or, if_true, List.tail_cons, htw, hv, hcl]
    rw [if_neg (by simpa using hne)]
    simp only [List.length_cons, Prod.mk.injEq, true_and]
    omega
  · have hcl : clamp64 (n.natAbs : Int) = n := by unfold clamp64; omega
    simp only [printInt, if_neg hn, strtoll, cstr_digits _ hd]
    have hdw : (printNat n.natAbs).dropWhile isSpace = printNat n.natAbs := by
      rw [hds, List.dropWhile_cons_of_neg (by simp [hsp])]
    have hh : (printNat n.natAbs).head? = some d := by rw [hds]; rfl
    have e45 : (some d == some (45 : UInt8)) = false := by simpa using h45
    have e43 : (some d == some (43 : UInt8)) = false := by simpa using h43
    simp only [hdw, hh, e45, e43, Bool.or_false, Bool.false_eq_true, if_false, htw, hv, hcl]
    rw [if_neg (by simpa using hne)]
    simp

theorem isI64_strtoll (s : Bytes) : IsI64 (strtoll s).1 := by
  unfold strtoll
  simp only
  split
  · split
    · decide
    · exact isI64_clamp64 _
  · split
    · decide
    · exact isI64_clamp64 _

theorem printInt_ne_nil (n : Int) : printInt n ≠ [] := by
  unfold printInt
  split
  · simp
  · exact (printNat_spec _).1

end Kv
