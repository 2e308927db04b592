import ZeroFrameworks.Kv.Bytes

/-!
# Base64url

The two functions of `JWTUtil`, without padding.  The decoder gives nothing for a text with another character, and
leaves out a last character that stands alone.

    base64UrlDecode (base64UrlEncode x) = x   (base64UrlDecode_encode)
-/

namespace Util

open Kv (Bytes lit)

namespace JWTUtil

/-! ## Algorithm -/

def encodeTable : Bytes := lit "ABCDEFGHIJKLMNOPQRSTUVWXYZabcdefghijklmnopqrstuvwxyz0123456789-_"

/-- `table[n & 0x3F]`. -/
def digit (n : Nat) : UInt8 := encodeTable.getD (n % 64) 0

/-- The bytes of a group are shifted to places that do not overlap. -/
def base64UrlEncode : Bytes → Bytes
  | x :: y :: z :: rest =>
    let b := x.toNat * 65536 + y.toNat * 256 + z.toNat
    digit (b / 262144) :: digit (b / 4096) :: digit (b / 64) :: digit b :: base64UrlEncode rest
  | [x, y] =>
    let b := x.toNat * 65536 + y.toNat * 256
    [digit (b / 262144), digit (b / 4096), digit (b / 64)]
  | [x] =>
    let b := x.toNat * 65536
    [digit (b / 262144), digit (b / 4096)]
  | [] => []

def decodeTable : List Int := [
  -1,-1,-1,-1,-1,-1,-1,-1,-1,-1,-1,-1,-1,-1,-1,-1,
  -1,-1,-1,-1,-1,-1,-1,-1,-1,-1,-1,-1,-1,-1,-1,-1,
  -1,-1,-1,-1,-1,-1,-1,-1,-1,-1,-1,-1,-1,62,-1,-1,
  52,53,54,55,56,57,58,59,60,61,-1,-1,-1,-1,-1,-1,
  -1, 0, 1, 2, 3, 4, 5, 6, 7, 8, 9,10,11,12,13,14,
  15,16,17,18,19,20,21,22,23,24,25,-1,-1,-1,-1,63,
  -1,26,27,28,29,30,31,32,33,34,35,36,37,38,39,40,
  41,42,43,44,45,46,47,48,49,50,51,-1,-1,-1,-1,-1,
  -1,-1,-1,-1,-1,-1,-1,-1,-1,-1,-1,-1,-1,-1,-1,-1,
  -1,-1,-1,-1,-1,-1,-1,-1,-1,-1,-1,-1,-1,-1,-1,-1,
  -1,-1,-1,-1,-1,-1,-1,-1,-1,-1,-1,-1,-1,-1,-1,-1,
  -1,-1,-1,-1,-1,-1,-1,-1,-1,-1,-1,-1,-1,-1,-1,-1,
  -1,-1,-1,-1,-1,-1,-1,-1,-1,-1,-1,-1,-1,-1,-1,-1,
  -1,-1,-1,-1,-1,-1,-1,-1,-1,-1,-1,-1,-1,-1,-1,-1,
  -1,-1,-1,-1,-1,-1,-1,-1,-1,-1,-1,-1,-1,-1,-1,-1,
  -1,-1,-1,-1,-1,-1,-1,-1,-1,-1,-1,-1,-1,-1,-1,-1]

/-- The value of a character; `none` for -1. -/
def sextet (c : UInt8) : Option Nat :=
  let v := decodeTable.getD c.toNat (-1)
  if v < 0 then none else some v.toNat

/-- The bytes of the values, four at a time. -/
def joinSextets : List Nat → Bytes
  | v0 :: v1 :: v2 :: v3 :: rest =>
    let b := v0 * 262144 + v1 * 4096 + v2 * 64 + v3
    UInt8.ofNat (b / 65536) :: UInt8.ofNat (b / 256) :: UInt8.ofNat b :: joinSextets rest
  | [v0, v1, v2] =>
    let b := v0 * 262144 + v1 * 4096 + v2 * 64
    [UInt8.ofNat (b / 65536), UInt8.ofNat (b / 256)]
  | [v0, v1] =>
    let b := v0 * 262144 + v1 * 4096
    [UInt8.ofNat (b / 65536)]
  | [_] => []
  | [] => []

def base64UrlDecode (input : Bytes) : Bytes :=
  match input.mapM sextet with
  | none => []
  | some vals => joinSextets vals

/-! ## Lemmas -/

/-- The values that a text is written with. -/
def sextets : Bytes → List Nat
  | x :: y :: z :: rest =>
    let b := x.toNat * 65536 + y.toNat * 256 + z.toNat
    b / 262144 % 64 :: b / 4096 % 64 :: b / 64 % 64 :: b % 64 :: sextets rest
  | [x, y] =>
    let b := x.toNat * 65536 + y.toNat * 256
    [b / 262144 % 64, b / 4096 % 64, b / 64 % 64]
  | [x] =>
    let b := x.toNat * 65536
    [b / 262144 % 64, b / 4096 % 64]
  | [] => []

theorem sextet_table : ∀ v < 64, sextet (encodeTable.getD v 0) = some v := by decide +kernel

theorem sextet_digit (n : Nat) : sextet (digit n) = some (n % 64) := sextet_table _ (Nat.mod_lt _ (by decide))

theorem mapM_encode (x : Bytes) : (base64UrlEncode x).mapM sextet = some (sextets x) := by
  induction x using base64UrlEncode.induct with
  | case1 x y z rest ih =>
    simp only [base64UrlEncode, sextets, List.mapM_cons, sextet_digit, ih]
    rfl
  | case2 x y => simp only [base64UrlEncode, sextets, List.mapM_cons, List.mapM_nil, sextet_digit]; rfl
  | case3 x => simp only [base64UrlEncode, sextets, List.mapM_cons, List.mapM_nil, sextet_digit]; rfl
  | case4 => rfl

theorem ofNat_eq {n : Nat} {x : UInt8} (h : n % 256 = x.toNat) : UInt8.ofNat n = x := by
  rw [← UInt8.toNat_inj, UInt8.toNat_ofNat', h]

theorem joinSextets_sextets (x : Bytes) : joinSextets (sextets x) = x := by
  induction x using base64UrlEncode.induct with
  | case1 x y z rest ih =>
    have hx := x.toNat_lt
    have hy := y.toNat_lt
    have hz := z.toNat_lt
    simp only [sextets, joinSextets]
    rw [ih, ofNat_eq (x := x) (by omega), ofNat_eq (x := y) (by omega), ofNat_eq (x := z) (by omega)]
  | case2 x y =>
    have hx := x.toNat_lt
    have hy := y.toNat_lt
    simp only [sextets, joinSextets]
    rw [ofNat_eq (x := x) (by omega), ofNat_eq (x := y) (by omega)]
  | case3 x =>
    have hx := x.toNat_lt
    simp only [sextets, joinSextets]
    rw [ofNat_eq (x := x) (by omega)]
  | case4 => rfl

/-! ## Top theorem -/

theorem base64UrlDecode_encode (x : Bytes) : base64UrlDecode (base64UrlEncode x) = x := by
  unfold base64UrlDecode
  rw [mapM_encode]
  exact joinSextets_sextets x

end JWTUtil

end Util
