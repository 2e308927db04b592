import ZeroFrameworks.Util.Base64Url

/-!
# Base64 and hex (`util/hash_util.cc`)

Base64 with padding, and bytes as two hex digits each.

    base64decode (base64encode s) = s, base64UrlDecode (base64UrlEncode s) = s,
      dataFromHexstring (hexstringFromData s) = s   (codecs_inverse)
-/

namespace Util

open Kv (Bytes lit)

/-! ## Algorithm -/

def base64Table : Bytes := lit "ABCDEFGHIJKLMNOPQRSTUVWXYZabcdefghijklmnopqrstuvwxyz0123456789+/"

/-- `base64[n]` -/
def base64Digit (n : Nat) : UInt8 := base64Table.getD n 0

/-- A turn of the loop: at most three bytes, packed and filled up with zeros. -/
def encodeGroup (group : Bytes) : Bytes :=
  let i := group.length
  let padding := if i = 2 then 1 else if i = 1 then 2 else 0
  let packed := group.foldl (fun packed b => packed * 256 + b.toNat) 0
  let packed := packed * 256 ^ (3 - i)
  [base64Digit (packed / 262144), base64Digit (packed / 4096 % 64)] ++
    (if padding ≠ 2 then [base64Digit (packed / 64 % 64)] else []) ++
    (if padding = 0 then [base64Digit (packed % 64)] else []) ++ List.replicate padding 61

def base64encode : Bytes → Bytes
  | x :: y :: z :: rest => encodeGroup [x, y, z] ++ base64encode rest
  | [] => []
  | last => encodeGroup last

def base64Value (c : UInt8) : Option Nat :=
  if 65 ≤ c ∧ c ≤ 90 then some (c.toNat - 65)
  else if 97 ≤ c ∧ c ≤ 122 then some (c.toNat - 97 + 26)
  else if 48 ≤ c ∧ c ≤ 57 then some (c.toNat - 48 + 52)
  else if c = 43 then some 62
  else if c = 47 then some 63
  else none

/-- The inner loop for `n` characters more: how many are missing, `padding`, `packed` and what is left; `none` where it
returns the empty string. -/
def decodeGroup : Nat → Nat → Nat → Bytes → Option (Nat × Nat × Nat × Bytes)
  | 0, padding, packed, ptr => some (0, padding, packed, ptr)
  | n + 1, padding, packed, [] => some (n + 1, padding, packed, [])
  | n + 1, padding, packed, c :: ptr =>
    if c = 61 then decodeGroup n (padding + 1) (packed * 64) ptr
    else if padding > 0 then none
    else
      match base64Value c with
      | none => none
      | some val => decodeGroup n padding (packed * 64 + val) ptr

/-- The outer loop, of which every turn takes a character. -/
def decodeGroups : Nat → Bytes → Bytes → Option Bytes
  | 0, result, _ => some result
  | fuel + 1, result, ptr =>
    if ptr.isEmpty then some result
    else do
      let (missing, padding, packed, ptr) ← decodeGroup 4 0 0 ptr
      if missing ≠ 0 then none
      else if padding > 0 ∧ !ptr.isEmpty then none
      else if padding > 2 then none
      else
        decodeGroups fuel
          (result ++ [UInt8.ofNat (packed / 65536)] ++ (if padding ≠ 2 then [UInt8.ofNat (packed / 256)] else []) ++
            if padding = 0 then [UInt8.ofNat packed] else [])
          ptr

def base64decode (src : Bytes) : Bytes := (decodeGroups src.length [] src).getD []

def hexDigit (c : Nat) : UInt8 := if c > 9 then UInt8.ofNat (c + 97 - 10) else UInt8.ofNat (c + 48)

def hexstringFromData (data : Bytes) : Bytes := data.flatMap fun b => [hexDigit (b.toNat / 16 % 16), hexDigit (b.toNat % 16)]

def hexValue (c : UInt8) : Except String Nat :=
  if 97 ≤ c ∧ c ≤ 102 then .ok (c.toNat - 97 + 10)
  else if 65 ≤ c ∧ c ≤ 70 then .ok (c.toNat - 65 + 10)
  else if 48 ≤ c ∧ c ≤ 57 then .ok (c.toNat - 48)
  else .error "data_from_hexstring invalid hexstring"

def hexPairs : Bytes → Except String Bytes
  | a :: b :: rest => do
    let high ← hexValue a
    let low ← hexValue b
    let output ← hexPairs rest
    pure (UInt8.ofNat (high * 16 + low) :: output)
  | _ => pure []

/-- The error is what `std::invalid_argument` says. -/
def dataFromHexstring (hexstring : Bytes) : Except String Bytes :=
  if hexstring.length % 2 ≠ 0 then .error "data_from_hexstring length % 2 != 0" else hexPairs hexstring

/-! ## Lemmas -/

theorem base64Value_digit : ∀ n < 64, base64Value (base64Digit n) = some n ∧ base64Digit n ≠ 61 := by decide

theorem decodeGroup_digit {v : Nat} (hv : v < 64) (n packed : Nat) (ptr : Bytes) :
    decodeGroup (n + 1) 0 packed (base64Digit v :: ptr) = decodeGroup n 0 (packed * 64 + v) ptr := by
  obtain ⟨hval, hne⟩ := base64Value_digit v hv
  rw [decodeGroup, if_neg hne, if_neg (Nat.lt_irrefl 0), hval]

theorem decodeGroup_padding (n padding packed : Nat) (ptr : Bytes) :
    decodeGroup (n + 1) padding packed (61 :: ptr) = decodeGroup n (padding + 1) (packed * 64) ptr := by
  rw [decodeGroup, if_pos rfl]

/-- What `encodeGroup` takes apart, put together. -/
theorem regroup {p : Nat} (h : p < 16777216) :
    (((0 * 64 + p / 262144) * 64 + p / 4096 % 64) * 64 + p / 64 % 64) * 64 + p % 64 = p := by
  omega

section

variable (x y z : UInt8) (rest : Bytes) (fuel : Nat) (result : Bytes)

theorem decodeGroups_three :
    decodeGroups (fuel + 1) result (encodeGroup [x, y, z] ++ rest) = decodeGroups fuel (result ++ [x, y, z]) rest := by
  have hx := x.toNat_lt
  have hy := y.toNat_lt
  have hz := z.toNat_lt
  obtain ⟨p, hp⟩ : ∃ p, p = (x.toNat * 256 + y.toNat) * 256 + z.toNat := ⟨_, rfl⟩
  have henc : encodeGroup [x, y, z] =
      [base64Digit (p / 262144), base64Digit (p / 4096 % 64), base64Digit (p / 64 % 64), base64Digit (p % 64)] := by
    simp [encodeGroup, hp]
  have hgroup : decodeGroup 4 0 0 (encodeGroup [x, y, z] ++ rest) = some (0, 0, p, rest) := by
    rw [henc, List.cons_append, List.cons_append, List.cons_append, List.cons_append, List.nil_append,
      decodeGroup_digit (by omega), decodeGroup_digit (by omega), decodeGroup_digit (by omega),
      decodeGroup_digit (by omega), regroup (by omega)]
    rfl
  have hne : (encodeGroup [x, y, z] ++ rest).isEmpty = false := by rw [henc]; rfl
  rw [decodeGroups, if_neg (by simp [hne]), hgroup, ← JWTUtil.ofNat_eq (n := p / 65536) (x := x) (by omega),
    ← JWTUtil.ofNat_eq (n := p / 256) (x := y) (by omega), ← JWTUtil.ofNat_eq (n := p) (x := z) (by omega)]
  simp

theorem decodeGroups_two : decodeGroups (fuel + 1) result (encodeGroup [x, y]) = decodeGroups fuel (result ++ [x, y]) [] := by
  have hx := x.toNat_lt
  have hy := y.toNat_lt
  obtain ⟨p, hp⟩ : ∃ p, p = (x.toNat * 256 + y.toNat) * 256 := ⟨_, rfl⟩
  have henc : encodeGroup [x, y] =
      [base64Digit (p / 262144), base64Digit (p / 4096 % 64), base64Digit (p / 64 % 64), 61] := by
    simp [encodeGroup, hp]
  have hpacked : ((0 * 64 + p / 262144) * 64 + p / 4096 % 64) * 64 + p / 64 % 64 = p / 64 := by omega
  have hgroup : decodeGroup 4 0 0 (encodeGroup [x, y]) = some (0, 1, p, []) := by
    rw [henc, decodeGroup_digit (by omega), decodeGroup_digit (by omega), decodeGroup_digit (by omega),
      decodeGroup_padding, hpacked, show p / 64 * 64 = p by omega]
    rfl
  have hne : (encodeGroup [x, y]).isEmpty = false := by rw [henc]; rfl
  rw [decodeGroups, if_neg (by simp [hne]), hgroup, ← JWTUtil.ofNat_eq (n := p / 65536) (x := x) (by omega),
    ← JWTUtil.ofNat_eq (n := p / 256) (x := y) (by omega)]
  simp

theorem decodeGroups_one : decodeGroups (fuel + 1) result (encodeGroup [x]) = decodeGroups fuel (result ++ [x]) [] := by
  have hx := x.toNat_lt
  obtain ⟨p, hp⟩ : ∃ p, p = x.toNat * 65536 := ⟨_, rfl⟩
  have henc : encodeGroup [x] = [base64Digit (p / 262144), base64Digit (p / 4096 % 64), 61, 61] := by
    simp [encodeGroup, hp]
  have hpacked : (0 * 64 + p / 262144) * 64 + p / 4096 % 64 = p / 4096 := by omega
  have hgroup : decodeGroup 4 0 0 (encodeGroup [x]) = some (0, 2, p, []) := by
    rw [henc, decodeGroup_digit (by omega), decodeGroup_digit (by omega), decodeGroup_padding, decodeGroup_padding,
      hpacked, show p / 4096 * 64 * 64 = p by omega]
    rfl
  have hne : (encodeGroup [x]).isEmpty = false := by rw [henc]; rfl
  rw [decodeGroups, if_neg (by simp [hne]), hgroup, ← JWTUtil.ofNat_eq (n := p / 65536) (x := x) (by omega)]
  simp

end

theorem decodeGroups_nil (fuel : Nat) (result : Bytes) : decodeGroups fuel result [] = some result := by
  cases fuel <;> rfl

theorem length_encodeGroup_pos (group : Bytes) : 0 < (encodeGroup group).length := by
  simp [encodeGroup]

/-- Each group of the text is one turn, and there are characters enough for all turns. -/
theorem decodeGroups_encode (s : Bytes) : ∀ (fuel : Nat) (result : Bytes), (base64encode s).length ≤ fuel →
    decodeGroups fuel result (base64encode s) = some (result ++ s) := by
  induction s using base64encode.induct with
  | case1 x y z rest ih =>
    intro fuel result hfuel
    have hpos := length_encodeGroup_pos [x, y, z]
    rw [base64encode, List.length_append] at hfuel
    obtain ⟨fuel, rfl⟩ : ∃ n, fuel = n + 1 := ⟨fuel - 1, by omega⟩
    rw [base64encode, decodeGroups_three, ih fuel _ (by omega), List.append_assoc]
    rfl
  | case2 =>
    intro fuel result _
    rw [base64encode, decodeGroups_nil, List.append_nil]
  | case3 last hthree hnil =>
    intro fuel result hfuel
    rw [base64encode.eq_3 last hthree hnil] at hfuel ⊢
    have hpos := length_encodeGroup_pos last
    obtain ⟨fuel, rfl⟩ : ∃ n, fuel = n + 1 := ⟨fuel - 1, by omega⟩
    rcases last with _ | ⟨x, _ | ⟨y, _ | ⟨z, rest⟩⟩⟩
    · exact absurd rfl hnil
    · rw [decodeGroups_one, decodeGroups_nil]
    · rw [decodeGroups_two, decodeGroups_nil]
    · exact absurd rfl (hthree x y z rest)

theorem base64decode_encode (s : Bytes) : base64decode (base64encode s) = s := by
  rw [base64decode, decodeGroups_encode s _ [] (Nat.le_refl _)]
  rfl

theorem hexValue_digit : ∀ n < 16, hexValue (hexDigit n) = .ok n := by decide

theorem length_hexstring (s : Bytes) : (hexstringFromData s).length = 2 * s.length := by
  induction s with
  | nil => rfl
  | cons b rest ih =>
    rw [hexstringFromData, List.flatMap_cons, List.length_append]
    rw [show (rest.flatMap _).length = 2 * rest.length from ih, List.length_cons, List.length_cons, List.length_cons,
      List.length_nil]
    omega

theorem hexPairs_data (s : Bytes) : hexPairs (hexstringFromData s) = .ok s := by
  induction s with
  | nil => rfl
  | cons b rest ih =>
    have hb := b.toNat_lt
    have hsplit : hexstringFromData (b :: rest) =
        hexDigit (b.toNat / 16 % 16) :: hexDigit (b.toNat % 16) :: hexstringFromData rest := rfl
    rw [hsplit, hexPairs, hexValue_digit _ (Nat.mod_lt _ (by decide)), hexValue_digit _ (Nat.mod_lt _ (by decide)), ih]
    have hbyte : UInt8.ofNat (b.toNat / 16 % 16 * 16 + b.toNat % 16) = b := JWTUtil.ofNat_eq (by omega)
    show Except.ok (UInt8.ofNat (b.toNat / 16 % 16 * 16 + b.toNat % 16) :: rest) = .ok (b :: rest)
    rw [hbyte]

theorem dataFromHexstring_data (s : Bytes) : dataFromHexstring (hexstringFromData s) = .ok s := by
  have heven : ¬ (hexstringFromData s).length % 2 ≠ 0 := by rw [length_hexstring]; omega
  rw [dataFromHexstring, if_neg heven, hexPairs_data]

/-! ## Top theorem -/

/-- Each decoder gives back what its encoder was given. -/
theorem codecs_inverse (s : Bytes) : base64decode (base64encode s) = s ∧
    JWTUtil.base64UrlDecode (JWTUtil.base64UrlEncode s) = s ∧ dataFromHexstring (hexstringFromData s) = .ok s :=
  ⟨base64decode_encode s, JWTUtil.base64UrlDecode_encode s, dataFromHexstring_data s⟩

end Util
