import Mathlib.Tactic.Common
import ZeroFrameworks.Lib.BitStrings

/-!
# Internet addresses and their subnets (`core/io/address.cc`)

An IPv4 address is a number of four bytes kept in network order, an IPv6 address sixteen bytes.  `CreateMask` shifts
the `int` one, and gives the ones that are not in the prefix.

    IPv4: the subnet is as it should be ↔ 1 ≤ prefix_len   (subnet_iff)
    IPv6: the subnet is as it should be ↔ prefix_len < 128, and the byte that the prefix ends in is 0

`IPv6Address::networdAddress` keeps the wrong half of the byte that the prefix ends in.
-/

namespace Core

open BitStrings

/-! ## Algorithm -/

/-- `bswap_32` -/
def byteswap32 (x : BitVec 32) : BitVec 32 :=
  x.extractLsb' 0 8 ++ x.extractLsb' 8 8 ++ x.extractLsb' 16 8 ++ x.extractLsb' 24 8

/-- `(1 << (w - bits)) - 1`; `none` where an `int` cannot be shifted so far. -/
def createMask (w bits : Nat) : Option (BitVec w) :=
  if bits ≤ w ∧ w - bits < 32 then some (BitVec.ofNat w (2 ^ (w - bits) - 1)) else none

/-- `m_addr` of an IPv4 address, on a little-endian machine. -/
structure IPv4Address where
  sinPort : BitVec 16
  sAddr : BitVec 32

namespace IPv4Address

/-- `some none` is `nullptr`. -/
def broadcastAddress (prefixLen : Nat) (a : IPv4Address) : Option (Option IPv4Address) :=
  if prefixLen > 32 then some none
  else (createMask 32 prefixLen).map fun m => some { a with sAddr := a.sAddr ||| byteswap32 m }

def networdAddress (prefixLen : Nat) (a : IPv4Address) : Option (Option IPv4Address) :=
  if prefixLen > 32 then some none
  else (createMask 32 prefixLen).map fun m => some { a with sAddr := a.sAddr &&& ~~~byteswap32 m }

def subnetMask (prefixLen : Nat) : Option IPv4Address :=
  (createMask 32 prefixLen).map fun m => { sinPort := 0, sAddr := ~~~byteswap32 m }

end IPv4Address

structure IPv6Address where
  sin6Port : BitVec 16
  s6Addr : List UInt8
  length : s6Addr.length = 16

namespace IPv6Address

/-- `s6_addr[i] = v` -/
def set (a : IPv6Address) (i : Nat) (v : UInt8) : IPv6Address :=
  { a with s6Addr := a.s6Addr.set i v, length := by rw [List.length_set, a.length] }

/-- `s6_addr[i]` -/
def byte (a : IPv6Address) (i : Nat) : UInt8 := a.s6Addr.getD i 0

/-- `s6_addr[i] = v` for every `i` from `first` to before `last`. -/
def fill (a : IPv6Address) (first last : Nat) (v : UInt8) : IPv6Address :=
  (List.range' first (last - first)).foldl (fun a i => a.set i v) a

/-- `none` for an access outside the sixteen bytes. -/
def broadcastAddress (prefixLen : Nat) (a : IPv6Address) : Option IPv6Address :=
  if prefixLen / 8 < 16 then
    (createMask 8 (prefixLen % 8)).map fun m =>
      (a.set (prefixLen / 8) (a.byte (prefixLen / 8) ||| ⟨m⟩)).fill (prefixLen / 8 + 1) 16 0xFF
  else none

def networdAddress (prefixLen : Nat) (a : IPv6Address) : Option IPv6Address :=
  if prefixLen / 8 < 16 then
    (createMask 8 (prefixLen % 8)).map fun m =>
      (a.set (prefixLen / 8) (a.byte (prefixLen / 8) &&& ⟨m⟩)).fill (prefixLen / 8 + 1) 16 0x00
  else none

def zero : IPv6Address := { sin6Port := 0, s6Addr := List.replicate 16 0, length := rfl }

def subnetMask (prefixLen : Nat) : Option IPv6Address :=
  if prefixLen / 8 < 16 then
    (createMask 8 (prefixLen % 8)).map fun m => (zero.set (prefixLen / 8) (~~~⟨m⟩)).fill 0 (prefixLen / 8) 0xFF
  else none

end IPv6Address

/-! ## Specification -/

/-- The bits of the address, as a number of 32. -/
def IPv4Address.bits (a : IPv4Address) : List Bool := BitStrings.bits (byteswap32 a.sAddr)

def IPv6Address.bits (a : IPv6Address) : List Bool := BitStrings.bytes a.s6Addr

/-- What subnet arithmetic is for, over addresses of `w` bits. -/
structure Subnet {A : Type} (w prefixLen : Nat) (bits : A → List Bool) (a : A) (subnetMask : Option A)
    (networdAddress broadcastAddress : A → Option A) : Prop where
  mask : ∃ m, subnetMask = some m ∧ bits m = mask w prefixLen
  network : ∃ n, networdAddress a = some n ∧ bits n = meet (bits a) (BitStrings.mask w prefixLen)
  broadcast : ∃ b, broadcastAddress a = some b ∧ bits b = join (bits a) ((BitStrings.mask w prefixLen).map (!·))
  between : ∀ n b, networdAddress a = some n → broadcastAddress a = some b →
    value (bits n) ≤ value (bits a) ∧ value (bits a) ≤ value (bits b)
  idempotent : ∀ n, networdAddress a = some n → ∃ n', networdAddress n = some n' ∧ bits n' = bits n

def IPv4Address.Served (prefixLen : Nat) (a : IPv4Address) : Prop :=
  Subnet 32 prefixLen bits a (subnetMask prefixLen) (fun a => (networdAddress prefixLen a).join)
    fun a => (broadcastAddress prefixLen a).join

def IPv6Address.Served (prefixLen : Nat) (a : IPv6Address) : Prop :=
  Subnet 128 prefixLen bits a (subnetMask prefixLen) (networdAddress prefixLen) (broadcastAddress prefixLen)

/-! ## Lemmas -/

theorem byteswap32_and (x y : BitVec 32) : byteswap32 (x &&& y) = byteswap32 x &&& byteswap32 y := by
  rw [byteswap32, byteswap32, byteswap32, BitVec.and_append, BitVec.and_append, BitVec.and_append]
  simp only [BitVec.extractLsb'_and]

theorem byteswap32_or (x y : BitVec 32) : byteswap32 (x ||| y) = byteswap32 x ||| byteswap32 y := by
  rw [byteswap32, byteswap32, byteswap32, BitVec.or_append, BitVec.or_append, BitVec.or_append]
  simp only [BitVec.extractLsb'_or]

theorem getLsbD_byteswap32 (x : BitVec 32) {i : Nat} (hi : i < 32) :
    (byteswap32 x).getLsbD i = x.getLsbD (24 - i / 8 * 8 + i % 8) := by
  rw [byteswap32]
  simp only [BitVec.getLsbD_append, BitVec.getLsbD_extractLsb']
  rcases (by omega : i < 8 ∨ 8 ≤ i ∧ i < 16 ∨ 16 ≤ i ∧ i < 24 ∨ 24 ≤ i) with h | h | h | h
  · rw [if_pos h, decide_eq_true h, Bool.true_and]
    congr 1
    omega
  · rw [if_neg (by omega), if_pos (by omega), decide_eq_true (by omega), Bool.true_and]
    congr 1
    omega
  · rw [if_neg (by omega), if_neg (by omega), if_pos (by omega), decide_eq_true (by omega), Bool.true_and]
    congr 1
    omega
  · rw [if_neg (by omega), if_neg (by omega), if_neg (by omega), decide_eq_true (by omega), Bool.true_and]
    congr 1
    omega

theorem byteswap32_byteswap32 (x : BitVec 32) : byteswap32 (byteswap32 x) = x := by
  apply BitVec.eq_of_getLsbD_eq
  intro i hi
  rw [getLsbD_byteswap32 _ hi, getLsbD_byteswap32 _ (by omega)]
  congr 1
  omega

theorem byteswap32_not (x : BitVec 32) : byteswap32 (~~~x) = ~~~byteswap32 x := by
  apply BitVec.eq_of_getLsbD_eq
  intro i hi
  rw [BitVec.getLsbD_not, getLsbD_byteswap32 _ hi, getLsbD_byteswap32 _ hi, BitVec.getLsbD_not, decide_eq_true hi,
    decide_eq_true (show 24 - i / 8 * 8 + i % 8 < 32 by omega)]

theorem bits_createMask {w n : Nat} (h : n ≤ w) :
    bits (~~~BitVec.ofNat w (2 ^ (w - n) - 1)) = mask w n := by
  have hmask : mask w n = (List.range w).map fun i => decide (i < n) := by
    apply List.ext_getElem (by simp [h])
    intro i hi hi'
    rw [List.getElem_map, List.getElem_range]
    by_cases hin : i < n
    · simp [mask, hin]
    · simp [mask, List.getElem_append, hin]
  rw [hmask, bits]
  apply List.map_congr_left
  intro i hi
  have hi := List.mem_range.mp hi
  rw [BitVec.getMsbD_not, BitVec.getMsbD_eq_getLsbD, BitVec.getLsbD_ofNat, Nat.testBit_two_pow_sub_one]
  by_cases hin : i < n
  · simp [hi, hin]
    omega
  · simp [hi, hin]
    omega

variable {n : Nat}

namespace IPv4Address

theorem createMask_32 (h1 : 1 ≤ n) (h : n ≤ 32) :
    createMask 32 n = some (BitVec.ofNat 32 (2 ^ (32 - n) - 1)) := if_pos ⟨h, by omega⟩

theorem networdAddress_eq (h1 : 1 ≤ n) (h : n ≤ 32) (a : IPv4Address) :
    ∃ a', (networdAddress n a).join = some a' ∧ a'.bits = meet a.bits (mask 32 n) := by
  rw [networdAddress, if_neg (by omega), createMask_32 h1 h]
  refine ⟨_, rfl, ?_⟩
  show BitStrings.bits (byteswap32 (a.sAddr &&& ~~~byteswap32 _)) = _
  rw [byteswap32_and, byteswap32_not, byteswap32_byteswap32, bits_and, bits_createMask h]
  rfl

theorem broadcastAddress_eq (h1 : 1 ≤ n) (h : n ≤ 32) (a : IPv4Address) :
    ∃ a', (broadcastAddress n a).join = some a' ∧ a'.bits = join a.bits ((mask 32 n).map (!·)) := by
  rw [broadcastAddress, if_neg (by omega), createMask_32 h1 h]
  refine ⟨_, rfl, ?_⟩
  show BitStrings.bits (byteswap32 (a.sAddr ||| byteswap32 _)) = _
  rw [byteswap32_or, byteswap32_byteswap32, bits_or, ← bits_createMask h, ← bits_not, BitVec.not_not]
  rfl

/-- No prefix at all would need a shift by the width of an `int`. -/
theorem served_iff (h : n ≤ 32) (a : IPv4Address) : a.Served n ↔ 1 ≤ n := by
  constructor
  · intro hs
    by_contra h0
    obtain ⟨m, hm, -⟩ := hs.mask
    rw [subnetMask, createMask, if_neg (by omega)] at hm
    cases hm
  · intro h1
    obtain ⟨nw, hnw, hnbits⟩ := networdAddress_eq h1 h a
    obtain ⟨bc, hbc, hbbits⟩ := broadcastAddress_eq h1 h a
    have hlen : a.bits.length = (mask 32 n).length := by rw [length_mask h, bits, length_bits]
    refine ⟨?_, ⟨nw, hnw, hnbits⟩, ⟨bc, hbc, hbbits⟩, ?_, ?_⟩
    · rw [subnetMask, createMask_32 h1 h]
      refine ⟨_, rfl, ?_⟩
      show BitStrings.bits (byteswap32 (~~~byteswap32 _)) = _
      rw [byteswap32_not, byteswap32_byteswap32, bits_createMask h]
    · intro nw' bc' hn' hb'
      obtain rfl := Option.some.inj (hnw.symm.trans hn')
      obtain rfl := Option.some.inj (hbc.symm.trans hb')
      rw [hnbits, hbbits]
      exact ⟨value_meet_le hlen, value_le_join (by rw [List.length_map]; exact hlen)⟩
    · intro nw' hn'
      obtain rfl := Option.some.inj (hnw.symm.trans hn')
      obtain ⟨nw', hn', hbits'⟩ := networdAddress_eq h1 h nw
      exact ⟨nw', hn', by rw [hbits', hnbits, meet_meet]⟩

end IPv4Address

namespace IPv6Address

/-- The sixteen bytes after a loop over some of them. -/
theorem fill_bytes (a : IPv6Address) {first last : Nat} (v : UInt8) (h : first ≤ last) (hl : last ≤ 16) :
    (a.fill first last v).s6Addr =
      a.s6Addr.take first ++ List.replicate (last - first) v ++ a.s6Addr.drop last := by
  obtain ⟨n, rfl⟩ := Nat.exists_eq_add_of_le h
  rw [fill, Nat.add_sub_cancel_left]
  clear h
  induction n generalizing a first with
  | zero =>
    show a.s6Addr = _
    rw [List.replicate_zero, List.append_nil, Nat.add_zero, List.take_append_drop]
  | succ n ih =>
    have hlen := a.length
    rw [List.range'_succ, List.foldl_cons, ih (a.set first v) (by omega)]
    show (a.s6Addr.set first v).take (first + 1) ++ _ ++ (a.s6Addr.set first v).drop (first + 1 + n) = _
    rw [List.drop_set_of_lt (by omega), List.take_set, List.set_eq_take_append_cons_drop,
      if_pos (by rw [List.length_take]; omega), List.take_take, Nat.min_eq_left (by omega),
      List.drop_eq_nil_of_le (by rw [List.length_take]; omega), show first + 1 + n = first + (n + 1) by omega,
      List.replicate_succ, List.append_assoc, List.append_assoc, List.append_assoc]
    rfl

theorem split (a : IPv6Address) {i : Nat} (h : i < 16) :
    a.s6Addr = a.s6Addr.take i ++ a.byte i :: a.s6Addr.drop (i + 1) := by
  have hi : i < a.s6Addr.length := by rw [a.length]; exact h
  rw [byte, List.getD_eq_getElem?_getD, List.getElem?_eq_getElem hi, Option.getD_some, ← List.drop_eq_getElem_cons hi,
    List.take_append_drop]

theorem set_fill_bytes (a : IPv6Address) {i : Nat} (h : i < 16) (b v : UInt8) :
    ((a.set i b).fill (i + 1) 16 v).s6Addr = a.s6Addr.take i ++ b :: List.replicate (15 - i) v := by
  have hlen := a.length
  rw [fill_bytes _ v (by omega) (Nat.le_refl 16)]
  show (a.s6Addr.set i b).take (i + 1) ++ _ ++ (a.s6Addr.set i b).drop 16 = _
  rw [List.drop_eq_nil_of_le (by rw [List.length_set, a.length]), List.append_nil, List.take_set,
    List.set_eq_take_append_cons_drop, if_pos (by rw [List.length_take]; omega), List.take_take,
    Nat.min_eq_left (by omega), List.drop_eq_nil_of_le (by rw [List.length_take]; omega), List.append_assoc,
    show 16 - (i + 1) = 15 - i by omega]
  rfl

/-- The bytes of a mask. -/
def maskBytes (n : Nat) (m : UInt8) : List UInt8 :=
  List.replicate (n / 8) 0xFF ++ ~~~m :: List.replicate (15 - n / 8) 0x00

/-- `CreateMask<uint8_t>` -/
def hostMask (n : Nat) : UInt8 := ⟨BitVec.ofNat 8 (2 ^ (8 - n % 8) - 1)⟩

theorem createMask_8 (n : Nat) : createMask 8 (n % 8) = some (hostMask n).toBitVec := if_pos (by omega)

theorem length_maskBytes (h : n < 128) (m : UInt8) : (maskBytes n m).length = 16 := by
  rw [maskBytes, List.length_append, List.length_cons, List.length_replicate, List.length_replicate]
  omega

theorem bytes_replicate {b : UInt8} {v : Bool} (hb : BitStrings.bits b.toBitVec = List.replicate 8 v) (k : Nat) :
    bytes (List.replicate k b) = List.replicate (8 * k) v := by
  induction k with
  | zero => rfl
  | succ k ih =>
    rw [List.replicate_succ, bytes_cons, ih, hb, ← List.replicate_add]
    congr 1
    omega

theorem bytes_maskBytes (h : n < 128) : bytes (maskBytes n (hostMask n)) = mask 128 n := by
  have hbyte : BitStrings.bits (~~~hostMask n).toBitVec = mask 8 (n % 8) := bits_createMask (by omega)
  rw [maskBytes, bytes_append, bytes_cons, bytes_replicate (v := true) (by decide), bytes_replicate (v := false) (by decide),
    hbyte, mask, mask, List.append_assoc, ← List.replicate_add, ← List.append_assoc, ← List.replicate_add]
  congr 2 <;> omega

theorem and_ones (b : UInt8) : b &&& 0xFF = b := UInt8.toBitVec_inj.mp (BitVec.and_allOnes (x := b.toBitVec))

theorem or_ones (b : UInt8) : b ||| 0xFF = 0xFF := UInt8.toBitVec_inj.mp (BitVec.or_allOnes (x := b.toBitVec))

theorem zipWith_mask (a : IPv6Address) (h : n < 128) (f : UInt8 → UInt8 → UInt8) (m : UInt8)
    (hone : ∀ b, f b 0xFF = b) {v : UInt8} (hzero : ∀ b, f b 0x00 = v) :
    List.zipWith f a.s6Addr (maskBytes n m) =
      a.s6Addr.take (n / 8) ++ f (a.byte (n / 8)) (~~~m) :: List.replicate (15 - n / 8) v := by
  have hlen := a.length
  have hconst : ∀ (l : List UInt8) (c : UInt8), List.zipWith f l (List.replicate l.length c) = l.map fun b => f b c := by
    intro l c
    induction l with
    | nil => rfl
    | cons b l ih => rw [List.length_cons, List.replicate_succ, List.zipWith_cons_cons, List.map_cons, ih]
  have htake : (a.s6Addr.take (n / 8)).length = n / 8 := by rw [List.length_take]; omega
  have hdrop : (a.s6Addr.drop (n / 8 + 1)).length = 15 - n / 8 := by rw [List.length_drop]; omega
  have hfirst := hconst (a.s6Addr.take (n / 8)) 0xFF
  have hlast := hconst (a.s6Addr.drop (n / 8 + 1)) 0x00
  rw [htake] at hfirst
  rw [hdrop] at hlast
  conv_lhs => rw [a.split (i := n / 8) (by omega)]
  rw [maskBytes, List.zipWith_append (by rw [htake, List.length_replicate]), List.zipWith_cons_cons, hfirst, hlast,
    List.map_congr_left (g := id) fun b _ => hone b, List.map_id,
    List.map_congr_left (g := fun _ => v) fun b _ => hzero b, List.map_const', hdrop]

theorem meet_mask (a : IPv6Address) (h : n < 128) :
    meet a.bits (mask 128 n) = bytes (a.s6Addr.take (n / 8) ++
      (a.byte (n / 8) &&& ~~~hostMask n) :: List.replicate (15 - n / 8) 0x00) := by
  rw [bits, ← bytes_maskBytes h, ← bytes_and (by rw [a.length, length_maskBytes h]),
    a.zipWith_mask h (· &&& ·) (hostMask n) and_ones (fun _ => UInt8.and_zero)]

theorem networdAddress_eq (a : IPv6Address) (h : n < 128) :
    ∃ a', networdAddress n a = some a' ∧ a'.s6Addr = a.s6Addr.take (n / 8) ++
      (a.byte (n / 8) &&& hostMask n) :: List.replicate (15 - n / 8) 0x00 := by
  rw [networdAddress, if_pos (by omega), createMask_8]
  exact ⟨_, rfl, set_fill_bytes a (by omega) _ _⟩

theorem broadcastAddress_eq (a : IPv6Address) (h : n < 128) :
    ∃ a', broadcastAddress n a = some a' ∧ a'.bits = join a.bits ((mask 128 n).map (!·)) := by
  rw [broadcastAddress, if_pos (by omega), createMask_8]
  refine ⟨_, rfl, ?_⟩
  show bytes ((a.set (n / 8) (a.byte (n / 8) ||| hostMask n)).fill (n / 8 + 1) 16 0xFF).s6Addr = _
  have hnot : (mask 128 n).map (!·) = bytes ((maskBytes n (hostMask n)).map (~~~·)) := by
    rw [← bytes_maskBytes h, bytes, bytes, List.map_flatMap, List.flatMap_map]
    congr 1
    funext b
    exact (bits_not b.toBitVec).symm
  have hmap : (maskBytes n (hostMask n)).length = 16 := length_maskBytes h _
  have hzip := a.zipWith_mask h (fun b m => b ||| ~~~m) (hostMask n) (v := 0xFF)
    (fun b => UInt8.or_zero) or_ones
  rw [set_fill_bytes a (by omega), hnot, bits, ← bytes_or (by rw [a.length, List.length_map, hmap]), List.zipWith_map_right,
    hzip, UInt8.not_not]

/-- The two halves of a byte are the same only if there is nothing in it. -/
theorem and_eq_and_not {b m : UInt8} : b &&& m = b &&& ~~~m ↔ b = 0 := by
  constructor
  · intro h
    apply UInt8.toBitVec_inj.mp
    apply BitVec.eq_of_getLsbD_eq
    intro i hi
    have hbit := congrArg (fun x : UInt8 => x.toBitVec.getLsbD i) h
    simp only [UInt8.toBitVec_and, UInt8.toBitVec_not, BitVec.getLsbD_and, BitVec.getLsbD_not, decide_eq_true hi] at hbit
    show _ = (0#8).getLsbD i
    rw [BitVec.getLsbD_zero]
    cases hb : b.toBitVec.getLsbD i with
    | false => rfl
    | true =>
      rw [hb] at hbit
      cases hm : m.toBitVec.getLsbD i with
      | false =>
        rw [hm] at hbit
        cases hbit
      | true =>
        rw [hm] at hbit
        cases hbit
  · rintro rfl
    rw [UInt8.zero_and, UInt8.zero_and]

theorem network_iff (a : IPv6Address) (h : n < 128) :
    (∃ a', networdAddress n a = some a' ∧ a'.bits = meet a.bits (mask 128 n)) ↔ a.byte (n / 8) = 0 := by
  obtain ⟨a', hnet, hbytes⟩ := a.networdAddress_eq h
  have hlen := a.length
  have hiff : a'.bits = meet a.bits (mask 128 n) ↔ a.byte (n / 8) = 0 := by
    rw [a.meet_mask h, bits, hbytes]
    constructor
    · intro heq
      have hinj := bytes_injective (by simp) heq
      exact and_eq_and_not.mp (List.cons.inj (List.append_cancel_left hinj)).1
    · intro hzero
      rw [and_eq_and_not.mpr hzero]
  constructor
  · rintro ⟨a'', hn, hbits⟩
    obtain rfl := Option.some.inj (hnet.symm.trans hn)
    exact hiff.mp hbits
  · exact fun hzero => ⟨a', hnet, hiff.mpr hzero⟩

theorem byte_networdAddress {a a' : IPv6Address} (h : n < 128) (hn : networdAddress n a = some a')
    (hzero : a.byte (n / 8) = 0) : a'.byte (n / 8) = 0 := by
  obtain ⟨a'', hnet, hbytes⟩ := a.networdAddress_eq h
  obtain rfl := Option.some.inj (hnet.symm.trans hn)
  have hlen := a.length
  have htake : (a.s6Addr.take (n / 8)).length = n / 8 := by rw [List.length_take]; omega
  rw [byte, hbytes, List.getD_eq_getElem?_getD, List.getElem?_append_right (by omega), htake, Nat.sub_self, hzero,
    UInt8.zero_and]
  rfl

theorem subnetMask_eq (h : n < 128) : ∃ m, subnetMask n = some m ∧ m.bits = mask 128 n := by
  rw [subnetMask, if_pos (by omega), createMask_8]
  refine ⟨_, rfl, ?_⟩
  show bytes (((zero.set (n / 8) (~~~hostMask n)).fill 0 (n / 8) 0xFF).s6Addr) = _
  rw [fill_bytes _ _ (Nat.zero_le _) (by omega), ← bytes_maskBytes h, maskBytes]
  congr 1
  show ([] ++ List.replicate (n / 8 - 0) 0xFF) ++ ((List.replicate 16 (0 : UInt8)).set (n / 8) _).drop (n / 8) = _
  rw [List.nil_append, Nat.sub_zero, List.set_eq_take_append_cons_drop, if_pos (by rw [List.length_replicate]; omega),
    List.drop_append_of_le_length (by rw [List.length_take, List.length_replicate]; omega),
    List.drop_eq_nil_of_le (by rw [List.length_take]; omega), List.drop_replicate, List.nil_append]
  congr 3
  omega

/-- The prefix must end inside the address, in a byte that is 0. -/
theorem served_iff (h : n ≤ 128) (a : IPv6Address) : a.Served n ↔ n < 128 ∧ a.byte (n / 8) = 0 := by
  constructor
  · intro hs
    have hlt : n < 128 := by
      by_contra hge
      obtain ⟨m, hm, -⟩ := hs.mask
      rw [subnetMask, if_neg (by omega)] at hm
      cases hm
    exact ⟨hlt, (a.network_iff hlt).mp hs.network⟩
  · rintro ⟨hlt, hzero⟩
    have hnetwork := (a.network_iff hlt).mpr hzero
    have hbroadcast := a.broadcastAddress_eq hlt
    have hlen : a.bits.length = (mask 128 n).length := by rw [length_mask h, bits, length_bytes, a.length]
    refine ⟨subnetMask_eq hlt, hnetwork, hbroadcast, ?_, ?_⟩
    · intro nw bc hn hb
      obtain ⟨nw', hn', hnbits⟩ := hnetwork
      obtain ⟨bc', hb', hbbits⟩ := hbroadcast
      obtain rfl := Option.some.inj (hn.symm.trans hn')
      obtain rfl := Option.some.inj (hb.symm.trans hb')
      rw [hnbits, hbbits]
      exact ⟨value_meet_le hlen, value_le_join (by rw [List.length_map]; exact hlen)⟩
    · intro nw hn
      obtain ⟨nw', hn', hnbits⟩ := hnetwork
      obtain rfl := Option.some.inj (hn.symm.trans hn')
      obtain ⟨nw', hn', hbits'⟩ := (nw.network_iff hlt).mpr (byte_networdAddress hlt hn hzero)
      exact ⟨nw', hn', by rw [hbits', hnbits, meet_meet]⟩

end IPv6Address

/-! ## Top theorem -/

theorem subnet_iff {n4 n6 : Nat} (h4 : n4 ≤ 32) (h6 : n6 ≤ 128) (a4 : IPv4Address) (a6 : IPv6Address) :
    (a4.Served n4 ↔ 1 ≤ n4) ∧ (a6.Served n6 ↔ n6 < 128 ∧ a6.byte (n6 / 8) = 0) :=
  ⟨a4.served_iff h4, a6.served_iff h6⟩

/-- `2001:db8::1` -/
def documentation : IPv6Address where
  sin6Port := 0
  s6Addr := [0x20, 0x01, 0x0d, 0xb8, 0, 0, 0, 0, 0, 0, 0, 0, 0, 0, 0, 1]
  length := rfl

theorem subnet_documentation :
    (IPv4Address.Served 24 ⟨0, 0x0a01a8c0⟩ ↔ 1 ≤ 24) ∧
      (documentation.Served 32 ↔ 32 < 128 ∧ documentation.byte (32 / 8) = 0) :=
  subnet_iff (by decide) (by decide) ⟨0, 0x0a01a8c0⟩ documentation

/-- No prefix of IPv4; a prefix of IPv6 that ends in a byte that is not 0; a whole address of IPv6. -/
theorem subnets_broken : ¬IPv4Address.Served 0 ⟨0, 0x0a01a8c0⟩ ∧ ¬documentation.Served 20 ∧ ¬documentation.Served 128 := by
  refine ⟨fun h => ?_, fun h => ?_, fun h => ?_⟩
  · exact absurd ((IPv4Address.served_iff (by decide) _).mp h) (by decide)
  · exact absurd ((documentation.served_iff (by decide)).mp h).2 (by decide)
  · exact absurd ((documentation.served_iff (by decide)).mp h).1 (by decide)

end Core
