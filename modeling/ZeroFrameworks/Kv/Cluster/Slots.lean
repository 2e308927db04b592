import ZeroFrameworks.Kv.Bytes
import ZeroFrameworks.Lib.Crc

/-!
# Slots of keys

`keyToSlot` takes the CRC-16 of a key, or of the tag between its first braces, modulo the number of slots.  The
check is computed with a literal table; the clients compute the XMODEM check, bit by bit or with a table of their
own.  Two entries of the literal table, 202 and 203, have bit 7 set the wrong way round (`crc16Table_slip`), so a
key is in the slot its clients ask for when the errors that it meets there come to nothing:

    keyToSlot key = slotOf key ↔ residue (wrongLookups 0 (hashTag key)) % 16384 = 0   (slots_standard_iff)
-/

namespace Kv

namespace Cluster

/-! ## Algorithm -/

def kClusterSlotCount : Nat := 16384

/-- `kCrc16Table`. -/
def crc16Table : List (BitVec 16) :=
  [
    0x0000, 0x1021, 0x2042, 0x3063, 0x4084, 0x50a5, 0x60c6, 0x70e7,
    0x8108, 0x9129, 0xa14a, 0xb16b, 0xc18c, 0xd1ad, 0xe1ce, 0xf1ef,
    0x1231, 0x0210, 0x3273, 0x2252, 0x52b5, 0x4294, 0x72f7, 0x62d6,
    0x9339, 0x8318, 0xb37b, 0xa35a, 0xd3bd, 0xc39c, 0xf3ff, 0xe3de,
    0x2462, 0x3443, 0x0420, 0x1401, 0x64e6, 0x74c7, 0x44a4, 0x5485,
    0xa56a, 0xb54b, 0x8528, 0x9509, 0xe5ee, 0xf5cf, 0xc5ac, 0xd58d,
    0x3653, 0x2672, 0x1611, 0x0630, 0x76d7, 0x66f6, 0x5695, 0x46b4,
    0xb75b, 0xa77a, 0x9719, 0x8738, 0xf7df, 0xe7fe, 0xd79d, 0xc7bc,
    0x48c4, 0x58e5, 0x6886, 0x78a7, 0x0840, 0x1861, 0x2802, 0x3823,
    0xc9cc, 0xd9ed, 0xe98e, 0xf9af, 0x8948, 0x9969, 0xa90a, 0xb92b,
    0x5af5, 0x4ad4, 0x7ab7, 0x6a96, 0x1a71, 0x0a50, 0x3a33, 0x2a12,
    0xdbfd, 0xcbdc, 0xfbbf, 0xeb9e, 0x9b79, 0x8b58, 0xbb3b, 0xab1a,
    0x6ca6, 0x7c87, 0x4ce4, 0x5cc5, 0x2c22, 0x3c03, 0x0c60, 0x1c41,
    0xedae, 0xfd8f, 0xcdec, 0xddcd, 0xad2a, 0xbd0b, 0x8d68, 0x9d49,
    0x7e97, 0x6eb6, 0x5ed5, 0x4ef4, 0x3e13, 0x2e32, 0x1e51, 0x0e70,
    0xff9f, 0xefbe, 0xdfdd, 0xcffc, 0xbf1b, 0xaf3a, 0x9f59, 0x8f78,
    0x9188, 0x81a9, 0xb1ca, 0xa1eb, 0xd10c, 0xc12d, 0xf14e, 0xe16f,
    0x1080, 0x00a1, 0x30c2, 0x20e3, 0x5004, 0x4025, 0x7046, 0x6067,
    0x83b9, 0x9398, 0xa3fb, 0xb3da, 0xc33d, 0xd31c, 0xe37f, 0xf35e,
    0x02b1, 0x1290, 0x22f3, 0x32d2, 0x4235, 0x5214, 0x6277, 0x7256,
    0xb5ea, 0xa5cb, 0x95a8, 0x8589, 0xf56e, 0xe54f, 0xd52c, 0xc50d,
    0x34e2, 0x24c3, 0x14a0, 0x0481, 0x7466, 0x6447, 0x5424, 0x4405,
    0xa7db, 0xb7fa, 0x8799, 0x97b8, 0xe75f, 0xf77e, 0xc71d, 0xd73c,
    0x26d3, 0x36f2, 0x0691, 0x16b0, 0x6657, 0x7676, 0x4615, 0x5634,
    0xd94c, 0xc96d, 0xf90e, 0xe92f, 0x99c8, 0x89e9, 0xb98a, 0xa9ab,
    0x5844, 0x4865, 0x7886, 0x68a7, 0x18c0, 0x08e1, 0x3882, 0x28a3,
    0xcb7d, 0xdb5c, 0xeb3f, 0xfb1e, 0x8bf9, 0x9bd8, 0xabbb, 0xbb9a,
    0x4a75, 0x5a54, 0x6a37, 0x7a16, 0x0af1, 0x1ad0, 0x2ab3, 0x3a92,
    0xfd2e, 0xed0f, 0xdd6c, 0xcd4d, 0xbdaa, 0xad8b, 0x9de8, 0x8dc9,
    0x7c26, 0x6c07, 0x5c64, 0x4c45, 0x3ca2, 0x2c83, 0x1ce0, 0x0cc1,
    0xef1f, 0xff3e, 0xcf5d, 0xdf7c, 0xaf9b, 0xbfba, 0x8fd9, 0x9ff8,
    0x6e17, 0x7e36, 0x4e55, 0x5e74, 0x2e93, 0x3eb2, 0x0ed1, 0x1ef0
  ]

/-- One round of the loop of `crc16`. -/
def crc16Step (crc : BitVec 16) (c : UInt8) : BitVec 16 :=
  crc <<< 8 ^^^ crc16Table.getD ((crc >>> 8 ^^^ c.toBitVec.setWidth 16) &&& 0xFF).toNat 0

def crc16 (data : Bytes) : BitVec 16 := data.foldl crc16Step 0

/-- `s.find(c, start)`. -/
def find (s : Bytes) (c : UInt8) (start : Nat) : Option Nat := ((s.drop start).idxOf? c).map (start + ·)

def keyToSlot (key : Bytes) : Nat :=
  let tag : Option Bytes := do
    let start ← find key 123 0
    let stop ← find key 125 (start + 1)
    if start + 1 < stop then some ((key.drop (start + 1)).take (stop - start - 1)) else none
  (crc16 (tag.getD key)).toNat &&& (kClusterSlotCount - 1)

/-! ## Specification -/

/-- The polynomial x^16 + x^12 + x^5 + 1. -/
def poly : BitVec 16 := 0x1021

/-- CRC-16/XMODEM, bit by bit. -/
def xmodem (data : Bytes) : BitVec 16 := Crc.fold (k := 8) poly 0 (data.map UInt8.toBitVec)

/-- The bytes between the first brace and the closing one after it; the whole key where there are none. -/
def hashTag (key : Bytes) : Bytes :=
  match key.dropWhile (· ≠ 123) with
  | [] => key
  | _ :: rest =>
    if 125 ∈ rest ∧ rest.takeWhile (· ≠ 125) ≠ [] then rest.takeWhile (· ≠ 125) else key

/-- The slot by the definition of the standard. -/
def slotOf (key : Bytes) : Nat := (xmodem (hashTag key)).toNat % 16384

/-- The bytes at which the standard's division has 202 or 203 in its top byte, when each of them flips bit 7 of the
register; each as the number of bytes after it. -/
def wrongLookups : BitVec 16 → Bytes → List Nat
  | _, [] => []
  | crc, c :: rest =>
    let i := Crc.index (k := 8) crc c.toBitVec
    let next := Crc.step (k := 8) poly crc c.toBitVec
    if i = 202 ∨ i = 203 then rest.length :: wrongLookups (next ^^^ 0x80) rest else wrongLookups next rest

/-- What is left of the error of those entries, which is one bit, at the end of the run. -/
def residue (lookups : List Nat) : BitVec 16 :=
  (lookups.map fun n => Crc.shifts poly (8 * n) 0x80).foldr (· ^^^ ·) 0

/-! ## Lemmas -/

def tableAt (i : BitVec 8) : BitVec 16 := crc16Table.getD i.toNat 0

theorem crc16Step_eq (crc : BitVec 16) (c : UInt8) :
    crc16Step crc c = Crc.tableStep (k := 8) tableAt crc c.toBitVec := by
  have hi : ((crc >>> 8 ^^^ c.toBitVec.setWidth 16) &&& 0xFF).toNat =
      ((crc >>> 8).setWidth 8 ^^^ c.toBitVec).toNat := by
    have hmask : (0xFF : BitVec 16).toNat = 2 ^ 8 - 1 := rfl
    rw [BitVec.toNat_and, hmask, Nat.and_two_pow_sub_one_eq_mod, BitVec.toNat_xor, BitVec.toNat_xor,
      BitVec.toNat_setWidth, BitVec.toNat_setWidth, Nat.xor_mod_two_pow,
      Nat.mod_eq_of_lt (show c.toBitVec.toNat < 2 ^ 16 from lt_trans c.toBitVec.isLt (by decide)),
      Nat.mod_eq_of_lt c.toBitVec.isLt]
  unfold crc16Step Crc.tableStep tableAt Crc.index
  rw [hi]

/-- The table as a list; an entry by entry comparison would look each of them up from the front. -/
theorem crc16Table_eq : crc16Table = (List.range 256).map fun n =>
    Crc.entry (k := 8) poly (BitVec.ofNat 8 n) ^^^ if n = 202 ∨ n = 203 then 0x80 else 0 := by
  decide +kernel

theorem crc16Table_slip (i : BitVec 8) :
    Crc.slip (k := 8) poly tableAt i = if i = 202 ∨ i = 203 then 0x80 else 0 := by
  have hentry : tableAt i = Crc.entry (k := 8) poly i ^^^ if i.toNat = 202 ∨ i.toNat = 203 then 0x80 else 0 := by
    unfold tableAt
    rw [crc16Table_eq, List.getD_eq_getElem?_getD, List.getElem?_map, List.getElem?_range i.isLt, Option.map_some,
      Option.getD_some, BitVec.ofNat_toNat, BitVec.setWidth_eq]
  have hwrong : (i = 202 ∨ i = 203) ↔ i.toNat = 202 ∨ i.toNat = 203 := by
    rw [BitVec.toNat_eq, BitVec.toNat_eq]
    rfl
  unfold Crc.slip
  rw [hentry, BitVec.xor_comm (Crc.entry poly i), BitVec.xor_assoc, BitVec.xor_self, BitVec.xor_zero]
  simp only [hwrong]

theorem drift_eq (data : Bytes) (crc : BitVec 16) :
    Crc.drift (k := 8) poly tableAt crc (data.map UInt8.toBitVec) = residue (wrongLookups crc data) := by
  induction data generalizing crc with
  | nil => rfl
  | cons c rest ih =>
    rw [List.map_cons, Crc.drift, ih, Crc.tableStep_eq poly, crc16Table_slip, List.length_map, wrongLookups]
    split
    · rfl
    · rw [Crc.shifts_zero]
      show 0#16 ^^^ residue (wrongLookups (_ ^^^ 0#16) rest) = _
      rw [BitVec.zero_xor, BitVec.xor_zero]

theorem crc16_eq (data : Bytes) : crc16 data = xmodem data ^^^ residue (wrongLookups 0 data) := by
  have hfold : crc16 data = Crc.tableFold (k := 8) tableAt 0 (data.map UInt8.toBitVec) := by
    unfold crc16 Crc.tableFold
    rw [List.foldl_map]
    congr 1
    funext crc c
    exact crc16Step_eq crc c
  rw [hfold, Crc.tableFold_eq poly, drift_eq]
  rfl

theorem idxOf?_cases (s : Bytes) (c : UInt8) :
    (c ∉ s ∧ s.idxOf? c = none) ∨
      ∃ pre post, s = pre ++ c :: post ∧ c ∉ pre ∧ s.idxOf? c = some pre.length := by
  induction s with
  | nil => exact .inl ⟨List.not_mem_nil, rfl⟩
  | cons b s ih =>
    rw [List.idxOf?_cons]
    by_cases hb : b = c
    · subst hb
      exact .inr ⟨[], s, rfl, List.not_mem_nil, by simp⟩
    · rcases ih with ⟨hn, hi⟩ | ⟨pre, post, rfl, hn, hi⟩
      · refine .inl ⟨?_, by simp [hb, hi]⟩
        rw [List.mem_cons]
        rintro (rfl | h)
        · exact hb rfl
        · exact hn h
      · refine .inr ⟨b :: pre, post, rfl, ?_, by simp [hb, hi]⟩
        rw [List.mem_cons]
        rintro (rfl | h)
        · exact hb rfl
        · exact hn h

theorem takeWhile_ne {pre post : Bytes} {c : UInt8} (h : c ∉ pre) :
    (pre ++ c :: post).takeWhile (· ≠ c) = pre := by
  rw [List.takeWhile_append_of_pos]
  · simp
  · intro b hb
    simpa using fun hbc : b = c => h (hbc ▸ hb)

theorem dropWhile_ne {pre post : Bytes} {c : UInt8} (h : c ∉ pre) :
    (pre ++ c :: post).dropWhile (· ≠ c) = c :: post := by
  rw [List.dropWhile_append_of_pos]
  · simp
  · intro b hb
    simpa using fun hbc : b = c => h (hbc ▸ hb)

/-- The positions that `keyToSlot` computes cut out the tag. -/
theorem keyToSlot_eq (key : Bytes) : keyToSlot key = (crc16 (hashTag key)).toNat % 16384 := by
  unfold keyToSlot
  rw [show kClusterSlotCount - 1 = 2 ^ 14 - 1 from rfl, Nat.and_two_pow_sub_one_eq_mod]
  refine congrArg (fun t => (crc16 t).toNat % 16384) ?_
  rcases idxOf?_cases key 123 with ⟨hno, hidx⟩ | ⟨pre, rest, rfl, hpre, hidx⟩
  · have htag : key.dropWhile (· ≠ 123) = [] := by
      rw [List.dropWhile_eq_nil_iff]
      intro b hb
      simpa using fun hbc : b = 123 => hno (hbc ▸ hb)
    unfold hashTag
    rw [htag]
    simp [find, hidx]
  · have hdrop : (pre ++ 123 :: rest).drop (pre.length + 1) = rest := by
      rw [← List.drop_drop, List.drop_left]
      rfl
    have hstart : find (pre ++ 123 :: rest) 123 0 = some pre.length := by
      simp [find, hidx]
    unfold hashTag
    rw [dropWhile_ne hpre]
    simp only [hstart, Option.bind_eq_bind, Option.bind_some, hdrop]
    rcases idxOf?_cases rest 125 with ⟨hno, hidx'⟩ | ⟨tag, post, rfl, htag, hidx'⟩
    · simp [find, hdrop, hidx', hno]
    · have hstop : find (pre ++ 123 :: (tag ++ 125 :: post)) 125 (pre.length + 1) =
          some (pre.length + 1 + tag.length) := by
        simp [find, hdrop, hidx']
      rw [takeWhile_ne htag]
      simp only [hstop, Option.bind_some]
      cases tag with
      | nil => simp
      | cons b tag =>
        have hlen : pre.length + 1 + (b :: tag).length - pre.length - 1 = (b :: tag).length := by omega
        rw [if_pos (by simp), if_pos ⟨by simp, by simp⟩, hlen, List.take_left]
        rfl

theorem mod_xor_eq (a b : BitVec 16) : (a ^^^ b).toNat % 2 ^ 14 = a.toNat % 2 ^ 14 ↔ b.toNat % 2 ^ 14 = 0 := by
  rw [BitVec.toNat_xor, Nat.xor_mod_two_pow]
  constructor
  · intro h
    have hx := congrArg (a.toNat % 2 ^ 14 ^^^ ·) h
    simpa only [← Nat.xor_assoc, Nat.xor_self, Nat.zero_xor] using hx
  · intro h
    rw [h, Nat.xor_zero]

/-! ## Top theorem -/

/-- The table computes the standard check, and keys are in their standard slots, exactly where the errors of the
two entries cancel; keys with one tag share a slot in any case. -/
theorem slots_standard_iff (data key key' : Bytes) :
    (crc16 data = xmodem data ↔ residue (wrongLookups 0 data) = 0) ∧
      (keyToSlot key = slotOf key ↔ (residue (wrongLookups 0 (hashTag key))).toNat % 16384 = 0) ∧
      (hashTag key = hashTag key' → keyToSlot key = keyToSlot key') := by
  refine ⟨?_, ?_, fun h => ?_⟩
  · rw [crc16_eq]
    constructor
    · intro h
      have hx := congrArg (xmodem data ^^^ ·) h
      have hz : residue (wrongLookups 0 data) = 0#16 := by
        simpa only [← BitVec.xor_assoc, BitVec.xor_self, BitVec.zero_xor] using hx
      exact hz
    · intro h
      rw [h]
      exact BitVec.xor_zero
  · rw [keyToSlot_eq, slotOf, crc16_eq]
    exact mod_xor_eq _ _
  · rw [keyToSlot_eq, keyToSlot_eq, h]

theorem slots_standard_iff_tag : keyToSlot (lit "foo{bar}") = keyToSlot (lit "bar") :=
  (slots_standard_iff [] (lit "foo{bar}") (lit "bar")).2.2 (by decide)

/-- `i6` looks at entry 202. -/
theorem slot_of_i6 : keyToSlot (lit "i6") = 10151 ∧ slotOf (lit "i6") = 10023 := by
  decide +kernel

end Cluster

end Kv
