import ZeroFrameworks.Core.ByteArray
import ZeroFrameworks.Lib.Codec
import ZeroFrameworks.Lib.Varint
import Mathlib.Data.BitVec

/-!
# Typed values in byte arrays (`core/io/bytearray.cc`)

The writers put a value down as bytes and the readers take it back.  A string is written as its length and its bytes;
an empty one is read with `read(buf, 0)`, which looks at the current chunk even so.

    the values written, then read from position 0, come back
      ↔ every string fits its length and no empty one ends at the capacity   (typed_roundTrip_iff)
-/

namespace Core

open Kv (Bytes)
open Cells (overlay window Uniform)

/-! ## Algorithm -/

instance : Monad Result where
  pure := .returned
  bind x f :=
    match x with
    | .returned a => f a
    | .thrown => .thrown
    | .crashed => .crashed

/-- A call that reads from a byte array or writes to it. -/
abbrev Call := StateT ByteArray Result

/-- `EncodeZigzag32` and `EncodeZigzag64`; the arithmetic wraps around. -/
def encodeZigzag {w : Nat} (v : BitVec w) : BitVec w := if v.msb then -v * 2#w - 1#w else v * 2#w

/-- `DecodeZigzag32` and `DecodeZigzag64`. -/
def decodeZigzag {w : Nat} (v : BitVec w) : BitVec w := (v >>> 1) ^^^ -(v &&& 1#w)

namespace ByteArray

/-- `write(&x, n)`. -/
def put (buf : Bytes) : Call Unit := fun b => do
  let b ← b.write buf
  pure ((), b)

/-- `read(&x, n)`.  A byte that was never written can have any value; zero stands for it. -/
def take (n : Nat) : Call Bytes := fun b => do
  let (cells, b) ← b.read n
  pure (cells.map (·.getD 0), b)

/-- The bytes of `value` in memory, which are in the order of a little-endian machine, after `byteswap` if the array
has the other order. -/
def fixedBytes (littleEndian : Bool) (w : Nat) (value : BitVec w) : Bytes :=
  if littleEndian then Codec.le (w / 8) value.toNat else (Codec.le (w / 8) value.toNat).reverse

def writeFixed (w : Nat) (value : BitVec w) : Call Unit := do
  let b ← get
  put (fixedBytes b.littleEndian w value)

def readFixed (w : Nat) : Call (BitVec w) := do
  let v ← take (w / 8)
  let b ← get
  pure (BitVec.ofNat w (Codec.ofLe (if b.littleEndian then v else v.reverse)))

/-- A single byte is not swapped. -/
def writeFint8 (value : BitVec 8) : Call Unit := put [UInt8.ofBitVec value]
def writeFuint8 (value : BitVec 8) : Call Unit := put [UInt8.ofBitVec value]
def writeFint16 (value : BitVec 16) : Call Unit := writeFixed 16 value
def writeFuint16 (value : BitVec 16) : Call Unit := writeFixed 16 value
def writeFint32 (value : BitVec 32) : Call Unit := writeFixed 32 value
def writeFuint32 (value : BitVec 32) : Call Unit := writeFixed 32 value
def writeFint64 (value : BitVec 64) : Call Unit := writeFixed 64 value
def writeFuint64 (value : BitVec 64) : Call Unit := writeFixed 64 value

/-- The temporary array has room for five bytes of 32 bits, and ten of 64. -/
def writeVarint (w : Nat) (value : BitVec w) : Call Unit := put (Varint.groups value.toNat)

def writeUint32 (value : BitVec 32) : Call Unit := writeVarint 32 value
def writeUint64 (value : BitVec 64) : Call Unit := writeVarint 64 value
def writeInt32 (value : BitVec 32) : Call Unit := writeUint32 (encodeZigzag value)
def writeInt64 (value : BitVec 64) : Call Unit := writeUint64 (encodeZigzag value)
def writeFloat (value : BitVec 32) : Call Unit := writeFuint32 value
def writeDouble (value : BitVec 64) : Call Unit := writeFuint64 value

def writeStringF16 (value : Bytes) : Call Unit := do
  writeFuint16 (BitVec.ofNat 16 value.length)
  put value

def writeStringF32 (value : Bytes) : Call Unit := do
  writeFuint32 (BitVec.ofNat 32 value.length)
  put value

def writeStringF64 (value : Bytes) : Call Unit := do
  writeFuint64 (BitVec.ofNat 64 value.length)
  put value

def writeStringVint (value : Bytes) : Call Unit := do
  writeUint64 (BitVec.ofNat 64 value.length)
  put value

def readByte : Call (BitVec 8) := do
  let v ← take 1
  pure (v.headD 0).toBitVec

def readFint8 : Call (BitVec 8) := readByte
def readFuint8 : Call (BitVec 8) := readByte
def readFint16 : Call (BitVec 16) := readFixed 16
def readFuint16 : Call (BitVec 16) := readFixed 16
def readFint32 : Call (BitVec 32) := readFixed 32
def readFuint32 : Call (BitVec 32) := readFixed 32
def readFint64 : Call (BitVec 64) := readFixed 64
def readFuint64 : Call (BitVec 64) := readFixed 64

/-- The loop of `readUint32` and `readUint64`, for a result of `w` bits; the first argument counts the turns left. -/
def varintLoop (w : Nat) : Nat → Nat → Nat → Call Nat
  | 0, _, result => pure result
  | turns + 1, i, result => do
    let b ← readFuint8
    if b.toNat < 0x80 then pure ((result ||| b.toNat <<< i) % 2 ^ w)
    else varintLoop w turns (i + 7) ((result ||| (b.toNat % 0x80) <<< i) % 2 ^ w)

/-- `i` goes from zero in steps of seven as long as it is below `w`. -/
def readVarint (w : Nat) : Call (BitVec w) := do
  let result ← varintLoop w ((w + 6) / 7) 0 0
  pure (BitVec.ofNat w result)

def readUint32 : Call (BitVec 32) := readVarint 32
def readUint64 : Call (BitVec 64) := readVarint 64

def readInt32 : Call (BitVec 32) := do
  let v ← readUint32
  pure (decodeZigzag v)

def readInt64 : Call (BitVec 64) := do
  let v ← readUint64
  pure (decodeZigzag v)

def readFloat : Call (BitVec 32) := readFuint32
def readDouble : Call (BitVec 64) := readFuint64

def readStringF16 : Call Bytes := do
  let len ← readFuint16
  take len.toNat

def readStringF32 : Call Bytes := do
  let len ← readFuint32
  take len.toNat

def readStringF64 : Call Bytes := do
  let len ← readFuint64
  take len.toNat

def readStringVint : Call Bytes := do
  let len ← readUint64
  take len.toNat

end ByteArray

/-! ## Specification -/

/-- A value and the way it is written. -/
inductive Typed where
  | fint8 (v : BitVec 8)
  | fuint8 (v : BitVec 8)
  | fint16 (v : BitVec 16)
  | fuint16 (v : BitVec 16)
  | fint32 (v : BitVec 32)
  | fuint32 (v : BitVec 32)
  | fint64 (v : BitVec 64)
  | fuint64 (v : BitVec 64)
  | int32 (v : BitVec 32)
  | uint32 (v : BitVec 32)
  | int64 (v : BitVec 64)
  | uint64 (v : BitVec 64)
  | float (v : BitVec 32)
  | double (v : BitVec 64)
  | stringF16 (s : Bytes)
  | stringF32 (s : Bytes)
  | stringF64 (s : Bytes)
  | stringVint (s : Bytes)
  deriving DecidableEq

namespace Typed

open Core.ByteArray

def write : Typed → Call Unit
  | fint8 v => writeFint8 v
  | fuint8 v => writeFuint8 v
  | fint16 v => writeFint16 v
  | fuint16 v => writeFuint16 v
  | fint32 v => writeFint32 v
  | fuint32 v => writeFuint32 v
  | fint64 v => writeFint64 v
  | fuint64 v => writeFuint64 v
  | int32 v => writeInt32 v
  | uint32 v => writeUint32 v
  | int64 v => writeInt64 v
  | uint64 v => writeUint64 v
  | float v => writeFloat v
  | double v => writeDouble v
  | stringF16 s => writeStringF16 s
  | stringF32 s => writeStringF32 s
  | stringF64 s => writeStringF64 s
  | stringVint s => writeStringVint s

/-- The read call that matches the way `v` was written. -/
def read : Typed → Call Typed
  | fint8 _ => do return fint8 (← readFint8)
  | fuint8 _ => do return fuint8 (← readFuint8)
  | fint16 _ => do return fint16 (← readFint16)
  | fuint16 _ => do return fuint16 (← readFuint16)
  | fint32 _ => do return fint32 (← readFint32)
  | fuint32 _ => do return fuint32 (← readFuint32)
  | fint64 _ => do return fint64 (← readFint64)
  | fuint64 _ => do return fuint64 (← readFuint64)
  | int32 _ => do return int32 (← readInt32)
  | uint32 _ => do return uint32 (← readUint32)
  | int64 _ => do return int64 (← readInt64)
  | uint64 _ => do return uint64 (← readUint64)
  | float _ => do return float (← readFloat)
  | double _ => do return double (← readDouble)
  | stringF16 _ => do return stringF16 (← readStringF16)
  | stringF32 _ => do return stringF32 (← readStringF32)
  | stringF64 _ => do return stringF64 (← readStringF64)
  | stringVint _ => do return stringVint (← readStringVint)

/-- Write the values one after the other. -/
def writeAll : List Typed → Call Unit
  | [] => pure ()
  | v :: vs => do
    v.write
    writeAll vs

/-- Read as many values, each the way it was written. -/
def readAll : List Typed → Call (List Typed)
  | [] => pure []
  | v :: vs => do
    let x ← v.read
    let xs ← readAll vs
    pure (x :: xs)

end Typed

/-- A new byte array of one byte order. -/
def ByteArray.createWith (baseSize : Nat) (littleEndian : Bool) : ByteArray :=
  { create baseSize with littleEndian := littleEndian }

/-- The values come back from position 0, and the position is where it was after they were written. -/
def RoundTrip (baseSize : Nat) (littleEndian : Bool) (values : List Typed) : Prop :=
  ∃ written start read, Typed.writeAll values (ByteArray.createWith baseSize littleEndian) = .returned ((), written) ∧
    written.setPosition 0 = .returned start ∧ Typed.readAll values start = .returned (values, read) ∧
    read.position = written.position

namespace Typed

open Core.ByteArray

/-- The bytes a value is written as. -/
def encode (littleEndian : Bool) : Typed → Bytes
  | fint8 v | fuint8 v => [UInt8.ofBitVec v]
  | fint16 v | fuint16 v => fixedBytes littleEndian 16 v
  | fint32 v | fuint32 v | float v => fixedBytes littleEndian 32 v
  | fint64 v | fuint64 v | double v => fixedBytes littleEndian 64 v
  | int32 v => Varint.groups (encodeZigzag v).toNat
  | int64 v => Varint.groups (encodeZigzag v).toNat
  | uint32 v => Varint.groups v.toNat
  | uint64 v => Varint.groups v.toNat
  | stringF16 s => fixedBytes littleEndian 16 (BitVec.ofNat 16 s.length) ++ s
  | stringF32 s => fixedBytes littleEndian 32 (BitVec.ofNat 32 s.length) ++ s
  | stringF64 s => fixedBytes littleEndian 64 (BitVec.ofNat 64 s.length) ++ s
  | stringVint s => Varint.groups (BitVec.ofNat 64 s.length).toNat ++ s

/-- A string, and the width of the length it is written with. -/
def text : Typed → Option (Nat × Bytes)
  | stringF16 s => some (16, s)
  | stringF32 s => some (32, s)
  | stringF64 s | stringVint s => some (64, s)
  | _ => none

/-- The value is a string whose length fits. -/
def Fits (v : Typed) : Prop := ∀ w s, v.text = some (w, s) → s.length < 2 ^ w

/-- The value is an empty string. -/
def Empty (v : Typed) : Prop := ∃ w, v.text = some (w, [])

end Typed

/-! ## Lemmas -/

theorem decodeZigzag_even {w : Nat} {v : BitVec w} (h : v.toNat % 2 = 0) : decodeZigzag v = v >>> 1 := by
  have hbit : v.getLsbD 0 = false := by
    rw [BitVec.getLsbD, Nat.testBit_zero, h]
    rfl
  unfold decodeZigzag
  rw [BitVec.and_one_eq_setWidth_ofBool_getLsbD, hbit]
  simp

theorem decodeZigzag_odd {w : Nat} {v : BitVec w} (h : v.toNat % 2 = 1) : decodeZigzag v = ~~~(v >>> 1) := by
  have hbit : v.getLsbD 0 = true := by
    rw [BitVec.getLsbD, Nat.testBit_zero, h]
    rfl
  have hone : BitVec.setWidth w (BitVec.ofBool true) = 1#w := by
    apply BitVec.eq_of_toNat_eq
    rw [BitVec.toNat_setWidth, BitVec.toNat_ofNat]
    rfl
  unfold decodeZigzag
  rw [BitVec.and_one_eq_setWidth_ofBool_getLsbD, hbit, hone, BitVec.neg_one_eq_allOnes, BitVec.xor_allOnes]

/-- Zigzag numbers, the least one included. -/
theorem decodeZigzag_encodeZigzag {w : Nat} (h : w = 32 ∨ w = 64) (v : BitVec w) :
    decodeZigzag (encodeZigzag v) = v := by
  have hw : 2 ^ w = 2 * 2 ^ (w - 1) := by
    obtain rfl | rfl := h
    · rfl
    · rfl
  have hv := v.isLt
  unfold encodeZigzag
  rw [BitVec.msb_eq_decide]
  by_cases hneg : 2 ^ (w - 1) ≤ v.toNat
  · rw [if_pos (decide_eq_true hneg)]
    have hnat : (-v * 2#w - 1#w).toNat = 2 * (2 ^ w - v.toNat) - 1 := by
      obtain rfl | rfl := h
      · simp [BitVec.toNat_sub, BitVec.toNat_mul]
        omega
      · simp [BitVec.toNat_sub, BitVec.toNat_mul]
        omega
    rw [decodeZigzag_odd (by omega)]
    apply BitVec.eq_of_toNat_eq
    rw [BitVec.toNat_not, BitVec.toNat_ushiftRight, hnat, Nat.shiftRight_eq_div_pow]
    omega
  · rw [if_neg (by simpa using hneg)]
    have hnat : (v * 2#w).toNat = 2 * v.toNat := by
      obtain rfl | rfl := h
      · simp [BitVec.toNat_mul]
        omega
      · simp [BitVec.toNat_mul]
        omega
    rw [decodeZigzag_even (by omega)]
    apply BitVec.eq_of_toNat_eq
    rw [BitVec.toNat_ushiftRight, hnat, Nat.shiftRight_eq_div_pow]
    omega

namespace ByteArray

variable {α β : Type}

theorem bind_returned {c : Call α} {f : α → Call β} {b b' : ByteArray} {x : α}
    (h : c b = .returned (x, b')) : (c >>= f) b = f x b' := by
  show (c b >>= fun p => f p.1 p.2) = _
  rw [h]
  rfl

theorem bind_eq_returned {c : Call α} {f : α → Call β} {b b'' : ByteArray} {y : β} :
    (c >>= f) b = .returned (y, b'') ↔ ∃ x b', c b = .returned (x, b') ∧ f x b' = .returned (y, b'') := by
  constructor
  · intro h
    change (c b >>= fun p => f p.1 p.2) = _ at h
    cases hc : c b with
    | returned p =>
      rw [hc] at h
      exact ⟨p.1, p.2, rfl, h⟩
    | thrown =>
      rw [hc] at h
      cases h
    | crashed =>
      rw [hc] at h
      cases h
  · rintro ⟨x, b', hc, hf⟩
    rw [bind_returned hc, hf]

/-! ### Writing -/

/-- The array holds `data` and is at its end. -/
structure Wrote (o : Bool) (b : ByteArray) (data : Bytes) : Prop where
  good : b.Good
  snug : b.Snug
  order : b.littleEndian = o
  bytes : b.flat.bytes = data.map some
  atEnd : b.position = data.length

/-- `c` appends the bytes `e`. -/
def Puts (o : Bool) (c : Call Unit) (e : Bytes) : Prop :=
  ∀ b data, Wrote o b data → ∃ b', c b = .returned ((), b') ∧ Wrote o b' (data ++ e) ∧
    b'.baseSize = b.baseSize

variable {o : Bool}

theorem puts_put (buf : Bytes) : Puts o (put buf) buf := by
  intro b data h
  obtain ⟨b', heq, hgood, hsnug, hflat, hbase, horder⟩ := write_spec h.good buf
  have hbytes : b'.flat.bytes = (data ++ buf).map some := by
    have hover : overlay b.flat.bytes b.position (buf.map some) = (data ++ buf).map some := by
      have hlen : (data.map some).length = data.length := List.length_map _
      unfold overlay
      rw [h.bytes, h.atEnd, ← hlen, List.take_length, List.drop_of_length_le (Nat.le_add_right _ _), List.append_nil,
        List.map_append]
    exact (congrArg Flat.bytes hflat).trans hover
  refine ⟨b', ?_, ⟨hgood, hsnug h.snug, horder.trans h.order, hbytes, ?_⟩, hbase⟩
  · show (b.write buf >>= fun b => pure ((), b)) = _
    rw [heq]
    rfl
  · rw [List.length_append, ← h.atEnd]
    exact congrArg Flat.position hflat

theorem Puts.bind {c c' : Call Unit} {e e' : Bytes} (h : Puts o c e) (h' : Puts o c' e') :
    Puts o (c >>= fun _ => c') (e ++ e') := by
  intro b data hb
  obtain ⟨b1, heq, hwrote, hbase⟩ := h b data hb
  obtain ⟨b2, heq', hwrote', hbase'⟩ := h' b1 _ hwrote
  refine ⟨b2, ?_, by rwa [← List.append_assoc], hbase'.trans hbase⟩
  rw [bind_returned heq]
  exact heq'

theorem puts_writeFixed (w : Nat) (value : BitVec w) :
    Puts o (writeFixed w value) (fixedBytes o w value) := by
  intro b data hb
  obtain ⟨b', heq, hrest⟩ := puts_put (fixedBytes o w value) b data hb
  refine ⟨b', ?_, hrest⟩
  show put (fixedBytes b.littleEndian w value) b = _
  rw [hb.order]
  exact heq

theorem puts_typed (v : Typed) : Puts o v.write (v.encode o) := by
  cases v with
  | fint8 v => exact puts_put _
  | fuint8 v => exact puts_put _
  | fint16 v => exact puts_writeFixed 16 v
  | fuint16 v => exact puts_writeFixed 16 v
  | fint32 v => exact puts_writeFixed 32 v
  | fuint32 v => exact puts_writeFixed 32 v
  | fint64 v => exact puts_writeFixed 64 v
  | fuint64 v => exact puts_writeFixed 64 v
  | int32 v => exact puts_put _
  | uint32 v => exact puts_put _
  | int64 v => exact puts_put _
  | uint64 v => exact puts_put _
  | float v => exact puts_writeFixed 32 v
  | double v => exact puts_writeFixed 64 v
  | stringF16 s => exact (puts_writeFixed 16 _).bind (puts_put s)
  | stringF32 s => exact (puts_writeFixed 32 _).bind (puts_put s)
  | stringF64 s => exact (puts_writeFixed 64 _).bind (puts_put s)
  | stringVint s => exact Puts.bind (puts_put _) (puts_put s)

theorem puts_all (values : List Typed) :
    Puts o (Typed.writeAll values) (values.flatMap (Typed.encode o)) := by
  induction values with
  | nil =>
    intro b data hb
    exact ⟨b, rfl, by rwa [List.flatMap_nil, List.append_nil], rfl⟩
  | cons v vs ih => exact (puts_typed v).bind ih

theorem wrote_create {baseSize : Nat} (h : 1 ≤ baseSize) : Wrote o (createWith baseSize o) [] := by
  have hgood := create_good h
  exact ⟨⟨⟨hgood.base, hgood.uniform, hgood.capacity, hgood.position, hgood.cur⟩, hgood.root, hgood.read, hgood.size⟩,
    .inl rfl, rfl, rfl, rfl⟩

/-! ### Reading -/

/-- `b'` is `b` with the position `n` bytes on. -/
structure Moves (b b' : ByteArray) (n : Nat) : Prop where
  good : b'.Good
  bytes : b'.flat.bytes = b.flat.bytes
  position : b'.position = b.position + n
  size : b'.size = b.size
  capacity : b'.capacity = b.capacity
  order : b'.littleEndian = b.littleEndian

theorem Moves.trans {b b' b'' : ByteArray} {m n : Nat} (h : b.Moves b' m) (h' : b'.Moves b'' n) : b.Moves b'' (m + n) where
  good := h'.good
  bytes := h'.bytes.trans h.bytes
  position := by rw [h'.position, h.position, Nat.add_assoc]
  size := h'.size.trans h.size
  capacity := h'.capacity.trans h.capacity
  order := h'.order.trans h.order

/-- The bytes from the position on. -/
structure Ahead (o : Bool) (b : ByteArray) (data : Bytes) : Prop where
  good : b.Good
  order : b.littleEndian = o
  bytes : b.flat.bytes.drop b.position = data.map some

theorem Ahead.after {b b' : ByteArray} {e rest : Bytes} (h : Ahead o b (e ++ rest))
    (hm : b.Moves b' e.length) : Ahead o b' rest := by
  refine ⟨hm.good, hm.order.trans h.order, ?_⟩
  rw [hm.bytes, hm.position, ← List.drop_drop, h.bytes, List.map_append, List.drop_left' (List.length_map _)]

theorem Ahead.length {b : ByteArray} {data : Bytes} (h : Ahead o b data) : b.size = b.position + data.length := by
  have hlen := congrArg List.length h.bytes
  have hread := h.good.read
  rw [List.length_drop, flat_length h.good, List.length_map] at hlen
  omega

/-- `r` takes the bytes `e` for `x`. -/
def Takes (o : Bool) {α : Type} (r : Call α) (e : Bytes) (x : α) : Prop :=
  ∀ b rest, Ahead o b (e ++ rest) → ∃ b', r b = .returned (x, b') ∧ b.Moves b' e.length

theorem Takes.map {r : Call α} {e : Bytes} {x : α} (g : α → β) (h : Takes o r e x) :
    Takes o (r >>= fun a => pure (g a)) e (g x) := by
  intro b rest hb
  obtain ⟨b', heq, hm⟩ := h b rest hb
  exact ⟨b', by rw [bind_returned heq]; rfl, hm⟩

/-- Reading bytes that are there.  Reading none wants a current chunk. -/
theorem take_spec {b : ByteArray} {e rest : Bytes} (h : Ahead o b (e ++ rest))
    (hcur : 1 ≤ e.length ∨ b.position < b.capacity) : ∃ b', take e.length b = .returned (e, b') ∧ b.Moves b' e.length := by
  have hlen := h.length
  rw [List.length_append] at hlen
  by_cases hpos : 1 ≤ e.length
  · obtain ⟨cur, heq, hgood⟩ := read_spec h.good hpos (by omega)
    refine ⟨_, ?_, ⟨hgood, rfl, rfl, rfl, rfl, rfl⟩⟩
    have hwindow : window b.flat.bytes b.position e.length = e.map some := by
      unfold window
      rw [h.bytes, List.map_append, List.take_left' (List.length_map _)]
    show (b.read e.length >>= fun p => pure (p.1.map (·.getD 0), p.2)) = _
    rw [heq, hwindow]
    show Result.returned ((e.map some).map (·.getD 0), _) = _
    rw [List.map_map]
    exact congrArg (fun l => Result.returned (l, _)) (List.map_id e)
  · obtain rfl : e = [] := List.length_eq_zero_iff.mp (by omega)
    obtain ⟨i, c, hi, -⟩ := h.good.current (hcur.resolve_left hpos)
    refine ⟨b, ?_, ⟨h.good, rfl, rfl, rfl, rfl, rfl⟩⟩
    have hread : b.read 0 = .returned ([], b) := by
      unfold read
      rw [if_neg (Nat.not_lt_zero _), readLoop, hi]
      rfl
    show (b.read 0 >>= fun p => pure (p.1.map (·.getD 0), p.2)) = _
    rw [hread]
    rfl

theorem takes_take {e : Bytes} (h : 1 ≤ e.length) : Takes o (take e.length) e e :=
  fun _ _ hb => take_spec hb (.inl h)

theorem takes_readByte (v : BitVec 8) : Takes o readByte [UInt8.ofBitVec v] v :=
  (takes_take (e := [UInt8.ofBitVec v]) (Nat.le_refl 1)).map fun v => (v.headD 0).toBitVec

theorem fixedBytes_length (w : Nat) (value : BitVec w) : (fixedBytes o w value).length = w / 8 := by
  unfold fixedBytes
  split
  next => exact Codec.le_length _ _
  next => rw [List.length_reverse, Codec.le_length]

theorem takes_readFixed {w : Nat} (hw : 8 ≤ w) (h8 : w = 8 * (w / 8)) (value : BitVec w) :
    Takes o (readFixed w) (fixedBytes o w value) value := by
  intro b rest hb
  have hlen := fixedBytes_length (o := o) w value
  obtain ⟨b', heq, hm⟩ := take_spec hb (.inl (by omega))
  rw [hlen] at heq
  refine ⟨b', ?_, hm⟩
  unfold readFixed
  rw [bind_returned heq]
  show Result.returned (BitVec.ofNat w (Codec.ofLe (if b'.littleEndian then _ else _)), b') = _
  have hbytes : (if b'.littleEndian then fixedBytes o w value else (fixedBytes o w value).reverse) =
      Codec.le (w / 8) value.toNat := by
    rw [hm.order, hb.order]
    unfold fixedBytes
    split
    next => rfl
    next => rw [List.reverse_reverse]
  have hfit : value.toNat < 256 ^ (w / 8) := by
    have hlt := value.isLt
    rw [show (256 : Nat) = 2 ^ 8 from rfl, ← Nat.pow_mul, ← h8]
    exact hlt
  rw [hbytes, Codec.ofLe_le _ _ hfit, BitVec.ofNat_toNat, BitVec.setWidth_eq]

theorem takes_varintLoop {w : Nat} (n : Nat) {turns i result : Nat} (hi : i < w) (hturns : w ≤ i + 7 * turns)
    (hresult : result < 2 ^ i) (hfit : result + n * 2 ^ i < 2 ^ w) :
    Takes o (varintLoop w turns i result) (Varint.groups n) (result + n * 2 ^ i) := by
  induction n using Varint.induct generalizing turns i result with
  | last n hn =>
    obtain ⟨turns, rfl⟩ : ∃ k, turns = k + 1 := ⟨turns - 1, by omega⟩
    have hb := Varint.last_group hn
    rw [Varint.groups_of_lt hn]
    intro b rest hahead
    obtain ⟨b', heq, hm⟩ := takes_readByte (UInt8.ofNat n).toBitVec b rest hahead
    refine ⟨b', ?_, hm⟩
    have hbyte : (UInt8.ofNat n).toBitVec.toNat = n := hb
    rw [varintLoop, bind_returned (show readFuint8 b = _ from heq), if_pos (by rw [hbyte]; exact hn), hbyte, Nat.or_comm,
      ← Nat.shiftLeft_add_eq_or_of_lt hresult, Nat.shiftLeft_eq, Nat.add_comm, Nat.mod_eq_of_lt hfit]
    rfl
  | low n hn ih =>
    obtain ⟨turns, rfl⟩ : ∃ k, turns = k + 1 := ⟨turns - 1, by omega⟩
    have hb := Varint.low_group n
    have hsplit := Varint.split_shift n i
    have hpow : 2 ^ (i + 7) = 128 * 2 ^ i := by
      rw [Nat.pow_add, show (2 : Nat) ^ 7 = 128 from rfl, Nat.mul_comm]
    have hlow : n % 128 * 2 ^ i ≤ 127 * 2 ^ i := Nat.mul_le_mul_right _ (by omega)
    have hi' : i + 7 < w := Varint.next_shift_lt hn (by omega)
    have hrest : Takes o (varintLoop w turns (i + 7) (result + n % 128 * 2 ^ i)) (Varint.groups (n / 128))
        (result + n % 128 * 2 ^ i + n / 128 * 2 ^ (i + 7)) := ih hi' (by omega) (by omega) (by omega)
    rw [Varint.groups_of_ge hn]
    intro b rest hahead
    obtain ⟨b', heq, hm⟩ := takes_readByte (UInt8.ofNat (n % 128 + 128)).toBitVec b _ hahead
    obtain ⟨b'', heq', hm'⟩ := hrest b' rest (Ahead.after (e := [_]) hahead hm)
    refine ⟨b'', ?_, ?_⟩
    · have hbyte : (UInt8.ofNat (n % 128 + 128)).toBitVec.toNat = n % 128 + 128 := hb
      rw [varintLoop, bind_returned (show readFuint8 b = _ from heq), if_neg (by rw [hbyte]; omega), hbyte, Nat.or_comm,
        show (n % 128 + 128) % 128 = n % 128 by omega, ← Nat.shiftLeft_add_eq_or_of_lt hresult, Nat.shiftLeft_eq,
        Nat.add_comm (n % 128 * 2 ^ i), Nat.mod_eq_of_lt (by omega), heq', hsplit, Nat.add_assoc]
    · rw [List.length_cons, Nat.add_comm]
      exact hm.trans hm'

theorem takes_readVarint {w : Nat} (hw : 1 ≤ w) (v : BitVec w) :
    Takes o (readVarint w) (Varint.groups v.toNat) v := by
  have hloop : Takes o (varintLoop w ((w + 6) / 7) 0 0) (Varint.groups v.toNat) (0 + v.toNat * 2 ^ 0) :=
    takes_varintLoop v.toNat (by omega) (by omega) (by decide) (by have := v.isLt; omega)
  have hmap := hloop.map (BitVec.ofNat w)
  rwa [Nat.pow_zero, Nat.mul_one, Nat.zero_add, BitVec.ofNat_toNat, BitVec.setWidth_eq] at hmap

theorem take_crashes {b : ByteArray} (h : b.Good) (hend : b.position = b.capacity) : take 0 b = .crashed := by
  have hcur : b.cur = none := by
    rw [h.cur, if_pos hend]
  have hread : b.read 0 = .crashed := by
    unfold read
    rw [if_neg (Nat.not_lt_zero _), readLoop, hcur]
  show (b.read 0 >>= fun p => pure (p.1.map (·.getD 0), p.2)) = _
  rw [hread]
  rfl

section Text

variable {w : Nat} {r : Call (BitVec w)} {p s rest : Bytes} {b : ByteArray}

theorem read_length (hp : Takes o r p (BitVec.ofNat w s.length)) (hb : Ahead o b (p ++ s ++ rest)) :
    ∃ b', b.Moves b' p.length ∧ Ahead o b' (s ++ rest) ∧
      (r >>= fun len => take len.toNat) b = take (s.length % 2 ^ w) b' := by
  rw [List.append_assoc] at hb
  obtain ⟨b', heq, hm⟩ := hp b _ hb
  refine ⟨b', hm, hb.after hm, ?_⟩
  rw [bind_returned heq, BitVec.toNat_ofNat]

theorem read_text (hp : Takes o r p (BitVec.ofNat w s.length)) (hb : Ahead o b (p ++ s ++ rest))
    (hfit : s.length < 2 ^ w) (hcur : s = [] → b.position + p.length < b.capacity) :
    ∃ b', (r >>= fun len => take len.toNat) b = .returned (s, b') ∧ b.Moves b' (p ++ s).length := by
  obtain ⟨b1, hm, hahead, heq⟩ := read_length hp hb
  have hroom : 1 ≤ s.length ∨ b1.position < b1.capacity := by
    by_cases hs : s = []
    · right
      rw [hm.position, hm.capacity]
      exact hcur hs
    · exact .inl (List.length_pos_of_ne_nil hs)
  obtain ⟨b2, htake, hm'⟩ := take_spec hahead hroom
  refine ⟨b2, ?_, ?_⟩
  · rw [heq, Nat.mod_eq_of_lt hfit, htake]
  · rw [List.length_append]
    exact hm.trans hm'

theorem read_text_crashes (hp : Takes o r p (BitVec.ofNat w ([] : Bytes).length))
    (hb : Ahead o b (p ++ [] ++ rest)) (hend : b.position + p.length = b.capacity) :
    (r >>= fun len => take len.toNat) b = .crashed := by
  obtain ⟨b', hm, hahead, heq⟩ := read_length hp hb
  rw [heq, List.length_nil, Nat.zero_mod]
  exact take_crashes hm.good (by rw [hm.position, hm.capacity, hend])

theorem read_text_short (hp : Takes o r p (BitVec.ofNat w s.length)) (hb : Ahead o b (p ++ s ++ rest))
    (hlong : 2 ^ w ≤ s.length) : ∃ s' b', (r >>= fun len => take len.toNat) b = .returned (s', b') ∧ s' ≠ s := by
  obtain ⟨b1, hm, hahead, heq⟩ := read_length hp hb
  have hpow : 0 < 2 ^ w := Nat.two_pow_pos w
  have hmod : s.length % 2 ^ w < 2 ^ w := Nat.mod_lt _ hpow
  have hlen : (s.take (s.length % 2 ^ w)).length = s.length % 2 ^ w := by
    rw [List.length_take]
    omega
  have hsize := hahead.length
  have hcap := hahead.good.size
  rw [List.length_append] at hsize
  have hsplit : Ahead o b1 (s.take (s.length % 2 ^ w) ++ (s.drop (s.length % 2 ^ w) ++ rest)) := by
    rwa [← List.append_assoc, List.take_append_drop]
  obtain ⟨b2, htake, -⟩ := take_spec hsplit (.inr (by omega))
  rw [hlen] at htake
  refine ⟨s.take (s.length % 2 ^ w), b2, heq.trans htake, fun h => ?_⟩
  have := congrArg List.length h
  omega

end Text

variable {v : Typed}

theorem text_cases {w : Nat} {s : Bytes} (h : v.text = some (w, s)) :
    ∃ (r : Call (BitVec w)) (p : Bytes) (g : Bytes → Typed), Function.Injective g ∧ v = g s ∧
      Takes o r p (BitVec.ofNat w s.length) ∧ v.encode o = p ++ s ∧
      v.read = (r >>= fun len => take len.toNat) >>= fun x => pure (g x) := by
  cases v with
  | stringF16 t =>
    obtain ⟨rfl, rfl⟩ := Prod.mk.inj (Option.some.inj h)
    exact ⟨readFuint16, _, .stringF16, fun _ _ hg => Typed.stringF16.inj hg, rfl,
      takes_readFixed (by decide) (by decide) _, rfl, rfl⟩
  | stringF32 t =>
    obtain ⟨rfl, rfl⟩ := Prod.mk.inj (Option.some.inj h)
    exact ⟨readFuint32, _, .stringF32, fun _ _ hg => Typed.stringF32.inj hg, rfl,
      takes_readFixed (by decide) (by decide) _, rfl, rfl⟩
  | stringF64 t =>
    obtain ⟨rfl, rfl⟩ := Prod.mk.inj (Option.some.inj h)
    exact ⟨readFuint64, _, .stringF64, fun _ _ hg => Typed.stringF64.inj hg, rfl,
      takes_readFixed (by decide) (by decide) _, rfl, rfl⟩
  | stringVint t =>
    obtain ⟨rfl, rfl⟩ := Prod.mk.inj (Option.some.inj h)
    exact ⟨readUint64, _, .stringVint, fun _ _ hg => Typed.stringVint.inj hg, rfl,
      takes_readVarint (by decide) _, rfl, rfl⟩
  | _ => cases h

theorem takes_typed (h : v.text = none) : Takes o v.read (v.encode o) v := by
  cases v with
  | fint8 v => exact (takes_readByte v).map _
  | fuint8 v => exact (takes_readByte v).map _
  | fint16 v => exact (takes_readFixed (by decide) (by decide) v).map _
  | fuint16 v => exact (takes_readFixed (by decide) (by decide) v).map _
  | fint32 v => exact (takes_readFixed (by decide) (by decide) v).map _
  | fuint32 v => exact (takes_readFixed (by decide) (by decide) v).map _
  | fint64 v => exact (takes_readFixed (by decide) (by decide) v).map _
  | fuint64 v => exact (takes_readFixed (by decide) (by decide) v).map _
  | int32 v =>
    have hz := ((takes_readVarint (o := o) (by decide) (encodeZigzag v)).map decodeZigzag).map Typed.int32
    rwa [decodeZigzag_encodeZigzag (.inl rfl)] at hz
  | uint32 v => exact (takes_readVarint (by decide) v).map _
  | int64 v =>
    have hz := ((takes_readVarint (o := o) (by decide) (encodeZigzag v)).map decodeZigzag).map Typed.int64
    rwa [decodeZigzag_encodeZigzag (.inr rfl)] at hz
  | uint64 v => exact (takes_readVarint (by decide) v).map _
  | float v => exact (takes_readFixed (by decide) (by decide) v).map _
  | double v => exact (takes_readFixed (by decide) (by decide) v).map _
  | stringF16 s => cases h
  | stringF32 s => cases h
  | stringF64 s => cases h
  | stringVint s => cases h

theorem encode_length_pos (v : Typed) : 1 ≤ (v.encode o).length := by
  have hgroups : ∀ n, 1 ≤ (Varint.groups n).length := fun n => List.length_pos_of_ne_nil (Varint.groups_ne_nil n)
  cases ht : v.text with
  | some ws =>
    obtain ⟨w, s⟩ := ws
    cases v with
    | stringF16 s => exact Nat.le_trans (by rw [fixedBytes_length]; decide) (List.sublist_append_left _ _).length_le
    | stringF32 s => exact Nat.le_trans (by rw [fixedBytes_length]; decide) (List.sublist_append_left _ _).length_le
    | stringF64 s => exact Nat.le_trans (by rw [fixedBytes_length]; decide) (List.sublist_append_left _ _).length_le
    | stringVint s => exact Nat.le_trans (hgroups _) (List.sublist_append_left _ _).length_le
    | _ => cases ht
  | none =>
    cases v with
    | fint8 v => exact Nat.le_refl 1
    | fuint8 v => exact Nat.le_refl 1
    | fint16 v | fuint16 v => exact (by decide : 1 ≤ 16 / 8).trans_eq (fixedBytes_length 16 v).symm
    | fint32 v | fuint32 v | float v => exact (by decide : 1 ≤ 32 / 8).trans_eq (fixedBytes_length 32 v).symm
    | fint64 v | fuint64 v | double v => exact (by decide : 1 ≤ 64 / 8).trans_eq (fixedBytes_length 64 v).symm
    | int32 v | uint32 v | int64 v | uint64 v => exact hgroups _
    | _ => cases ht

/-- One value is read back unless it does not fit or is an empty string at the capacity. -/
theorem read_typed {b : ByteArray} {rest : Bytes} (hb : Ahead o b (v.encode o ++ rest)) :
    (v.Fits → ¬(v.Empty ∧ b.position + (v.encode o).length = b.capacity) →
        ∃ b', v.read b = .returned (v, b') ∧ b.Moves b' (v.encode o).length) ∧
      (¬v.Fits ∨ v.Empty ∧ b.position + (v.encode o).length = b.capacity →
        ∀ b', v.read b ≠ .returned (v, b')) := by
  have hlength := hb.length
  have hcap := hb.good.size
  rw [List.length_append] at hlength
  cases ht : v.text with
  | none =>
    refine ⟨fun _ _ => takes_typed ht b rest hb, fun h => ?_⟩
    obtain hfit | ⟨⟨w, hempty⟩, -⟩ := h
    · exact absurd (fun w s hs => by rw [ht] at hs; cases hs) hfit
    · rw [ht] at hempty
      cases hempty
  | some ws =>
    obtain ⟨w, s⟩ := ws
    obtain ⟨r, p, g, hg, rfl, htakes, hencode, hread⟩ := text_cases (o := o) ht
    rw [hencode] at hb hlength ⊢
    rw [hread]
    constructor
    · intro hfit hcrash
      have hcur : s = [] → b.position + p.length < b.capacity := by
        rintro rfl
        have hne : b.position + (p ++ ([] : Bytes)).length ≠ b.capacity := fun h => hcrash ⟨⟨w, ht⟩, h⟩
        rw [List.append_nil] at hne hlength
        omega
      obtain ⟨b', heq, hm⟩ := read_text htakes hb (hfit w s ht) hcur
      exact ⟨b', by rw [bind_returned heq]; rfl, hm⟩
    · rintro (hfit | ⟨⟨w', hempty⟩, hend⟩) b' hret
      · have hlong : 2 ^ w ≤ s.length := by
          by_contra hlt
          refine hfit fun w' s' hs' => ?_
          rw [ht] at hs'
          obtain ⟨rfl, rfl⟩ := Prod.mk.inj (Option.some.inj hs')
          omega
        obtain ⟨s', b'', heq, hne⟩ := read_text_short htakes hb hlong
        rw [bind_returned heq] at hret
        exact hne (hg (Prod.mk.inj (Result.returned.inj hret)).1)
      · rw [ht] at hempty
        obtain ⟨rfl, rfl⟩ := Prod.mk.inj (Option.some.inj hempty)
        rw [List.append_nil] at hend
        obtain ⟨x, b1, hx, -⟩ := bind_eq_returned.mp hret
        rw [read_text_crashes htakes hb hend] at hx
        cases hx

theorem readAll_cons {vs : List Typed} {b b' : ByteArray} :
    Typed.readAll (v :: vs) b = .returned (v :: vs, b') ↔
      ∃ b1, v.read b = .returned (v, b1) ∧ Typed.readAll vs b1 = .returned (vs, b') := by
  constructor
  · intro h
    obtain ⟨x, b1, hx, hrest⟩ := bind_eq_returned.mp h
    obtain ⟨xs, b2, hxs, hpure⟩ := bind_eq_returned.mp hrest
    obtain ⟨hlist, rfl⟩ := Prod.mk.inj (Result.returned.inj hpure)
    obtain ⟨rfl, rfl⟩ := List.cons.inj hlist
    exact ⟨b1, hx, hxs⟩
  · rintro ⟨b1, hv, hvs⟩
    exact bind_eq_returned.mpr ⟨v, b1, hv, bind_eq_returned.mpr ⟨vs, b', hvs, rfl⟩⟩

/-- Values are read back, to the end of the bytes, exactly when they fit and the last is no empty string there. -/
theorem readAll_iff {values : List Typed} {b : ByteArray}
    (hb : Ahead o b (values.flatMap (Typed.encode o))) :
    (∃ b', Typed.readAll values b = .returned (values, b') ∧ b'.position = b.size) ↔
      (∀ v ∈ values, v.Fits) ∧ ¬∃ v, values.getLast? = some v ∧ v.Empty ∧ b.size = b.capacity := by
  induction values generalizing b with
  | nil =>
    have hlen := hb.length
    refine ⟨fun _ => ⟨fun v hv => absurd hv List.not_mem_nil, ?_⟩, fun _ => ⟨b, rfl, hlen.symm⟩⟩
    rintro ⟨v, hv, -⟩
    cases hv
  | cons v vs ih =>
    rw [List.flatMap_cons] at hb
    obtain ⟨hgood, hbad⟩ := read_typed hb
    have hlen := hb.length
    have hcap := hb.good.size
    rw [List.length_append] at hlen
    by_cases hok : v.Fits ∧ ¬(v.Empty ∧ b.position + (v.encode o).length = b.capacity)
    · obtain ⟨b1, heq, hm⟩ := hgood hok.1 hok.2
      have hih := ih (hb.after hm)
      rw [hm.size, hm.capacity] at hih
      have hread : ∀ b', Typed.readAll (v :: vs) b = .returned (v :: vs, b') ↔ Typed.readAll vs b1 = .returned (vs, b') := by
        intro b'
        rw [readAll_cons]
        constructor
        · rintro ⟨b2, hv, hvs⟩
          obtain ⟨-, rfl⟩ := Prod.mk.inj (Result.returned.inj (heq.symm.trans hv))
          exact hvs
        · exact fun hvs => ⟨b1, heq, hvs⟩
      simp only [hread, hih, List.forall_mem_cons, hok.1, true_and]
      cases vs with
      | nil =>
        -- the value is the last one
        rw [List.flatMap_nil, List.length_nil, Nat.add_zero] at hlen
        refine and_congr_right fun _ => ⟨fun _ => ?_, fun _ => ?_⟩
        · rintro ⟨x, hx, hempty, hend⟩
          obtain rfl := Option.some.inj hx
          exact hok.2 ⟨hempty, by omega⟩
        · rintro ⟨x, hx, -⟩
          cases hx
      | cons x vs => rw [List.getLast?_cons_cons]
    · have hno : ¬v.Fits ∨ v.Empty ∧ b.position + (v.encode o).length = b.capacity := by
        by_cases hf : v.Fits
        · exact .inr (by_contra fun hc => hok ⟨hf, hc⟩)
        · exact .inl hf
      constructor
      · rintro ⟨b', hret, -⟩
        obtain ⟨b1, hv, -⟩ := readAll_cons.mp hret
        exact absurd hv (hbad hno b1)
      · rintro ⟨hfits, hlast⟩
        obtain hf | ⟨hempty, hend⟩ := hno
        · exact absurd (hfits v List.mem_cons_self) hf
        · -- nothing can follow
          have hnil : vs = [] := by
            cases vs with
            | nil => rfl
            | cons x vs =>
              have hpos := encode_length_pos (o := o) x
              rw [List.flatMap_cons, List.length_append] at hlen
              omega
          subst hnil
          rw [List.flatMap_nil, List.length_nil, Nat.add_zero] at hlen
          exact absurd ⟨v, rfl, hempty, by omega⟩ hlast

/-- The bytes written end at the capacity exactly when they fill whole chunks. -/
theorem full_iff {b : ByteArray} (h : b.Good) (hs : b.Snug) (hpos : 1 ≤ b.size) :
    b.size = b.capacity ↔ b.baseSize ∣ b.size := by
  have hbase := h.base
  have hsize := h.size
  constructor
  · intro heq
    rw [heq, h.capacity]
    exact Nat.dvd_mul_left _ _
  · rintro ⟨m, hm⟩
    have hm1 : 1 ≤ m := by
      by_contra hlt
      obtain rfl : m = 0 := by omega
      omega
    have hbound : b.chunks.length ≤ m := by
      obtain hone | hlt := hs
      · omega
      · rw [h.capacity, hm, Nat.mul_comm b.baseSize m, ← Nat.succ_mul] at hlt
        exact Nat.le_of_lt_succ (Nat.lt_of_mul_lt_mul_right hlt)
    have hmul : b.chunks.length * b.baseSize ≤ m * b.baseSize := Nat.mul_le_mul_right _ hbound
    rw [h.capacity] at hsize ⊢
    rw [Nat.mul_comm] at hm
    omega

/-! ## Top theorem -/

/-- **When typed values come back**: each string fits the length it is written with, and the last value is not an empty
string that ends at the end of a chunk. -/
theorem typed_roundTrip_iff (baseSize : Nat) (hbase : 1 ≤ baseSize) (o : Bool) (values : List Typed) :
    RoundTrip baseSize o values ↔
      (∀ v ∈ values, v.Fits) ∧
        ¬∃ v, values.getLast? = some v ∧ v.Empty ∧
          baseSize ∣ (values.flatMap (Typed.encode o)).length := by
  obtain ⟨written, hwrite, hwrote, hsame⟩ := puts_all values _ _ (wrote_create (o := o) hbase)
  rw [List.nil_append] at hwrote
  have hsame' : written.baseSize = baseSize := hsame
  obtain ⟨cur, hset, hgood⟩ := setPosition_spec hwrote.good (Nat.zero_le written.capacity)
  rw [Nat.max_zero] at hset hgood
  have hsize : written.size = (values.flatMap (Typed.encode o)).length := by
    rw [← flat_length hwrote.good, hwrote.bytes, List.length_map]
  have hahead : Ahead o { written with position := 0, size := written.size, cur := cur }
      (values.flatMap (Typed.encode o)) := ⟨hgood, hwrote.order, hwrote.bytes⟩
  have hread := readAll_iff hahead
  have hiff : RoundTrip baseSize o values ↔
      ∃ b', Typed.readAll values { written with position := 0, size := written.size, cur := cur } =
        .returned (values, b') ∧ b'.position = written.size := by
    constructor
    · rintro ⟨written', start, read, hw, hs, hr, hp⟩
      obtain ⟨-, rfl⟩ := Prod.mk.inj (Result.returned.inj (hwrite.symm.trans hw))
      obtain rfl := Result.returned.inj (hset.symm.trans hs)
      exact ⟨read, hr, by rw [hp, hwrote.atEnd, hsize]⟩
    · rintro ⟨read, hr, hp⟩
      exact ⟨written, _, read, hwrite, hset, hr, by rw [hp, hwrote.atEnd, hsize]⟩
  rw [hiff, hread]
  refine and_congr_right fun _ => not_congr (exists_congr fun v => and_congr_right fun hlast => and_congr_right fun _ => ?_)
  have hpos : 1 ≤ written.size := by
    obtain ⟨init, hinit⟩ := List.getLast?_eq_some_iff.mp hlast
    have hv := encode_length_pos (o := o) v
    rw [hsize, hinit, List.flatMap_append, List.length_append, List.flatMap_singleton]
    omega
  have hfull := full_iff hwrote.good hwrote.snug hpos
  rw [hsame', hsize] at hfull
  rw [← hfull, ← hsize]

theorem typed_roundTrip_iff_sample :
    RoundTrip 4 true [.int32 (BitVec.ofInt 32 (-5)), .stringF16 []] ↔
      (∀ v ∈ [.int32 (BitVec.ofInt 32 (-5)), .stringF16 []], Typed.Fits v) ∧
        ¬∃ v, [.int32 (BitVec.ofInt 32 (-5)), .stringF16 []].getLast? = some v ∧ Typed.Empty v ∧
          4 ∣ ([.int32 (BitVec.ofInt 32 (-5)), .stringF16 []].flatMap (Typed.encode true)).length :=
  typed_roundTrip_iff 4 (by decide) true _

/-- An empty string whose length ends at the end of the only chunk: the read looks at a null chunk. -/
theorem empty_string_crashes :
    (∃ written start, Typed.writeAll [.stringF16 []] (createWith 2 false) = .returned ((), written) ∧
      written.setPosition 0 = .returned start ∧ Typed.readAll [.stringF16 []] start = .crashed) ∧
    ¬RoundTrip 2 false [.stringF16 []] := by
  refine ⟨⟨_, _, rfl, rfl, rfl⟩, ?_⟩
  rintro ⟨written, start, last, hw, hs, hr, -⟩
  obtain ⟨-, rfl⟩ := Prod.mk.inj (Result.returned.inj hw)
  obtain rfl := Result.returned.inj hs
  cases hr

end ByteArray

end Core
