import ZeroFrameworks.Core.Stream
import ZeroFrameworks.Lib.Codec

/-!
# Messages over a web socket

`WSSendMessage` writes one frame, `WSRecvMessage` reads frames until the last one of a message.

    client → server and server → client: the fragments arrive as one message
      ↔ every fragment, and all but the last of them together, fit an int   (roundTrip_iff)
-/

namespace Http

open Kv (Bytes)
open Core (Stream)

/-! ## Algorithm -/

namespace WSFrameHead

def CONTINUE : Nat := 0
def TEXT_FRAME : Nat := 1
def BIN_FRAME : Nat := 2
def PING : Nat := 9
def PONG : Nat := 10

end WSFrameHead

/-- The bit fields, which have four and seven bits. -/
structure WSFrameHead where
  opcode : Nat
  rsv3 : Bool
  rsv2 : Bool
  rsv1 : Bool
  fin : Bool
  payload : Nat
  mask : Bool
  opcode_lt : opcode < 16
  payload_lt : payload < 128

namespace WSFrameHead

/-- The two bytes of the structure, whose fields come lowest bit first. -/
def encode (h : WSFrameHead) : Bytes :=
  [UInt8.ofNat (h.opcode + 16 * h.rsv3.toNat + 32 * h.rsv2.toNat + 64 * h.rsv1.toNat + 128 * h.fin.toNat),
    UInt8.ofNat (h.payload + 128 * h.mask.toNat)]

def decode (bytes : Bytes) : WSFrameHead :=
  let b0 := (bytes.getD 0 0).toNat
  let b1 := (bytes.getD 1 0).toNat
  { opcode := b0 % 16
    rsv3 := decide (b0 / 16 % 2 = 1)
    rsv2 := decide (b0 / 32 % 2 = 1)
    rsv1 := decide (b0 / 64 % 2 = 1)
    fin := decide (b0 / 128 % 2 = 1)
    payload := b1 % 128
    mask := decide (b1 / 128 % 2 = 1)
    opcode_lt := Nat.mod_lt _ (by decide)
    payload_lt := Nat.mod_lt _ (by decide) }

end WSFrameHead

/-- A number after `byteswapOnLittleEndian`, in memory. -/
def swapped (width n : Nat) : Bytes := (Codec.le width n).reverse

def ofSwapped (bytes : Bytes) : Nat := Codec.ofLe bytes.reverse

/-- `data[i] ^= mask[i % 4]`. -/
def applyMask (mask data : Bytes) : Bytes := data.mapIdx fun i b => b ^^^ mask.getD (i % 4) 0

structure WSFrameMessage where
  opcode : Nat
  data : Bytes

/-- The payload field for a size. -/
def payloadOf (size : Nat) : Nat := if size < 126 then size else if size < 65536 then 126 else 127

theorem payloadOf_lt (size : Nat) : payloadOf size < 128 := by
  unfold payloadOf
  split
  · omega
  · split
    · decide
    · decide

/-- The head that `WSSendMessage` writes; the reserved bits are zero. -/
def sendHead (msg : WSFrameMessage) (client fin : Bool) : WSFrameHead where
  opcode := msg.opcode % 16
  rsv3 := false
  rsv2 := false
  rsv1 := false
  fin := fin
  payload := payloadOf msg.data.length
  mask := client
  opcode_lt := Nat.mod_lt _ (by decide)
  payload_lt := payloadOf_lt _

/-- `mask`: what `rand()` gives.  `none` where -1 is returned and the stream is closed. -/
def WSSendMessage (msg : WSFrameMessage) (client fin : Bool) (mask : Bytes) (s : Stream) : Option Stream :=
  let head := sendHead msg client fin
  let size := msg.data.length
  (s.writeFixSize head.encode).bind fun s =>
    (if head.payload = 126 then s.writeFixSize (swapped 2 (size % 2 ^ 16))
      else if head.payload = 127 then s.writeFixSize (swapped 8 (size % 2 ^ 64))
      else some s).bind fun s =>
        if client then (s.writeFixSize mask).bind fun s => s.writeFixSize (applyMask mask msg.data)
        else s.writeFixSize msg.data

/-- `none` where the stream is closed. -/
def WSPong (s : Stream) : Option Stream := s.writeFixSize (sendHead ⟨WSFrameHead.PONG, []⟩ false true).encode

/-- What `recvMessage` has when it reads a frame. -/
structure RecvState where
  opcode : Nat
  data : Bytes
  curLen : Int

/-- `cur_len + length >= max_size`, on `uint64_t`. -/
def tooLarge (maxSize : Nat) (curLen : Int) (length : Nat) : Bool := decide (maxSize ≤ ((curLen + length) % 2 ^ 64).toNat)

/-- The data after `resize` and the reading of `part` at `cur_len`. -/
def RecvState.append (r : RecvState) (part : Bytes) : Bytes := r.data.take r.curLen.toNat ++ part

/-- `ws_recv_small_masked_frame`, for a last frame. -/
def recvSmallMaskedFrame (maxSize : Nat) (head : WSFrameHead) (r : RecvState) (s : Stream) :
    Option (WSFrameMessage × Stream) :=
  let length := head.payload
  if tooLarge maxSize r.curLen length then none
  else
    (s.readFixSize 4).bind fun (mask, s) =>
      (s.readFixSize length).bind fun (part, s) =>
        let opcode := if r.opcode = 0 ∧ head.opcode ≠ WSFrameHead.CONTINUE then head.opcode else r.opcode
        if head.fin then some (⟨opcode, r.append (applyMask mask part)⟩, s) else none

/-- The length of a frame, which may follow its head. -/
def recvLength (head : WSFrameHead) (s : Stream) : Option (Nat × Stream) :=
  if head.payload = 126 then (s.readFixSize 2).map fun (len, s) => (ofSwapped len, s)
  else if head.payload = 127 then (s.readFixSize 8).map fun (len, s) => (ofSwapped len, s)
  else some (head.payload, s)

/-- A data frame after its head and length: what `recvMessage` has then. -/
def recvPart (maxSize : Nat) (head : WSFrameHead) (r : RecvState) (length : Nat) (s : Stream) : Option (RecvState × Stream) :=
  if tooLarge maxSize r.curLen length then none
  else
    (if head.mask then s.readFixSize 4 else some ([0, 0, 0, 0], s)).bind fun (mask, s) =>
      (s.readFixSize length).map fun (part, s) =>
        ({ opcode := if r.opcode = 0 ∧ head.opcode ≠ WSFrameHead.CONTINUE then head.opcode else r.opcode
           data := r.append (if head.mask then applyMask mask part else part)
           curLen := Kv.i32 (r.curLen + length) }, s)

/-- The loop of `WSRecvMessage`; `none` where it is left, the stream is closed and there is no message.  A turn reads
two bytes at least. -/
def recvLoop (maxSize : Nat) (client : Bool) : Nat → RecvState → Stream → Option (WSFrameMessage × Stream)
  | 0, _, _ => none
  | fuel + 1, r, s =>
    (s.readFixSize 2).bind fun (bytes, s) =>
      let head := WSFrameHead.decode bytes
      if head.opcode = WSFrameHead.PING then (WSPong s).bind fun s => recvLoop maxSize client fuel r s
      else if head.opcode = WSFrameHead.PONG then recvLoop maxSize client fuel r s
      else if head.opcode = WSFrameHead.CONTINUE ∨ head.opcode = WSFrameHead.TEXT_FRAME ∨
          head.opcode = WSFrameHead.BIN_FRAME then
        if !client && !head.mask then none
        else if !client && head.fin && decide (0 < head.payload) && decide (head.payload < 126) &&
            decide (head.opcode ≠ WSFrameHead.CONTINUE) then
          recvSmallMaskedFrame maxSize head r s
        else
          (recvLength head s).bind fun (length, s) =>
            (recvPart maxSize head r length s).bind fun (r, s) =>
              if head.fin then some (⟨r.opcode, r.data⟩, s) else recvLoop maxSize client fuel r s
      else recvLoop maxSize client fuel r s

def WSRecvMessage (maxSize : Nat) (client : Bool) (s : Stream) : Option (WSFrameMessage × Stream) :=
  recvLoop maxSize client (s.input.flatten.length + 1) ⟨0, [], 0⟩ s

/-! ## Specification -/

/-- A message is sent in parts, each with the mask that `rand()` gives: the first with its opcode, the later ones as
continuations, and the last one with `fin`. -/
def sendParts (client : Bool) : Nat → List (Bytes × Bytes) → Stream → Option Stream
  | _, [], s => some s
  | opcode, (data, mask) :: parts, s =>
    (WSSendMessage ⟨opcode, data⟩ client parts.isEmpty mask s).bind (sendParts client WSFrameHead.CONTINUE parts)

/-- The bytes of a message. -/
def message (parts : List (Bytes × Bytes)) : Bytes := parts.flatMap Prod.fst

/-- Whatever the pieces in which the bytes arrive and whatever comes after them, the other side receives the message,
and has read what was sent. -/
def RoundTrips (maxSize opcode : Nat) (client : Bool) (parts : List (Bytes × Bytes)) : Prop :=
  ∀ s : Stream, s.closed = false → ∃ wire sent, sendParts client opcode parts s = some sent ∧
    sent.output = s.output ++ wire ∧ ∀ (r : Stream) (later : Bytes), r.Holds (wire ++ later) →
      ∃ r', WSRecvMessage maxSize (!client) r = some (⟨opcode, message parts⟩, r') ∧ r'.Holds later

/-! ## Lemmas -/

/-! ### The parts of a frame -/

theorem decode_encode (h : WSFrameHead) : WSFrameHead.decode h.encode = h := by
  obtain ⟨opcode, rsv3, rsv2, rsv1, fin, payload, mask, hopcode, hpayload⟩ := h
  have hbit : ∀ b : Bool, b.toNat ≤ 1 := Bool.toNat_le
  have h3 := hbit rsv3
  have h2 := hbit rsv2
  have h1 := hbit rsv1
  have hf := hbit fin
  have hm := hbit mask
  have hb0 : (UInt8.ofNat (opcode + 16 * rsv3.toNat + 32 * rsv2.toNat + 64 * rsv1.toNat + 128 * fin.toNat)).toNat =
      opcode + 16 * rsv3.toNat + 32 * rsv2.toNat + 64 * rsv1.toNat + 128 * fin.toNat := by
    rw [UInt8.toNat_ofNat']
    omega
  have hb1 : (UInt8.ofNat (payload + 128 * mask.toNat)).toNat = payload + 128 * mask.toNat := by
    rw [UInt8.toNat_ofNat']
    omega
  have hfield : ∀ (b : Bool) (n : Nat), n = b.toNat → decide (n = 1) = b := by
    rintro b n rfl
    cases b with
    | true => rfl
    | false => rfl
  unfold WSFrameHead.encode WSFrameHead.decode
  simp only [List.getD_cons_zero, List.getD_cons_succ, hb0, hb1, WSFrameHead.mk.injEq]
  refine ⟨by omega, hfield _ _ (by omega), hfield _ _ (by omega), hfield _ _ (by omega), hfield _ _ (by omega), by omega,
    hfield _ _ (by omega)⟩

theorem ofSwapped_swapped {width n : Nat} (h : n < 256 ^ width) : ofSwapped (swapped width n) = n := by
  unfold ofSwapped swapped
  rw [List.reverse_reverse, Codec.ofLe_le width n h]

theorem swapped_length (width n : Nat) : (swapped width n).length = width := by
  rw [swapped, List.length_reverse, Codec.le_length]

theorem applyMask_applyMask (mask data : Bytes) : applyMask mask (applyMask mask data) = data := by
  unfold applyMask
  rw [List.mapIdx_mapIdx]
  refine List.ext_getElem (by rw [List.length_mapIdx]) fun i h₁ h₂ => ?_
  rw [List.getElem_mapIdx]
  show data[i] ^^^ mask.getD (i % 4) 0 ^^^ mask.getD (i % 4) 0 = data[i]
  rw [UInt8.xor_assoc, UInt8.xor_self, UInt8.xor_zero]

theorem applyMask_length (mask data : Bytes) : (applyMask mask data).length = data.length := List.length_mapIdx

/-- The length after the head, where there is one. -/
def extra (size : Nat) : Bytes :=
  if payloadOf size = 126 then swapped 2 (size % 2 ^ 16)
  else if payloadOf size = 127 then swapped 8 (size % 2 ^ 64)
  else []

/-- What follows the length. -/
def masked (client : Bool) (mask data : Bytes) : Bytes := if client then mask ++ applyMask mask data else data

def frame (opcode : Nat) (client fin : Bool) (mask data : Bytes) : Bytes :=
  (sendHead ⟨opcode, data⟩ client fin).encode ++ (extra data.length ++ masked client mask data)

theorem payloadOf_cases (size : Nat) : (size < 126 ∧ payloadOf size = size) ∨
    (126 ≤ size ∧ size < 65536 ∧ payloadOf size = 126) ∨ 65536 ≤ size ∧ payloadOf size = 127 := by
  unfold payloadOf
  by_cases h : size < 126
  · exact .inl ⟨h, if_pos h⟩
  · rw [if_neg h]
    by_cases h' : size < 65536
    · exact .inr (.inl ⟨Nat.le_of_not_lt h, h', if_pos h'⟩)
    · exact .inr (.inr ⟨Nat.le_of_not_lt h', if_neg h'⟩)

/-! ### Sending -/

variable {s : Stream} {opcode : Nat} {client fin : Bool} {mask data : Bytes}

theorem write_head (hup : s.closed = false) (h : WSFrameHead) :
    s.writeFixSize h.encode = some { s with output := s.output ++ h.encode } :=
  Stream.writeFixSize_spec hup (List.cons_ne_nil _ _) (show 2 < 2 ^ 31 by decide)

theorem write_extra (hup : s.closed = false) (size : Nat) :
    (if payloadOf size = 126 then s.writeFixSize (swapped 2 (size % 2 ^ 16))
      else if payloadOf size = 127 then s.writeFixSize (swapped 8 (size % 2 ^ 64))
      else some s) = some { s with output := s.output ++ extra size } := by
  have hswapped : ∀ width n, 0 < width → width < 2 ^ 31 →
      s.writeFixSize (swapped width n) = some { s with output := s.output ++ swapped width n } := by
    intro width n hpos hlt
    refine Stream.writeFixSize_spec hup ?_ (by rw [swapped_length]; exact hlt)
    exact List.length_pos_iff.mp (by rw [swapped_length]; exact hpos)
  unfold extra
  split
  · exact hswapped 2 _ (by decide) (by decide)
  · split
    · exact hswapped 8 _ (by decide) (by decide)
    · rw [List.append_nil]

theorem send_spec (hup : s.closed = false) (hdata : data ≠ []) (hlt : data.length < 2 ^ 31) (hmask : mask.length = 4) :
    WSSendMessage ⟨opcode, data⟩ client fin mask s = some { s with output := s.output ++ frame opcode client fin mask data } := by
  unfold WSSendMessage
  dsimp only
  have hpayload : (sendHead ⟨opcode, data⟩ client fin).payload = payloadOf data.length := rfl
  rw [write_head hup, Option.bind_some, hpayload, write_extra (by exact hup) data.length, Option.bind_some]
  unfold frame masked
  cases client with
  | true =>
    have hne : mask ≠ [] := List.length_pos_iff.mp (by rw [hmask]; decide)
    have hne' : applyMask mask data ≠ [] :=
      List.length_pos_iff.mp (by rw [applyMask_length]; exact List.length_pos_iff.mpr hdata)
    simp only [if_true]
    rw [Stream.writeFixSize_spec (by exact hup) hne (by rw [hmask]; decide), Option.bind_some,
      Stream.writeFixSize_spec (by exact hup) hne' (by rw [applyMask_length]; exact hlt)]
    simp only [List.append_assoc]
  | false =>
    simp only [Bool.false_eq_true, if_false]
    rw [Stream.writeFixSize_spec (by exact hup) hdata hlt]
    simp only [List.append_assoc]

theorem send_large (hlo : 2 ^ 31 ≤ data.length) (hhi : data.length < 2 ^ 32) :
    WSSendMessage ⟨opcode, data⟩ client fin mask s = none := by
  have hlast : ∀ s : Stream, (if client then (s.writeFixSize mask).bind fun s => s.writeFixSize (applyMask mask data)
      else s.writeFixSize data) = none := by
    intro s
    cases client with
    | true =>
      simp only [if_true]
      refine Option.bind_eq_none_iff.mpr fun s' _ => ?_
      exact Stream.writeFixSize_large (by rw [applyMask_length]; exact hlo) (by rw [applyMask_length]; exact hhi)
    | false =>
      simp only [Bool.false_eq_true, if_false]
      exact Stream.writeFixSize_large hlo hhi
  unfold WSSendMessage
  exact Option.bind_eq_none_iff.mpr fun s1 _ => Option.bind_eq_none_iff.mpr fun s2 _ => hlast s2

/-! ### Receiving -/

variable {rest : Bytes}

theorem read_swapped {width n : Nat} (hwidth : 0 < width ∧ width < 2 ^ 31) (hn : n < 256 ^ width)
    (h : s.Holds (swapped width n ++ rest)) :
    ∃ s', ((s.readFixSize width).map fun (len, s) => (ofSwapped len, s)) = some (n, s') ∧ s'.Holds rest := by
  have hlen := swapped_length width n
  obtain ⟨s', hread, hholds, -⟩ := Stream.readFixSize_spec h (List.length_pos_iff.mp (by rw [hlen]; exact hwidth.1))
    (by rw [hlen]; exact hwidth.2)
  rw [hlen] at hread
  refine ⟨s', ?_, hholds⟩
  rw [hread, Option.map_some]
  show some (ofSwapped _, s') = _
  rw [ofSwapped_swapped hn]

theorem recvLength_spec (head : WSFrameHead) {size : Nat} (hpayload : head.payload = payloadOf size)
    (hsize : size < 2 ^ 64) (h : s.Holds (extra size ++ rest)) :
    ∃ s', recvLength head s = some (size, s') ∧ s'.Holds rest := by
  unfold recvLength
  rw [hpayload]
  unfold extra at h
  rcases payloadOf_cases size with ⟨hlt, hp⟩ | ⟨hlo, hhi, hp⟩ | ⟨hlo, hp⟩
  · rw [hp] at h ⊢
    rw [if_neg (by omega), if_neg (by omega)] at h ⊢
    exact ⟨s, rfl, h⟩
  · rw [hp, if_pos rfl, Nat.mod_eq_of_lt (by omega)] at h
    rw [hp, if_pos rfl]
    exact read_swapped (by decide) (by omega) h
  · rw [hp, if_neg (by decide), if_pos rfl, Nat.mod_eq_of_lt (by omega)] at h
    rw [hp, if_neg (by decide), if_pos rfl]
    exact read_swapped (by decide) (by omega) h

theorem tooLarge_eq {maxSize size length : Nat} (hmax : maxSize < 2 ^ 32) (hlt : size + length < maxSize) :
    tooLarge maxSize (Kv.i32 size) length = decide (2 ^ 31 ≤ size) := by
  unfold tooLarge Kv.i32
  rw [Int.bmod_def, decide_eq_decide]
  omega

/-- The opcode that the receiver has after a frame. -/
def opcodeAfter (r : RecvState) (opcode : Nat) : Nat := if r.opcode = 0 ∧ opcode ≠ WSFrameHead.CONTINUE then opcode else r.opcode

/-- What the receiver has after a frame. -/
def RecvState.after (r : RecvState) (opcode : Nat) (data : Bytes) : RecvState :=
  ⟨opcodeAfter r opcode, r.append data, Kv.i32 (r.curLen + data.length)⟩

/-- A frame passes the check of its size, and the length that is read counts as one. -/
def Takes (maxSize : Nat) (r : RecvState) (data : Bytes) : Prop :=
  tooLarge maxSize r.curLen data.length = false ∧ 0 < Kv.i32 data.length

instance (maxSize : Nat) (r : RecvState) (data : Bytes) : Decidable (Takes maxSize r data) :=
  inferInstanceAs (Decidable (_ ∧ _))

variable {r : RecvState}

theorem takes_of_lt {maxSize : Nat} (hmax : maxSize < 2 ^ 32) (hsize : r.data.length + data.length < maxSize)
    (hcur : r.curLen = Kv.i32 r.data.length) (hlt : r.data.length < 2 ^ 31) (hdata : data ≠ []) (hdlt : data.length < 2 ^ 31) :
    Takes maxSize r data := by
  refine ⟨?_, Stream.i32_pos (List.length_pos_iff.mpr hdata) hdlt⟩
  rw [hcur, tooLarge_eq hmax hsize]
  exact decide_eq_false (by omega)

theorem after_eq (hcur : r.curLen = Kv.i32 r.data.length) (hlt : r.data.length < 2 ^ 31) (data : Bytes) :
    r.after opcode data = ⟨opcodeAfter r opcode, r.data ++ data, Kv.i32 (r.data ++ data).length⟩ := by
  have hlen : r.curLen.toNat = r.data.length := by
    rw [hcur, Kv.i32_natCast hlt, Int.toNat_natCast]
  unfold RecvState.after RecvState.append
  rw [hlen, List.take_length, hcur, List.length_append]
  unfold Kv.i32
  rw [Int.bmod_add_bmod, Int.natCast_add]

theorem read_masked {mask data rest : Bytes} (hmask : mask.length = 4)
    (h : s.Holds (mask ++ applyMask mask data ++ rest)) :
    ∃ s1 s2, s.readFixSize 4 = some (mask, s1) ∧ s2.Holds rest ∧
      s1.readFixSize data.length = if 0 < Kv.i32 data.length then some (applyMask mask data, s2) else none := by
  rw [List.append_assoc] at h
  obtain ⟨s1, hread, h₁, -⟩ := Stream.readFixSize_spec h (List.length_pos_iff.mp (by rw [hmask]; decide))
    (by rw [hmask]; decide)
  obtain ⟨s2, h₂, hread'⟩ := Stream.readFixSize_holds h₁
  rw [hmask] at hread
  rw [applyMask_length] at hread'
  exact ⟨s1, s2, hread, h₂, hread'⟩

theorem recvPart_spec (maxSize : Nat) (head : WSFrameHead) (r : RecvState) (hmask : mask.length = 4)
    (h : s.Holds (masked head.mask mask data ++ rest)) :
    ∃ s', s'.Holds rest ∧ recvPart maxSize head r data.length s =
      if Takes maxSize r data then some (r.after head.opcode data, s') else none := by
  have hread : ∃ s1 s2 key, (if head.mask then s.readFixSize 4 else some ([0, 0, 0, 0], s)) = some (key, s1) ∧ s2.Holds rest ∧
      s1.readFixSize data.length =
        if 0 < Kv.i32 data.length then some (if head.mask then applyMask key data else data, s2) else none := by
    cases hm : head.mask with
    | true =>
      rw [hm] at h
      obtain ⟨s1, s2, hread, h₂, hread'⟩ := read_masked hmask h
      exact ⟨s1, s2, mask, hread, h₂, hread'⟩
    | false =>
      rw [hm] at h
      obtain ⟨s2, h₂, hread⟩ := Stream.readFixSize_holds h
      exact ⟨s, s2, _, rfl, h₂, hread⟩
  obtain ⟨s1, s2, key, hread, h₂, hread'⟩ := hread
  refine ⟨s2, h₂, ?_⟩
  unfold recvPart
  by_cases hlarge : tooLarge maxSize r.curLen data.length = true
  · rw [if_pos hlarge, if_neg fun h => Bool.noConfusion (hlarge.symm.trans h.1)]
  · rw [if_neg hlarge, hread, Option.bind_some]
    show (s1.readFixSize data.length).map _ = _
    rw [hread']
    by_cases hpos : 0 < Kv.i32 data.length
    · have htakes : Takes maxSize r data := ⟨Bool.not_eq_true _ ▸ hlarge, hpos⟩
      rw [if_pos hpos, if_pos htakes, Option.map_some]
      cases head.mask with
      | true =>
        show some ((⟨_, r.append (applyMask key (applyMask key data)), _⟩ : RecvState), s2) = _
        rw [applyMask_applyMask]
        rfl
      | false => rfl
    · have hnot : ¬ Takes maxSize r data := fun h => hpos h.2
      rw [if_neg hpos, if_neg hnot]
      rfl

theorem recvSmall_spec (maxSize : Nat) (head : WSFrameHead) (r : RecvState) (hmask : mask.length = 4)
    (hfin : head.fin = true) (hpayload : head.payload = data.length) (h : s.Holds (mask ++ applyMask mask data ++ rest)) :
    ∃ s', s'.Holds rest ∧ recvSmallMaskedFrame maxSize head r s =
      if Takes maxSize r data then some (⟨opcodeAfter r head.opcode, r.append data⟩, s') else none := by
  obtain ⟨s1, s2, hread, h₂, hread'⟩ := read_masked hmask h
  refine ⟨s2, h₂, ?_⟩
  unfold recvSmallMaskedFrame
  rw [hpayload]
  dsimp only
  by_cases hlarge : tooLarge maxSize r.curLen data.length = true
  · rw [if_pos hlarge, if_neg fun h => Bool.noConfusion (hlarge.symm.trans h.1)]
  · rw [if_neg hlarge, hread, Option.bind_some]
    show (s1.readFixSize data.length).bind _ = _
    rw [hread']
    by_cases hpos : 0 < Kv.i32 data.length
    · have htakes : Takes maxSize r data := ⟨Bool.not_eq_true _ ▸ hlarge, hpos⟩
      rw [if_pos hpos, if_pos htakes, Option.bind_some]
      show (if head.fin = true then some ((⟨_, r.append (applyMask mask (applyMask mask data))⟩ : WSFrameMessage), s2)
        else none) = _
      rw [if_pos hfin, applyMask_applyMask]
      rfl
    · have hnot : ¬ Takes maxSize r data := fun h => hpos h.2
      rw [if_neg hpos, if_neg hnot]
      rfl

/-- The opcodes of data frames. -/
def IsData (opcode : Nat) : Prop :=
  opcode = WSFrameHead.CONTINUE ∨ opcode = WSFrameHead.TEXT_FRAME ∨ opcode = WSFrameHead.BIN_FRAME

theorem IsData.ne (h : IsData opcode) : opcode ≠ WSFrameHead.PING ∧ opcode ≠ WSFrameHead.PONG ∧ opcode % 16 = opcode := by
  rcases h with rfl | rfl | rfl
  · decide
  · decide
  · decide

theorem read_head (head : WSFrameHead) (h : s.Holds (head.encode ++ rest)) :
    ∃ s', s.readFixSize 2 = some (head.encode, s') ∧ s'.Holds rest := by
  obtain ⟨s', hread, hholds, -⟩ := Stream.readFixSize_spec h (List.cons_ne_nil _ _) (show 2 < 2 ^ 31 by decide)
  exact ⟨s', hread, hholds⟩

variable {maxSize fuel : Nat}

/-- After the head of a data frame that has the mask it must have. -/
theorem recvLoop_data {s1 : Stream}
    (hop : IsData opcode) (hread : s.readFixSize 2 = some ((sendHead ⟨opcode, data⟩ client fin).encode, s1)) :
    recvLoop maxSize (!client) (fuel + 1) r s =
      if client && fin && decide (0 < payloadOf data.length) && decide (payloadOf data.length < 126) &&
          decide (opcode ≠ WSFrameHead.CONTINUE) then
        recvSmallMaskedFrame maxSize (sendHead ⟨opcode, data⟩ client fin) r s1
      else
        (recvLength (sendHead ⟨opcode, data⟩ client fin) s1).bind fun (length, s) =>
          (recvPart maxSize (sendHead ⟨opcode, data⟩ client fin) r length s).bind fun (r, s) =>
            if fin then some (⟨r.opcode, r.data⟩, s) else recvLoop maxSize (!client) fuel r s := by
  obtain ⟨hping, hpong, hmod⟩ := hop.ne
  have hopcode : (sendHead ⟨opcode, data⟩ client fin).opcode = opcode := hmod
  have hdata : (sendHead ⟨opcode, data⟩ client fin).opcode = WSFrameHead.CONTINUE ∨
      (sendHead ⟨opcode, data⟩ client fin).opcode = WSFrameHead.TEXT_FRAME ∨
        (sendHead ⟨opcode, data⟩ client fin).opcode = WSFrameHead.BIN_FRAME := by
    rw [hopcode]
    exact hop
  have hmask : (!(!client) && !(sendHead ⟨opcode, data⟩ client fin).mask) = false := by
    show (!(!client) && !client) = false
    cases client with
    | true => rfl
    | false => rfl
  rw [recvLoop, hread, Option.bind_some]
  dsimp only
  rw [decode_encode, if_neg (by rw [hopcode]; exact hping), if_neg (by rw [hopcode]; exact hpong), if_pos hdata, hmask,
    if_neg Bool.false_ne_true, hopcode, Bool.not_not]
  rfl

/-- One frame of a message: it is read whole, or the stream is closed. -/
theorem recvLoop_frame (maxSize fuel : Nat) (r : RecvState) (hop : IsData opcode)
    (hdlt : data.length < 2 ^ 64) (hmask : mask.length = 4) (h : s.Holds (frame opcode client fin mask data ++ rest)) :
    ∃ s', s'.Holds rest ∧ recvLoop maxSize (!client) (fuel + 1) r s =
      if Takes maxSize r data then
        if fin then some (⟨opcodeAfter r opcode, r.append data⟩, s')
        else recvLoop maxSize (!client) fuel (r.after opcode data) s'
      else none := by
  unfold frame at h
  rw [List.append_assoc, List.append_assoc] at h
  obtain ⟨s1, hread, h₁⟩ := read_head _ h
  have hopcode : (sendHead ⟨opcode, data⟩ client fin).opcode = opcode := hop.ne.2.2
  rw [recvLoop_data hop hread]
  split
  next hsmall =>
    simp only [Bool.and_eq_true, decide_eq_true_eq] at hsmall
    obtain ⟨⟨⟨⟨hclient, hfin⟩, -⟩, h126⟩, -⟩ := hsmall
    subst hclient
    subst hfin
    obtain ⟨hshort, hpayload⟩ : data.length < 126 ∧ payloadOf data.length = data.length := by
      rcases payloadOf_cases data.length with h | h | h
      · exact h
      · omega
      · omega
    have hextra : extra data.length = [] := by
      unfold extra
      rw [hpayload, if_neg (by omega), if_neg (by omega)]
    rw [hextra, List.nil_append] at h₁
    obtain ⟨s2, h₂, hrecv⟩ := recvSmall_spec maxSize (sendHead ⟨opcode, data⟩ true true) r hmask rfl hpayload h₁
    refine ⟨s2, h₂, ?_⟩
    rw [hrecv, hopcode]
    rfl
  next =>
    obtain ⟨s2, hlength, h₂⟩ := recvLength_spec (sendHead ⟨opcode, data⟩ client fin) rfl hdlt h₁
    obtain ⟨s3, h₃, hpart⟩ := recvPart_spec maxSize (sendHead ⟨opcode, data⟩ client fin) r hmask h₂
    refine ⟨s3, h₃, ?_⟩
    rw [hlength, Option.bind_some]
    show (recvPart maxSize (sendHead ⟨opcode, data⟩ client fin) r data.length s2).bind _ = _
    rw [hpart, hopcode]
    by_cases htakes : Takes maxSize r data
    · rw [if_pos htakes, if_pos htakes]
      rfl
    · rw [if_neg htakes, if_neg htakes]
      rfl

theorem recvLoop_taken {maxSize : Nat} (fuel : Nat) (hop : IsData opcode) (hmax : maxSize < 2 ^ 32)
    (hsize : r.data.length + data.length < maxSize) (hcur : r.curLen = Kv.i32 r.data.length) (hlt : r.data.length < 2 ^ 31)
    (hdata : data ≠ []) (hdlt : data.length < 2 ^ 31) (hmask : mask.length = 4)
    (h : s.Holds (frame opcode client fin mask data ++ rest)) :
    ∃ s', s'.Holds rest ∧ recvLoop maxSize (!client) (fuel + 1) r s =
      if fin then some (⟨opcodeAfter r opcode, r.data ++ data⟩, s')
      else recvLoop maxSize (!client) fuel ⟨opcodeAfter r opcode, r.data ++ data, Kv.i32 (r.data ++ data).length⟩ s' := by
  obtain ⟨s', h', hloop⟩ := recvLoop_frame maxSize fuel r hop (by omega) hmask h
  have hafter : r.after opcode data = _ := after_eq hcur hlt data
  have happend : r.append data = r.data ++ data := congrArg RecvState.data hafter
  refine ⟨s', h', ?_⟩
  rw [hloop, if_pos (takes_of_lt hmax hsize hcur hlt hdata hdlt), hafter, happend]

theorem recvLoop_overflow (hmax : maxSize < 2 ^ 32)
    (hsize : r.data.length + data.length < maxSize) (hcur : r.curLen = Kv.i32 r.data.length) (hle : 2 ^ 31 ≤ r.data.length)
    (hmask : mask.length = 4) (h : s.Holds (frame WSFrameHead.CONTINUE client fin mask data ++ rest)) :
    recvLoop maxSize (!client) fuel r s = none := by
  cases fuel with
  | zero => rfl
  | succ fuel =>
    obtain ⟨s', -, hloop⟩ := recvLoop_frame maxSize fuel r (.inl rfl) (by omega) hmask h
    have hlarge : tooLarge maxSize r.curLen data.length = true := by
      rw [hcur, tooLarge_eq hmax hsize]
      exact decide_eq_true hle
    rw [hloop, if_neg fun h => ?_]
    rw [h.1] at hlarge
    cases hlarge

/-! ### Whole messages -/

/-- The frames of a message. -/
def frames (client : Bool) : Nat → List (Bytes × Bytes) → Bytes
  | _, [] => []
  | opcode, (data, mask) :: parts => frame opcode client parts.isEmpty mask data ++ frames client WSFrameHead.CONTINUE parts

/-- What is sent has data in every part, and four bytes in every mask. -/
def Formed (parts : List (Bytes × Bytes)) : Prop := ∀ p ∈ parts, p.1 ≠ [] ∧ p.2.length = 4

variable {parts : List (Bytes × Bytes)}

theorem sendParts_spec (hup : s.closed = false) (hformed : Formed parts) (hlt : ∀ p ∈ parts, p.1.length < 2 ^ 31) :
    sendParts client opcode parts s = some { s with output := s.output ++ frames client opcode parts } := by
  induction parts generalizing s opcode with
  | nil =>
    unfold sendParts frames
    rw [List.append_nil]
  | cons p parts ih =>
    obtain ⟨data, mask⟩ := p
    obtain ⟨hdata, hmask⟩ := hformed _ List.mem_cons_self
    have hfirst : WSSendMessage ⟨opcode, data⟩ client parts.isEmpty mask s = some _ :=
      send_spec hup hdata (hlt _ List.mem_cons_self) hmask
    rw [sendParts, hfirst, Option.bind_some, ih (by exact hup) (fun q hq => hformed q (List.mem_cons_of_mem _ hq))
      fun q hq => hlt q (List.mem_cons_of_mem _ hq)]
    unfold frames
    simp only [List.append_assoc]
    cases parts <;> rfl

theorem sendParts_large (hlo : ∃ p ∈ parts, 2 ^ 31 ≤ p.1.length) (hhi : ∀ p ∈ parts, p.1.length < 2 ^ 32) :
    sendParts client opcode parts s = none := by
  induction parts generalizing s opcode with
  | nil =>
    obtain ⟨p, hp, -⟩ := hlo
    cases hp
  | cons p parts ih =>
    obtain ⟨data, mask⟩ := p
    rw [sendParts]
    by_cases hfirst : 2 ^ 31 ≤ data.length
    · rw [send_large hfirst (hhi _ List.mem_cons_self)]
      rfl
    · refine Option.bind_eq_none_iff.mpr fun s' _ => ih ?_ fun q hq => hhi q (List.mem_cons_of_mem _ hq)
      obtain ⟨q, hq, hle⟩ := hlo
      rcases List.mem_cons.mp hq with rfl | hq
      · exact absurd hle hfirst
      · exact ⟨q, hq, hle⟩

theorem message_cons (p : Bytes × Bytes) (parts : List (Bytes × Bytes)) : message (p :: parts) = p.1 ++ message parts :=
  List.flatMap_cons

/-- The parts are read one after the other, as long as what is there before each of them fits an `int`. -/
theorem recv_parts (hop : IsData opcode) (hmax : maxSize < 2 ^ 32)
    (hne : parts ≠ []) (hformed : Formed parts) (hlt : ∀ p ∈ parts, p.1.length < 2 ^ 31) (hfuel : parts.length ≤ fuel)
    (hsize : r.data.length + (message parts).length < maxSize) (hcur : r.curLen = Kv.i32 r.data.length)
    (hfits : r.data.length + (message parts.dropLast).length < 2 ^ 31)
    (h : s.Holds (frames client opcode parts ++ rest)) :
    ∃ s', s'.Holds rest ∧
      recvLoop maxSize (!client) fuel r s = some (⟨opcodeAfter r opcode, r.data ++ message parts⟩, s') := by
  induction parts generalizing s opcode r fuel with
  | nil => exact absurd rfl hne
  | cons p parts ih =>
    obtain ⟨data, mask⟩ := p
    obtain ⟨fuel, rfl⟩ := Nat.exists_eq_add_one_of_ne_zero (Nat.ne_of_gt (Nat.lt_of_lt_of_le (Nat.succ_pos _) hfuel))
    obtain ⟨hdata, hmask⟩ := hformed _ List.mem_cons_self
    rw [message_cons, List.length_append] at hsize
    dsimp only at hdata hmask hsize
    unfold frames at h
    rw [List.append_assoc] at h
    have hdlt := hlt _ List.mem_cons_self
    dsimp only at hdlt
    obtain ⟨s1, h₁, hloop⟩ := recvLoop_taken fuel hop hmax (by omega) hcur (by omega) hdata hdlt hmask h
    rw [hloop, message_cons]
    cases hparts : parts with
    | nil =>
      rw [hparts] at h₁
      refine ⟨s1, h₁, ?_⟩
      rw [List.isEmpty_nil, if_pos rfl]
      show _ = some ((⟨_, r.data ++ (data ++ [])⟩ : WSFrameMessage), s1)
      rw [List.append_nil]
    | cons q more =>
      rw [← hparts]
      have hmore : parts ≠ [] := by
        rw [hparts]
        exact List.cons_ne_nil _ _
      have hempty : parts.isEmpty = false := by simpa using hmore
      have hlast : (message ((data, mask) :: parts).dropLast).length = data.length + (message parts.dropLast).length := by
        rw [List.dropLast_cons_of_ne_nil hmore, message_cons, List.length_append]
      obtain ⟨r', hr'⟩ : ∃ r' : RecvState, r' = ⟨opcodeAfter r opcode, r.data ++ data, Kv.i32 (r.data ++ data).length⟩ :=
        ⟨_, rfl⟩
      have hcur' : r'.curLen = Kv.i32 r'.data.length := by rw [hr']
      have hlen' : r'.data.length = r.data.length + data.length := by rw [hr', List.length_append]
      have hkeep : opcodeAfter r' WSFrameHead.CONTINUE = opcodeAfter r opcode := by
        rw [hr']
        exact if_neg fun h => h.2 rfl
      obtain ⟨s2, h₂, hrest⟩ := ih (.inl rfl) hmore (fun q hq => hformed q (List.mem_cons_of_mem _ hq))
        (fun q hq => hlt q (List.mem_cons_of_mem _ hq)) (Nat.le_of_succ_le_succ hfuel) (by omega) hcur' (by omega) h₁
      refine ⟨s2, h₂, ?_⟩
      rw [hempty, if_neg Bool.false_ne_true, ← hr', hrest, hkeep, hr', List.append_assoc]

/-- A part comes after more than an `int` can count. -/
theorem recv_parts_overflow (hop : IsData opcode)
    (hmax : maxSize < 2 ^ 32) (hne : parts ≠ []) (hformed : Formed parts) (hlt : ∀ p ∈ parts, p.1.length < 2 ^ 31)
    (hsize : r.data.length + (message parts).length < maxSize) (hcur : r.curLen = Kv.i32 r.data.length)
    (hstart : 2 ^ 31 ≤ r.data.length → opcode = WSFrameHead.CONTINUE)
    (hover : 2 ^ 31 ≤ r.data.length + (message parts.dropLast).length)
    (h : s.Holds (frames client opcode parts ++ rest)) : recvLoop maxSize (!client) fuel r s = none := by
  induction parts generalizing s opcode r fuel with
  | nil => exact absurd rfl hne
  | cons p parts ih =>
    obtain ⟨data, mask⟩ := p
    obtain ⟨hdata, hmask⟩ := hformed _ List.mem_cons_self
    rw [message_cons, List.length_append] at hsize
    dsimp only at hdata hmask hsize
    unfold frames at h
    rw [List.append_assoc] at h
    by_cases hbig : 2 ^ 31 ≤ r.data.length
    · obtain rfl := hstart hbig
      exact recvLoop_overflow hmax (by omega) hcur hbig hmask h
    · cases fuel with
      | zero => rfl
      | succ fuel =>
        have hmore : parts ≠ [] := by
          rintro rfl
          have hover : 2 ^ 31 ≤ r.data.length + 0 := hover
          omega
        have hempty : parts.isEmpty = false := by simpa using hmore
        have hlast : (message ((data, mask) :: parts).dropLast).length = data.length + (message parts.dropLast).length := by
          rw [List.dropLast_cons_of_ne_nil hmore, message_cons, List.length_append]
        rw [hlast] at hover
        have hdlt := hlt _ List.mem_cons_self
        dsimp only at hdlt
        obtain ⟨s1, h₁, hloop⟩ := recvLoop_taken fuel hop hmax (by omega) hcur (by omega) hdata hdlt hmask h
        obtain ⟨r', hr'⟩ : ∃ r' : RecvState, r' = ⟨opcodeAfter r opcode, r.data ++ data, Kv.i32 (r.data ++ data).length⟩ :=
          ⟨_, rfl⟩
        have hcur' : r'.curLen = Kv.i32 r'.data.length := by rw [hr']
        have hlen' : r'.data.length = r.data.length + data.length := by rw [hr', List.length_append]
        rw [hloop, hempty, if_neg Bool.false_ne_true, ← hr']
        exact ih (.inl rfl) hmore (fun q hq => hformed q (List.mem_cons_of_mem _ hq))
          (fun q hq => hlt q (List.mem_cons_of_mem _ hq)) (by omega) hcur' (fun _ => rfl) (by omega) h₁

theorem length_le_frames (client : Bool) (opcode : Nat) (parts : List (Bytes × Bytes)) :
    parts.length ≤ (frames client opcode parts).length := by
  induction parts generalizing opcode with
  | nil => exact Nat.zero_le _
  | cons p parts ih =>
    obtain ⟨data, mask⟩ := p
    have hrest := ih WSFrameHead.CONTINUE
    have hhead : (sendHead ⟨opcode, data⟩ client parts.isEmpty).encode.length = 2 := rfl
    unfold frames frame
    rw [List.length_append, List.length_append, hhead, List.length_cons]
    omega

theorem length_le_message {p : Bytes × Bytes} (hp : p ∈ parts) : p.1.length ≤ (message parts).length := by
  obtain ⟨front, back, rfl⟩ := List.append_of_mem hp
  unfold message
  rw [List.flatMap_append, List.flatMap_cons, List.length_append, List.length_append]
  omega

/-! ## Top theorem -/

theorem roundTrip_iff {maxSize : Nat} (hmax : maxSize < 2 ^ 32)
    (hop : opcode = WSFrameHead.TEXT_FRAME ∨ opcode = WSFrameHead.BIN_FRAME) (hne : parts ≠ []) (hformed : Formed parts)
    (hsize : (message parts).length < maxSize) :
    RoundTrips maxSize opcode client parts ↔
      (∀ p ∈ parts, p.1.length < 2 ^ 31) ∧ (message parts.dropLast).length < 2 ^ 31 := by
  have hstart : opcodeAfter ⟨0, [], 0⟩ opcode = opcode := by
    rcases hop with rfl | rfl
    · decide
    · decide
  have hempty : (⟨0, [], 0⟩ : RecvState).curLen = Kv.i32 (⟨0, [], 0⟩ : RecvState).data.length := by decide
  have hsize' : (⟨0, [], 0⟩ : RecvState).data.length + (message parts).length < maxSize := by
    rw [List.length_nil, Nat.zero_add]
    exact hsize
  constructor
  · intro h
    obtain ⟨wire, sent, hsend, hout, hrecv⟩ := h ⟨[], [], false⟩ rfl
    have hlt : ∀ p ∈ parts, p.1.length < 2 ^ 31 := by
      by_contra hall
      push Not at hall
      rw [sendParts_large hall fun p hp => Nat.lt_of_le_of_lt (length_le_message hp) (by omega)] at hsend
      cases hsend
    refine ⟨hlt, ?_⟩
    by_contra hover
    rw [sendParts_spec rfl hformed hlt] at hsend
    obtain rfl := Option.some.inj hsend
    have hwire : frames client opcode parts = wire := hout
    subst hwire
    have hlong := length_le_frames client opcode parts
    have hpos := List.length_pos_iff.mpr hne
    have hholds : (⟨[frames client opcode parts], [], false⟩ : Stream).Holds (frames client opcode parts ++ []) := by
      refine ⟨rfl, fun piece hp => ?_, by rw [List.append_nil]; exact List.flatten_singleton⟩
      obtain rfl := List.mem_singleton.mp hp
      exact List.length_pos_iff.mp (by omega)
    obtain ⟨r', hmessage, -⟩ := hrecv _ [] hholds
    have hnone : WSRecvMessage maxSize (!client) ⟨[frames client opcode parts], [], false⟩ = none :=
      recv_parts_overflow (.inr hop) hmax hne hformed hlt hsize' hempty (fun hbig => absurd hbig (by decide))
        (by rw [List.length_nil, Nat.zero_add]; omega) hholds
    rw [hnone] at hmessage
    cases hmessage
  · rintro ⟨hlt, hfits⟩ s hup
    refine ⟨frames client opcode parts, _, sendParts_spec hup hformed hlt, rfl, fun r later hholds => ?_⟩
    have hfuel : parts.length ≤ r.input.flatten.length + 1 := by
      have := length_le_frames client opcode parts
      rw [hholds.bytes, List.length_append]
      omega
    obtain ⟨r', hrest, hloop⟩ := recv_parts (.inr hop) hmax hne hformed hlt hfuel hsize' hempty
      (by rw [List.length_nil, Nat.zero_add]; exact hfits) hholds
    refine ⟨r', ?_, hrest⟩
    unfold WSRecvMessage
    rw [hloop, hstart]
    rfl

theorem roundTrip_iff_hi :
    RoundTrips (1024 * 1024 * 32) WSFrameHead.TEXT_FRAME true
      [([104], [1, 2, 3, 4]), ([105, 32], [5, 6, 7, 8]), ([33], [9, 0, 0, 0])] :=
  (roundTrip_iff (by decide) (.inl rfl) (List.cons_ne_nil _ _) (by unfold Formed; decide) (by decide)).mpr
    ⟨by decide, by decide⟩

/-- A message of `2 ^ 31` bytes is refused by the side that sends it, though a larger one is allowed. -/
theorem large_refused :
    ¬ RoundTrips (2 ^ 32 - 1) WSFrameHead.BIN_FRAME false [(List.replicate (2 ^ 31) 0, [0, 0, 0, 0])] := by
  intro h
  obtain ⟨wire, sent, hsend, -⟩ := h ⟨[], [], false⟩ rfl
  rw [sendParts_large ⟨_, List.mem_cons_self, by rw [List.length_replicate]⟩ fun p hp => ?_] at hsend
  · cases hsend
  · obtain rfl := List.mem_singleton.mp hp
    rw [List.length_replicate]
    decide

end Http
