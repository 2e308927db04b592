import ZeroFrameworks.Kv.Bytes
import ZeroFrameworks.Lib.Codec
import ZeroFrameworks.Lib.Ring

/-!
# The log ring buffer (`core/log/log_buffer.cc`)

A record is the length of a message in four bytes, the message, and bytes up to a multiple of eight.  Records follow
each other around the buffer from the read index to the write index.

    a run of writes and reads from a new buffer is one of a queue   (run_fifo)
      a write is refused only when its record and four bytes more are too much for what is free
-/

namespace Core

open Kv (Bytes)
open Cells (overlay window)

/-! ## Algorithm -/

/-- The indices and counts are `size_t`. -/
structure LogRingBuffer where
  buffer : Bytes
  capacity : Nat
  mask : Nat
  writeIndex : Nat
  readIndex : Nat
  writeCount : Nat
  dropCount : Nat

/-- `memcpy(buffer + pos, data, ...)`; `none` outside of the buffer. -/
def copyIn (buffer : Bytes) (pos : Nat) (data : Bytes) : Option Bytes :=
  if pos + data.length ≤ buffer.length then some (overlay buffer pos data) else none

/-- `memcpy(..., buffer + pos, n)`; `none` outside of the buffer. -/
def copyOut (buffer : Bytes) (pos n : Nat) : Option Bytes :=
  if pos + n ≤ buffer.length then some (window buffer pos n) else none

namespace LogRingBuffer

def roundUpToPowerOfTwo (n : Nat) : Nat :=
  if n ≤ 1 then 2
  else
    let n := n - 1
    let n := n ||| n >>> 1
    let n := n ||| n >>> 2
    let n := n ||| n >>> 4
    let n := n ||| n >>> 8
    let n := n ||| n >>> 16
    let n := n ||| n >>> 32
    n + 1

/-- `LogRingBuffer(capacity)`. -/
def create (n : Nat) : LogRingBuffer where
  buffer := List.replicate (roundUpToPowerOfTwo n) 0
  capacity := roundUpToPowerOfTwo n
  mask := roundUpToPowerOfTwo n - 1
  writeIndex := 0
  readIndex := 0
  writeCount := 0
  dropCount := 0

/-- A copy to `pos` on that goes on at the start of the buffer. -/
def copyInAround (capacity : Nat) (buffer : Bytes) (pos : Nat) (data : Bytes) : Option Bytes :=
  if pos + data.length ≤ capacity then copyIn buffer pos data
  else do
    let first_part := capacity - pos
    let buffer ← copyIn buffer pos (data.take first_part)
    copyIn buffer 0 (data.drop first_part)

def copyOutAround (capacity : Nat) (buffer : Bytes) (pos n : Nat) : Option Bytes :=
  if pos + n ≤ capacity then copyOut buffer pos n
  else do
    let first_part := capacity - pos
    let first ← copyOut buffer pos first_part
    let rest ← copyOut buffer 0 (n - first_part)
    pure (first ++ rest)

/-- `(n + 7) & ~7UL`. -/
def align (n : Nat) : Nat := (n + 7) / 8 * 8

/-- The bytes between the end of a record and the next. -/
def pad (buffer : Bytes) (pos aligned_pos : Nat) : Option Bytes :=
  if aligned_pos ≠ pos then copyIn buffer pos (List.replicate (aligned_pos - pos) 0) else some buffer

/-- `usedBytes` and `size`. -/
def size (b : LogRingBuffer) : Nat :=
  if b.writeIndex ≥ b.readIndex then b.writeIndex - b.readIndex else b.capacity - b.readIndex + b.writeIndex

def empty (b : LogRingBuffer) : Bool := b.readIndex == b.writeIndex

def tryWrite (b : LogRingBuffer) (data : Bytes) : Option (Bool × LogRingBuffer) :=
  let total_len := data.length
  let required := align (total_len + 4)
  let w := b.writeIndex
  let used := b.size
  if used + required + 4 > b.capacity then some (false, { b with dropCount := b.dropCount + 1 })
  else do
    let buffer ← copyInAround b.capacity b.buffer w (Codec.le 4 total_len)
    let write_pos := (w + 4) &&& b.mask
    let buffer ← copyInAround b.capacity buffer write_pos data
    let write_pos := (write_pos + total_len) &&& b.mask
    let aligned_pos := align write_pos
    let buffer ← pad buffer write_pos aligned_pos
    let write_pos := if aligned_pos < b.capacity then aligned_pos else aligned_pos - b.capacity
    pure (true, { b with buffer := buffer, writeIndex := write_pos, writeCount := b.writeCount + 1 })

/-- The message, or `none` where it returns false. -/
def readRaw (b : LogRingBuffer) : Option (Option Bytes × LogRingBuffer) :=
  let r := b.readIndex
  let w := b.writeIndex
  if r = w then some (none, b)
  else do
    let pre ← copyOutAround b.capacity b.buffer r 4
    let len_prefix := Codec.ofLe pre
    let r := (r + 4) &&& b.mask
    if len_prefix = 0 ∨ len_prefix > b.capacity then some (none, { b with readIndex := w })
    else do
      let output ← copyOutAround b.capacity b.buffer r len_prefix
      let r := (r + len_prefix) &&& b.mask
      let aligned_r := align r
      let r := if aligned_r < b.capacity then aligned_r else aligned_r - b.capacity
      pure (some output, { b with readIndex := r })

/-- `LogEntryBuilder::MAX_ENTRY_SIZE`. -/
def MAX_ENTRY_SIZE : Nat := 4096

/-- `readOne` without the message, which its caller here drops. -/
def readOne (b : LogRingBuffer) : Option (Bool × LogRingBuffer) :=
  let r := b.readIndex
  let w := b.writeIndex
  if r = w then some (false, b)
  else do
    let pre ← copyOutAround b.capacity b.buffer r 4
    let len_prefix := Codec.ofLe pre
    let r := (r + 4) &&& b.mask
    if len_prefix = 0 ∨ len_prefix > MAX_ENTRY_SIZE then some (false, { b with readIndex := w })
    else do
      let _ ← copyOutAround b.capacity b.buffer r len_prefix
      let r := (r + len_prefix) &&& b.mask
      let aligned_r := align r
      let r := if aligned_r < b.capacity then aligned_r else aligned_r - b.capacity
      pure (true, { b with readIndex := r })

/-- A call on the buffer. -/
inductive Op where
  | tryWrite (data : Bytes)
  | readRaw
  deriving DecidableEq

/-- What a call returns. -/
inductive Result where
  | wrote (ok : Bool)
  | read (output : Option Bytes)
  deriving DecidableEq

def step (b : LogRingBuffer) : Op → Option (Result × LogRingBuffer)
  | .tryWrite data => (b.tryWrite data).map fun p => (.wrote p.1, p.2)
  | .readRaw => b.readRaw.map fun p => (.read p.1, p.2)

/-- The results of a list of calls and the buffer after them; `none` where one leaves the buffer. -/
def run (b : LogRingBuffer) : List Op → Option (List Result × LogRingBuffer)
  | [] => some ([], b)
  | op :: ops => do
    let (result, b) ← b.step op
    let (results, b) ← b.run ops
    pure (result :: results, b)

end LogRingBuffer

/-! ## Specification -/

namespace Fifo

open LogRingBuffer (Op)

/-- The size of a message's record. -/
def padded (data : Bytes) : Nat := LogRingBuffer.align (data.length + 4)

/-- The space that a queue of messages takes. -/
def used (q : List Bytes) : Nat := (q.map padded).sum

/-- A queue of messages in `capacity` bytes. -/
inductive Step (capacity : Nat) : List Bytes → Op → LogRingBuffer.Result → List Bytes → Prop
  | accept (q : List Bytes) (data : Bytes) (h : used q + padded data + 4 ≤ capacity) :
    Step capacity q (.tryWrite data) (.wrote true) (q ++ [data])
  | refuse (q : List Bytes) (data : Bytes) (h : capacity - used q < padded data + 4) :
    Step capacity q (.tryWrite data) (.wrote false) q
  | read (data : Bytes) (q : List Bytes) : Step capacity (data :: q) .readRaw (.read (some data)) q
  | none : Step capacity [] .readRaw (.read Option.none) []

inductive Run (capacity : Nat) : List Bytes → List Op → List LogRingBuffer.Result → List Bytes → Prop
  | nil (q : List Bytes) : Run capacity q [] [] q
  | cons {q q' q'' : List Bytes} {op : Op} {result : LogRingBuffer.Result} {ops : List Op} {results : List LogRingBuffer.Result}
      (h : Step capacity q op result q') (hrest : Run capacity q' ops results q'') :
    Run capacity q (op :: ops) (result :: results) q''

/-- The message that a call put into the queue. -/
def accepted1 : Op → LogRingBuffer.Result → Option Bytes
  | .tryWrite data, .wrote true => some data
  | _, _ => Option.none

/-- The messages accepted, in the order of the calls. -/
def accepted : List Op → List LogRingBuffer.Result → List Bytes
  | op :: ops, result :: results => (accepted1 op result).toList ++ accepted ops results
  | _, _ => []

/-- The message that a call gave back. -/
def output1 : LogRingBuffer.Result → Option Bytes
  | .read output => output
  | .wrote _ => Option.none

/-- The messages read, in the order of the calls. -/
def outputs (results : List LogRingBuffer.Result) : List Bytes := results.flatMap fun result => (output1 result).toList

end Fifo

namespace LogRingBuffer

open Fifo (padded used)

/-- A message as it stands in the buffer. -/
def record (data : Bytes) : Bytes :=
  Codec.le 4 data.length ++ data ++ List.replicate (padded data - (4 + data.length)) 0

/-- The record at the read index, and the buffer after it. -/
def front (b : LogRingBuffer) : Option (Bytes × LogRingBuffer) :=
  if b.readIndex = b.writeIndex then none
  else do
    let pre ← copyOutAround b.capacity b.buffer b.readIndex 4
    let r := (b.readIndex + 4) &&& b.mask
    let data ← copyOutAround b.capacity b.buffer r (Codec.ofLe pre)
    let aligned_r := align ((r + Codec.ofLe pre) &&& b.mask)
    pure (data, { b with readIndex := if aligned_r < b.capacity then aligned_r else aligned_r - b.capacity })

/-- A message that is read back. -/
def Storable (data : Bytes) : Prop := data ≠ [] ∧ data.length < 2 ^ 32

/-- The capacity is a power of two and the indices are on multiples of eight. -/
structure Good (b : LogRingBuffer) : Prop where
  capacity : ∃ k, b.capacity = 2 ^ (k + 1)
  buffer : b.buffer.length = b.capacity
  mask : b.mask = b.capacity - 1
  write : b.writeIndex < b.capacity ∧ b.writeIndex % 8 = 0
  read : b.readIndex < b.capacity ∧ b.readIndex % 8 = 0

/-- The records of the messages `q` stand from the read index to the write index. -/
structure Holds (b : LogRingBuffer) (q : List Bytes) : Prop extends Good b where
  room : used q < b.capacity
  index : b.writeIndex = Ring.slot b.capacity (b.readIndex + used q)
  bytes : Ring.get b.buffer b.readIndex (used q) = q.flatMap record

/-! ## Lemmas -/

theorem align_spec (n : Nat) : align n % 8 = 0 ∧ n ≤ align n ∧ align n < n + 8 := by
  unfold align
  omega

theorem record_length (data : Bytes) : (record data).length = padded data := by
  have h := align_spec (data.length + 4)
  unfold record padded
  rw [List.length_append, List.length_append, Codec.le_length, List.length_replicate]
  omega

theorem used_append (q : List Bytes) (data : Bytes) : used (q ++ [data]) = used q + padded data := by
  unfold used
  rw [List.map_append, List.sum_append]
  rfl

theorem used_cons (data : Bytes) (q : List Bytes) : used (data :: q) = padded data + used q := by
  unfold used
  rw [List.map_cons, List.sum_cons]

theorem copyInAround_eq {c pos : Nat} {buffer data : Bytes} (hc : buffer.length = c) (hp : pos < c) (hd : data.length ≤ c) :
    copyInAround c buffer pos data = some (Ring.put buffer pos data) := by
  subst hc
  unfold copyInAround copyIn Ring.put
  by_cases h : pos + data.length ≤ buffer.length
  · rw [if_pos h, if_pos h, if_pos h]
  · have hfirst : pos + (data.take (buffer.length - pos)).length ≤ buffer.length := by
      rw [List.length_take]
      omega
    rw [if_neg h, if_neg h]
    dsimp only
    rw [if_pos hfirst]
    show (if 0 + _ ≤ (overlay buffer pos (data.take (buffer.length - pos))).length then _ else _) = _
    rw [Cells.overlay_length hfirst, if_pos (by rw [List.length_drop]; omega)]

theorem copyOutAround_eq {c pos n : Nat} {buffer : Bytes} (hc : buffer.length = c) (hp : pos < c) (hn : n ≤ c) :
    copyOutAround c buffer pos n = some (Ring.get buffer pos n) := by
  subst hc
  unfold copyOutAround copyOut Ring.get
  by_cases h : pos + n ≤ buffer.length
  · rw [if_pos h, if_pos h, if_pos h]
  · rw [if_neg h, if_neg h]
    dsimp only
    rw [if_pos (by omega), if_pos (by omega)]
    rfl

theorem pad_eq {pos n : Nat} {buffer : Bytes} (h : pos + n ≤ buffer.length) :
    pad buffer pos (pos + n) = some (Ring.put buffer pos (List.replicate n 0)) := by
  have hlen : (List.replicate n (0 : UInt8)).length = n := List.length_replicate
  unfold pad copyIn Ring.put
  rw [Nat.add_sub_cancel_left, hlen, if_pos h, if_pos h]
  by_cases hn : pos + n ≠ pos
  · rw [if_pos hn]
  · obtain rfl : n = 0 := by omega
    rw [if_neg hn]
    exact congrArg some (Cells.overlay_nil _ _).symm

namespace Good

variable {b : LogRingBuffer}

theorem and_mask (h : b.Good) {p n : Nat} (hp : p < b.capacity) (hn : n ≤ b.capacity) :
    (p + n) &&& b.mask = Ring.slot b.capacity (p + n) := by
  obtain ⟨k, hk⟩ := h.capacity
  rw [Ring.slot_eq_mod hp hn, h.mask, hk, Nat.and_two_pow_sub_one_eq_mod]

/-- A buffer with room for a record is of whole groups of eight bytes. -/
theorem eight (h : b.Good) (hbig : 8 < b.capacity) : b.capacity % 8 = 0 := by
  obtain ⟨k, hk⟩ := h.capacity
  have hk3 : 3 ≤ k := by
    by_contra hlt
    have hle : 2 ^ (k + 1) ≤ 2 ^ 3 := Nat.pow_le_pow_right (by decide) (by omega)
    omega
  obtain ⟨m, rfl⟩ : ∃ m, k = m + 3 := ⟨k - 3, by omega⟩
  rw [hk, show m + 3 + 1 = m + 1 + 3 by omega, Nat.pow_add]
  exact Nat.mul_mod_left _ _

end Good

namespace Holds

variable {b : LogRingBuffer} {q : List Bytes}

theorem size_eq (h : b.Holds q) : b.size = used q := by
  have hindex := h.index
  have hr := h.read.1
  have hroom := h.room
  unfold Ring.slot at hindex
  unfold size
  split at hindex
  next hlow => rw [if_pos (by omega)]; omega
  next hlow => rw [if_neg (by omega)]; omega

theorem empty_iff (h : b.Holds q) : b.empty = true ↔ q = [] := by
  have hsize := h.size_eq
  have hw := h.write.1
  unfold empty
  rw [beq_iff_eq]
  constructor
  · intro heq
    cases q with
    | nil => rfl
    | cons data q =>
      have hpos : 4 ≤ padded data := by
        have := (align_spec (data.length + 4)).2.1
        unfold padded
        omega
      rw [used_cons] at hsize
      unfold size at hsize
      rw [if_pos (by omega)] at hsize
      omega
  · rintro rfl
    have hindex := h.index
    have hr := h.read.1
    unfold Ring.slot at hindex
    rw [show used [] = 0 from rfl, Nat.add_zero, if_pos hr] at hindex
    exact hindex.symm

end Holds

/-- The end of a record that is `n` bytes long before it is padded, from an index on a multiple of eight. -/
theorem align_slot {c p n : Nat} (hc : c % 8 = 0) (hp : p < c) (hp8 : p % 8 = 0) (hn : align n ≤ c) :
    align (Ring.slot c (p + n)) = Ring.slot c (p + n) + (align n - n) ∧
      Ring.slot c (p + n) + (align n - n) ≤ c ∧
      (if align (Ring.slot c (p + n)) < c then align (Ring.slot c (p + n)) else align (Ring.slot c (p + n)) - c) =
        Ring.slot c (p + align n) := by
  unfold align at hn ⊢
  unfold Ring.slot
  split <;> split <;> split <;> omega

/-- **Writing**: the message goes to the end of the queue unless there is no room. -/
theorem tryWrite_spec {b : LogRingBuffer} {q : List Bytes} (h : b.Holds q) (data : Bytes) :
    (b.capacity < used q + padded data + 4 ∧ ∃ b', b.tryWrite data = some (false, b') ∧ b'.Holds q ∧ b'.capacity = b.capacity) ∨
      (used q + padded data + 4 ≤ b.capacity ∧
        ∃ b', b.tryWrite data = some (true, b') ∧ b'.Holds (q ++ [data]) ∧ b'.capacity = b.capacity) := by
  unfold tryWrite
  dsimp only
  rw [h.size_eq, show align (data.length + 4) = padded data from rfl]
  by_cases hroom : used q + padded data + 4 > b.capacity
  · left
    refine ⟨hroom, _, if_pos hroom, ?_, rfl⟩
    exact ⟨⟨h.capacity, h.buffer, h.mask, h.write, h.read⟩, h.room, h.index, h.bytes⟩
  · right
    refine ⟨Nat.le_of_not_lt hroom, ?_⟩
    rw [if_neg hroom]
    obtain ⟨hw, hw8⟩ := h.write
    obtain ⟨hr, hr8⟩ := h.read
    obtain ⟨hpad8, hpad, -⟩ := align_spec (data.length + 4)
    have hpadded : padded data = align (data.length + 4) := rfl
    rw [← hpadded] at hpad8
    have hc8 := h.eight (by omega)
    have hbuf := h.buffer
    have hle : (Codec.le 4 data.length).length = 4 := Codec.le_length _ _
    have hlt : padded data < b.capacity := by omega
    have hdata : 4 + data.length ≤ b.capacity := by omega
    -- the length, the message and the padding stand next to each other
    have hpre := copyInAround_eq hbuf hw (show (Codec.le 4 data.length).length ≤ b.capacity by omega)
    have hlen1 := Ring.put_length (l := b.buffer) (p := b.writeIndex) (d := Codec.le 4 data.length) (by omega) (by omega)
    have hs1 := Ring.slot_lt hw (show 4 ≤ b.capacity by omega)
    have hmsg := copyInAround_eq (hlen1.trans hbuf) hs1 (show data.length ≤ b.capacity by omega)
    have hjoin1 := Ring.put_append (l := b.buffer) (p := b.writeIndex) (d := Codec.le 4 data.length) (e := data) (by omega)
      (by rw [List.length_append]; omega)
    rw [hbuf, hle] at hjoin1
    rw [hjoin1] at hmsg
    have hlen2 := Ring.put_length (l := b.buffer) (p := b.writeIndex) (d := Codec.le 4 data.length ++ data) (by omega)
      (by rw [List.length_append]; omega)
    have hs2 := Ring.slot_lt hw hdata
    obtain ⟨halign, hfit, hnext⟩ := align_slot hc8 hw hw8 (show align (data.length + 4) ≤ b.capacity by omega)
    rw [Nat.add_comm data.length 4] at halign hfit hnext hpad hpadded
    have hpadding := pad_eq (hfit.trans_eq (hlen2.trans hbuf).symm)
    have hjoin2 := Ring.put_append (l := b.buffer) (p := b.writeIndex) (d := Codec.le 4 data.length ++ data)
      (e := List.replicate (align (4 + data.length) - (4 + data.length)) 0) (by omega)
      (by rw [List.length_append, List.length_append, List.length_replicate]; omega)
    rw [hbuf, List.length_append, hle, ← hpadded] at hjoin2
    rw [← halign, ← hpadded, hjoin2] at hpadding
    change pad _ _ _ = some (Ring.put b.buffer b.writeIndex (record data)) at hpadding
    have hmask1 := h.and_mask hw (show 4 ≤ b.capacity by omega)
    have hmask2 := h.and_mask hs1 (show data.length ≤ b.capacity by omega)
    rw [Ring.slot_slot hw hdata] at hmask2
    rw [hpre, hmask1]
    dsimp only [Option.bind_eq_bind, Option.bind_some]
    rw [hmsg]
    dsimp only [Option.bind_some]
    rw [hmask2, hpadding, hnext]
    have hrecord := record_length data
    have hlen3 := Ring.put_length (l := b.buffer) (p := b.writeIndex) (d := record data) (by omega) (by omega)
    have hslot := Ring.slot_lt hw (show padded data ≤ b.capacity by omega)
    have hmod : Ring.slot b.capacity (b.writeIndex + padded data) % 8 = 0 := by
      unfold Ring.slot
      split <;> omega
    refine ⟨_, rfl, ⟨⟨h.capacity, hlen3.trans hbuf, h.mask, ?_, h.read⟩, ?_, ?_, ?_⟩, rfl⟩
    · rw [← hpadded]
      exact ⟨hslot, hmod⟩
    · show used (q ++ [data]) < b.capacity
      rw [used_append]
      omega
    · show Ring.slot b.capacity (b.writeIndex + align (4 + data.length)) = _
      rw [← hpadded, used_append, h.index, Ring.slot_slot hr (by omega)]
    · -- what stood there before, then the record
      show Ring.get (Ring.put b.buffer b.writeIndex (record data)) b.readIndex (used (q ++ [data])) = _
      have hadd := Ring.get_add (l := Ring.put b.buffer b.writeIndex (record data)) (p := b.readIndex) (k := used q)
        (m := padded data) (by omega) (by omega)
      rw [hlen3, hbuf, ← h.index] at hadd
      have hnew := Ring.get_put (l := b.buffer) (p := b.writeIndex) (d := record data) (by omega) (by omega)
      rw [hrecord] at hnew
      have hback : Ring.slot b.capacity (b.writeIndex + (b.capacity - used q)) = b.readIndex := by
        have hindex := h.index
        unfold Ring.slot at hindex ⊢
        split at hindex <;> split <;> omega
      have hold := Ring.get_put_of_disjoint (l := b.buffer) (p := b.writeIndex) (d := record data)
        (k := b.capacity - used q) (m := used q) (by omega) (by omega) (by omega)
      rw [hbuf, hback] at hold
      rw [used_append, hadd, hold, hnew, h.bytes, List.flatMap_append, List.flatMap_singleton]

variable {data : Bytes}

/-- The message at the front of the queue is the record at the read index. -/
theorem front_spec {b : LogRingBuffer} {q : List Bytes} (h : b.Holds (data :: q))
    (hlen : data.length < 2 ^ 32) : ∃ b', b.front = some (data, b') ∧ b'.Holds q ∧ b'.capacity = b.capacity := by
  have hempty := h.empty_iff
  unfold empty at hempty
  rw [beq_iff_eq] at hempty
  have hne : b.readIndex ≠ b.writeIndex := fun heq => List.cons_ne_nil _ _ (hempty.mp heq)
  obtain ⟨hw, hw8⟩ := h.write
  obtain ⟨hr, hr8⟩ := h.read
  obtain ⟨hpad8, hpad, hpad7⟩ := align_spec (data.length + 4)
  have hpadded : padded data = align (data.length + 4) := rfl
  have hroom := h.room
  have hbytes := h.bytes
  have hbuf := h.buffer
  have hrecord := record_length data
  have hused := used_cons data q
  have hc8 := h.eight (by omega)
  have hle : (Codec.le 4 data.length).length = 4 := Codec.le_length _ _
  -- the record at the read index, and those after it
  have hfront := Ring.get_add (l := b.buffer) (p := b.readIndex) (k := padded data) (m := used q) (by omega) (by omega)
  rw [hbuf, ← hused, hbytes, List.flatMap_cons] at hfront
  have hlenfront : (Ring.get b.buffer b.readIndex (padded data)).length = padded data :=
    Ring.get_length (by omega) (by omega)
  obtain ⟨hrec, hrest⟩ := List.append_inj hfront (hrecord.trans hlenfront.symm)
  have hsplit := Ring.get_add (l := b.buffer) (p := b.readIndex) (k := 4 + data.length) (m := padded data - (4 + data.length))
    (by omega) (by omega)
  rw [show 4 + data.length + (padded data - (4 + data.length)) = padded data by omega, ← hrec, hbuf] at hsplit
  have hbody : Ring.get b.buffer b.readIndex (4 + data.length) = Codec.le 4 data.length ++ data :=
    ((List.append_inj hsplit (by
      rw [List.length_append, hle, Ring.get_length (by omega) (by omega)])).1).symm
  have hparts := Ring.get_add (l := b.buffer) (p := b.readIndex) (k := 4) (m := data.length) (by omega) (by omega)
  rw [hbody, hbuf] at hparts
  obtain ⟨hpre, hdata⟩ := List.append_inj hparts (by rw [hle, Ring.get_length (by omega) (by omega)])
  have hlength : Codec.ofLe (Codec.le 4 data.length) = data.length := Codec.ofLe_le 4 _ (by
    rw [show (256 : Nat) ^ 4 = 2 ^ 32 from rfl]
    omega)
  have hs1 := Ring.slot_lt hr (show 4 ≤ b.capacity by omega)
  have hout1 := copyOutAround_eq hbuf hr (show 4 ≤ b.capacity by omega)
  have hout2 := copyOutAround_eq hbuf hs1 (show data.length ≤ b.capacity by omega)
  rw [← hpre] at hout1
  rw [← hdata] at hout2
  have hmask1 := h.and_mask hr (show 4 ≤ b.capacity by omega)
  have hmask2 := h.and_mask hs1 (show data.length ≤ b.capacity by omega)
  rw [Ring.slot_slot hr (by omega), Nat.add_comm 4 data.length] at hmask2
  obtain ⟨-, -, hnext⟩ := align_slot hc8 hr hr8 (show align (data.length + 4) ≤ b.capacity by omega)
  unfold front
  rw [if_neg hne, hout1]
  dsimp only [Option.bind_eq_bind, Option.bind_some]
  rw [hlength, hmask1, hout2]
  dsimp only [Option.bind_some]
  rw [hmask2, hnext, ← hpadded]
  have hslot := Ring.slot_lt hr (show padded data ≤ b.capacity by omega)
  have hmod : Ring.slot b.capacity (b.readIndex + padded data) % 8 = 0 := by
    unfold Ring.slot
    split <;> omega
  refine ⟨_, rfl, ⟨⟨h.capacity, hbuf, h.mask, h.write, hslot, hmod⟩, ?_, ?_, ?_⟩, rfl⟩
  · show used q < b.capacity
    omega
  · show b.writeIndex = Ring.slot b.capacity (Ring.slot b.capacity (b.readIndex + padded data) + used q)
    rw [Ring.slot_slot hr (by omega), ← hused]
    exact h.index
  · exact hrest.symm

theorem copyOutAround_length {c pos n : Nat} {buffer out : Bytes} (h : copyOutAround c buffer pos n = some out) :
    out.length = n := by
  have hcopy {p m : Nat} {l : Bytes} (h : copyOut buffer p m = some l) : l.length = m := by
    unfold copyOut at h
    split at h
    next hin =>
      obtain rfl := Option.some.inj h
      exact Cells.window_length hin
    next => cases h
  unfold copyOutAround at h
  split at h
  next => exact hcopy h
  next hlong =>
    obtain ⟨first, hfirst, h⟩ := Option.bind_eq_some_iff.mp h
    obtain ⟨rest, hrest, h⟩ := Option.bind_eq_some_iff.mp h
    obtain rfl := Option.some.inj h
    rw [List.length_append, hcopy hfirst, hcopy hrest]
    omega

theorem front_inv {b b' : LogRingBuffer} (h : b.front = some (data, b')) :
    b.readIndex ≠ b.writeIndex ∧ ∃ pre, copyOutAround b.capacity b.buffer b.readIndex 4 = some pre ∧
      Codec.ofLe pre = data.length ∧
      copyOutAround b.capacity b.buffer ((b.readIndex + 4) &&& b.mask) data.length = some data ∧
      { b with readIndex :=
          if align (((b.readIndex + 4) &&& b.mask) + data.length &&& b.mask) < b.capacity then
            align (((b.readIndex + 4) &&& b.mask) + data.length &&& b.mask)
          else align (((b.readIndex + 4) &&& b.mask) + data.length &&& b.mask) - b.capacity } = b' := by
  unfold front at h
  split at h
  next => cases h
  next hne =>
    obtain ⟨pre, hpre, h⟩ := Option.bind_eq_some_iff.mp h
    obtain ⟨data', hdata, h⟩ := Option.bind_eq_some_iff.mp h
    obtain ⟨rfl, hb⟩ := Prod.mk.inj (Option.some.inj h)
    have hlen := copyOutAround_length hdata
    rw [← hlen] at hdata hb
    exact ⟨hne, pre, hpre, hlen.symm, hdata, hb⟩

theorem readRaw_front {b b' : LogRingBuffer} (h : b.front = some (data, b')) :
    b.readRaw = if data.length = 0 ∨ data.length > b.capacity then some (none, { b with readIndex := b.writeIndex })
      else some (some data, b') := by
  obtain ⟨hne, pre, hpre, hlen, hdata, hb⟩ := front_inv h
  unfold readRaw
  dsimp only
  rw [if_neg hne, hpre]
  dsimp only [Option.bind_eq_bind, Option.bind_some]
  rw [hlen, hdata]
  dsimp only [Option.bind_some]
  rw [← hb]
  rfl

theorem readRaw_nil {b : LogRingBuffer} (h : b.Holds []) : b.readRaw = some (none, b) := by
  have hempty := h.empty_iff.mpr rfl
  unfold empty at hempty
  unfold readRaw
  dsimp only
  rw [if_pos (beq_iff_eq.mp hempty)]

/-- **Reading**: the message at the front of the queue, if there is one. -/
theorem readRaw_spec {b : LogRingBuffer} {q : List Bytes} (h : b.Holds q)
    (hq : ∀ data ∈ q, Storable data) :
    (q = [] ∧ b.readRaw = some (none, b)) ∨
      ∃ data q', q = data :: q' ∧ ∃ b', b.readRaw = some (some data, b') ∧ b'.Holds q' ∧ b'.capacity = b.capacity := by
  cases q with
  | nil => exact .inl ⟨rfl, readRaw_nil h⟩
  | cons data q =>
    obtain ⟨hne, hlen⟩ := hq data List.mem_cons_self
    obtain ⟨b', hfront, hholds, hcap⟩ := front_spec h hlen
    refine .inr ⟨data, q, rfl, b', ?_, hholds, hcap⟩
    have hpos := List.length_pos_of_ne_nil hne
    have hroom := h.room
    have hpad := (align_spec (data.length + 4)).2.1
    rw [used_cons, padded] at hroom
    rw [readRaw_front hfront, if_neg (by omega)]

/-- The `w` highest bits up to the `j`-th are set, and none above it. -/
def Smeared (j w x : Nat) : Prop := (∀ i, j < i → x.testBit i = false) ∧ ∀ i, i ≤ j → j < i + w → x.testBit i = true

theorem Smeared.step {j w x : Nat} (h : Smeared j w x) : Smeared j (w + w) (x ||| x >>> w) := by
  constructor
  · intro i hi
    rw [Nat.testBit_or, Nat.testBit_shiftRight, h.1 i hi, h.1 (w + i) (by omega), Bool.or_false]
  · intro i hi hw
    rw [Nat.testBit_or, Nat.testBit_shiftRight]
    by_cases hlow : j < i + w
    · rw [h.2 i hi hlow, Bool.true_or]
    · rw [h.2 (w + i) (by omega) (by omega), Bool.or_true]

theorem Smeared.eq {j w x : Nat} (h : Smeared j w x) (hw : j < w) : x = 2 ^ (j + 1) - 1 := by
  apply Nat.eq_of_testBit_eq
  intro i
  rw [Nat.testBit_two_pow_sub_one]
  by_cases hi : i ≤ j
  · rw [h.2 i hi (by omega), decide_eq_true (by omega)]
  · rw [h.1 i (by omega), decide_eq_false (by omega)]

theorem roundUpToPowerOfTwo_spec (n : Nat) (h : n ≤ 2 ^ 63) :
    ∃ k, roundUpToPowerOfTwo n = 2 ^ (k + 1) ∧ n ≤ 2 ^ (k + 1) := by
  unfold roundUpToPowerOfTwo
  by_cases hn : n ≤ 1
  · rw [if_pos hn]
    exact ⟨0, rfl, by omega⟩
  · rw [if_neg hn]
    dsimp only
    have hne : n - 1 ≠ 0 := by omega
    have hlo := Nat.log2_self_le hne
    have hhi := Nat.lt_log2_self (n := n - 1)
    have hj : (n - 1).log2 < 63 := (Nat.log2_lt hne).mpr (by omega)
    have hstart : Smeared (n - 1).log2 1 (n - 1) := by
      refine ⟨fun i hi => Nat.testBit_lt_two_pow (Nat.lt_of_lt_of_le hhi (Nat.pow_le_pow_right (by decide) hi)), ?_⟩
      intro i hi hi'
      obtain rfl : i = (n - 1).log2 := by omega
      exact Nat.testBit_log2 hne
    refine ⟨(n - 1).log2, ?_, by omega⟩
    rw [hstart.step.step.step.step.step.step.eq (by omega)]
    exact Nat.sub_add_cancel (Nat.one_le_two_pow)

theorem create_holds (n : Nat) (h : n ≤ 2 ^ 63) : (create n).Holds [] := by
  obtain ⟨k, hk, -⟩ := roundUpToPowerOfTwo_spec n h
  have hpos : 0 < roundUpToPowerOfTwo n := by
    rw [hk]
    exact Nat.two_pow_pos _
  refine ⟨⟨⟨k, hk⟩, List.length_replicate, rfl, ⟨hpos, rfl⟩, hpos, rfl⟩, hpos, ?_, ?_⟩
  · show 0 = Ring.slot (roundUpToPowerOfTwo n) (0 + 0)
    unfold Ring.slot
    rw [if_pos hpos]
  · have hlen : (create n).buffer.length = roundUpToPowerOfTwo n := List.length_replicate
    exact List.length_eq_zero_iff.mp (Ring.get_length (by rw [hlen]; exact hpos) (Nat.zero_le _))

/-- **One call** on the buffer is one on the queue. -/
theorem step_spec {b : LogRingBuffer} {q : List Bytes} (h : b.Holds q) (hq : ∀ data ∈ q, Storable data) {op : Op}
    (hop : ∀ data, op = .tryWrite data → Storable data) :
    ∃ result b' q', b.step op = some (result, b') ∧ b'.Holds q' ∧ b'.capacity = b.capacity ∧
      (∀ data ∈ q', Storable data) ∧ Fifo.Step b.capacity q op result q' := by
  cases op with
  | tryWrite data =>
    obtain ⟨hfull, b', heq, hholds, hcap⟩ | ⟨hroom, b', heq, hholds, hcap⟩ := tryWrite_spec h data
    · exact ⟨.wrote false, b', q, by rw [step, heq]; rfl, hholds, hcap, hq, .refuse q data (by have := h.room; omega)⟩
    · refine ⟨.wrote true, b', q ++ [data], by rw [step, heq]; rfl, hholds, hcap, fun x hx => ?_, .accept q data hroom⟩
      obtain hx | hx := List.mem_append.mp hx
      · exact hq x hx
      · rw [List.mem_singleton.mp hx]
        exact hop data rfl
  | readRaw =>
    obtain ⟨rfl, heq⟩ | ⟨data, q', rfl, b', heq, hholds, hcap⟩ := readRaw_spec h hq
    · exact ⟨.read none, b, [], by rw [step, heq]; rfl, h, rfl, hq, .none⟩
    · exact ⟨.read (some data), b', q', by rw [step, heq]; rfl, hholds, hcap,
        fun x hx => hq x (List.mem_cons_of_mem _ hx), .read data q'⟩

theorem run_spec {b : LogRingBuffer} {q : List Bytes} (h : b.Holds q) (hq : ∀ data ∈ q, Storable data) (ops : List Op)
    (hops : ∀ data, .tryWrite data ∈ ops → Storable data) :
    ∃ results b' q', b.run ops = some (results, b') ∧ b'.Holds q' ∧ b'.capacity = b.capacity ∧
      Fifo.Run b.capacity q ops results q' := by
  induction ops generalizing b q with
  | nil => exact ⟨[], b, q, rfl, h, rfl, .nil q⟩
  | cons op ops ih =>
    obtain ⟨result, b1, q1, heq, hholds, hcap, hq1, hstep⟩ :=
      @step_spec _ _ h hq op fun data hop => hops data (hop ▸ List.mem_cons_self)
    obtain ⟨results, b2, q2, heq', hholds', hcap', hrun⟩ :=
      ih hholds hq1 fun data hmem => hops data (List.mem_cons_of_mem _ hmem)
    rw [hcap] at hrun hcap'
    refine ⟨result :: results, b2, q2, ?_, hholds', hcap', .cons hstep hrun⟩
    rw [run, heq]
    show (b1.run ops).bind _ = _
    rw [heq']
    rfl

theorem step_conserves {capacity : Nat} {q q' : List Bytes} {op : Op} {result : Result}
    (h : Fifo.Step capacity q op result q') :
    q ++ (Fifo.accepted1 op result).toList = (Fifo.output1 result).toList ++ q' := by
  cases h with
  | accept data _ => rfl
  | refuse data _ => exact List.append_nil _
  | read data => exact List.append_nil _
  | none => rfl

theorem run_conserves {capacity : Nat} {q q' : List Bytes} {ops : List Op} {results : List Result}
    (h : Fifo.Run capacity q ops results q') : q ++ Fifo.accepted ops results = Fifo.outputs results ++ q' := by
  induction h with
  | nil q => exact List.append_nil q
  | @cons q q1 q2 op result ops results hstep _ ih =>
    show q ++ ((Fifo.accepted1 op result).toList ++ Fifo.accepted ops results) = _
    rw [← List.append_assoc, step_conserves hstep, List.append_assoc, ih, ← List.append_assoc]
    rfl

/-! ## Top theorem -/

/-- **The log ring buffer is a queue**: over any writes of messages that are not empty and any reads, no access leaves
the buffer, every call returns what it does on a queue, so that the messages accepted are those read and those still
there, in order, and the buffer looks empty only when the queue is. -/
theorem run_fifo (n : Nat) (h : n ≤ 2 ^ 32) (ops : List Op)
    (hops : ∀ data, .tryWrite data ∈ ops → data ≠ [] ∧ data.length < 2 ^ 32) :
    ∃ results b q, (create n).run ops = some (results, b) ∧ Fifo.Run (create n).capacity [] ops results q ∧
      Fifo.accepted ops results = Fifo.outputs results ++ q ∧ (b.empty = true ↔ q = []) ∧ b.size = used q := by
  obtain ⟨results, b, q, heq, hholds, -, hrun⟩ :=
    run_spec (create_holds n (by omega)) (fun _ hx => absurd hx List.not_mem_nil) ops hops
  exact ⟨results, b, q, heq, hrun, run_conserves hrun, hholds.empty_iff, hholds.size_eq⟩

/-- The last record goes round the end of a buffer of 32 bytes. -/
def wrapping : List Op := [.tryWrite [1, 2], .readRaw, .tryWrite [3], .readRaw, .tryWrite (List.replicate 18 7), .readRaw]

theorem run_fifo_sample :
    ∃ results b q, (create 20).run wrapping = some (results, b) ∧
      Fifo.Run (create 20).capacity [] wrapping results q ∧
      Fifo.accepted wrapping results = Fifo.outputs results ++ q ∧ (b.empty = true ↔ q = []) ∧ b.size = used q := by
  refine run_fifo 20 (by decide) wrapping fun data hmem => ?_
  have hcases : data = [1, 2] ∨ data = [3] ∨ data = List.replicate 18 7 := by simpa [wrapping] using hmem
  obtain rfl | rfl | rfl := hcases
  · exact ⟨by decide, by decide⟩
  · exact ⟨by decide, by decide⟩
  · exact ⟨by decide, by decide⟩

end LogRingBuffer

end Core
