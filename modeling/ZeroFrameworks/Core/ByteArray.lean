import ZeroFrameworks.Kv.Bytes
import ZeroFrameworks.Lib.Cells

/-!
# Byte arrays (`core/io/bytearray.cc`)

A byte array keeps its bytes in a list of chunks of `baseSize` bytes, with a position and a pointer to the chunk that
holds it.  The pointer is null when the position is at the end of the last chunk.

    run from a new array  →  every call behaves as on one flat byte string with a position   (run_refines)
        and cur is the chunk of the position, null exactly at the capacity
-/

namespace Core

open Kv (Bytes)
open Cells (overlay window Uniform)

/-! ## Algorithm -/

/-- A byte of memory; `none` until it is written. -/
abbrev Cell := Option UInt8

/-- `chunks` are the nodes from `m_root` on; `cur` is the number of the node `m_cur` points to, `none` for null. -/
structure ByteArray where
  baseSize : Nat
  position : Nat
  capacity : Nat
  size : Nat
  littleEndian : Bool
  chunks : List (List Cell)
  cur : Option Nat

/-- What a call ends with: it returns (a read with what it has read), throws `std::out_of_range`, or dereferences a
null chunk. -/
inductive Result (α : Type) where
  | returned (x : α)
  | thrown
  | crashed

namespace ByteArray

/-- A node with memory of its own. -/
def newNode (s : Nat) : List Cell := List.replicate s none

/-- `ByteArray(base_size)`. -/
def create (baseSize : Nat) : ByteArray where
  baseSize := baseSize
  position := 0
  capacity := baseSize
  size := 0
  littleEndian := false
  chunks := [newNode baseSize]
  cur := some 0

def getReadSize (b : ByteArray) : Nat := b.size - b.position

def getCapacity (b : ByteArray) : Nat := b.capacity - b.position

/-- `m_cur->next` of the `i`-th node. -/
def next (b : ByteArray) (i : Nat) : Option Nat := if i + 1 < b.chunks.length then some (i + 1) else none

/-- The bytes `m_cur->ptr` of the `i`-th node. -/
def node (b : ByteArray) (i : Nat) : List Cell := b.chunks.getD i []

/-- `ceil(1.0 * size / m_baseSize)`, which doubles compute exactly for sizes below `2^53`. -/
def ceilDiv (size baseSize : Nat) : Nat := (size + (baseSize - 1)) / baseSize

def addCapacity (b : ByteArray) (size : Nat) : ByteArray :=
  let old_cap := b.getCapacity
  if size = 0 ∨ old_cap ≥ size then b
  else
    let count := ceilDiv (size - old_cap) b.baseSize
    { b with
      chunks := b.chunks ++ List.replicate count (newNode b.baseSize)
      capacity := b.capacity + count * b.baseSize
      cur := if old_cap = 0 then (if count = 0 then none else some b.chunks.length) else b.cur }

/-- The loop of `write`.  Every turn copies a byte at least, so `fuel` turns are enough for as many bytes. -/
def writeLoop : Nat → ByteArray → Nat → List Cell → Result ByteArray
  | 0, b, _, _ => .returned b
  | fuel + 1, b, npos, buf =>
    match b.cur with
    | none => .crashed
    | some i =>
      let ncap := (b.node i).length - npos
      if ncap ≥ buf.length then
        .returned { b with
          chunks := b.chunks.set i (overlay (b.node i) npos buf)
          cur := if (b.node i).length = npos + buf.length then b.next i else some i
          position := b.position + buf.length }
      else
        writeLoop fuel
          { b with
            chunks := b.chunks.set i (overlay (b.node i) npos (buf.take ncap))
            cur := b.next i
            position := b.position + ncap }
          0 (buf.drop ncap)

def write (b : ByteArray) (buf : Bytes) : Result ByteArray :=
  if buf.length = 0 then .returned b
  else
    let b := b.addCapacity buf.length
    match writeLoop buf.length b (b.position % b.baseSize) (buf.map some) with
    | .returned b => .returned (if b.position > b.size then { b with size := b.position } else b)
    | .thrown => .thrown
    | .crashed => .crashed

/-- The loop of `read`, with what was read before. -/
def readLoop : Nat → ByteArray → Nat → Nat → List Cell → Result (List Cell × ByteArray)
  | 0, b, _, _, acc => .returned (acc, b)
  | fuel + 1, b, npos, size, acc =>
    match b.cur with
    | none => .crashed
    | some i =>
      let ncap := (b.node i).length - npos
      if size = 0 then .returned (acc, b)
      else if ncap ≥ size then
        .returned (acc ++ window (b.node i) npos size,
          { b with
            cur := if (b.node i).length = npos + size then b.next i else some i
            position := b.position + size })
      else
        readLoop fuel { b with cur := b.next i, position := b.position + ncap } 0 (size - ncap)
          (acc ++ window (b.node i) npos ncap)

def read (b : ByteArray) (size : Nat) : Result (List Cell × ByteArray) :=
  if size > b.getReadSize then .thrown
  else readLoop (size + 1) b (b.position % b.baseSize) size []

/-- The loop of `setPosition`: the chunk `v` bytes after the start of the `i`-th, which is null past the last. -/
def seek : Nat → ByteArray → Option Nat → Nat → Result (Option Nat)
  | 0, _, cur, _ => .returned cur
  | fuel + 1, b, cur, v =>
    match cur with
    | none => .crashed
    | some i =>
      if v > (b.node i).length then seek fuel b (b.next i) (v - (b.node i).length)
      else if v = (b.node i).length then .returned (b.next i)
      else .returned (some i)

/-- There are `chunks.length` chunks to pass at most. -/
def setPosition (b : ByteArray) (v : Nat) : Result ByteArray :=
  if v > b.capacity then .thrown
  else
    let b := { b with position := v, size := if v > b.size then v else b.size }
    match seek (b.chunks.length + 1) b (some 0) v with
    | .returned cur => .returned { b with cur := cur }
    | .thrown => .thrown
    | .crashed => .crashed

def clear (b : ByteArray) : ByteArray :=
  { b with position := 0, size := 0, capacity := b.baseSize, chunks := b.chunks.take 1, cur := some 0 }

/-- A call on a byte array. -/
inductive Op where
  | write (buf : Bytes)
  | read (size : Nat)
  | setPosition (v : Nat)
  | clear
  deriving DecidableEq

/-- A call, what a read gives, and the array after it.  A call that throws changes nothing. -/
def step (b : ByteArray) : Op → Result (List Cell) × ByteArray
  | .write buf =>
    match b.write buf with
    | .returned b' => (.returned [], b')
    | .thrown => (.thrown, b)
    | .crashed => (.crashed, b)
  | .read size =>
    match b.read size with
    | .returned (cells, b') => (.returned cells, b')
    | .thrown => (.thrown, b)
    | .crashed => (.crashed, b)
  | .setPosition v =>
    match b.setPosition v with
    | .returned b' => (.returned [], b')
    | .thrown => (.thrown, b)
    | .crashed => (.crashed, b)
  | .clear => (.returned [], b.clear)

/-- The array after a list of calls, and their results. -/
def run (b : ByteArray) : List Op → List (Result (List Cell)) × ByteArray
  | [] => ([], b)
  | op :: ops =>
    let (result, b') := b.step op
    let (results, b'') := b'.run ops
    (result :: results, b'')

end ByteArray

/-! ## Specification -/

/-- One byte string with a position; `capacity` is how far `setPosition` may go. -/
structure Flat where
  bytes : List Cell
  position : Nat
  capacity : Nat

/-- What a call may do to a flat byte string.  The bytes that `setPosition` skips can be any. -/
inductive Flat.Step (f : Flat) : ByteArray.Op → Result (List Cell) → Flat → Prop
  | write (buf : Bytes) (capacity : Nat) (h : f.position + buf.length ≤ capacity) :
    Step f (.write buf) (.returned [])
      ⟨overlay f.bytes f.position (buf.map some), f.position + buf.length, capacity⟩
  | read (size : Nat) (h : size ≤ f.bytes.length - f.position) :
    Step f (.read size) (.returned (window f.bytes f.position size)) { f with position := f.position + size }
  | readThrows (size : Nat) (h : f.bytes.length - f.position < size) : Step f (.read size) .thrown f
  | setPosition (v : Nat) (skipped : List Cell) (h : v ≤ f.capacity) (hs : skipped.length = v - f.bytes.length) :
    Step f (.setPosition v) (.returned []) { f with bytes := f.bytes ++ skipped, position := v }
  | setPositionThrows (v : Nat) (h : f.capacity < v) : Step f (.setPosition v) .thrown f
  | clear (capacity : Nat) : Step f .clear (.returned []) ⟨[], 0, capacity⟩

/-- A list of calls, with their results. -/
inductive Flat.Run : Flat → List ByteArray.Op → List (Result (List Cell)) → Flat → Prop
  | nil (f : Flat) : Run f [] [] f
  | cons {f f' f'' : Flat} {op : ByteArray.Op} {ops : List ByteArray.Op} {result : Result (List Cell)}
      {results : List (Result (List Cell))} (h : f.Step op result f') (hrest : Run f' ops results f'') :
    Run f (op :: ops) (result :: results) f''

namespace ByteArray

/-- The byte string that the chunks hold. -/
def flat (b : ByteArray) : Flat where
  bytes := b.chunks.flatten.take b.size
  position := b.position
  capacity := b.capacity

/-- The chunks are of the base size, and `cur` is the one that holds the position. -/
structure Placed (b : ByteArray) : Prop where
  base : 1 ≤ b.baseSize
  uniform : Uniform b.baseSize b.chunks
  capacity : b.capacity = b.chunks.length * b.baseSize
  position : b.position ≤ b.capacity
  cur : b.cur = if b.position = b.capacity then none else some (b.position / b.baseSize)

/-- The invariant of a byte array. -/
structure Good (b : ByteArray) : Prop extends Placed b where
  root : 1 ≤ b.chunks.length
  read : b.position ≤ b.size
  size : b.size ≤ b.capacity

/-! ## Lemmas -/

namespace Placed

variable {b : ByteArray}

theorem flatten_length (h : b.Placed) : b.chunks.flatten.length = b.capacity := by
  rw [h.uniform.flatten_length, h.capacity]

theorem current (h : b.Placed) (hp : b.position < b.capacity) :
    ∃ i c, b.cur = some i ∧ b.chunks[i]? = some c ∧ b.node i = c ∧ c.length = b.baseSize ∧
      b.position = i * b.baseSize + b.position % b.baseSize ∧ b.position % b.baseSize < b.baseSize := by
  have hbase := h.base
  have hlt : b.position / b.baseSize < b.chunks.length := by
    rw [Nat.div_lt_iff_lt_mul hbase, ← h.capacity]
    exact hp
  have hget := List.getElem?_eq_getElem hlt
  refine ⟨b.position / b.baseSize, b.chunks[b.position / b.baseSize], ?_, hget, ?_, h.uniform.getElem?_length hget, ?_,
    Nat.mod_lt _ hbase⟩
  · rw [h.cur, if_neg (Nat.ne_of_lt hp)]
  · unfold node
    rw [List.getD_eq_getElem?_getD, hget, Option.getD_some]
  · rw [Nat.mul_comm]
    exact (Nat.div_add_mod _ _).symm

end Placed

/-- Where the position is after `n` bytes of the `i`-th chunk were passed, `m` bytes after its start. -/
theorem cur_after {b : ByteArray} (hbase : 1 ≤ b.baseSize) (hcap : b.capacity = b.chunks.length * b.baseSize) {i m : Nat}
    (hi : i < b.chunks.length) (hm : m ≤ b.baseSize) :
    (if b.baseSize = m then b.next i else some i) =
      (if i * b.baseSize + m = b.capacity then none else some ((i * b.baseSize + m) / b.baseSize)) ∧
      i * b.baseSize + m ≤ b.capacity := by
  have hle : (i + 1) * b.baseSize ≤ b.capacity := by
    rw [hcap]
    exact Nat.mul_le_mul_right _ hi
  have hsucc : (i + 1) * b.baseSize = i * b.baseSize + b.baseSize := Nat.succ_mul i b.baseSize
  refine ⟨?_, by omega⟩
  by_cases hfull : b.baseSize = m
  · subst hfull
    rw [if_pos rfl, ← hsucc, Nat.mul_div_cancel _ hbase]
    unfold next
    by_cases hlast : i + 1 < b.chunks.length
    · have hlt : (i + 1) * b.baseSize < b.capacity := by
        rw [hcap]
        exact Nat.mul_lt_mul_of_pos_right hlast hbase
      rw [if_pos hlast, if_neg (Nat.ne_of_lt hlt)]
    · have heq : i + 1 = b.chunks.length := by omega
      rw [if_neg hlast, if_pos (by rw [hcap, heq])]
  · have hdiv : (i * b.baseSize + m) / b.baseSize = i := by
      rw [Nat.mul_comm, Nat.mul_add_div hbase, Nat.div_eq_of_lt (by omega), Nat.add_zero]
    rw [if_neg hfull, if_neg (by omega), hdiv]

theorem Placed.move {b : ByteArray} (h : b.Placed) {i q m : Nat} {chunks : List (List Cell)}
    (hpos : b.position = i * b.baseSize + q) (hi : i < b.chunks.length) (hm : q + m ≤ b.baseSize)
    (huniform : Uniform b.baseSize chunks) (hlen : chunks.length = b.chunks.length) :
    Placed { b with
      chunks := chunks
      cur := if b.baseSize = q + m then b.next i else some i
      position := b.position + m } := by
  obtain ⟨hcur, hle⟩ := cur_after h.base h.capacity hi hm
  have hsum : b.position + m = i * b.baseSize + (q + m) := by omega
  refine ⟨h.base, huniform, ?_, ?_, ?_⟩
  · show b.capacity = chunks.length * b.baseSize
    rw [hlen, h.capacity]
  · show b.position + m ≤ b.capacity
    omega
  · show (if b.baseSize = q + m then b.next i else some i) = _
    rw [hcur, ← hsum]

theorem writeLoop_spec {n : Nat} {b : ByteArray} {d : List Cell} (h : b.Placed) (hne : 1 ≤ d.length)
    (hn' : d.length ≤ n) (hroom : b.position + d.length ≤ b.capacity) :
    ∃ chunks cur, writeLoop n b (b.position % b.baseSize) d =
        .returned { b with chunks := chunks, cur := cur, position := b.position + d.length } ∧
      Placed { b with chunks := chunks, cur := cur, position := b.position + d.length } ∧
      chunks.flatten = overlay b.chunks.flatten b.position d ∧ chunks.length = b.chunks.length := by
  induction n generalizing b d with
  | zero => omega
  | succ n ih =>
    obtain ⟨i, c, hcur, hget, hnode, hc, hpos, hq⟩ := h.current (by omega)
    have hi : i < b.chunks.length := (List.getElem?_eq_some_iff.mp hget).1
    have hflat := h.flatten_length
    generalize hqdef : b.position % b.baseSize = q at hpos hq ⊢
    rw [writeLoop, hcur]
    dsimp only
    rw [hnode, hc]
    by_cases hfit : b.baseSize - q ≥ d.length
    · have hd : q + d.length ≤ b.baseSize := by omega
      rw [if_pos hfit]
      refine ⟨_, _, rfl, h.move hpos hi hd (h.uniform.set ?_ i) List.length_set, ?_, List.length_set⟩
      · rw [Cells.overlay_length (by omega), hc]
      · rw [h.uniform.flatten_set hget hd, ← hpos]
    · -- the rest of the chunk is filled, and the loop goes on at the next one
      have hn : (d.take (b.baseSize - q)).length = b.baseSize - q := by
        rw [List.length_take]
        omega
      have hd : q + (d.take (b.baseSize - q)).length ≤ b.baseSize := by omega
      have hu : Uniform b.baseSize (b.chunks.set i (overlay c q (d.take (b.baseSize - q)))) :=
        h.uniform.set (by rw [Cells.overlay_length (by omega), hc]) i
      have hmove := h.move (m := b.baseSize - q) hpos hi (by omega) hu List.length_set
      rw [if_pos (by omega)] at hmove
      have hstart : (b.position + (b.baseSize - q)) % b.baseSize = 0 := by
        rw [hpos, show i * b.baseSize + q + (b.baseSize - q) = (i + 1) * b.baseSize by rw [Nat.succ_mul]; omega,
          Nat.mul_mod_left]
      have hrest : (d.drop (b.baseSize - q)).length = d.length - (b.baseSize - q) := List.length_drop
      obtain ⟨chunks, cur, hloop, hplaced, hflatten, hlen⟩ := ih hmove (d := d.drop (b.baseSize - q)) (by omega)
        (by omega) (by show b.position + (b.baseSize - q) + _ ≤ b.capacity; omega)
      have hend : b.position + (b.baseSize - q) + (d.drop (b.baseSize - q)).length = b.position + d.length := by omega
      dsimp only at hloop hplaced hflatten hlen
      rw [hstart, hend] at hloop
      rw [hend] at hplaced
      rw [if_neg hfit]
      refine ⟨chunks, cur, hloop, hplaced, ?_, hlen.trans List.length_set⟩
      have hover := Cells.overlay_append (l := b.chunks.flatten) (p := b.position) (d := d.take (b.baseSize - q))
        (e := d.drop (b.baseSize - q)) (by rw [List.take_append_drop]; omega)
      rw [hn, List.take_append_drop] at hover
      rw [hflatten, h.uniform.flatten_set hget hd, ← hpos, hover]

theorem readLoop_spec {n : Nat} {b : ByteArray} {k : Nat} (h : b.Placed) (hne : 1 ≤ k) (hn : k ≤ n)
    (hroom : b.position + k ≤ b.capacity) (acc : List Cell) :
    ∃ cur, readLoop n b (b.position % b.baseSize) k acc =
        .returned (acc ++ window b.chunks.flatten b.position k, { b with cur := cur, position := b.position + k }) ∧
      Placed { b with cur := cur, position := b.position + k } := by
  induction n generalizing b k acc with
  | zero => omega
  | succ n ih =>
    obtain ⟨i, c, hcur, hget, hnode, hc, hpos, hq⟩ := h.current (by omega)
    have hi : i < b.chunks.length := (List.getElem?_eq_some_iff.mp hget).1
    generalize hqdef : b.position % b.baseSize = q at hpos hq ⊢
    rw [readLoop, hcur]
    dsimp only
    rw [hnode, hc, if_neg (by omega)]
    by_cases hfit : b.baseSize - q ≥ k
    · have hd : q + k ≤ b.baseSize := by omega
      rw [if_pos hfit]
      refine ⟨_, ?_, h.move hpos hi hd h.uniform rfl⟩
      rw [hpos, h.uniform.window_block hget hd]
    · -- the rest of the chunk is read, and the loop goes on at the next one
      have hd : q + (b.baseSize - q) ≤ b.baseSize := by omega
      have hmove := h.move (m := b.baseSize - q) hpos hi hd h.uniform rfl
      rw [if_pos (by omega)] at hmove
      have hstart : (b.position + (b.baseSize - q)) % b.baseSize = 0 := by
        rw [hpos, show i * b.baseSize + q + (b.baseSize - q) = (i + 1) * b.baseSize by rw [Nat.succ_mul]; omega,
          Nat.mul_mod_left]
      obtain ⟨cur, hloop, hplaced⟩ := ih hmove (k := k - (b.baseSize - q)) (by omega) (by omega)
        (by show b.position + (b.baseSize - q) + _ ≤ b.capacity; omega) (acc ++ window c q (b.baseSize - q))
      have hend : b.position + (b.baseSize - q) + (k - (b.baseSize - q)) = b.position + k := by omega
      dsimp only at hloop hplaced
      rw [hstart, hend] at hloop
      rw [hend] at hplaced
      rw [if_neg hfit]
      refine ⟨cur, ?_, hplaced⟩
      have hadd := Cells.window_add b.chunks.flatten b.position (b.baseSize - q) (k - (b.baseSize - q))
      have hblock := h.uniform.window_block hget hd
      rw [← hpos] at hblock
      rw [show b.baseSize - q + (k - (b.baseSize - q)) = k by omega, hblock] at hadd
      rw [hloop, hadd, List.append_assoc]

theorem ceilDiv_spec {size baseSize : Nat} (h : 1 ≤ baseSize) (hs : 1 ≤ size) :
    1 ≤ ceilDiv size baseSize ∧ size ≤ ceilDiv size baseSize * baseSize ∧
      ceilDiv size baseSize * baseSize < size + baseSize := by
  unfold ceilDiv
  have hdm := Nat.div_add_mod (size + (baseSize - 1)) baseSize
  have hlt := Nat.mod_lt (size + (baseSize - 1)) (show 0 < baseSize from h)
  rw [Nat.mul_comm] at hdm
  refine ⟨(Nat.le_div_iff_mul_le h).mpr (by omega), ?_, ?_⟩
  · omega
  · omega

/-- What `addCapacity` leaves: room for `size` bytes after the position, and the chunks there were. -/
theorem addCapacity_spec {b : ByteArray} (h : b.Good) (size : Nat) :
    ∃ more cur, Uniform b.baseSize more ∧
      b.addCapacity size =
        { b with chunks := b.chunks ++ more, capacity := b.capacity + more.length * b.baseSize, cur := cur } ∧
      (b.addCapacity size).Good ∧ b.position + size ≤ (b.addCapacity size).capacity ∧
      (more = [] ∨ (b.addCapacity size).capacity < b.position + size + b.baseSize) := by
  have hbase := h.base
  have hposition := h.position
  unfold addCapacity
  dsimp only
  by_cases hsmall : size = 0 ∨ b.getCapacity ≥ size
  · rw [if_pos hsmall]
    refine ⟨[], b.cur, fun c hc => absurd hc List.not_mem_nil, ?_, h, ?_, .inl rfl⟩
    · rw [List.append_nil, List.length_nil, Nat.zero_mul, Nat.add_zero]
    · unfold getCapacity at hsmall
      omega
  · rw [if_neg hsmall]
    have hlarge : 1 ≤ size - b.getCapacity := by omega
    obtain ⟨hcount, hroom, hless⟩ := ceilDiv_spec hbase hlarge
    generalize ceilDiv (size - b.getCapacity) b.baseSize = count at hcount hroom hless ⊢
    have hmore : Uniform b.baseSize (List.replicate count (newNode b.baseSize)) := by
      intro c hc
      rw [List.eq_of_mem_replicate hc]
      exact List.length_replicate
    have hlen : (List.replicate count (newNode b.baseSize)).length = count := List.length_replicate
    have hpos : 1 ≤ count * b.baseSize := Nat.mul_le_mul hcount hbase
    refine ⟨_, _, hmore, by rw [hlen], ⟨⟨hbase, ?_, ?_, ?_, ?_⟩, ?_, h.read, ?_⟩, ?_, .inr ?_⟩
    · exact fun c hc => (List.mem_append.mp hc).elim (h.uniform c) (hmore c)
    · show b.capacity + count * b.baseSize = _
      rw [List.length_append, hlen, Nat.add_mul, h.capacity]
    · show b.position ≤ b.capacity + count * b.baseSize
      omega
    · show (if b.getCapacity = 0 then if count = 0 then none else some b.chunks.length else b.cur) = _
      rw [if_neg (show ¬b.position = b.capacity + count * b.baseSize by omega)]
      by_cases hold : b.getCapacity = 0
      · -- a null chunk is revived by the first new one
        have hat : b.position = b.chunks.length * b.baseSize := by
          rw [← h.capacity]
          unfold getCapacity at hold
          omega
        rw [if_pos hold, if_neg (by omega)]
        show some b.chunks.length = some (b.position / b.baseSize)
        rw [hat, Nat.mul_div_cancel _ hbase]
      · unfold getCapacity at hold
        rw [if_neg (by unfold getCapacity; omega), h.cur, if_neg (by omega)]
    · show 1 ≤ (b.chunks ++ List.replicate count (newNode b.baseSize)).length
      rw [List.length_append]
      have := h.root
      omega
    · show b.size ≤ b.capacity + count * b.baseSize
      have := h.size
      omega
    · show b.position + size ≤ b.capacity + count * b.baseSize
      unfold getCapacity at hroom
      omega
    · show b.capacity + count * b.baseSize < _
      unfold getCapacity at hless hsmall
      omega

theorem Good.flatten_size {b : ByteArray} (h : b.Good) : b.size ≤ b.chunks.flatten.length := by
  rw [h.flatten_length]
  exact h.size

theorem flat_length {b : ByteArray} (h : b.Good) : b.flat.bytes.length = b.size := by
  show (b.chunks.flatten.take b.size).length = b.size
  rw [List.length_take, Nat.min_eq_left h.flatten_size]

/-- No chunk but the first lies past the bytes. -/
def Snug (b : ByteArray) : Prop := b.chunks.length = 1 ∨ b.capacity < b.size + b.baseSize

/-- **Writing**: the bytes come to stand at the position. -/
theorem write_spec {b : ByteArray} (h : b.Good) (buf : Bytes) :
    ∃ b', b.write buf = .returned b' ∧ b'.Good ∧ (b.Snug → b'.Snug) ∧
      b'.flat = ⟨overlay b.flat.bytes b.position (buf.map some), b.position + buf.length, b'.capacity⟩ ∧
      b'.baseSize = b.baseSize ∧ b'.littleEndian = b.littleEndian := by
  unfold write
  by_cases hnil : buf.length = 0
  · obtain rfl := List.length_eq_zero_iff.mp hnil
    refine ⟨b, if_pos rfl, h, id, ?_, rfl, rfl⟩
    show (⟨_, _, _⟩ : Flat) = ⟨overlay _ _ [], b.position + 0, _⟩
    rw [Cells.overlay_nil]
    rfl
  · rw [if_neg hnil]
    obtain ⟨more, cur, hmore, heq, hgood, hroom, hsnug⟩ := addCapacity_spec h buf.length
    have hsize := h.flatten_size
    have hlen : (buf.map some).length = buf.length := List.length_map _
    have hadded : (b.addCapacity buf.length).chunks.flatten.take b.size = b.chunks.flatten.take b.size := by
      rw [heq]
      show (b.chunks ++ more).flatten.take b.size = _
      rw [List.flatten_append, List.take_append_of_le_length hsize]
    have hbig : (b.addCapacity buf.length).baseSize = b.baseSize ∧
        (b.addCapacity buf.length).littleEndian = b.littleEndian ∧ (b.addCapacity buf.length).size = b.size ∧
        (b.addCapacity buf.length).position = b.position ∧
        (b.addCapacity buf.length).chunks.length = b.chunks.length + more.length := by
      rw [heq]
      exact ⟨rfl, rfl, rfl, rfl, List.length_append⟩
    obtain ⟨hbase, hendian, hsz, hposition, hcount⟩ := hbig
    dsimp only
    generalize b.addCapacity buf.length = b1 at hgood hroom hsnug hadded hbase hendian hsz hposition hcount ⊢
    clear heq
    obtain ⟨chunks, cur', hloop, hplaced, hflatten, hlength⟩ := writeLoop_spec (n := buf.length)
      (d := buf.map some) hgood.toPlaced (by omega) (by omega) (by omega)
    rw [hlen] at hloop hplaced
    rw [hloop]
    dsimp only
    have hmax : (if b1.position + buf.length > b1.size then
        ({ b1 with chunks := chunks, cur := cur', position := b1.position + buf.length, size := b1.position + buf.length } : ByteArray)
        else { b1 with chunks := chunks, cur := cur', position := b1.position + buf.length }) =
        { b1 with
          chunks := chunks
          cur := cur'
          position := b1.position + buf.length
          size := max b1.size (b1.position + buf.length) } := by
      by_cases hgt : b1.position + buf.length > b1.size
      · rw [if_pos hgt, Nat.max_eq_right (Nat.le_of_lt hgt)]
      · rw [if_neg hgt, Nat.max_eq_left (Nat.le_of_not_lt hgt)]
    have hsize1 := hgood.size
    refine ⟨_, congrArg Result.returned hmax, ?_, ?_, ?_, hbase, hendian⟩
    · refine ⟨⟨hplaced.base, hplaced.uniform, hplaced.capacity, hplaced.position, hplaced.cur⟩, ?_, ?_, ?_⟩
      · show 1 ≤ chunks.length
        rw [hlength]
        exact hgood.root
      · show b1.position + buf.length ≤ max b1.size (b1.position + buf.length)
        exact Nat.le_max_right _ _
      · show max b1.size (b1.position + buf.length) ≤ b1.capacity
        omega
    · intro hs
      show chunks.length = 1 ∨ b1.capacity < max b1.size (b1.position + buf.length) + b1.baseSize
      obtain rfl | hlt := hsnug
      · obtain hone | hs := hs
        · exact .inl (by rw [hlength, hcount, hone, List.length_nil])
        · right
          have hcap : b1.capacity = b.capacity := by
            rw [hgood.capacity, h.capacity, hcount, hbase, List.length_nil, Nat.add_zero]
          omega
      · right
        omega
    · show (⟨chunks.flatten.take (max b1.size (b1.position + buf.length)), b1.position + buf.length, b1.capacity⟩ : Flat) = _
      have htake := Cells.take_overlay (l := b1.chunks.flatten) (d := buf.map some) (p := b1.position) (n := b1.size)
        hgood.read hgood.flatten_size
      rw [hlen, ← hflatten, hsz, hadded] at htake
      rw [hsz, htake, hposition]
      rfl

/-- **Reading**: what is there at the position, when there is as much. -/
theorem read_spec {b : ByteArray} (h : b.Good) {size : Nat} (hne : 1 ≤ size) (hs : size ≤ b.size - b.position) :
    ∃ cur, b.read size =
        .returned (window b.flat.bytes b.position size, { b with cur := cur, position := b.position + size }) ∧
      Good { b with cur := cur, position := b.position + size } := by
  have hsize := h.size
  obtain ⟨cur, hloop, hplaced⟩ := readLoop_spec (n := size + 1) h.toPlaced hne (by omega) (by omega) []
  refine ⟨cur, ?_, hplaced, h.root, ?_, h.size⟩
  · have hwindow : window b.flat.bytes b.position size = window b.chunks.flatten b.position size := by
      show ((b.chunks.flatten.take b.size).drop b.position).take size = _
      rw [List.drop_take, List.take_take, Nat.min_eq_left (by omega)]
      rfl
    unfold read getReadSize
    rw [if_neg (by omega), hloop, List.nil_append, hwindow]
  · show b.position + size ≤ b.size
    omega

/-- The loop of `setPosition` finds the chunk that holds the `v`-th byte from the `i`-th chunk on. -/
theorem seek_spec {n : Nat} {b : ByteArray} {i v : Nat} (hbase : 1 ≤ b.baseSize) (huniform : Uniform b.baseSize b.chunks)
    (hcap : b.capacity = b.chunks.length * b.baseSize) (hi : i < b.chunks.length) (hn : b.chunks.length < n + i)
    (hv : i * b.baseSize + v ≤ b.capacity) :
    seek n b (some i) v = .returned
      (if i * b.baseSize + v = b.capacity then none else some ((i * b.baseSize + v) / b.baseSize)) := by
  induction n generalizing i v with
  | zero => omega
  | succ n ih =>
    have hget := List.getElem?_eq_getElem hi
    have hnode : (b.node i).length = b.baseSize := by
      unfold node
      rw [List.getD_eq_getElem?_getD, hget, Option.getD_some]
      exact huniform.getElem?_length hget
    rw [seek, hnode]
    by_cases hmore : v > b.baseSize
    · have hsucc : (i + 1) * b.baseSize = i * b.baseSize + b.baseSize := Nat.succ_mul i b.baseSize
      have hlast : i + 1 < b.chunks.length := by
        rw [hcap] at hv
        exact (Nat.mul_lt_mul_right (by omega)).mp (show (i + 1) * b.baseSize < b.chunks.length * b.baseSize by omega)
      have hnext : b.next i = some (i + 1) := if_pos hlast
      rw [if_pos hmore, hnext, ih hlast (by omega) (by omega)]
      rw [show (i + 1) * b.baseSize + (v - b.baseSize) = i * b.baseSize + v by omega]
    · obtain ⟨hcur, -⟩ := cur_after hbase hcap hi (show v ≤ b.baseSize by omega)
      rw [if_neg hmore, ← hcur]
      by_cases hfull : v = b.baseSize
      · rw [if_pos hfull, if_pos hfull.symm]
      · rw [if_neg hfull, if_neg (fun heq => hfull heq.symm)]

/-- **Moving** the position, up to the capacity. -/
theorem setPosition_spec {b : ByteArray} (h : b.Good) {v : Nat} (hv : v ≤ b.capacity) :
    ∃ cur, b.setPosition v = .returned { b with position := v, size := max b.size v, cur := cur } ∧
      Good { b with position := v, size := max b.size v, cur := cur } := by
  have hroot := h.root
  have hsize := h.size
  have hmax : (if v > b.size then v else b.size) = max b.size v := by
    by_cases hgt : v > b.size
    · rw [if_pos hgt, Nat.max_eq_right (Nat.le_of_lt hgt)]
    · rw [if_neg hgt, Nat.max_eq_left (Nat.le_of_not_lt hgt)]
  have hseek := seek_spec (n := b.chunks.length + 1) (b := { b with position := v, size := max b.size v }) (i := 0) (v := v)
    h.base h.uniform h.capacity (by exact hroot) (by show b.chunks.length < _; omega) (by show 0 * b.baseSize + v ≤ b.capacity; omega)
  rw [Nat.zero_mul, Nat.zero_add] at hseek
  unfold setPosition
  rw [if_neg (by omega)]
  dsimp only
  rw [hmax, hseek]
  refine ⟨_, rfl, ⟨h.base, h.uniform, h.capacity, hv, rfl⟩, hroot, Nat.le_max_right _ _, ?_⟩
  show max b.size v ≤ b.capacity
  omega

theorem clear_spec {b : ByteArray} (h : b.Good) : b.clear.Good := by
  have hroot := h.root
  have hbase := h.base
  have hlen : (b.chunks.take 1).length = 1 := by
    rw [List.length_take]
    omega
  refine ⟨⟨hbase, fun c hc => h.uniform c (List.mem_of_mem_take hc), ?_, Nat.zero_le _, ?_⟩, ?_, Nat.le_refl _, Nat.zero_le _⟩
  · show b.baseSize = (b.chunks.take 1).length * b.baseSize
    rw [hlen, Nat.one_mul]
  · show some 0 = if 0 = b.baseSize then none else some (0 / b.baseSize)
    rw [if_neg (by omega), Nat.zero_div]
  · show 1 ≤ (b.chunks.take 1).length
    omega

theorem create_good {baseSize : Nat} (h : 1 ≤ baseSize) : (create baseSize).Good := by
  refine ⟨⟨h, ?_, (Nat.one_mul _).symm, Nat.zero_le _, ?_⟩, Nat.le_refl _, Nat.le_refl _, Nat.zero_le _⟩
  · intro c hc
    rw [List.mem_singleton.mp hc]
    exact List.length_replicate
  · show some 0 = if 0 = baseSize then none else some (0 / baseSize)
    rw [if_neg (by omega), Nat.zero_div]

/-- Every call does what it does on a flat byte string, and keeps the invariant. -/
theorem step_refines {b : ByteArray} (h : b.Good) (op : Op) (hop : op ≠ .read 0) :
    (b.step op).2.Good ∧ b.flat.Step op (b.step op).1 (b.step op).2.flat := by
  have hlength := flat_length h
  cases op with
  | write buf =>
    obtain ⟨b', heq, hgood, -, hflat, -, -⟩ := write_spec h buf
    rw [step, heq]
    dsimp only
    refine ⟨hgood, ?_⟩
    rw [hflat]
    have hroom : b.position + buf.length ≤ b'.capacity := by
      rw [← show b'.position = b.position + buf.length from congrArg Flat.position hflat]
      exact hgood.position
    exact .write buf b'.capacity hroom
  | read size =>
    by_cases hs : size ≤ b.size - b.position
    · have hne : 1 ≤ size := Nat.one_le_iff_ne_zero.mpr fun hz => hop (congrArg Op.read hz)
      obtain ⟨cur, heq, hgood⟩ := read_spec h hne hs
      rw [step, heq]
      exact ⟨hgood, .read size (by rw [hlength]; exact hs)⟩
    · have heq : b.read size = .thrown := if_pos (Nat.lt_of_not_le hs)
      rw [step, heq]
      exact ⟨h, .readThrows size (by rw [hlength]; exact Nat.lt_of_not_le hs)⟩
  | setPosition v =>
    by_cases hv : v ≤ b.capacity
    · obtain ⟨cur, heq, hgood⟩ := setPosition_spec h hv
      rw [step, heq]
      refine ⟨hgood, ?_⟩
      -- the bytes skipped are those that the chunks hold
      have hsplit : b.chunks.flatten.take (max b.size v) =
          b.chunks.flatten.take b.size ++ window b.chunks.flatten b.size (v - b.size) := by
        rw [show max b.size v = b.size + (v - b.size) by omega, List.take_add]
        rfl
      have hskipped : (window b.chunks.flatten b.size (v - b.size)).length = v - b.size := by
        have hfl := h.flatten_length
        have hsize := h.size
        exact Cells.window_length (by omega)
      have hflat : flat { b with position := v, size := max b.size v, cur := cur } =
          ⟨b.flat.bytes ++ window b.chunks.flatten b.size (v - b.size), v, b.flat.capacity⟩ := by
        show (⟨b.chunks.flatten.take (max b.size v), v, b.capacity⟩ : Flat) = _
        rw [hsplit]
        rfl
      show b.flat.Step _ _ (flat { b with position := v, size := max b.size v, cur := cur })
      rw [hflat]
      exact .setPosition v _ hv (by rw [hlength, hskipped])
    · have heq : b.setPosition v = .thrown := if_pos (Nat.lt_of_not_le hv)
      rw [step, heq]
      exact ⟨h, .setPositionThrows v (Nat.lt_of_not_le hv)⟩
  | clear =>
    refine ⟨clear_spec h, ?_⟩
    show b.flat.Step .clear (.returned []) ⟨(b.chunks.take 1).flatten.take 0, 0, b.baseSize⟩
    exact .clear b.baseSize

theorem run_good {b : ByteArray} (h : b.Good) (ops : List Op) (hops : .read 0 ∉ ops) :
    (b.run ops).2.Good ∧ b.flat.Run ops (b.run ops).1 (b.run ops).2.flat := by
  induction ops generalizing b with
  | nil => exact ⟨h, .nil _⟩
  | cons op ops ih =>
    rw [List.mem_cons, not_or] at hops
    obtain ⟨hgood, hstep⟩ := step_refines h op fun heq => hops.1 heq.symm
    obtain ⟨hend, hrun⟩ := ih hgood hops.2
    exact ⟨hend, .cons hstep hrun⟩

/-! ## Top theorem -/

/-- **A byte array is a flat byte string with a position**: over any calls on a new array, reads being of a byte at
least, each behaves as on the flat string; the capacity is that of the chunks, and `cur` is the chunk that holds the
position, null exactly when that is the capacity. -/
theorem run_refines (baseSize : Nat) (h : 1 ≤ baseSize) (ops : List Op) (hops : .read 0 ∉ ops) :
    (create baseSize).flat.Run ops ((create baseSize).run ops).1 ((create baseSize).run ops).2.flat ∧
      ((create baseSize).run ops).2.Good :=
  have hrun := run_good (create_good h) ops hops
  ⟨hrun.2, hrun.1⟩

theorem run_refines_sample :
    (create 2).flat.Run [.write [1, 2, 3], .setPosition 1, .read 2] ((create 2).run [.write [1, 2, 3], .setPosition 1, .read 2]).1
        ((create 2).run [.write [1, 2, 3], .setPosition 1, .read 2]).2.flat ∧
      ((create 2).run [.write [1, 2, 3], .setPosition 1, .read 2]).2.Good :=
  run_refines 2 (by decide) _ (by decide)

end ByteArray

end Core
