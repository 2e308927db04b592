import ZeroFrameworks.Core.ByteArray

/-!
# Byte arrays read at a position (`core/io/bytearray.cc`)

`read(buf, size, position)` copies from the current chunk, at the offset that the position has in its own;
`getReadBuffers(buffers, len, position)` finds the chunk of the position, and limits the length by the cursor.

    b is reachable → the call gives the content from the position on ↔ the cursor allows it   (positional_iff)
-/

namespace Core

open Cells (overlay window Uniform)

namespace ByteArray

/-! ## Algorithm -/

/-- `a - b` of two `size_t`. -/
def sizeSub (a b : Nat) : Nat := if b ≤ a then a - b else 2 ^ 64 + a - b

/-- The loop of the positional reads: a piece for each chunk.  A turn takes a byte at least. -/
def pieces : Nat → ByteArray → Option Nat → Nat → Nat → Result (List (List Cell))
  | 0, _, _, _, _ => .returned []
  | fuel + 1, b, cur, npos, size =>
    match cur with
    | none => .crashed
    | some i =>
      let ncap := (b.node i).length - npos
      if size = 0 then .returned []
      else if ncap ≥ size then .returned [window (b.node i) npos size]
      else
        match pieces fuel b (b.next i) 0 (size - ncap) with
        | .returned rest => .returned (window (b.node i) npos ncap :: rest)
        | .thrown => .thrown
        | .crashed => .crashed

/-- `read(buf, size, position)`; the chunk is that of the cursor. -/
def readAt (b : ByteArray) (size position : Nat) : Result (List Cell) :=
  if size > sizeSub b.size position then .thrown
  else
    match pieces (size + 1) b b.cur (position % b.baseSize) size with
    | .returned buf => .returned buf.flatten
    | .thrown => .thrown
    | .crashed => .crashed

/-- `count` times `cur = cur->next`. -/
def walk : Nat → ByteArray → Option Nat → Result (Option Nat)
  | 0, _, cur => .returned cur
  | _ + 1, _, none => .crashed
  | count + 1, b, some i => walk count b (b.next i)

/-- `getReadBuffers(buffers, len, position)`: the memory of the buffers, and how much of it there is. -/
def getReadBuffersAt (b : ByteArray) (len position : Nat) : Result (List (List Cell) × Nat) :=
  let len := if len > b.getReadSize then b.getReadSize else len
  if len = 0 then .returned ([], 0)
  else
    match walk (position / b.baseSize) b (some 0) with
    | .returned cur =>
      match pieces (len + 1) b cur (position % b.baseSize) len with
      | .returned buffers => .returned (buffers, len)
      | .thrown => .thrown
      | .crashed => .crashed
    | .thrown => .thrown
    | .crashed => .crashed

/-! ## Specification -/

/-- What calls make of a new array; `getWriteBuffers` only adds capacity. -/
inductive Reachable : ByteArray → Prop where
  | create (baseSize : Nat) (h : 1 ≤ baseSize) : Reachable (create baseSize)
  | step {b : ByteArray} (h : Reachable b) (op : Op) : Reachable (b.step op).2
  | addCapacity {b : ByteArray} (h : Reachable b) (size : Nat) : Reachable (b.addCapacity size)
  | setIsLittleEndian {b : ByteArray} (h : Reachable b) (val : Bool) : Reachable { b with littleEndian := val }

/-- A read of `size` bytes from `position` on. -/
def ReadsAt (b : ByteArray) (size position : Nat) : Prop :=
  if position + size ≤ b.size then b.readAt size position = .returned (window b.flat.bytes position size)
  else b.readAt size position = .thrown

/-- The bytes from `position` on, `len` of them or as many as there are. -/
def BuffersAt (b : ByteArray) (len position : Nat) : Prop :=
  ∃ buffers, b.getReadBuffersAt len position = .returned (buffers, min len (b.size - position)) ∧
    buffers.flatten = window b.flat.bytes position (min len (b.size - position))

/-- Where `read` looks for `position`: at its offset in the chunk of the cursor. -/
def shadow (b : ByteArray) (position : Nat) : Nat :=
  b.position / b.baseSize * b.baseSize + position % b.baseSize

/-- The cursor is in a chunk that has the same bytes there; past the content the length wraps around. -/
def ReadServed (b : ByteArray) (size position : Nat) : Prop :=
  if position + size ≤ b.size then
    b.position < b.capacity ∧ b.shadow position + size ≤ b.capacity ∧
      window b.chunks.flatten (b.shadow position) size = window b.chunks.flatten position size
  else position ≤ b.size ∨ 2 ^ 64 + b.size < position + size

/-- As many bytes are wanted from the cursor on as from the position. -/
def BuffersServed (b : ByteArray) (len position : Nat) : Prop :=
  min len (b.size - b.position) = min len (b.size - position)

/-! ## Lemmas -/

variable {b : ByteArray}

theorem Good.step (h : b.Good) (op : Op) : (b.step op).2.Good := by
  by_cases hop : op = .read 0
  · subst hop
    -- a read of nothing looks at the chunk and changes nothing
    have hread : b.read 0 = .crashed ∨ b.read 0 = .returned ([], b) := by
      unfold ByteArray.read
      rw [if_neg (Nat.not_lt_zero _), readLoop]
      cases b.cur with
      | none => exact .inl rfl
      | some i => exact .inr rfl
    rcases hread with hr | hr
    · rw [ByteArray.step, hr]
      exact h
    · rw [ByteArray.step, hr]
      exact h
  · exact (step_refines h op hop).1

theorem Reachable.good (h : b.Reachable) : b.Good := by
  induction h with
  | create baseSize h => exact create_good h
  | step _ op ih => exact ih.step op
  | addCapacity _ size ih =>
    obtain ⟨-, -, -, -, hgood, -⟩ := addCapacity_spec ih size
    exact hgood
  | setIsLittleEndian _ val ih =>
    exact ⟨⟨ih.base, ih.uniform, ih.capacity, ih.position, ih.cur⟩, ih.root, ih.read, ih.size⟩

theorem window_flat (b : ByteArray) {position size : Nat} (h : position + size ≤ b.size) :
    window b.flat.bytes position size = window b.chunks.flatten position size := by
  show ((b.chunks.flatten.take b.size).drop position).take size = _
  rw [List.drop_take, List.take_take, Nat.min_eq_left (by omega)]
  rfl

/-- The pieces are the memory from a place on, unless it ends before. -/
theorem pieces_spec {n : Nat} {i q k : Nat} (h : b.Placed) (hi : i < b.chunks.length)
    (hq : q < b.baseSize) (hn : k < n) :
    (i * b.baseSize + q + k ≤ b.capacity → ∃ ps, pieces n b (some i) q k = .returned ps ∧
      ps.flatten = window b.chunks.flatten (i * b.baseSize + q) k) ∧
    (b.capacity < i * b.baseSize + q + k → pieces n b (some i) q k = .crashed) := by
  induction n generalizing i q k with
  | zero => omega
  | succ n ih =>
    have hget := List.getElem?_eq_getElem hi
    have hnode : b.node i = b.chunks[i] := by
      unfold node
      rw [List.getD_eq_getElem?_getD, hget, Option.getD_some]
    have hc := h.uniform.getElem?_length hget
    have hsucc : (i + 1) * b.baseSize = i * b.baseSize + b.baseSize := Nat.succ_mul i b.baseSize
    have hle : (i + 1) * b.baseSize ≤ b.capacity := by
      rw [h.capacity]
      exact Nat.mul_le_mul_right _ hi
    rw [pieces, hnode, hc]
    by_cases hzero : k = 0
    · rw [if_pos hzero, hzero]
      exact ⟨fun _ => ⟨[], rfl, by rw [window, List.take_zero]; rfl⟩, fun hlt => (by omega)⟩
    · rw [if_neg hzero]
      by_cases hfit : b.baseSize - q ≥ k
      · rw [if_pos hfit]
        refine ⟨fun _ => ⟨_, rfl, ?_⟩, fun hlt => (by omega)⟩
        rw [List.flatten_singleton, h.uniform.window_block hget (by omega)]
      · rw [if_neg hfit]
        by_cases hlast : i + 1 < b.chunks.length
        · -- the rest of the chunk, and what the next ones have
          have hnext : b.next i = some (i + 1) := if_pos hlast
          obtain ⟨hret, hcrash⟩ := ih (q := 0) (k := k - (b.baseSize - q)) hlast h.base (by omega)
          rw [hnext]
          constructor
          · intro hroom
            obtain ⟨ps, hps, hflat⟩ := hret (by omega)
            rw [hps]
            refine ⟨_, rfl, ?_⟩
            have hadd := Cells.window_add b.chunks.flatten (i * b.baseSize + q) (b.baseSize - q)
              (k - (b.baseSize - q))
            rw [h.uniform.window_block hget (show q + (b.baseSize - q) ≤ b.baseSize by omega),
              show b.baseSize - q + (k - (b.baseSize - q)) = k by omega,
              show i * b.baseSize + q + (b.baseSize - q) = (i + 1) * b.baseSize + 0 by omega] at hadd
            rw [List.flatten_cons, hflat, hadd]
          · intro hlt
            rw [hcrash (by omega)]
        · have hnext : b.next i = none := if_neg hlast
          have hcap : b.capacity = (i + 1) * b.baseSize := by
            rw [h.capacity, show b.chunks.length = i + 1 by omega]
          refine ⟨fun hroom => (by omega), fun _ => ?_⟩
          obtain ⟨m, rfl⟩ : ∃ m, n = m + 1 := ⟨n - 1, by omega⟩
          rw [hnext, pieces]

theorem walk_spec {i count : Nat} (hi : i < b.chunks.length) :
    walk count b (some i) = if i + count < b.chunks.length then .returned (some (i + count))
      else if i + count = b.chunks.length then .returned none else .crashed := by
  induction count generalizing i with
  | zero => rw [walk, Nat.add_zero, if_pos hi]
  | succ count ih =>
    rw [walk, next]
    by_cases hlast : i + 1 < b.chunks.length
    · rw [if_pos hlast, ih hlast, show i + 1 + count = i + (count + 1) by omega]
    · rw [if_neg hlast, if_neg (by omega)]
      cases count with
      | zero => rw [walk, if_pos (by omega)]
      | succ count => rw [walk, if_neg (by omega)]

theorem Good.chunk_lt (h : b.Good) {p : Nat} (hp : p < b.capacity) :
    p / b.baseSize < b.chunks.length := by
  rw [Nat.div_lt_iff_lt_mul h.base, ← h.capacity]
  exact hp

theorem Good.le_chunk (h : b.Good) {p : Nat} (hp : b.capacity ≤ p) :
    b.chunks.length ≤ p / b.baseSize := by
  rw [Nat.le_div_iff_mul_le h.base, ← h.capacity]
  exact hp

theorem readAt_iff (h : b.Good) (size : Nat) {position : Nat} (hp : position < 2 ^ 64) :
    b.ReadsAt size position ↔ b.ReadServed size position := by
  have hbase := h.base
  have hsize := h.size
  have hmod : position % b.baseSize < b.baseSize := Nat.mod_lt _ hbase
  rw [ReadsAt, ReadServed, readAt]
  by_cases hin : position + size ≤ b.size
  · rw [if_pos hin, if_pos hin, sizeSub, if_pos (show position ≤ b.size by omega),
      if_neg (show ¬size > b.size - position by omega), window_flat b hin]
    by_cases hend : b.position = b.capacity
    · -- no chunk is current at the capacity
      have hcur : b.cur = none := by rw [h.cur, if_pos hend]
      rw [hcur, pieces]
      exact iff_of_false nofun fun hserved => absurd hserved.1 (by omega)
    · have hlt : b.position < b.capacity := Nat.lt_of_le_of_ne h.position hend
      have hcur : b.cur = some (b.position / b.baseSize) := by rw [h.cur, if_neg hend]
      obtain ⟨hret, hcrash⟩ := pieces_spec (n := size + 1) (k := size) h.toPlaced (h.chunk_lt hlt) hmod (by omega)
      rw [hcur]
      by_cases hroom : b.shadow position + size ≤ b.capacity
      · obtain ⟨ps, hps, hflat⟩ := hret hroom
        rw [hps]
        show Result.returned ps.flatten = _ ↔ _
        rw [hflat]
        exact ⟨fun heq => ⟨hlt, hroom, Result.returned.inj heq⟩, fun hserved => congrArg _ hserved.2.2⟩
      · rw [hcrash (Nat.lt_of_not_le hroom)]
        exact iff_of_false nofun fun hserved => hroom hserved.2.1
  · rw [if_neg hin, if_neg hin]
    by_cases hwrap : position ≤ b.size ∨ 2 ^ 64 + b.size < position + size
    · refine iff_of_true ?_ hwrap
      have hless : size > sizeSub b.size position := by
        rw [sizeSub]
        split <;> omega
      rw [if_pos hless]
    · have hsub : sizeSub b.size position = 2 ^ 64 + b.size - position := if_neg (by omega)
      rw [if_neg (by rw [hsub]; omega)]
      refine iff_of_false ?_ hwrap
      split
      · nofun
      · next hthrown =>
        -- the loop itself throws nothing
        have hne : ∀ (n : Nat) (cur : Option Nat) (q k : Nat), pieces n b cur q k ≠ .thrown := by
          intro n
          induction n with
          | zero => intro cur q k; nofun
          | succ n ih =>
            intro cur q k
            cases cur with
            | none => nofun
            | some i =>
              rw [pieces]
              split
              · nofun
              · split
                · nofun
                · split
                  · nofun
                  · next hrest => exact absurd hrest (ih _ _ _)
                  · nofun
        exact absurd hthrown (hne _ _ _ _)
      · nofun

theorem buffersAt_iff (h : b.Good) (len position : Nat) :
    b.BuffersAt len position ↔ b.BuffersServed len position := by
  have hbase := h.base
  have hsize := h.size
  have hroot := h.root
  have hmod : position % b.baseSize < b.baseSize := Nat.mod_lt _ hbase
  have hmin : (if len > b.getReadSize then b.getReadSize else len) = min len (b.size - b.position) := by
    unfold getReadSize
    split <;> omega
  rw [BuffersAt, BuffersServed, getReadBuffersAt, hmin]
  by_cases hzero : min len (b.size - b.position) = 0
  · rw [if_pos hzero, hzero]
    constructor
    · rintro ⟨buffers, heq, -⟩
      exact (Prod.mk.inj (Result.returned.inj heq)).2
    · intro heq
      rw [← heq]
      exact ⟨[], rfl, by rw [window, List.take_zero]; rfl⟩
  · rw [if_neg hzero]
    by_cases hlt : position < b.capacity
    · have hchunk := h.chunk_lt hlt
      have hplace : position / b.baseSize * b.baseSize + position % b.baseSize = position := by
        rw [Nat.mul_comm]
        exact Nat.div_add_mod _ _
      obtain ⟨hret, hcrash⟩ := pieces_spec (n := min len (b.size - b.position) + 1)
        (k := min len (b.size - b.position)) h.toPlaced hchunk hmod (by omega)
      rw [hplace] at hret hcrash
      rw [walk_spec (show 0 < b.chunks.length by omega), Nat.zero_add, if_pos hchunk]
      dsimp only
      by_cases hroom : position + min len (b.size - b.position) ≤ b.capacity
      · obtain ⟨ps, hps, hflat⟩ := hret hroom
        rw [hps]
        constructor
        · rintro ⟨buffers, heq, -⟩
          exact (Prod.mk.inj (Result.returned.inj heq)).2
        · intro heq
          refine ⟨ps, by rw [← heq], ?_⟩
          rw [← heq, window_flat b (by omega), hflat]
      · rw [hcrash (Nat.lt_of_not_le hroom)]
        refine iff_of_false ?_ fun heq => (by omega)
        rintro ⟨buffers, heq, -⟩
        cases heq
    · -- past the last chunk there is none to look at
      have hchunk := h.le_chunk (Nat.le_of_not_lt hlt)
      rw [walk_spec (show 0 < b.chunks.length by omega), Nat.zero_add, if_neg (Nat.not_lt.mpr hchunk)]
      refine iff_of_false ?_ fun heq => (by omega)
      rintro ⟨buffers, heq, -⟩
      split at heq
      · next hwalk =>
        split at hwalk
        · cases Result.returned.inj hwalk
          rw [pieces] at heq
          cases heq
        · cases hwalk
      · cases heq
      · cases heq

/-! ## Top theorem -/

/-- `position` is a `size_t`. -/
theorem positional_iff (h : b.Reachable) (size len : Nat) {position : Nat} (hp : position < 2 ^ 64) :
    (b.ReadsAt size position ↔ b.ReadServed size position) ∧
      (b.BuffersAt len position ↔ b.BuffersServed len position) :=
  ⟨readAt_iff h.good size hp, buffersAt_iff h.good len position⟩

/-- Three bytes in chunks of two, with the position after them. -/
def threeWritten : ByteArray := ((create 2).step (.write [1, 2, 3])).2

theorem reachable_threeWritten : threeWritten.Reachable := (Reachable.create 2 (by decide)).step _

theorem positional_threeWritten :
    (threeWritten.ReadsAt 1 2 ↔ threeWritten.ReadServed 1 2) ∧
      (threeWritten.BuffersAt 3 2 ↔ threeWritten.BuffersServed 3 2) :=
  positional_iff reachable_threeWritten 1 3 (by decide)

/-- The first byte is read as the third, a position past the content throws nothing, and no buffers are given. -/
theorem threeWritten_misread :
    threeWritten.Reachable ∧ ¬threeWritten.ReadsAt 1 0 ∧ ¬threeWritten.ReadsAt 1 4 ∧ ¬threeWritten.BuffersAt 3 0 := by
  refine ⟨reachable_threeWritten, ?_, ?_, ?_⟩
  · rw [readAt_iff reachable_threeWritten.good 1 (by decide), ReadServed, if_pos (by decide)]
    exact fun hserved => absurd hserved.2.2 (by decide)
  · rw [readAt_iff reachable_threeWritten.good 1 (by decide), ReadServed, if_neg (by decide)]
    decide
  · rw [buffersAt_iff reachable_threeWritten.good, BuffersServed]
    decide

end ByteArray

end Core
