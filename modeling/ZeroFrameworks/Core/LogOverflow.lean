import ZeroFrameworks.Core.AsyncLog

/-!
# A full log buffer (`AsyncLogWriter::appendRaw`, `core/log/async_log.cc`)

`DROP_OLDEST` makes room by reading records with `readOne`, which takes each for a structured entry: one that is empty
or longer than 4096 bytes for damaged, so that all of them go, and any other for the lengths that are in its text.

    a call does what its policy says  ↔  the message can be stored, and those that go for it read as entries   (overflow_iff)
-/

namespace Core

open Kv (Bytes)
open Cells (overlay window)

/-! ## Algorithm -/

structure LogBufferMessage where
  timestamp : Nat
  level : Nat
  line : Nat
  thread_id : Nat
  fiber_id : Nat
  message : Bytes
  logger_name : Bytes
  file_name : Bytes
  thread_name : Bytes

namespace LogEntryBuilder

/-- A field of the `LogBufferEntry` that `data` begins with. -/
def field (data : Bytes) (pos n : Nat) : Nat := Codec.ofLe (window data pos n)

/-- `none` for a read outside of `data`. -/
def rebuildMessage (data : Bytes) : Option LogBufferMessage := do
  let length := field data 8 4
  let logger_name_len := field data 28 4
  let file_name_len := field data 32 4
  let thread_name_len := field data 36 4
  -- `sizeof(LogBufferEntry)`
  let ptr := 40
  let message ← copyOut data ptr length
  let ptr := ptr + length
  let logger_name ← copyOut data ptr logger_name_len
  let ptr := ptr + logger_name_len
  let file_name ← copyOut data ptr file_name_len
  let ptr := ptr + file_name_len
  let thread_name ← copyOut data ptr thread_name_len
  pure {
    timestamp := field data 0 8
    level := field data 12 4
    line := field data 16 4
    thread_id := field data 20 4
    fiber_id := field data 24 4
    message := message
    logger_name := logger_name
    file_name := file_name
    thread_name := thread_name }

end LogEntryBuilder

/-- How far a call has come: it has returned, has left an array, or is still in its loop. -/
inductive AppendOutcome where
  | returned (result : Bool) (b : LogRingBuffer)
  | outside
  | running

namespace LogRingBuffer

/-- `readOne(msg)` as a whole, where `tmp` is what its array holds before. -/
def readOneInto (tmp : Bytes) (b : LogRingBuffer) : Option (Option LogBufferMessage × LogRingBuffer) :=
  let r := b.readIndex
  let w := b.writeIndex
  if r = w then some (none, b)
  else do
    let pre ← copyOutAround b.capacity b.buffer r 4
    let len_prefix := Codec.ofLe pre
    let r := (r + 4) &&& b.mask
    if len_prefix = 0 ∨ len_prefix > MAX_ENTRY_SIZE then some (none, { b with readIndex := w })
    else do
      let data ← copyOutAround b.capacity b.buffer r len_prefix
      let tmp ← copyIn tmp 0 data
      let r := (r + len_prefix) &&& b.mask
      let aligned_r := align r
      let r := if aligned_r < b.capacity then aligned_r else aligned_r - b.capacity
      let msg ← LogEntryBuilder.rebuildMessage tmp
      pure (some msg, { b with readIndex := r })

/-- `write`, after so many turns of its loop. -/
def write (blockOnFull : Bool) (data : Bytes) : Nat → LogRingBuffer → AppendOutcome
  | 0, _ => .running
  | fuel + 1, b =>
    match b.tryWrite data with
    | none => .outside
    | some (true, b) => .returned true b
    | some (false, b) => if !blockOnFull then .returned true b else write blockOnFull data fuel b

end LogRingBuffer

namespace AsyncLogWriter

/-- The loop of `DROP_OLDEST`, after so many turns; `tmp i` is what `readOne` finds in its array in the `i`-th. -/
def dropOldest (data : Bytes) : Nat → (Nat → Bytes) → LogRingBuffer → AppendOutcome
  | 0, _, _ => .running
  | fuel + 1, tmp, b =>
    match b.tryWrite data with
    | none => .outside
    | some (true, b) => .returned true b
    | some (false, b) =>
      match b.readOneInto (tmp 0) with
      | none => .outside
      | some (_, b) => dropOldest data fuel (fun i => tmp (i + 1)) b

/-- `appendRaw(data, len)` on a writer with `m_running` and this policy. -/
def appendRaw (running : Bool) (policy : AsyncOverflowPolicy) (data : Bytes) (tmp : Nat → Bytes) (fuel : Nat)
    (b : LogRingBuffer) : AppendOutcome :=
  if !running then .returned false b
  else
    match policy with
    | .block => b.write (policy == .block) data fuel
    | .dropNewest =>
      match b.tryWrite data with
      | none => .outside
      | some (ok, b) => .returned ok b
    | .dropOldest => dropOldest data fuel tmp b
    | .discard =>
      match b.tryWrite data with
      | none => .outside
      | some (_, b) => .returned false b

end AsyncLogWriter

/-! ## Specification -/

namespace LogRingBuffer

open Fifo (padded used)

/-- The first records in the buffer, the oldest first. -/
def records : Nat → LogRingBuffer → List Bytes
  | 0, _ => []
  | n + 1, b =>
    match b.front with
    | none => []
    | some (data, b) => data :: records n b

def messages (b : LogRingBuffer) : List Bytes := records b.capacity b

/-- The message has room behind the messages `q`. -/
def Fits (capacity : Nat) (data : Bytes) (q : List Bytes) : Prop := used q + padded data + 4 ≤ capacity

instance (capacity : Nat) (data : Bytes) (q : List Bytes) : Decidable (Fits capacity data q) :=
  inferInstanceAs (Decidable (_ ≤ _))

end LogRingBuffer

namespace AsyncLogWriter

open LogRingBuffer (messages Fits MAX_ENTRY_SIZE)

/-- What `readOne` may find in its array. -/
def Arrays (tmp : Nat → Bytes) : Prop := ∀ i, (tmp i).length = MAX_ENTRY_SIZE

/-- What the policies say about a call on the buffer `b`. -/
structure Kept (running : Bool) (policy : AsyncOverflowPolicy) (data : Bytes) (b : LogRingBuffer) : Prop where
  returns : policy = .dropOldest → ∀ tmp, Arrays tmp → ∃ fuel result b' k,
    appendRaw running policy data tmp fuel b = .returned result b' ∧
      messages b' = (messages b).drop k ++ (if result then [data] else []) ∧
      ∀ j < k, ¬Fits b.capacity data ((messages b).drop j)
  inside : policy = .dropOldest → ∀ tmp, Arrays tmp → ∀ fuel, appendRaw running policy data tmp fuel b ≠ .outside
  stored : ∀ tmp, Arrays tmp → ∀ fuel b', appendRaw running policy data tmp fuel b = .returned true b' →
    ∃ k, messages b' = (messages b).drop k ++ [data]

/-- The lengths that the text of a message gives are there, and stay within the array. -/
def Rebuilds (data : Bytes) : Prop :=
  40 ≤ data.length ∧ 40 + LogEntryBuilder.field data 8 4 + LogEntryBuilder.field data 28 4 +
    LogEntryBuilder.field data 32 4 + LogEntryBuilder.field data 36 4 ≤ MAX_ENTRY_SIZE

instance (data : Bytes) : Decidable (Rebuilds data) := inferInstanceAs (Decidable (_ ∧ _))

/-- The message fits once the oldest are gone: each that goes reads as an entry, up to one that takes all others with
it, where none of them could stay. -/
def Clears (capacity : Nat) (data : Bytes) : List Bytes → Prop
  | [] => Fits capacity data []
  | d :: q => Fits capacity data (d :: q) ∨
    if d.length = 0 ∨ d.length > MAX_ENTRY_SIZE then
      Fits capacity data [] ∧ ∀ j < q.length, ¬Fits capacity data (q.drop j)
    else Rebuilds d ∧ Clears capacity data q

def Allowed (running : Bool) (policy : AsyncOverflowPolicy) (data : Bytes) (b : LogRingBuffer) : Prop :=
  running = true →
    match policy with
    | .block | .dropNewest => data.length < 2 ^ 32 ∨ ¬Fits b.capacity data (messages b)
    | .dropOldest => data.length < 2 ^ 32 ∧ Clears b.capacity data (messages b)
    | .discard => True

/-- A state after calls that have returned, of `appendRaw` with messages of less than 4 GiB, and of `readRaw`. -/
inductive Reached (queue_size : Nat) : LogRingBuffer → Prop
  | start : Reached queue_size (LogRingBuffer.create queue_size)
  | readRaw {b b' : LogRingBuffer} {output : Option Bytes} :
    Reached queue_size b → b.readRaw = some (output, b') → Reached queue_size b'
  | appendRaw {b b' : LogRingBuffer} {running : Bool} {policy : AsyncOverflowPolicy} {data : Bytes} {tmp : Nat → Bytes}
      {fuel : Nat} {result : Bool} :
    Reached queue_size b → data.length < 2 ^ 32 → Arrays tmp →
      AsyncLogWriter.appendRaw running policy data tmp fuel b = .returned result b' → Reached queue_size b'

end AsyncLogWriter

/-! ## Lemmas -/

variable {msg : Option LogBufferMessage}

namespace LogRingBuffer

open Fifo (padded used)

variable {b : LogRingBuffer} {q : List Bytes}

theorem length_le_used (q : List Bytes) : q.length ≤ used q := by
  induction q with
  | nil => exact Nat.le_refl 0
  | cons data q ih =>
    have hpad := (align_spec (data.length + 4)).2.1
    rw [used_cons, List.length_cons, padded]
    omega

theorem records_eq (h : b.Holds q) (hq : ∀ data ∈ q, data.length < 2 ^ 32) {n : Nat} (hn : q.length ≤ n) :
    records n b = q := by
  induction q generalizing b n with
  | nil =>
    have hempty := h.empty_iff.mpr rfl
    unfold empty at hempty
    cases n with
    | zero => rfl
    | succ n =>
      unfold records front
      rw [if_pos (beq_iff_eq.mp hempty)]
  | cons data q ih =>
    obtain ⟨b', hfront, hholds, -⟩ := front_spec h (hq data List.mem_cons_self)
    cases n with
    | zero => simp at hn
    | succ n =>
      unfold records
      rw [hfront]
      dsimp only
      rw [ih hholds (fun x hx => hq x (List.mem_cons_of_mem _ hx)) (by simpa using hn)]

theorem messages_eq (h : b.Holds q) (hq : ∀ data ∈ q, data.length < 2 ^ 32) : b.messages = q :=
  records_eq h hq (Nat.le_trans (length_le_used q) (Nat.le_of_lt h.room))

theorem length_of_mem_records {data : Bytes} {n : Nat} (h : data ∈ records n b) : data.length < 2 ^ 32 := by
  induction n generalizing b with
  | zero => cases h
  | succ n ih =>
    unfold records at h
    split at h
    next => cases h
    next data' b' hfront =>
      rcases List.mem_cons.mp h with rfl | h
      · obtain ⟨-, pre, hpre, hlen, -⟩ := front_inv hfront
        have hlt := Codec.ofLe_lt pre
        rw [copyOutAround_length hpre, hlen] at hlt
        exact hlt
      · exact ih h

theorem Holds.dropAll (h : b.Holds q) : Holds { b with readIndex := b.writeIndex } [] where
  capacity := h.capacity
  buffer := h.buffer
  mask := h.mask
  write := h.write
  read := h.write
  room := Nat.lt_of_le_of_lt (Nat.zero_le _) h.write.1
  index := by
    show b.writeIndex = Ring.slot b.capacity (b.writeIndex + 0)
    unfold Ring.slot
    rw [Nat.add_zero, if_pos h.write.1]
  bytes := by
    have hw := h.write.1
    rw [← h.buffer] at hw
    exact List.length_eq_zero_iff.mp (Ring.get_length hw (Nat.zero_le _))

theorem readOneInto_nil (h : b.Holds []) (tmp : Bytes) : b.readOneInto tmp = some (none, b) := by
  have hempty := h.empty_iff.mpr rfl
  unfold empty at hempty
  unfold readOneInto
  dsimp only
  rw [if_pos (beq_iff_eq.mp hempty)]

theorem readOneInto_front {b' : LogRingBuffer} {data tmp : Bytes} (h : b.front = some (data, b'))
    (htmp : tmp.length = MAX_ENTRY_SIZE) :
    b.readOneInto tmp =
      if data.length = 0 ∨ data.length > MAX_ENTRY_SIZE then some (none, { b with readIndex := b.writeIndex })
      else (LogEntryBuilder.rebuildMessage (overlay tmp 0 data)).map fun msg => (some msg, b') := by
  obtain ⟨hne, pre, hpre, hlen, hdata, hb⟩ := front_inv h
  unfold readOneInto
  dsimp only
  rw [if_neg hne, hpre]
  dsimp only [Option.bind_eq_bind, Option.bind_some]
  rw [hlen, hdata]
  dsimp only [Option.bind_some]
  split
  next => rfl
  next hsize =>
    unfold copyIn
    rw [if_pos (by omega), ← hb]
    dsimp only [Option.bind_some]
    cases LogEntryBuilder.rebuildMessage (overlay tmp 0 data) with
    | none => rfl
    | some msg => rfl

theorem readOne_of_readOneInto {b' : LogRingBuffer} {tmp : Bytes}
    (h : b.readOneInto tmp = some (msg, b')) : b.readOne = some (msg.isSome, b') := by
  unfold readOneInto at h
  unfold readOne
  dsimp only at h ⊢
  split at h
  next heq =>
    obtain ⟨rfl, rfl⟩ := Prod.mk.inj (Option.some.inj h)
    rw [if_pos heq]
    rfl
  next hne =>
    obtain ⟨pre, hpre, h⟩ := Option.bind_eq_some_iff.mp h
    rw [if_neg hne, hpre]
    dsimp only [Option.bind_eq_bind, Option.bind_some]
    split at h
    next hbad =>
      obtain ⟨rfl, rfl⟩ := Prod.mk.inj (Option.some.inj h)
      rw [if_pos hbad]
      rfl
    next hgood =>
      obtain ⟨data, hdata, h⟩ := Option.bind_eq_some_iff.mp h
      obtain ⟨tmp', -, h⟩ := Option.bind_eq_some_iff.mp h
      obtain ⟨msg', -, h⟩ := Option.bind_eq_some_iff.mp h
      obtain ⟨rfl, rfl⟩ := Prod.mk.inj (Option.some.inj h)
      rw [if_neg hgood, hdata]
      rfl

end LogRingBuffer

namespace LogEntryBuilder

theorem rebuildMessage_isSome (t : Bytes) :
    (rebuildMessage t).isSome ↔ 40 + field t 8 4 + field t 28 4 + field t 32 4 + field t 36 4 ≤ t.length := by
  unfold rebuildMessage copyOut
  dsimp only
  constructor
  · intro h
    obtain ⟨msg, h⟩ := Option.isSome_iff_exists.mp h
    obtain ⟨message, _, h1⟩ := Option.bind_eq_some_iff.mp h
    obtain ⟨logger_name, _, h2⟩ := Option.bind_eq_some_iff.mp h1
    obtain ⟨file_name, _, h3⟩ := Option.bind_eq_some_iff.mp h2
    obtain ⟨thread_name, hname, _⟩ := Option.bind_eq_some_iff.mp h3
    by_contra hlong
    rw [if_neg hlong] at hname
    cases hname
  · intro h
    rw [if_pos (by omega), if_pos (by omega), if_pos (by omega), if_pos h]
    rfl

theorem field_overlay {data tmp : Bytes} {pos n : Nat} (h : pos + n ≤ data.length) :
    field (overlay tmp 0 data) pos n = field data pos n := by
  unfold field window overlay
  rw [List.take_zero, List.nil_append, List.drop_append_of_le_length (by omega),
    List.take_append_of_le_length (by rw [List.length_drop]; omega)]

end LogEntryBuilder

namespace AsyncLogWriter

open LogEntryBuilder (rebuildMessage field)
open LogRingBuffer (MAX_ENTRY_SIZE messages Fits front_spec tryWrite_spec readOneInto_front readOneInto_nil)
open Fifo (used)

theorem rebuilds {data tmp : Bytes} (h : Rebuilds data) (hdata : data.length ≤ MAX_ENTRY_SIZE)
    (htmp : tmp.length = MAX_ENTRY_SIZE) : ∃ msg, rebuildMessage (overlay tmp 0 data) = some msg := by
  obtain ⟨hlen, hfields⟩ := h
  rw [← Option.isSome_iff_exists, LogEntryBuilder.rebuildMessage_isSome, Cells.overlay_length (by omega), htmp,
    LogEntryBuilder.field_overlay (by omega), LogEntryBuilder.field_overlay (by omega),
    LogEntryBuilder.field_overlay (by omega), LogEntryBuilder.field_overlay (by omega)]
  exact hfields

/-- The last length of an entry that ends before it is what the array holds: here, the highest. -/
theorem field_short {data : Bytes} (h : data.length < 40) :
    MAX_ENTRY_SIZE < field (overlay (List.replicate MAX_ENTRY_SIZE 0xFF) 0 data) 36 4 := by
  have hlast : window (overlay (List.replicate MAX_ENTRY_SIZE 0xFF) 0 data) (36 + 3) 1 = [0xFF] := by
    unfold window overlay
    rw [List.take_zero, List.nil_append, List.drop_append, List.drop_of_length_le (by omega), List.nil_append,
      List.drop_replicate, List.drop_replicate, List.take_replicate, Nat.zero_add,
      show min 1 (MAX_ENTRY_SIZE - data.length - (36 + 3 - data.length)) = 1 by unfold MAX_ENTRY_SIZE; omega]
    rfl
  unfold field
  rw [show (4 : Nat) = 3 + 1 from rfl, Cells.window_add, hlast]
  have hlen : (window (overlay (List.replicate MAX_ENTRY_SIZE (0xFF : UInt8)) 0 data) 36 3).length = 3 := by
    rw [Cells.window_length]
    rw [Cells.overlay_length] <;> rw [List.length_replicate] <;> unfold MAX_ENTRY_SIZE <;> omega
  generalize window (overlay (List.replicate MAX_ENTRY_SIZE (0xFF : UInt8)) 0 data) 36 3 = w at hlen ⊢
  obtain ⟨x, y, z, rfl⟩ := List.length_eq_three.mp hlen
  show 4096 < x.toNat + 256 * (y.toNat + 256 * (z.toNat + 256 * (255 + 256 * 0)))
  omega

theorem not_rebuilds {data : Bytes} (h : ¬Rebuilds data) (hdata : data.length ≤ MAX_ENTRY_SIZE) :
    ∃ tmp : Bytes, tmp.length = MAX_ENTRY_SIZE ∧ rebuildMessage (overlay tmp 0 data) = none := by
  refine ⟨List.replicate MAX_ENTRY_SIZE 0xFF, List.length_replicate, ?_⟩
  have hlen := @Cells.overlay_length _ (List.replicate MAX_ENTRY_SIZE (0xFF : UInt8)) data 0
    (by rw [List.length_replicate]; omega)
  rw [← Option.not_isSome_iff_eq_none, LogEntryBuilder.rebuildMessage_isSome, hlen, List.length_replicate]
  rcases Nat.lt_or_ge data.length 40 with hshort | hlong
  · have := field_short hshort
    omega
  · rw [LogEntryBuilder.field_overlay (by omega), LogEntryBuilder.field_overlay (by omega),
      LogEntryBuilder.field_overlay (by omega), LogEntryBuilder.field_overlay (by omega)]
    exact fun hfields => h ⟨hlong, hfields⟩

/-! ### The loop of `DROP_OLDEST` -/

/-- The messages after the loop; `none` where, for some arrays, it has no end or leaves one. -/
def cleared (capacity : Nat) (data : Bytes) : List Bytes → Option (List Bytes)
  | [] => if Fits capacity data [] then some [data] else none
  | d :: q =>
    if Fits capacity data (d :: q) then some (d :: q ++ [data])
    else if d.length = 0 ∨ d.length > MAX_ENTRY_SIZE then (if Fits capacity data [] then some [data] else none)
    else if Rebuilds d then cleared capacity data q
    else none

/-- The loop ends, and with the messages `q` whenever it does. -/
structure Settles (data : Bytes) (tmp : Nat → Bytes) (b : LogRingBuffer) (q : List Bytes) : Prop where
  ends : ∃ fuel b', dropOldest data fuel tmp b = .returned true b'
  always : ∀ fuel, dropOldest data fuel tmp b = .running ∨
    ∃ b', dropOldest data fuel tmp b = .returned true b' ∧ b'.Holds q

def Fails (data : Bytes) (tmp : Nat → Bytes) (b : LogRingBuffer) : Prop :=
  ∀ fuel result b', dropOldest data fuel tmp b ≠ .returned result b'

section

variable {b b1 b2 : LogRingBuffer} {q : List Bytes} {data : Bytes} {tmp : Nat → Bytes}

theorem tryWrite_full (h : b.Holds q) (hfull : ¬Fits b.capacity data q) :
    ∃ b', b.tryWrite data = some (false, b') ∧ b'.Holds q ∧ b'.capacity = b.capacity := by
  rcases tryWrite_spec h data with ⟨-, hwrite⟩ | ⟨hroom, -⟩
  · exact hwrite
  · exact absurd hroom hfull

theorem tryWrite_fits (h : b.Holds q) (hfits : Fits b.capacity data q) :
    ∃ b', b.tryWrite data = some (true, b') ∧ b'.Holds (q ++ [data]) ∧ b'.capacity = b.capacity := by
  rcases tryWrite_spec h data with ⟨hfull, -⟩ | ⟨-, hwrite⟩
  · exact absurd hfull (Nat.not_lt.mpr hfits)
  · exact hwrite

theorem Settles.of_fits (h : b.Holds q) (hfits : Fits b.capacity data q) : Settles data tmp b (q ++ [data]) := by
  obtain ⟨b', hwrite, hholds, -⟩ := tryWrite_fits h hfits
  have hstep (fuel : Nat) : dropOldest data (fuel + 1) tmp b = .returned true b' := by
    rw [dropOldest, hwrite]
  refine ⟨⟨1, b', hstep 0⟩, fun fuel => ?_⟩
  cases fuel with
  | zero => exact .inl rfl
  | succ fuel => exact .inr ⟨b', hstep fuel, hholds⟩

theorem dropOldest_succ (hwrite : b.tryWrite data = some (false, b1))
    (hread : b1.readOneInto (tmp 0) = some (msg, b2)) (fuel : Nat) :
    dropOldest data (fuel + 1) tmp b = dropOldest data fuel (fun i => tmp (i + 1)) b2 := by
  rw [dropOldest, hwrite]
  dsimp only
  rw [hread]

theorem Settles.step (hwrite : b.tryWrite data = some (false, b1))
    (hread : b1.readOneInto (tmp 0) = some (msg, b2)) (h : Settles data (fun i => tmp (i + 1)) b2 q) :
    Settles data tmp b q := by
  obtain ⟨fuel, b', hends⟩ := h.ends
  refine ⟨⟨fuel + 1, b', (dropOldest_succ hwrite hread fuel).trans hends⟩, fun fuel => ?_⟩
  cases fuel with
  | zero => exact .inl rfl
  | succ fuel =>
    rw [dropOldest_succ hwrite hread]
    exact h.always fuel

theorem Fails.step (hwrite : b.tryWrite data = some (false, b1))
    (hread : b1.readOneInto (tmp 0) = some (msg, b2)) (h : Fails data (fun i => tmp (i + 1)) b2) :
    Fails data tmp b := by
  intro fuel result b' hret
  cases fuel with
  | zero => cases hret
  | succ fuel =>
    rw [dropOldest_succ hwrite hread] at hret
    exact h fuel result b' hret

theorem Fails.outside (hwrite : b.tryWrite data = some (false, b1)) (hread : b1.readOneInto (tmp 0) = none) :
    Fails data tmp b := by
  intro fuel result b' hret
  cases fuel with
  | zero => cases hret
  | succ fuel =>
    rw [dropOldest, hwrite] at hret
    dsimp only at hret
    rw [hread] at hret
    cases hret

/-- There is nothing left to drop, and the message does not fit. -/
theorem Fails.stuck (h : b.Holds []) (hfull : ¬Fits b.capacity data []) : Fails data tmp b := by
  intro fuel
  induction fuel generalizing b tmp with
  | zero =>
    intro result b' hret
    cases hret
  | succ fuel ih =>
    obtain ⟨b1, hwrite, h1, hcap⟩ := tryWrite_full h hfull
    rw [dropOldest_succ hwrite (readOneInto_nil h1 (tmp 0))]
    exact ih h1 (by rwa [hcap])

theorem read_damaged {d : Bytes} (h : b.Holds (d :: q)) (hd : d.length < 2 ^ 32)
    (hbad : d.length = 0 ∨ d.length > MAX_ENTRY_SIZE) {t : Bytes} (ht : t.length = MAX_ENTRY_SIZE) :
    ∃ b', b.readOneInto t = some (none, b') ∧ b'.Holds [] ∧ b'.capacity = b.capacity := by
  obtain ⟨b', hfront, -⟩ := front_spec h hd
  exact ⟨_, by rw [readOneInto_front hfront ht, if_pos hbad], h.dropAll, rfl⟩

theorem read_entry {d : Bytes} (h : b.Holds (d :: q)) (hd : d.length < 2 ^ 32)
    (hgood : ¬(d.length = 0 ∨ d.length > MAX_ENTRY_SIZE)) (hre : Rebuilds d) {t : Bytes}
    (ht : t.length = MAX_ENTRY_SIZE) :
    ∃ msg b', b.readOneInto t = some (msg, b') ∧ b'.Holds q ∧ b'.capacity = b.capacity := by
  obtain ⟨b', hfront, hholds, hcap⟩ := front_spec h hd
  obtain ⟨msg, hmsg⟩ := rebuilds hre (by omega) ht
  exact ⟨some msg, b', by rw [readOneInto_front hfront ht, if_neg hgood, hmsg]; rfl, hholds, hcap⟩

theorem settles {q' : List Bytes} (h : b.Holds q) (hq : ∀ d ∈ q, d.length < 2 ^ 32)
    (hcl : cleared b.capacity data q = some q') (htmp : Arrays tmp) : Settles data tmp b q' := by
  induction q generalizing b tmp with
  | nil =>
    unfold cleared at hcl
    split at hcl
    next hfits =>
      obtain rfl := Option.some.inj hcl
      exact .of_fits h hfits
    next => cases hcl
  | cons d q ih =>
    unfold cleared at hcl
    split at hcl
    next hfits =>
      obtain rfl := Option.some.inj hcl
      exact .of_fits h hfits
    next hfull =>
      obtain ⟨b1, hwrite, h1, hcap1⟩ := tryWrite_full h hfull
      have hd := hq d List.mem_cons_self
      split at hcl
      next hbad =>
        obtain ⟨b2, hread, h2, hcap2⟩ := read_damaged h1 hd hbad (htmp 0)
        split at hcl
        next hfits =>
          obtain rfl := Option.some.inj hcl
          exact .step hwrite hread (.of_fits h2 (by rwa [hcap2, hcap1]))
        next => cases hcl
      next hgood =>
        split at hcl
        next hre =>
          obtain ⟨msg, b2, hread, h2, hcap2⟩ := read_entry h1 hd hgood hre (htmp 0)
          refine .step hwrite hread (ih h2 (fun x hx => hq x (List.mem_cons_of_mem _ hx)) ?_ fun i => htmp (i + 1))
          rwa [hcap2, hcap1]
        next => cases hcl

theorem fails (h : b.Holds q) (hq : ∀ d ∈ q, d.length < 2 ^ 32) (hcl : cleared b.capacity data q = none) :
    ∃ tmp, Arrays tmp ∧ Fails data tmp b := by
  have hzeros : Arrays fun _ => List.replicate MAX_ENTRY_SIZE 0 := fun _ => List.length_replicate
  induction q generalizing b with
  | nil =>
    unfold cleared at hcl
    split at hcl
    next => cases hcl
    next hfull => exact ⟨_, hzeros, .stuck h hfull⟩
  | cons d q ih =>
    unfold cleared at hcl
    split at hcl
    next => cases hcl
    next hfull =>
      obtain ⟨b1, hwrite, h1, hcap1⟩ := tryWrite_full h hfull
      have hd := hq d List.mem_cons_self
      split at hcl
      next hbad =>
        obtain ⟨b2, hread, h2, hcap2⟩ := read_damaged h1 hd hbad (hzeros 0)
        split at hcl
        next => cases hcl
        next hnone => exact ⟨_, hzeros, .step hwrite hread (.stuck h2 (by rwa [hcap2, hcap1]))⟩
      next hgood =>
        split at hcl
        next hre =>
          obtain ⟨msg, b2, hread, h2, hcap2⟩ := read_entry h1 hd hgood hre (hzeros 0)
          obtain ⟨tmp, htmp, hfails⟩ :=
            ih h2 (fun x hx => hq x (List.mem_cons_of_mem _ hx)) (by rwa [hcap2, hcap1])
          refine ⟨fun i => if i = 0 then List.replicate MAX_ENTRY_SIZE 0 else tmp (i - 1), fun i => ?_, ?_⟩
          · show (if i = 0 then _ else _ : Bytes).length = _
            split
            next => exact List.length_replicate
            next => exact htmp _
          · exact .step hwrite hread hfails
        next hre =>
          -- the lengths in the text lead out of the array
          obtain ⟨t, ht, hnone⟩ := not_rebuilds hre (by omega)
          obtain ⟨b', hfront, -⟩ := front_spec h1 hd
          exact ⟨fun _ => t, fun _ => ht, .outside hwrite (by rw [readOneInto_front hfront ht, if_neg hgood, hnone]; rfl)⟩

end

/-! ### What the loop leaves -/

theorem cleared_spec {capacity : Nat} {data : Bytes} {q q' : List Bytes} (h : cleared capacity data q = some q') :
    q'.length ≤ q.length + 1 ∧ ∀ d ∈ q', d ∈ q ∨ d = data := by
  induction q with
  | nil =>
    unfold cleared at h
    split at h
    next =>
      obtain rfl := Option.some.inj h
      simp
    next => cases h
  | cons d q ih =>
    unfold cleared at h
    split at h
    next =>
      obtain rfl := Option.some.inj h
      simp [or_assoc]
    next =>
      split at h
      next =>
        split at h
        next =>
          obtain rfl := Option.some.inj h
          simp
        next => cases h
      next =>
        split at h
        next =>
          obtain ⟨hlen, hmem⟩ := ih h
          refine ⟨Nat.le_succ_of_le hlen, fun x hx => ?_⟩
          exact (hmem x hx).imp_left (List.mem_cons_of_mem _)
        next => cases h

/-- The oldest that had to go are gone, and no others, exactly when the queue clears. -/
theorem clears_iff {capacity : Nat} {data : Bytes} {q : List Bytes} :
    Clears capacity data q ↔ ∃ q' k, cleared capacity data q = some q' ∧ q' = q.drop k ++ [data] ∧
      ∀ j < k, ¬Fits capacity data (q.drop j) := by
  induction q with
  | nil =>
    unfold Clears cleared
    constructor
    · intro hfits
      exact ⟨_, 0, if_pos hfits, rfl, fun j hj => absurd hj (Nat.not_lt_zero j)⟩
    · rintro ⟨q', k, hcl, -⟩
      split at hcl
      next hfits => exact hfits
      next => cases hcl
  | cons d q ih =>
    unfold Clears cleared
    by_cases hfits : Fits capacity data (d :: q)
    · rw [if_pos hfits]
      exact ⟨fun _ => ⟨_, 0, rfl, rfl, fun j hj => absurd hj (Nat.not_lt_zero j)⟩, fun _ => .inl hfits⟩
    rw [if_neg hfits, or_iff_right hfits]
    by_cases hbad : d.length = 0 ∨ d.length > MAX_ENTRY_SIZE
    · rw [if_pos hbad, if_pos hbad]
      constructor
      · rintro ⟨hempty, hall⟩
        refine ⟨_, q.length + 1, if_pos hempty, by simp, fun j hj => ?_⟩
        cases j with
        | zero => exact hfits
        | succ j => exact hall j (by omega)
      · rintro ⟨q', k, hcl, hq', hmin⟩
        split at hcl
        next hempty =>
          obtain rfl := Option.some.inj hcl
          have hlen := congrArg List.length hq'
          simp only [List.length_append, List.length_drop, List.length_cons, List.length_nil] at hlen
          exact ⟨hempty, fun j hj => hmin (j + 1) (by omega)⟩
        next => cases hcl
    · rw [if_neg hbad, if_neg hbad]
      by_cases hre : Rebuilds d
      · rw [if_pos hre, ih]
        constructor
        · rintro ⟨-, q', k, hcl, hq', hmin⟩
          refine ⟨q', k + 1, hcl, hq', fun j hj => ?_⟩
          cases j with
          | zero => exact hfits
          | succ j => exact hmin j (by omega)
        · rintro ⟨q', k, hcl, hq', hmin⟩
          cases k with
          | zero =>
            -- the loop has dropped one at least
            have hlen := (cleared_spec hcl).1
            rw [hq', List.drop_zero, List.length_append, List.length_cons, List.length_singleton] at hlen
            omega
          | succ k => exact ⟨hre, q', k, hcl, hq', fun j hj => hmin (j + 1) (by omega)⟩
      · rw [if_neg hre]
        constructor
        · rintro ⟨h, -⟩
          exact absurd h hre
        · rintro ⟨q', k, hcl, -⟩
          cases hcl

/-! ### Reached states -/

/-- The buffer holds messages whose lengths are read back. -/
def Sound (b : LogRingBuffer) : Prop := ∃ q, b.Holds q ∧ ∀ d ∈ q, d.length < 2 ^ 32

theorem forall_mem_concat {q : List Bytes} {data : Bytes} (hq : ∀ d ∈ q, d.length < 2 ^ 32) (hdata : data.length < 2 ^ 32) :
    ∀ d ∈ q ++ [data], d.length < 2 ^ 32 := by
  intro d hd
  rcases List.mem_append.mp hd with hd | hd
  · exact hq d hd
  · rwa [List.mem_singleton.mp hd]

theorem Sound.tryWrite {b b' : LogRingBuffer} {data : Bytes} {ok : Bool} (h : Sound b) (hdata : data.length < 2 ^ 32)
    (hwrite : b.tryWrite data = some (ok, b')) : Sound b' := by
  obtain ⟨q, hq, hlen⟩ := h
  rcases tryWrite_spec hq data with ⟨-, b1, heq, h1, -⟩ | ⟨-, b1, heq, h1, -⟩
  · obtain ⟨-, rfl⟩ := Prod.mk.inj (Option.some.inj (heq.symm.trans hwrite))
    exact ⟨q, h1, hlen⟩
  · obtain ⟨-, rfl⟩ := Prod.mk.inj (Option.some.inj (heq.symm.trans hwrite))
    exact ⟨q ++ [data], h1, forall_mem_concat hlen hdata⟩

theorem Sound.readOneInto {b b' : LogRingBuffer} {tmp : Bytes} (h : Sound b)
    (htmp : tmp.length = MAX_ENTRY_SIZE) (hread : b.readOneInto tmp = some (msg, b')) : Sound b' := by
  obtain ⟨q, hq, hlen⟩ := h
  cases q with
  | nil =>
    obtain ⟨-, rfl⟩ := Prod.mk.inj (Option.some.inj ((readOneInto_nil hq tmp).symm.trans hread))
    exact ⟨[], hq, hlen⟩
  | cons d q =>
    obtain ⟨b1, hfront, h1, -⟩ := front_spec hq (hlen d List.mem_cons_self)
    rw [readOneInto_front hfront htmp] at hread
    split at hread
    next =>
      obtain ⟨-, rfl⟩ := Prod.mk.inj (Option.some.inj hread)
      exact ⟨[], hq.dropAll, fun _ hx => absurd hx List.not_mem_nil⟩
    next =>
      obtain ⟨msg', -, heq⟩ := Option.map_eq_some_iff.mp hread
      obtain ⟨-, rfl⟩ := Prod.mk.inj heq
      exact ⟨q, h1, fun x hx => hlen x (List.mem_cons_of_mem _ hx)⟩

theorem Sound.readRaw {b b' : LogRingBuffer} {output : Option Bytes} (h : Sound b)
    (hread : b.readRaw = some (output, b')) : Sound b' := by
  obtain ⟨q, hq, hlen⟩ := h
  cases q with
  | nil =>
    obtain ⟨-, rfl⟩ := Prod.mk.inj (Option.some.inj ((LogRingBuffer.readRaw_nil hq).symm.trans hread))
    exact ⟨[], hq, hlen⟩
  | cons d q =>
    obtain ⟨b1, hfront, h1, -⟩ := front_spec hq (hlen d List.mem_cons_self)
    rw [LogRingBuffer.readRaw_front hfront] at hread
    split at hread
    next =>
      obtain ⟨-, rfl⟩ := Prod.mk.inj (Option.some.inj hread)
      exact ⟨[], hq.dropAll, fun _ hx => absurd hx List.not_mem_nil⟩
    next =>
      obtain ⟨-, rfl⟩ := Prod.mk.inj (Option.some.inj hread)
      exact ⟨q, h1, fun x hx => hlen x (List.mem_cons_of_mem _ hx)⟩

theorem Sound.dropOldest {b b' : LogRingBuffer} {data : Bytes} {tmp : Nat → Bytes} {fuel : Nat} {result : Bool}
    (h : Sound b) (hdata : data.length < 2 ^ 32) (htmp : Arrays tmp)
    (hret : dropOldest data fuel tmp b = .returned result b') : Sound b' := by
  induction fuel generalizing b tmp with
  | zero => cases hret
  | succ fuel ih =>
    rw [AsyncLogWriter.dropOldest] at hret
    split at hret
    next => cases hret
    next b1 hwrite =>
      obtain ⟨-, rfl⟩ := AppendOutcome.returned.inj hret
      exact h.tryWrite hdata hwrite
    next b1 hwrite =>
      split at hret
      next => cases hret
      next msg b2 hread =>
        exact ih ((h.tryWrite hdata hwrite).readOneInto (htmp 0) hread) (fun i => htmp (i + 1)) hret

theorem write_returned {b b' : LogRingBuffer} {q : List Bytes} {data : Bytes} {fuel : Nat} {result : Bool}
    (h : b.Holds q) (hret : b.write true data fuel = .returned result b') :
    Fits b.capacity data q ∧ b'.Holds (q ++ [data]) := by
  induction fuel generalizing b with
  | zero => cases hret
  | succ fuel ih =>
    rw [LogRingBuffer.write] at hret
    by_cases hfits : Fits b.capacity data q
    · obtain ⟨b1, hwrite, h1, -⟩ := tryWrite_fits h hfits
      rw [hwrite] at hret
      obtain ⟨-, rfl⟩ := AppendOutcome.returned.inj hret
      exact ⟨hfits, h1⟩
    · obtain ⟨b1, hwrite, h1, hcap⟩ := tryWrite_full h hfits
      rw [hwrite] at hret
      have hfits1 := (ih h1 hret).1
      rw [hcap] at hfits1
      exact absurd hfits1 hfits

section

variable {b b' : LogRingBuffer} {data : Bytes} {tmp : Nat → Bytes} {fuel : Nat} {result : Bool}

theorem appendRaw_dropNewest (h : appendRaw true .dropNewest data tmp fuel b = .returned result b') :
    ∃ ok, b.tryWrite data = some (ok, b') ∧ result = ok := by
  change (match b.tryWrite data with
    | none => AppendOutcome.outside
    | some (ok, b) => .returned ok b) = _ at h
  split at h
  next => cases h
  next ok b1 hwrite =>
    obtain ⟨rfl, rfl⟩ := AppendOutcome.returned.inj h
    exact ⟨_, hwrite, rfl⟩

theorem appendRaw_discard (h : appendRaw true .discard data tmp fuel b = .returned result b') :
    ∃ ok, b.tryWrite data = some (ok, b') ∧ result = false := by
  change (match b.tryWrite data with
    | none => AppendOutcome.outside
    | some (_, b) => .returned false b) = _ at h
  split at h
  next => cases h
  next ok b1 hwrite =>
    obtain ⟨rfl, rfl⟩ := AppendOutcome.returned.inj h
    exact ⟨ok, hwrite, rfl⟩

end

theorem Sound.appendRaw {b b' : LogRingBuffer} {running : Bool} {policy : AsyncOverflowPolicy} {data : Bytes}
    {tmp : Nat → Bytes} {fuel : Nat} {result : Bool} (h : Sound b) (hdata : data.length < 2 ^ 32) (htmp : Arrays tmp)
    (hret : appendRaw running policy data tmp fuel b = .returned result b') : Sound b' := by
  cases running with
  | false =>
    obtain ⟨-, rfl⟩ := AppendOutcome.returned.inj hret
    exact h
  | true =>
    cases policy with
    | block =>
      obtain ⟨q, hq, hlen⟩ := h
      exact ⟨q ++ [data], (write_returned hq hret).2, forall_mem_concat hlen hdata⟩
    | dropNewest =>
      obtain ⟨ok, hwrite, -⟩ := appendRaw_dropNewest hret
      exact h.tryWrite hdata hwrite
    | dropOldest => exact h.dropOldest hdata htmp hret
    | discard =>
      obtain ⟨ok, hwrite, -⟩ := appendRaw_discard hret
      exact h.tryWrite hdata hwrite

variable {queue_size : Nat}

theorem sound_of_reached (hsize : queue_size ≤ 2 ^ 63) {b : LogRingBuffer}
    (h : Reached queue_size b) : Sound b := by
  induction h with
  | start => exact ⟨[], LogRingBuffer.create_holds queue_size hsize, fun _ hx => absurd hx List.not_mem_nil⟩
  | readRaw _ hread ih => exact ih.readRaw hread
  | appendRaw _ hdata htmp hret ih => exact ih.appendRaw hdata htmp hret

/-! ### One call -/

theorem length_of_stored {b : LogRingBuffer} {q : List Bytes} {data : Bytes} (h : messages b = q ++ [data]) :
    data.length < 2 ^ 32 :=
  LogRingBuffer.length_of_mem_records (h ▸ List.mem_append_right q (List.mem_singleton_self data) : data ∈ messages b)

section

variable {b : LogRingBuffer} {q : List Bytes} {data : Bytes}

theorem kept_block_iff (h : b.Holds q) (hq : ∀ d ∈ q, d.length < 2 ^ 32) :
    Kept true .block data b ↔ data.length < 2 ^ 32 ∨ ¬Fits b.capacity data q := by
  have hzeros : Arrays fun _ => List.replicate MAX_ENTRY_SIZE 0 := fun _ => List.length_replicate
  constructor
  · intro hkept
    by_contra hno
    rw [not_or, not_not] at hno
    obtain ⟨b', hwrite, -⟩ := tryWrite_fits h hno.2
    have hret : appendRaw true .block data (fun _ => List.replicate MAX_ENTRY_SIZE 0) 1 b = .returned true b' := by
      show b.write true data 1 = _
      rw [LogRingBuffer.write, hwrite]
    obtain ⟨k, hk⟩ := hkept.stored _ hzeros 1 b' hret
    exact hno.1 (length_of_stored hk)
  · intro hok
    refine ⟨fun hp => (by cases hp), fun hp => (by cases hp), fun tmp _ fuel b' hret => ⟨0, ?_⟩⟩
    obtain ⟨hfits, h'⟩ := write_returned h hret
    have hlen := hok.resolve_right (fun hno => hno hfits)
    rw [LogRingBuffer.messages_eq h hq, LogRingBuffer.messages_eq h' (forall_mem_concat hq hlen)]
    rfl

theorem kept_dropNewest_iff (h : b.Holds q) (hq : ∀ d ∈ q, d.length < 2 ^ 32) :
    Kept true .dropNewest data b ↔ data.length < 2 ^ 32 ∨ ¬Fits b.capacity data q := by
  have hzeros : Arrays fun _ => List.replicate MAX_ENTRY_SIZE 0 := fun _ => List.length_replicate
  constructor
  · intro hkept
    by_contra hno
    rw [not_or, not_not] at hno
    obtain ⟨b', hwrite, -⟩ := tryWrite_fits h hno.2
    have hret : appendRaw true .dropNewest data (fun _ => List.replicate MAX_ENTRY_SIZE 0) 1 b = .returned true b' := by
      rw [appendRaw, hwrite]
      rfl
    obtain ⟨k, hk⟩ := hkept.stored _ hzeros 1 b' hret
    exact hno.1 (length_of_stored hk)
  · intro hok
    refine ⟨fun hp => (by cases hp), fun hp => (by cases hp), fun tmp _ fuel b' hret => ⟨0, ?_⟩⟩
    obtain ⟨ok, hwrite, rfl⟩ := appendRaw_dropNewest hret
    by_cases hfits : Fits b.capacity data q
    · obtain ⟨b1, hwrite', h1, -⟩ := tryWrite_fits h hfits
      obtain ⟨-, rfl⟩ := Prod.mk.inj (Option.some.inj (hwrite'.symm.trans hwrite))
      have hlen := hok.resolve_right (fun hno => hno hfits)
      rw [LogRingBuffer.messages_eq h hq, LogRingBuffer.messages_eq h1 (forall_mem_concat hq hlen)]
      rfl
    · obtain ⟨b1, hwrite', -⟩ := tryWrite_full h hfits
      cases (Prod.mk.inj (Option.some.inj (hwrite'.symm.trans hwrite))).1

theorem kept_dropOldest_iff (h : b.Holds q) (hq : ∀ d ∈ q, d.length < 2 ^ 32) :
    Kept true .dropOldest data b ↔ data.length < 2 ^ 32 ∧ Clears b.capacity data q := by
  have hzeros : Arrays fun _ => List.replicate MAX_ENTRY_SIZE 0 := fun _ => List.length_replicate
  have hmessages := LogRingBuffer.messages_eq h hq
  have hleft {q' : List Bytes} (hcl : cleared b.capacity data q = some q') (hlen : data.length < 2 ^ 32) :
      ∀ d ∈ q', d.length < 2 ^ 32 := by
    intro d hd
    rcases (cleared_spec hcl).2 d hd with hd | rfl
    · exact hq d hd
    · exact hlen
  constructor
  · intro hkept
    have hsome : ∃ q', cleared b.capacity data q = some q' := by
      by_contra hnone
      obtain ⟨tmp, htmp, hfails⟩ := fails h hq (Option.eq_none_iff_forall_not_mem.mpr fun q' hq' => hnone ⟨q', hq'⟩)
      obtain ⟨fuel, result, b', -, hret, -⟩ := hkept.returns rfl tmp htmp
      exact hfails fuel result b' hret
    obtain ⟨q', hcl⟩ := hsome
    have hsettles := settles h hq hcl hzeros
    obtain ⟨fuel, result, b', k, hret, hk, hmin⟩ := hkept.returns rfl _ hzeros
    rcases hsettles.always fuel with hrun | ⟨b1, hret', h1⟩
    · cases hrun.symm.trans hret
    · obtain ⟨rfl, rfl⟩ := AppendOutcome.returned.inj (hret'.symm.trans hret)
      have hlen := length_of_stored hk
      rw [LogRingBuffer.messages_eq h1 (hleft hcl hlen), hmessages] at hk
      rw [hmessages] at hmin
      exact ⟨hlen, clears_iff.mpr ⟨q', k, hcl, hk, hmin⟩⟩
  · rintro ⟨hlen, hclears⟩
    obtain ⟨q', k, hcl, hk, hmin⟩ := clears_iff.mp hclears
    refine ⟨fun _ tmp htmp => ?_, fun _ tmp htmp fuel hout => ?_, fun tmp htmp fuel b' hret => ⟨k, ?_⟩⟩
    · obtain ⟨fuel, b', hret⟩ := (settles h hq hcl htmp).ends
      rcases (settles h hq hcl htmp).always fuel with hrun | ⟨b1, hret', h1⟩
      · cases hrun.symm.trans hret
      · refine ⟨fuel, true, b1, k, hret', ?_, by rwa [hmessages]⟩
        rw [LogRingBuffer.messages_eq h1 (hleft hcl hlen), hmessages, hk]
        rfl
    · rcases (settles h hq hcl htmp).always fuel with hrun | ⟨b1, hret, -⟩
      · cases hrun.symm.trans hout
      · cases hret.symm.trans hout
    · rcases (settles h hq hcl htmp).always fuel with hrun | ⟨b1, hret', h1⟩
      · cases hrun.symm.trans hret
      · obtain ⟨-, rfl⟩ := AppendOutcome.returned.inj (hret'.symm.trans hret)
        rw [LogRingBuffer.messages_eq h1 (hleft hcl hlen), hmessages, hk]

end

theorem kept_iff_allowed (hsize : queue_size ≤ 2 ^ 63) {b : LogRingBuffer}
    (hb : Reached queue_size b) (running : Bool) (policy : AsyncOverflowPolicy) (data : Bytes) :
    Kept running policy data b ↔ Allowed running policy data b := by
  obtain ⟨q, h, hq⟩ := sound_of_reached hsize hb
  have hmessages := LogRingBuffer.messages_eq h hq
  cases running with
  | false =>
    refine iff_of_true ⟨fun _ tmp _ => ⟨0, false, b, 0, rfl, ?_, fun j hj => absurd hj (Nat.not_lt_zero j)⟩, ?_, ?_⟩ ?_
    · simp
    · intro _ tmp _ fuel hout
      cases hout
    · intro tmp _ fuel b' hret
      cases hret
    · intro hrun
      cases hrun
  | true =>
    unfold Allowed
    rw [forall_prop_of_true rfl, hmessages]
    cases policy with
    | block => exact kept_block_iff h hq
    | dropNewest => exact kept_dropNewest_iff h hq
    | dropOldest => exact kept_dropOldest_iff h hq
    | discard =>
      refine iff_of_true ⟨fun hp => (by cases hp), fun hp => (by cases hp), fun tmp _ fuel b' hret => ?_⟩ trivial
      obtain ⟨ok, -, hfalse⟩ := appendRaw_discard hret
      cases hfalse

theorem Reached.store {b : LogRingBuffer} {q : List Bytes} {data : Bytes} (hb : Reached queue_size b)
    (h : b.Holds q) (hfits : Fits b.capacity data q) (hdata : data.length < 2 ^ 32) :
    ∃ b', Reached queue_size b' ∧ b'.Holds (q ++ [data]) ∧ b'.capacity = b.capacity := by
  obtain ⟨b', hwrite, h', hcap⟩ := tryWrite_fits h hfits
  have hret : AsyncLogWriter.appendRaw true .dropNewest data (fun _ => List.replicate MAX_ENTRY_SIZE 0) 1 b =
      .returned true b' := by
    rw [AsyncLogWriter.appendRaw, hwrite]
    rfl
  exact ⟨b', hb.appendRaw hdata (fun _ => List.length_replicate) hret, h', hcap⟩

/-! ## Top theorem -/

/-- **Every policy, in every state**: `DROP_OLDEST` returns, stays within its arrays and drops no more of the oldest
than it has to, and what is reported as written is in the buffer, exactly when the call is one that is allowed. -/
theorem overflow_iff (hsize : queue_size ≤ 2 ^ 63) {b : LogRingBuffer} (hb : Reached queue_size b)
    (running : Bool) (policy : AsyncOverflowPolicy) (data : Bytes) :
    Kept running policy data b ↔ Allowed running policy data b :=
  kept_iff_allowed hsize hb running policy data

/-- The older of two messages goes for a third. -/
theorem overflow_iff_first : ∃ b, Reached 128 b ∧ messages b = [List.replicate 48 0, [66]] ∧
    Kept true .dropOldest (List.replicate 64 65) b ∧ ∀ tmp, Arrays tmp → ∃ fuel b',
      appendRaw true .dropOldest (List.replicate 64 65) tmp fuel b = .returned true b' ∧
        messages b' = [[66], List.replicate 64 65] := by
  have h0 := LogRingBuffer.create_holds 128 (by decide)
  obtain ⟨b1, hb1, h1, hcap1⟩ := (@Reached.start 128).store h0 (by decide : Fits _ (List.replicate 48 0) []) (by decide)
  obtain ⟨b, hb, h, hcap⟩ := @Reached.store _ _ _ [66] hb1 h1 (by rw [hcap1]; decide) (by decide)
  rw [hcap1] at hcap
  have hq : ∀ d ∈ [List.replicate 48 (0 : UInt8), [66]], d.length < 2 ^ 32 := by decide
  have hmessages := LogRingBuffer.messages_eq h hq
  have hcleared : cleared b.capacity (List.replicate 64 65) [List.replicate 48 0, [66]] =
      some [[66], List.replicate 64 65] := by rw [hcap]; decide
  refine ⟨b, hb, hmessages, (overflow_iff (by decide) hb true .dropOldest _).mpr fun _ => ?_, fun tmp htmp => ?_⟩
  · show _ ∧ _
    rw [hmessages, hcap]
    exact ⟨by decide, .inr (by rw [if_neg (by decide)]; exact ⟨by decide, .inl (by decide)⟩)⟩
  · obtain ⟨fuel, b', hret⟩ := (settles h hq hcleared htmp).ends
    rcases (settles h hq hcleared htmp).always fuel with hrun | ⟨b2, hret', h2⟩
    · cases hrun.symm.trans hret
    · exact ⟨fuel, b2, hret', LogRingBuffer.messages_eq h2 (by decide)⟩

/-- A message larger than the buffer, for which the loop has no end; a line of text that is read for the lengths in it;
a line of more than 4096 bytes, which takes with it a short one that could stay. -/
theorem overflow_broken :
    ¬Kept true .dropOldest (List.replicate 61 65) (LogRingBuffer.create 64) ∧
      (∃ b, Reached 128 b ∧ messages b = [List.replicate 48 65] ∧ ¬Kept true .dropOldest (List.replicate 64 65) b) ∧
      ∃ b, Reached 8192 b ∧ messages b = [List.replicate 5000 65, [66]] ∧
        ¬Kept true .dropOldest (List.replicate 3200 65) b := by
  refine ⟨fun hkept => ?_, ?_, ?_⟩
  · have h := LogRingBuffer.create_holds 64 (by decide)
    have hclears := ((kept_dropOldest_iff h fun _ hx => absurd hx List.not_mem_nil).mp hkept).2
    change Fits (LogRingBuffer.create 64).capacity (List.replicate 61 65) [] at hclears
    exact absurd hclears (by decide)
  · have h0 := LogRingBuffer.create_holds 128 (by decide)
    obtain ⟨b, hb, h, hcap⟩ := (@Reached.start 128).store h0 (by decide : Fits _ (List.replicate 48 65) []) (by decide)
    have hq : ∀ d ∈ [] ++ [List.replicate 48 (65 : UInt8)], d.length < 2 ^ 32 := by decide
    refine ⟨b, hb, LogRingBuffer.messages_eq h hq, fun hkept => ?_⟩
    have hclears := ((kept_dropOldest_iff h hq).mp hkept).2
    rw [hcap, List.nil_append] at hclears
    rcases hclears with hfits | hre
    · exact absurd hfits (by decide)
    · rw [if_neg (by decide)] at hre
      exact absurd hre.1 (by decide)
  · have hline : (List.replicate 5000 (65 : UInt8)).length = 5000 := List.length_replicate
    have hnew : (List.replicate 3200 (65 : UInt8)).length = 3200 := List.length_replicate
    generalize List.replicate 5000 (65 : UInt8) = line, List.replicate 3200 (65 : UInt8) = new at hline hnew ⊢
    have hcap0 : (LogRingBuffer.create 8192).capacity = 8192 := by decide
    have hused : used [line, [66]] = 5008 + 8 := by
      rw [LogRingBuffer.used_cons, Fifo.padded, hline]
      rfl
    have h0 := LogRingBuffer.create_holds 8192 (by decide)
    obtain ⟨b1, hb1, h1, hcap1⟩ := @Reached.store _ _ _ line (@Reached.start 8192) h0
      (by rw [hcap0, Fits, Fifo.padded, hline]; decide) (by omega)
    obtain ⟨b, hb, h, hcap⟩ := @Reached.store _ _ _ [66] hb1 h1
      (by rw [hcap1, hcap0, Fits, List.nil_append, LogRingBuffer.used_cons, Fifo.padded, hline]; decide) (by decide)
    rw [List.nil_append, List.singleton_append] at h
    have hq : ∀ d ∈ [line, [66]], d.length < 2 ^ 32 := by
      intro d hd
      rcases List.mem_cons.mp hd with rfl | hd
      · omega
      · rw [List.mem_singleton.mp hd]
        decide
    refine ⟨b, hb, LogRingBuffer.messages_eq h hq, fun hkept => ?_⟩
    have hclears := ((kept_dropOldest_iff h hq).mp hkept).2
    rw [hcap, hcap1, hcap0] at hclears
    have hpad : Fifo.padded new = 3208 := by
      rw [Fifo.padded, hnew]
      rfl
    rcases hclears with hroom | hbad
    · rw [Fits, hused, hpad] at hroom
      omega
    · rw [if_pos (.inr (by rw [hline]; decide))] at hbad
      refine hbad.2 0 (by decide) ?_
      rw [List.drop_zero, Fits, hpad]
      decide

end AsyncLogWriter

end Core
