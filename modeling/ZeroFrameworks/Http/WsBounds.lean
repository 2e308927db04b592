import ZeroFrameworks.Http.WsSession

/-!
# The buffer of `WSRecvMessage`

A frame is read into `data` at `cur_len`, an `int`; the size of `data` is `cur_len + length` on 64 bits, and the
length is what the peer says.

    every write is within data, cur_len is the size of data, and that is below the maximum
      ↔ 0 < maximum ≤ 2 ^ 31   (receive_inside_iff)

A length near `2 ^ 64` passes the check after a fragment, but then nothing is read and the loop is left.
-/

namespace Http

open Kv (Bytes)
open Core (Stream)

/-! ## Algorithm -/

/-- What happens to the variables: `cur_len` has changed and the size of `data` is this; bytes are written into
`data`, which has this size. -/
inductive BufferEvent
  | state (size : Nat) (curLen : Int)
  | write (size : Nat) (position : Int) (count : Nat)

/-- The bytes that the loop of `readFixSize` stores, also before it fails. -/
def storeLoop : Nat → Nat → Stream → Nat
  | _, 0, _ => 0
  | 0, _ + 1, _ => 0
  | fuel + 1, left + 1, s => (s.read (left + 1)).elim 0 fun (got, s) => got.length + storeLoop fuel (left + 1 - got.length) s

/-- `left` is an `int64_t`, and from `2 ^ 63` on it is negative. -/
def stored (length : Nat) (s : Stream) : Nat := if length < 2 ^ 63 then storeLoop length length s else 0

/-- `cur_len + length`, on `uint64_t`. -/
def newSize (curLen : Int) (length : Nat) : Nat := ((curLen + length) % 2 ^ 64).toNat

/-- What `recvPart` does to the variables; the last frame that `ws_recv_small_masked_frame` reads does the same. -/
def partEvents (maxSize : Nat) (head : WSFrameHead) (r : RecvState) (length : Nat) (s : Stream) : List BufferEvent :=
  if tooLarge maxSize r.curLen length then []
  else
    (if head.mask then s.readFixSize 4 else some ([0, 0, 0, 0], s)).elim [] fun (_, s) =>
      let size := newSize r.curLen length
      .write size r.curLen (stored length s) :: (s.readFixSize length).elim [] fun _ =>
        (if head.mask then [.write size r.curLen length] else []) ++ [.state size (Kv.i32 (r.curLen + length))]

/-- So many turns of the loop of `WSRecvMessage`. -/
def loopEvents (maxSize : Nat) (client : Bool) : Nat → RecvState → Stream → List BufferEvent
  | 0, _, _ => []
  | turns + 1, r, s =>
    (s.readFixSize 2).elim [] fun (bytes, s) =>
      let head := WSFrameHead.decode bytes
      if head.opcode = WSFrameHead.PING then (WSPong s).elim [] fun s => loopEvents maxSize client turns r s
      else if head.opcode = WSFrameHead.PONG then loopEvents maxSize client turns r s
      else if head.opcode = WSFrameHead.CONTINUE ∨ head.opcode = WSFrameHead.TEXT_FRAME ∨
          head.opcode = WSFrameHead.BIN_FRAME then
        if !client && !head.mask then []
        else if !client && head.fin && decide (0 < head.payload) && decide (head.payload < 126) &&
            decide (head.opcode ≠ WSFrameHead.CONTINUE) then
          partEvents maxSize head r head.payload s
        else
          (recvLength head s).elim [] fun (length, s) =>
            partEvents maxSize head r length s ++ (recvPart maxSize head r length s).elim [] fun (r, s) =>
              if head.fin then [] else loopEvents maxSize client turns r s
      else loopEvents maxSize client turns r s

def bufferEvents (maxSize : Nat) (client : Bool) (turns : Nat) (s : Stream) : List BufferEvent :=
  .state 0 0 :: loopEvents maxSize client turns ⟨0, [], 0⟩ s

/-! ## Specification -/

/-- The length is the size of `data`, below the maximum; what is written lies within `data`. -/
def BufferEvent.Safe (maxSize : Nat) : BufferEvent → Prop
  | .state size curLen => curLen = size ∧ size < maxSize
  | .write size position count => 0 < count → 0 ≤ position ∧ position + count ≤ size

/-- Whatever arrives, and however many turns are made. -/
def ReceivesInside (maxSize : Nat) (client : Bool) : Prop :=
  ∀ (turns : Nat) (s : Stream), ∀ e ∈ bufferEvents maxSize client turns s, e.Safe maxSize

/-- `cur_len` counts the bytes of `data`. -/
structure RecvState.Counts (maxSize : Nat) (r : RecvState) : Prop where
  length : r.curLen = r.data.length
  below : r.data.length < maxSize

/-! ## Lemmas -/

variable {maxSize : Nat} {client : Bool} {r r' : RecvState} {s s' : Stream} {head : WSFrameHead} {length turns : Nat}

/-! ### Reading -/

theorem storeLoop_le (fuel left : Nat) (s : Stream) : storeLoop fuel left s ≤ left := by
  induction fuel generalizing left s with
  | zero =>
    cases left with
    | zero => exact Nat.le_refl _
    | succ left => exact Nat.zero_le _
  | succ fuel ih =>
    cases left with
    | zero => exact Nat.le_refl _
    | succ left =>
      rw [storeLoop]
      cases hread : s.read (left + 1) with
      | none => exact Nat.zero_le _
      | some got =>
        have hlength := Stream.read_length_le hread
        have hrest := ih (left + 1 - got.1.length) got.2
        show got.1.length + storeLoop fuel (left + 1 - got.1.length) got.2 ≤ left + 1
        omega

theorem stored_le (length : Nat) (s : Stream) : stored length s ≤ length := by
  unfold stored
  split
  · exact storeLoop_le ..
  · exact Nat.zero_le _

theorem readLoop_length {fuel left : Nat} {buffer bytes : Bytes}
    (h : Stream.readLoop fuel left buffer s = some (bytes, s')) : bytes.length = buffer.length + left := by
  induction fuel generalizing left buffer s with
  | zero =>
    cases left with
    | zero =>
      cases h
      rfl
    | succ left => cases h
  | succ fuel ih =>
    cases left with
    | zero =>
      cases h
      rfl
    | succ left =>
      rw [Stream.readLoop] at h
      cases hread : s.read (left + 1) with
      | none =>
        rw [hread] at h
        cases h
      | some got =>
        have hlength := Stream.read_length_le hread
        rw [hread] at h
        rw [ih h, List.length_append]
        omega

theorem readFixSize_length {n : Nat} {bytes : Bytes} (h : s.readFixSize n = some (bytes, s')) :
    bytes.length = n ∧ 0 < Kv.i32 n := by
  unfold Stream.readFixSize at h
  split at h
  · cases h
  · next r hloop =>
    split at h
    · next hpos =>
      obtain rfl := Option.some.inj h
      refine ⟨?_, hpos⟩
      rw [readLoop_length hloop, List.length_nil, Nat.zero_add]
    · cases h

theorem ofSwapped_lt {bytes : Bytes} (h : bytes.length ≤ 8) : ofSwapped bytes < 2 ^ 64 := by
  have hlt := Codec.ofLe_lt bytes.reverse
  rw [List.length_reverse] at hlt
  exact Nat.lt_of_lt_of_le hlt (Nat.pow_le_pow_right (by decide) h)

theorem recvLength_lt (h : recvLength head s = some (length, s')) : length < 2 ^ 64 := by
  have hread : ∀ n ≤ 8, ((s.readFixSize n).map fun (len, s) => (ofSwapped len, s)) = some (length, s') → length < 2 ^ 64 := by
    intro n hn h
    obtain ⟨⟨bytes, s1⟩, hbytes, heq⟩ := Option.map_eq_some_iff.mp h
    cases heq
    exact ofSwapped_lt (Nat.le_trans (Nat.le_of_eq (readFixSize_length hbytes).1) hn)
  unfold recvLength at h
  split at h
  · exact hread 2 (by decide) h
  · split at h
    · exact hread 8 (by decide) h
    · cases h
      have := head.payload_lt
      omega

/-! ### A frame within the bounds -/

/-- The check passes for a length that fits, or for one that brings the sum past `2 ^ 64`: this one is no `int`. -/
theorem Counts.accepted (hr : r.Counts maxSize) (hmax : maxSize ≤ 2 ^ 31) (hlength : length < 2 ^ 64)
    (h : tooLarge maxSize r.curLen length = false) :
    newSize r.curLen length = r.data.length + length ∧ r.data.length + length < maxSize ∨
      2 ^ 63 ≤ length ∧ ¬ 0 < Kv.i32 length := by
  have hcur := hr.length
  have hbelow := hr.below
  have hlt := of_decide_eq_false h
  unfold newSize
  rw [hcur] at hlt ⊢
  by_cases hsum : r.data.length + length < 2 ^ 64
  · refine .inl ?_
    omega
  · refine .inr ⟨by omega, ?_⟩
    unfold Kv.i32
    rw [Int.bmod_def]
    omega

theorem of_mem_elim {α β : Type} {o : Option α} {f : α → List β} {e : β} (h : e ∈ o.elim [] f) :
    ∃ x, o = some x ∧ e ∈ f x := by
  cases o with
  | none => cases h
  | some x => exact ⟨x, rfl, h⟩

theorem partEvents_safe (hr : r.Counts maxSize) (hmax : maxSize ≤ 2 ^ 31) (hlength : length < 2 ^ 64) :
    ∀ e ∈ partEvents maxSize head r length s, e.Safe maxSize := by
  intro e he
  unfold partEvents at he
  split at he
  · cases he
  · next hsmall =>
    have hcur := hr.length
    have hcases := Counts.accepted hr hmax hlength (by simpa using hsmall)
    have hwrite : ∀ count ≤ length, (2 ^ 63 ≤ length → count = 0) →
        (BufferEvent.write (newSize r.curLen length) r.curLen count).Safe maxSize := by
      intro count hcount hzero hpos
      rcases hcases with ⟨hsize, -⟩ | ⟨hlarge, -⟩
      · rw [hsize]
        omega
      · rw [hzero hlarge] at hpos
        exact absurd hpos (Nat.lt_irrefl 0)
    obtain ⟨key, -, he⟩ := of_mem_elim he
    rcases List.mem_cons.mp he with rfl | he
    · refine hwrite _ (stored_le ..) fun hlarge => ?_
      unfold stored
      exact if_neg (Nat.not_lt.mpr hlarge)
    · obtain ⟨part, hread, he⟩ := of_mem_elim he
      -- what was read has a length that is an `int`
      obtain ⟨hsize, hfits⟩ := hcases.resolve_right fun h => h.2 (readFixSize_length hread).2
      rcases List.mem_append.mp he with he | he
      · split at he
        · obtain rfl := List.mem_singleton.mp he
          exact hwrite _ (Nat.le_refl _) (by omega)
        · cases he
      · obtain rfl := List.mem_singleton.mp he
        refine ⟨?_, by omega⟩
        rw [hsize, hcur, ← Int.natCast_add]
        exact Kv.i32_natCast (by omega)

theorem recvPart_counts (hr : r.Counts maxSize) (hmax : maxSize ≤ 2 ^ 31) (hlength : length < 2 ^ 64)
    (h : recvPart maxSize head r length s = some (r', s')) : r'.Counts maxSize := by
  unfold recvPart at h
  split at h
  · cases h
  · next hsmall =>
    have hcur := hr.length
    obtain ⟨key, -, h⟩ := Option.bind_eq_some_iff.mp h
    obtain ⟨part, hread, h⟩ := Option.map_eq_some_iff.mp h
    obtain ⟨hpart, hpos⟩ := readFixSize_length hread
    obtain ⟨-, hfits⟩ := (Counts.accepted hr hmax hlength (by simpa using hsmall)).resolve_right fun h => h.2 hpos
    cases h
    have hdata : (r.append (if head.mask then applyMask key.1 part.1 else part.1)).length = r.data.length + length := by
      unfold RecvState.append
      rw [hcur, Int.toNat_natCast, List.take_length, List.length_append]
      split
      · rw [applyMask_length, hpart]
      · rw [hpart]
    refine ⟨?_, ?_⟩
    · show Kv.i32 (r.curLen + length) = _
      rw [hdata, hcur, ← Int.natCast_add, Kv.i32_natCast (by omega)]
    · show (r.append _).length < maxSize
      rw [hdata]
      exact hfits

theorem loopEvents_safe (hmax : maxSize ≤ 2 ^ 31) (hr : r.Counts maxSize) :
    ∀ e ∈ loopEvents maxSize client turns r s, e.Safe maxSize := by
  induction turns generalizing r s with
  | zero =>
    intro e he
    cases he
  | succ turns ih =>
    intro e he
    rw [loopEvents] at he
    obtain ⟨got, -, he⟩ := of_mem_elim he
    dsimp only at he
    split at he
    · obtain ⟨s1, -, he⟩ := of_mem_elim he
      exact ih hr e he
    · split at he
      · exact ih hr e he
      · split at he
        · split at he
          · cases he
          · split at he
            · refine partEvents_safe hr hmax ?_ e he
              have := (WSFrameHead.decode got.1).payload_lt
              omega
            · obtain ⟨pair, hlength, he⟩ := of_mem_elim he
              have hlt : pair.1 < 2 ^ 64 := recvLength_lt hlength
              rcases List.mem_append.mp he with he | he
              · exact partEvents_safe hr hmax hlt e he
              · obtain ⟨next, hpart, he⟩ := of_mem_elim he
                have hnext : next.1.Counts maxSize := recvPart_counts hr hmax hlt hpart
                split at he
                · cases he
                · exact ih hnext e he
        · exact ih hr e he

/-! ### Past the bounds -/

variable {opcode : Nat} {mask data rest : Bytes}

theorem partEvents_state (h : recvPart maxSize head r length s = some (r', s')) :
    .state (newSize r.curLen length) r'.curLen ∈ partEvents maxSize head r length s := by
  unfold recvPart at h
  unfold partEvents
  split at h
  · cases h
  · next hsmall =>
    obtain ⟨key, hkey, h⟩ := Option.bind_eq_some_iff.mp h
    obtain ⟨part, hread, h⟩ := Option.map_eq_some_iff.mp h
    cases h
    rw [if_neg hsmall, hkey]
    show _ ∈ _ :: (key.2.readFixSize length).elim _ _
    rw [hread]
    exact List.mem_cons_of_mem _ (List.mem_append_right _ (List.mem_singleton.mpr rfl))

/-- A fragment that is taken: the variables after it, and what the next turns do. -/
theorem loopEvents_fragment (turns : Nat) (hop : IsData opcode) (hdlt : data.length < 2 ^ 64) (hmask : mask.length = 4)
    (htakes : Takes maxSize r data) (h : s.Holds (frame opcode (!client) false mask data ++ rest)) :
    ∃ s', s'.Holds rest ∧
      .state (newSize r.curLen data.length) (Kv.i32 (r.curLen + data.length)) ∈ loopEvents maxSize client (turns + 1) r s ∧
      ∀ e ∈ loopEvents maxSize client turns (r.after opcode data) s', e ∈ loopEvents maxSize client (turns + 1) r s := by
  obtain ⟨hping, hpong, hmod⟩ := hop.ne
  have hopcode : (sendHead ⟨opcode, data⟩ (!client) false).opcode = opcode := hmod
  have hkey : (!client && !(sendHead ⟨opcode, data⟩ (!client) false).mask) = false := by
    show (!client && !!client) = false
    cases client with
    | true => rfl
    | false => rfl
  have hfin : (!client && (sendHead ⟨opcode, data⟩ (!client) false).fin) = false := Bool.and_false _
  unfold frame at h
  rw [List.append_assoc, List.append_assoc] at h
  obtain ⟨s1, hread, h1⟩ := read_head _ h
  obtain ⟨s2, hlength, h2⟩ := recvLength_spec (sendHead ⟨opcode, data⟩ (!client) false) rfl hdlt h1
  obtain ⟨s3, h3, hpart⟩ := recvPart_spec maxSize (sendHead ⟨opcode, data⟩ (!client) false) r hmask h2
  rw [if_pos htakes, hopcode] at hpart
  have hloop : loopEvents maxSize client (turns + 1) r s =
      partEvents maxSize (sendHead ⟨opcode, data⟩ (!client) false) r data.length s2 ++
        loopEvents maxSize client turns (r.after opcode data) s3 := by
    rw [loopEvents, hread]
    dsimp only [Option.elim_some]
    rw [decode_encode, if_neg (by rw [hopcode]; exact hping), if_neg (by rw [hopcode]; exact hpong),
      if_pos (by rw [hopcode]; exact hop), hkey, if_neg Bool.false_ne_true, hfin]
    simp only [Bool.false_and, Bool.false_eq_true, if_false, hlength, Option.elim_some, hpart]
    rfl
  refine ⟨s3, h3, ?_, fun e he => ?_⟩
  · rw [hloop]
    exact List.mem_append_left _ (partEvents_state hpart)
  · rw [hloop]
    exact List.mem_append_right _ he

/-- A fragment of `2 ^ 31 - 1` bytes, and one of a byte. -/
def longMessage (client : Bool) : Bytes :=
  frame WSFrameHead.TEXT_FRAME (!client) false [0, 0, 0, 0] (List.replicate (2 ^ 31 - 1) 0) ++
    frame WSFrameHead.CONTINUE (!client) false [0, 0, 0, 0] [0]

theorem longMessage_wraps (hlo : 2 ^ 31 < maxSize) (hhi : maxSize < 2 ^ 32) (client : Bool) :
    .state (2 ^ 31) (-2 ^ 31) ∈ bufferEvents maxSize client 2 ⟨[longMessage client], [], false⟩ := by
  obtain ⟨first, hfirst⟩ : ∃ first : Bytes, first = List.replicate (2 ^ 31 - 1) 0 := ⟨_, rfl⟩
  have hlen : first.length = 2 ^ 31 - 1 := by rw [hfirst, List.length_replicate]
  have hne : first ≠ [] := List.length_pos_iff.mp (by omega)
  have hholds : (⟨[longMessage client], [], false⟩ : Stream).Holds (frame WSFrameHead.TEXT_FRAME (!client) false [0, 0, 0, 0] first ++
      frame WSFrameHead.CONTINUE (!client) false [0, 0, 0, 0] [0]) := by
    refine ⟨rfl, fun piece hp => ?_, by rw [hfirst]; exact List.flatten_singleton⟩
    obtain rfl := List.mem_singleton.mp hp
    exact List.cons_ne_nil _ _
  have hstart : (⟨0, [], 0⟩ : RecvState).curLen = Kv.i32 (⟨0, [], 0⟩ : RecvState).data.length := by decide
  have htakes : Takes maxSize ⟨0, [], 0⟩ first :=
    takes_of_lt hhi (by rw [List.length_nil]; omega) hstart (by decide) hne (by omega)
  obtain ⟨s1, h1, -, hlater⟩ := loopEvents_fragment 1 (.inr (.inl rfl)) (by omega) rfl htakes hholds
  obtain ⟨r, hr⟩ : ∃ r : RecvState, r = (⟨0, [], 0⟩ : RecvState).after WSFrameHead.TEXT_FRAME first := ⟨_, rfl⟩
  have hafter : (⟨0, [], 0⟩ : RecvState).after WSFrameHead.TEXT_FRAME first = _ := after_eq hstart (by decide) first
  rw [← hr] at hlater hafter
  have hdata : r.data.length = 2 ^ 31 - 1 := by
    rw [hafter]
    exact hlen
  have hcur : r.curLen = Kv.i32 r.data.length := by rw [hafter]
  have htakes' : Takes maxSize r [0] :=
    takes_of_lt hhi (by rw [hdata, List.length_singleton]; omega) hcur (by omega) (List.cons_ne_nil _ _) (by decide)
  have hlast : (s1.Holds (frame WSFrameHead.CONTINUE (!client) false [0, 0, 0, 0] [0] ++ [])) := by
    rw [List.append_nil]
    exact h1
  obtain ⟨s2, -, hstate, -⟩ := loopEvents_fragment 0 (.inl rfl) (by decide) rfl htakes' hlast
  have hsize : newSize r.curLen [(0 : UInt8)].length = 2 ^ 31 := by
    rw [hcur, hdata]
    decide
  have hwrapped : Kv.i32 (r.curLen + [(0 : UInt8)].length) = -2 ^ 31 := by
    rw [hcur, hdata]
    decide
  rw [hsize, hwrapped] at hstate
  exact List.mem_cons_of_mem _ (hlater _ hstate)

/-! ## Top theorem -/

theorem receive_inside_iff (maxSize : UInt32) (client : Bool) :
    ReceivesInside maxSize.toNat client ↔ 0 < maxSize.toNat ∧ maxSize.toNat ≤ 2 ^ 31 := by
  constructor
  · intro h
    refine ⟨(h 0 ⟨[], [], true⟩ _ List.mem_cons_self).2, Nat.le_of_not_lt fun hlarge => ?_⟩
    have hwraps := h 2 _ _ (longMessage_wraps hlarge maxSize.toNat_lt client)
    exact absurd hwraps.1 (by decide)
  · rintro ⟨hpos, hmax⟩ turns s e he
    rcases List.mem_cons.mp he with rfl | he
    · exact ⟨rfl, hpos⟩
    · have hstart : (⟨0, [], 0⟩ : RecvState).Counts maxSize.toNat := ⟨rfl, hpos⟩
      exact loopEvents_safe hmax hstart e he

/-- `cur_len` is -2147483648 after `2 ^ 31` bytes, where the maximum allows more. -/
theorem count_wraps : ¬ ∀ (maxSize : UInt32) (client : Bool), 0 < maxSize.toNat → ReceivesInside maxSize.toNat client := by
  intro h
  have hwraps := h (UInt32.ofNat (2 ^ 31 + 1)) false (by decide) 2 _ _ (longMessage_wraps (by decide) (by decide) false)
  exact absurd hwraps.1 (by decide)

end Http
