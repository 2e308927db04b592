import ZeroFrameworks.Kv.Resp.Cursor
import ZeroFrameworks.Kv.Resp.Receive
import ZeroFrameworks.Lib.Runs

/-!
# The position of a session

`KvSession` moves `m_readPos` by what the reader says it has consumed.  The buffer is compacted, grows and is filled
behind it, so the position is within the data for as long as the reader is, and the reader leaves it where the bytes
that wait end in a null bulk string without its last byte.

    readPos ≤ data.length after every round ↔ NullCut b.unread in no round   (bounded_iff)
-/

namespace Kv

/-! ## Sessions -/

namespace RecvBuffer

/-- A call of `tryRecvCommand`, or a round of `recvCommand` with what the socket has for it. -/
inductive Round where
  | tryRecv
  | recv (reads : List Bytes)

def Round.apply (b : RecvBuffer) : Round → RecvBuffer
  | .tryRecv => b.tryRecvCommand.2
  | .recv reads => (recvRound reads b).2.2

def Bounded (b : RecvBuffer) : Prop := b.readPos ≤ b.data.length

variable {b : RecvBuffer}

theorem Bounded.compact (h : b.Bounded) : b.compactIfNeeded.Bounded := by
  unfold compactIfNeeded
  split
  · exact h
  · split
    · exact h
    · exact Nat.zero_le _

/-- A call that returns a command is where the position can pass the end. -/
theorem tryRecvCommand_bounded (h : b.Bounded) :
    (b.tryRecvCommand.2.Bounded ↔ ¬NullCut b.unread) ∧
      (b.tryRecvCommand.1 = none → b.tryRecvCommand.2.Bounded) := by
  have hc := h.compact
  rw [← unread_compactIfNeeded]
  unfold tryRecvCommand
  dsimp only
  generalize b.compactIfNeeded = b' at hc ⊢
  have hlen : b'.unread.length = b'.data.length - b'.readPos := List.length_drop
  by_cases hend : b'.data.length ≤ b'.readPos
  · have hnil : b'.unread = [] := List.drop_eq_nil_of_le hend
    rw [if_pos hend, hnil]
    exact ⟨⟨fun _ hcut => hcut.ne_nil rfl, fun _ => hc⟩, fun _ => hc⟩
  · -- a buffer that ends in a broken null bulk string is taken whole, and one byte more
    have hnot : (∀ v n, tryParse b'.unread ≠ .ok v n) → ¬NullCut b'.unread := by
      intro hno hcut
      obtain ⟨v, hv⟩ := tryParse_nullCut hcut
      exact hno v _ hv
    rw [if_neg hend]
    cases hp : tryParse (b'.data.drop b'.readPos) with
    | needMore =>
      have hcut : ¬NullCut b'.unread := hnot fun v n he => by rw [unread, hp] at he; cases he
      exact ⟨⟨fun _ => hcut, fun _ => hc⟩, fun _ => hc⟩
    | error =>
      have hcut : ¬NullCut b'.unread := hnot fun v n he => by rw [unread, hp] at he; cases he
      exact ⟨⟨fun _ => hcut, fun _ => hc⟩, fun _ => hc⟩
    | ok v n =>
      refine ⟨⟨fun hb hcut => ?_, fun hcut => ?_⟩, fun he => by cases he⟩
      · obtain ⟨w, hw⟩ := tryParse_nullCut hcut
        rw [unread, hp] at hw
        obtain ⟨-, rfl⟩ := ParseResult.ok.inj hw
        have hle : b'.readPos + (b'.unread.length + 1) ≤ b'.data.length := hb
        omega
      · have hle := (Cursor.consumed_spec hp).2.resolve_right hcut
        show b'.readPos + n ≤ b'.data.length
        rw [List.length_drop] at hle
        omega

theorem recvRound_bounded (reads : List Bytes) (h : b.tryRecvCommand.1 = none → b.tryRecvCommand.2.Bounded) :
    (recvRound reads b).2.2.Bounded ↔ b.tryRecvCommand.2.Bounded := by
  unfold recvRound
  generalize b.tryRecvCommand = r at h ⊢
  obtain ⟨v, b'⟩ := r
  cases v with
  | some v => rfl
  | none =>
    have hb : b'.Bounded := h rfl
    refine ⟨fun _ => hb, fun _ => ?_⟩
    simp only
    split
    · exact hb
    · split
      · split
        · exact hb
        · exact hb
      · cases reads with
        | nil => exact hb
        | cons chunk rest =>
          refine Nat.le_trans hb ?_
          simp only [List.length_append]
          exact Nat.le_add_right _ _

theorem apply_bounded (h : b.Bounded) (r : Round) : (r.apply b).Bounded ↔ ¬NullCut b.unread := by
  obtain ⟨hiff, hnone⟩ := tryRecvCommand_bounded h
  cases r with
  | tryRecv => exact hiff
  | recv reads => exact (recvRound_bounded reads hnone).trans hiff

theorem bounded_iff (rounds : List Round) :
    Runs.Along Round.apply (fun b r => (r.apply b).Bounded) {} rounds ↔
      Runs.Along Round.apply (fun b _ => ¬NullCut b.unread) {} rounds :=
  Runs.along_iff (fun _ r (h : Bounded _) => apply_bounded h r) (fun _ _ _ h => h) (Nat.le_refl 0)

end RecvBuffer

/-! ## Top theorem -/

/-- The reader is inside its buffer, and the session inside what it has read. -/
theorem reader_inside_iff (data : Bytes) (rounds : List RecvBuffer.Round) :
    (Cursor.Inside data ↔ ¬NullCut data) ∧
      (Runs.Along RecvBuffer.Round.apply (fun b r => (r.apply b).Bounded) {} rounds ↔
        Runs.Along RecvBuffer.Round.apply (fun b _ => ¬NullCut b.unread) {} rounds) :=
  ⟨Cursor.inside_iff data, RecvBuffer.bounded_iff rounds⟩

/-- Five bytes of four. -/
theorem reader_past_end :
    ¬Cursor.Inside (lit "$-1\r") ∧
      ¬Runs.Along RecvBuffer.Round.apply (fun b r => (r.apply b).Bounded) {}
        [.recv [lit "$-1\r"], .tryRecv] := by
  have hcut : NullCut (lit "$-1\r") :=
    .null (t := [45, 49]) (n := -1) (c := 13)
      ⟨[49], by decide, List.forall_mem_singleton.mpr rfl, by decide, .inr ⟨rfl, rfl⟩⟩ (by decide) rfl
  refine ⟨fun h => (Cursor.inside_iff _).mp h hcut, fun h => ?_⟩
  exact (RecvBuffer.bounded_iff _).mp h [.recv [lit "$-1\r"]] .tryRecv [] rfl hcut

end Kv
