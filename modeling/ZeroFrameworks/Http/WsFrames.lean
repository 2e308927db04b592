import ZeroFrameworks.Http.WsSession

/-!
# Sequences of web socket frames

A client sends its messages whole or in fragments, and PING and PONG frames before, after and between the fragments.
The receiver answers a PING and leaves out a PONG without reading the mask and the data of such a frame.

    reading one message after the other: the client's messages, and then what comes after its frames
      ↔ no control frame, no frame without data, every message below the limit
          and at most the last frame of a message past what an int holds   (survives_iff)
-/

namespace Http

open Kv (Bytes)
open Core (Stream)

/-! ## Specification -/

/-- A frame without its mask. -/
structure ClientFrame where
  opcode : Nat
  fin : Bool
  data : Bytes

def ClientFrame.IsControl (f : ClientFrame) : Prop := f.opcode = WSFrameHead.PING ∨ f.opcode = WSFrameHead.PONG

instance (f : ClientFrame) : Decidable f.IsControl := inferInstanceAs (Decidable (_ ∨ _))

/-- `started`: a message waits for its continuation. -/
def WellFormed : Bool → List ClientFrame → Prop
  | started, [] => started = false
  | started, f :: fs =>
    if f.IsControl then f.fin = true ∧ f.data.length ≤ 125 ∧ WellFormed started fs
    else f.opcode ∈ (if started then [WSFrameHead.CONTINUE] else [WSFrameHead.TEXT_FRAME, WSFrameHead.BIN_FRAME]) ∧
      f.data.length < 2 ^ 63 ∧ WellFormed (!f.fin) fs

/-- The messages, where `data` of the first one is there already. -/
def messagesFrom : Nat → Bytes → List ClientFrame → List WSFrameMessage
  | _, _, [] => []
  | opcode, data, f :: fs =>
    if f.IsControl then messagesFrom opcode data fs
    else
      let opcode := if f.opcode = WSFrameHead.CONTINUE then opcode else f.opcode
      if f.fin then ⟨opcode, data ++ f.data⟩ :: messagesFrom 0 [] fs else messagesFrom opcode (data ++ f.data) fs

/-- The frames with their masks on the wire. -/
def wire (masks : Nat → Bytes) : List ClientFrame → Bytes
  | [] => []
  | f :: fs => frame f.opcode true f.fin (masks 0) f.data ++ wire (fun i => masks (i + 1)) fs

/-- The messages that one call of `WSRecvMessage` after the other returns until one of them returns none. -/
inductive Receives (maxSize : Nat) : Stream → List WSFrameMessage → Prop
  | closed {s : Stream} : WSRecvMessage maxSize false s = none → Receives maxSize s []
  | message {s s' : Stream} {m : WSFrameMessage} {ms : List WSFrameMessage} :
      WSRecvMessage maxSize false s = some (m, s') → Receives maxSize s' ms → Receives maxSize s (m :: ms)

/-- Whatever the masks, the pieces in which the bytes arrive and what comes after them, the messages of the frames are
returned, and then what comes after the frames is read. -/
def Survives (maxSize : Nat) (fs : List ClientFrame) : Prop :=
  ∀ masks : Nat → Bytes, (∀ i, (masks i).length = 4) → ∀ (s : Stream) (later : Bytes), s.Holds (wire masks fs ++ later) →
    ∃ s', s'.Holds later ∧ ∀ ms, Receives maxSize s' ms → Receives maxSize s (messagesFrom 0 [] fs ++ ms)

/-- The frames that are read, where a message has `had` bytes already. -/
def Readable (maxSize : Nat) : Nat → List ClientFrame → Prop
  | _, [] => True
  | had, f :: fs => ¬ f.IsControl ∧ f.data ≠ [] ∧ f.data.length < 2 ^ 31 ∧ had < 2 ^ 31 ∧ had + f.data.length < maxSize ∧
      Readable maxSize (if f.fin then 0 else had + f.data.length) fs

/-! ## Lemmas -/

variable {maxSize fuel : Nat} {s : Stream} {r : RecvState} {f : ClientFrame} {fs : List ClientFrame} {later : Bytes}
  {masks : Nat → Bytes}

/-! ### One frame -/

variable {started : Bool}

theorem WellFormed.data (h : WellFormed started (f :: fs)) (hf : ¬ f.IsControl) :
    IsData f.opcode ∧ (started = true ↔ f.opcode = WSFrameHead.CONTINUE) ∧ f.data.length < 2 ^ 63 ∧ WellFormed (!f.fin) fs := by
  unfold WellFormed at h
  rw [if_neg hf] at h
  obtain ⟨hop, hlength, hrest⟩ := h
  refine ⟨?_, ?_, hlength, hrest⟩
  · cases started with
    | true => exact .inl (List.mem_singleton.mp hop)
    | false =>
      rcases List.mem_cons.mp hop with hop | hop
      · exact .inr (.inl hop)
      · exact .inr (.inr (List.mem_singleton.mp hop))
  · cases started with
    | true => exact iff_of_true rfl (List.mem_singleton.mp hop)
    | false =>
      refine iff_of_false Bool.false_ne_true fun hcontinue => ?_
      rw [hcontinue] at hop
      exact absurd hop (by decide)

theorem WellFormed.control (h : WellFormed started (f :: fs)) (hf : f.IsControl) :
    f.fin = true ∧ f.data.length ≤ 125 ∧ WellFormed started fs := by
  unfold WellFormed at h
  rwa [if_pos hf] at h

/-- The first two bytes of a mask that read as the head of a data frame without a mask. -/
def badMask : Bytes := [0x81, 0, 0, 0]

theorem recvLoop_unmasked {rest : Bytes} (h : s.Holds ([0x81, 0] ++ rest)) : recvLoop maxSize false fuel r s = none := by
  cases fuel with
  | zero => rfl
  | succ fuel =>
    obtain ⟨s', hread, -, -⟩ := Stream.readFixSize_spec h (List.cons_ne_nil _ _) (show 2 < 2 ^ 31 by decide)
    have hread : s.readFixSize 2 = some ([0x81, 0], s') := hread
    rw [recvLoop, hread, Option.bind_some]
    rfl

theorem recvLoop_control {rest : Bytes} (hf : f.IsControl) (hlength : f.data.length ≤ 125)
    (h : s.Holds (frame f.opcode true f.fin badMask f.data ++ rest)) : recvLoop maxSize false fuel r s = none := by
  cases fuel with
  | zero => rfl
  | succ fuel =>
    unfold frame at h
    rw [List.append_assoc, List.append_assoc] at h
    obtain ⟨s1, hread, h1⟩ := read_head _ h
    have hpayload : payloadOf f.data.length = f.data.length := by
      rcases payloadOf_cases f.data.length with h | h | h
      · exact h.2
      · omega
      · omega
    have hextra : extra f.data.length = [] := by
      unfold extra
      rw [hpayload, if_neg (by omega), if_neg (by omega)]
    have hmask : s1.Holds ([0x81, 0] ++ ([0, 0] ++ applyMask badMask f.data ++ rest)) := by
      rw [hextra] at h1
      exact h1
    rw [recvLoop, hread, Option.bind_some]
    dsimp only
    rw [decode_encode]
    rcases hf with hf | hf
    · have hopcode : (sendHead ⟨f.opcode, f.data⟩ true f.fin).opcode = WSFrameHead.PING := by
        rw [hf]
        rfl
      have hpong : WSPong s1 = some { s1 with output := s1.output ++ (sendHead ⟨WSFrameHead.PONG, []⟩ false true).encode } :=
        write_head h1.up _
      rw [if_pos hopcode, hpong, Option.bind_some]
      exact recvLoop_unmasked ⟨hmask.up, hmask.pieces, hmask.bytes⟩
    · have hopcode : (sendHead ⟨f.opcode, f.data⟩ true f.fin).opcode = WSFrameHead.PONG := by
        rw [hf]
        rfl
      rw [if_neg (by rw [hopcode]; decide), if_pos hopcode]
      exact recvLoop_unmasked hmask

/-! ### Frames that are read -/

/-- A call that has `r` of its message already returns the first of the messages. -/
def Reads (maxSize fuel : Nat) (r : RecvState) (s : Stream) (msgs : List WSFrameMessage) : Prop :=
  ∃ m ms s', msgs = m :: ms ∧ recvLoop maxSize false fuel r s = some (m, s') ∧ Receives maxSize s' ms

variable {msgs : List WSFrameMessage}

theorem Reads.receives (h : Reads maxSize (s.input.flatten.length + 1) ⟨0, [], 0⟩ s msgs) :
    Receives maxSize s msgs := by
  obtain ⟨m, ms, s', rfl, hloop, hrest⟩ := h
  exact .message hloop hrest

theorem Receives.reads (h : Receives maxSize s msgs) (hne : msgs ≠ []) :
    Reads maxSize (s.input.flatten.length + 1) ⟨0, [], 0⟩ s msgs := by
  cases h with
  | closed _ => exact absurd rfl hne
  | message hloop hrest => exact ⟨_, _, _, rfl, hloop, hrest⟩

theorem not_reads_of_none (h : recvLoop maxSize false fuel r s = none) :
    ¬ Reads maxSize fuel r s msgs := by
  rintro ⟨m, ms, s', -, hloop, -⟩
  rw [h] at hloop
  cases hloop

theorem length_le_wire (masks : Nat → Bytes) (fs : List ClientFrame) : fs.length ≤ (wire masks fs).length := by
  induction fs generalizing masks with
  | nil => exact Nat.zero_le _
  | cons f fs ih =>
    have hrest := ih fun i => masks (i + 1)
    have hhead : (sendHead ⟨f.opcode, f.data⟩ true f.fin).encode.length = 2 := rfl
    unfold wire frame
    rw [List.length_append, List.length_append, hhead, List.length_cons]
    omega

theorem messagesFrom_data (hf : ¬ f.IsControl) (opcode : Nat) (data : Bytes) :
    messagesFrom opcode data (f :: fs) =
      let opcode := if f.opcode = WSFrameHead.CONTINUE then opcode else f.opcode
      if f.fin then ⟨opcode, data ++ f.data⟩ :: messagesFrom 0 [] fs else messagesFrom opcode (data ++ f.data) fs := by
  rw [messagesFrom, if_neg hf]

theorem opcodeAfter_eq (hstart : started = false → r = ⟨0, [], 0⟩)
    (hcontinue : started = true ↔ f.opcode = WSFrameHead.CONTINUE) :
    opcodeAfter r f.opcode = if f.opcode = WSFrameHead.CONTINUE then r.opcode else f.opcode := by
  unfold opcodeAfter
  by_cases h : f.opcode = WSFrameHead.CONTINUE
  · rw [if_pos h, if_neg fun hand => hand.2 h]
  · have hr : r = ⟨0, [], 0⟩ := hstart (Bool.eq_false_iff.mpr fun hs => h (hcontinue.mp hs))
    rw [if_neg h, if_pos ⟨by rw [hr], h⟩]

theorem reads_of_readable (hmax : maxSize < 2 ^ 32) (hmasks : ∀ i, (masks i).length = 4)
    (hwf : WellFormed started fs) (hne : fs ≠ []) (hread : Readable maxSize r.data.length fs)
    (hcur : r.curLen = Kv.i32 r.data.length) (hstart : started = false → r = ⟨0, [], 0⟩) (hfuel : fs.length ≤ fuel)
    (h : s.Holds (wire masks fs ++ later)) :
    ∃ s', s'.Holds later ∧ ∀ ms, Receives maxSize s' ms →
      Reads maxSize fuel r s (messagesFrom r.opcode r.data fs ++ ms) := by
  induction fs generalizing started r fuel s masks with
  | nil => exact absurd rfl hne
  | cons f fs ih =>
    obtain ⟨hf, hdata, hlength, hhad, hsum, hrest⟩ := hread
    obtain ⟨hop, hcontinue, -, hwf'⟩ := hwf.data hf
    obtain ⟨fuel, rfl⟩ := Nat.exists_eq_add_one_of_ne_zero (Nat.ne_of_gt (Nat.lt_of_lt_of_le (Nat.succ_pos _) hfuel))
    unfold wire at h
    rw [List.append_assoc] at h
    obtain ⟨s1, h1, hloop⟩ := recvLoop_taken fuel hop hmax hsum hcur hhad hdata hlength (hmasks 0) h
    have hloop : recvLoop maxSize false (fuel + 1) r s = _ := hloop
    rw [messagesFrom_data hf, ← opcodeAfter_eq hstart hcontinue]
    dsimp only
    cases hfin : f.fin with
    | true =>
      rw [hfin, if_pos rfl] at hloop hrest
      rw [hfin] at hwf'
      rw [if_pos rfl]
      cases fs with
      | nil => exact ⟨s1, h1, fun ms hms => ⟨_, _, _, rfl, hloop, hms⟩⟩
      | cons g gs =>
        have hfuel' : (g :: gs).length ≤ s1.input.flatten.length + 1 := by
          have := length_le_wire (fun i => masks (i + 1)) (g :: gs)
          rw [h1.bytes, List.length_append]
          omega
        obtain ⟨s', h', hms⟩ := ih (r := ⟨0, [], 0⟩) (fun i => hmasks (i + 1)) hwf' (List.cons_ne_nil _ _) hrest (by decide)
          (fun _ => rfl) hfuel' h1
        exact ⟨s', h', fun ms hr => ⟨_, _, _, rfl, hloop, (hms ms hr).receives⟩⟩
    | false =>
      rw [hfin, if_neg Bool.false_ne_true] at hloop hrest
      rw [hfin] at hwf'
      rw [if_neg Bool.false_ne_true]
      have hmore : fs ≠ [] := by
        rintro rfl
        exact Bool.noConfusion hwf'
      rw [← List.length_append] at hrest
      have hcur' : (⟨opcodeAfter r f.opcode, r.data ++ f.data, Kv.i32 (r.data ++ f.data).length⟩ : RecvState).curLen =
          Kv.i32 (r.data ++ f.data).length := by
        dsimp only
      obtain ⟨s', h', hms⟩ := ih (fun i => hmasks (i + 1)) hwf' hmore hrest hcur' (fun hs => Bool.noConfusion hs)
        (Nat.le_of_succ_le_succ hfuel) h1
      refine ⟨s', h', fun ms hr => ?_⟩
      obtain ⟨m, rest, s2, hmsgs, hloop2, hreceives⟩ := hms ms hr
      exact ⟨m, rest, s2, hmsgs, hloop.trans hloop2, hreceives⟩

/-! ### Frames that are not read -/

/-- Once there is less than was sent, the message stays short. -/
theorem recvLoop_short {data : Bytes} {opcode : Nat}
    (hshort : r.data.length < data.length ∨ r.curLen.toNat < data.length) (hwf : WellFormed true fs)
    (h : s.Holds (wire (fun _ => badMask) fs ++ later)) :
    ¬ Reads maxSize fuel r s (messagesFrom opcode data fs ++ msgs) := by
  induction fs generalizing r fuel s data opcode with
  | nil => exact Bool.noConfusion hwf
  | cons f fs ih =>
    unfold wire at h
    rw [List.append_assoc] at h
    by_cases hf : f.IsControl
    · exact not_reads_of_none (recvLoop_control hf (hwf.control hf).2.1 h)
    · obtain ⟨hop, -, hlength, hwf'⟩ := hwf.data hf
      cases fuel with
      | zero => exact not_reads_of_none rfl
      | succ fuel =>
        obtain ⟨s1, h1, hloop⟩ := recvLoop_frame maxSize fuel r hop (by omega) rfl h
        have hloop : recvLoop maxSize false (fuel + 1) r s = _ := hloop
        have hafter : (r.append f.data).length < (data ++ f.data).length := by
          unfold RecvState.append
          rw [List.length_append, List.length_append, List.length_take]
          omega
        by_cases htakes : Takes maxSize r f.data
        · rw [if_pos htakes] at hloop
          rw [messagesFrom_data hf]
          dsimp only
          cases hfin : f.fin with
          | true =>
            rw [hfin, if_pos rfl] at hloop
            rw [if_pos rfl]
            rintro ⟨m, ms, s', hmsgs, hloop', -⟩
            obtain ⟨rfl, -⟩ := List.cons.inj hmsgs
            rw [hloop] at hloop'
            have hdata : r.append f.data = data ++ f.data :=
              congrArg WSFrameMessage.data (congrArg Prod.fst (Option.some.inj hloop'))
            exact absurd (congrArg List.length hdata) (Nat.ne_of_lt hafter)
          | false =>
            rw [hfin, if_neg Bool.false_ne_true] at hloop
            rw [hfin] at hwf'
            rw [if_neg Bool.false_ne_true]
            rintro ⟨m, ms, s', hmsgs, hloop', hrest⟩
            exact ih (.inl hafter) hwf' h1 ⟨m, ms, s', hmsgs, hloop.symm.trans hloop', hrest⟩
        · rw [if_neg htakes] at hloop
          exact not_reads_of_none hloop

theorem Takes.bounds (hmax : maxSize < 2 ^ 32) {data : Bytes} (h : Takes maxSize r data)
    (hcur : r.curLen = Kv.i32 r.data.length) (hhad : r.data.length < 2 ^ 31) (hlength : data.length < 2 ^ 63) :
    data ≠ [] ∧ data.length < 2 ^ 31 ∧ r.data.length + data.length < maxSize := by
  obtain ⟨hlarge, hpos⟩ := h
  have hsum : r.data.length + data.length < maxSize := by
    have hlarge := of_decide_eq_false hlarge
    rw [hcur] at hlarge
    unfold Kv.i32 at hlarge
    rw [Int.bmod_def] at hlarge
    omega
  refine ⟨?_, ?_, hsum⟩
  · rintro rfl
    exact absurd hpos (by decide)
  · by_contra hge
    exact Stream.i32_nonpos (Nat.le_of_not_lt hge) (by omega) hpos

theorem not_reads (hmax : maxSize < 2 ^ 32) (hwf : WellFormed started fs)
    (hnot : ¬ Readable maxSize r.data.length fs) (hcur : r.curLen = Kv.i32 r.data.length)
    (hstart : started = false → r = ⟨0, [], 0⟩) (hmsgs : msgs ≠ []) (h : s.Holds (wire (fun _ => badMask) fs ++ later)) :
    ¬ Reads maxSize fuel r s (messagesFrom r.opcode r.data fs ++ msgs) := by
  induction fs generalizing started r fuel s with
  | nil => exact absurd trivial hnot
  | cons f fs ih =>
    have hwhole := h
    unfold wire at h
    rw [List.append_assoc] at h
    by_cases hf : f.IsControl
    · exact not_reads_of_none (recvLoop_control hf (hwf.control hf).2.1 h)
    · obtain ⟨hop, hcontinue, hlength, hwf'⟩ := hwf.data hf
      by_cases hhad : r.data.length < 2 ^ 31
      · cases fuel with
        | zero => exact not_reads_of_none rfl
        | succ fuel =>
          obtain ⟨s1, h1, hloop⟩ := recvLoop_frame maxSize fuel r hop (by omega) rfl h
          have hloop : recvLoop maxSize false (fuel + 1) r s = _ := hloop
          by_cases htakes : Takes maxSize r f.data
          · obtain ⟨hdata, hlt, hsum⟩ := htakes.bounds hmax hcur hhad hlength
            have hrest : ¬ Readable maxSize (if f.fin then 0 else r.data.length + f.data.length) fs := fun hrest =>
              hnot ⟨hf, hdata, hlt, hhad, hsum, hrest⟩
            have hafter : r.after f.opcode f.data = _ := after_eq hcur hhad f.data
            rw [if_pos htakes] at hloop
            rw [messagesFrom_data hf, ← opcodeAfter_eq hstart hcontinue]
            dsimp only
            cases hfin : f.fin with
            | true =>
              rw [hfin, if_pos rfl] at hloop hrest
              rw [hfin] at hwf'
              rw [if_pos rfl]
              rintro ⟨m, ms, s', hmsgs', hloop', hreceives⟩
              obtain ⟨-, rfl⟩ := List.cons.inj hmsgs'
              rw [hloop] at hloop'
              obtain rfl : s1 = s' := congrArg Prod.snd (Option.some.inj hloop')
              exact ih (r := ⟨0, [], 0⟩) hwf' hrest (by decide) (fun _ => rfl) h1
                (hreceives.reads (List.append_ne_nil_of_right_ne_nil _ hmsgs))
            | false =>
              rw [hfin, if_neg Bool.false_ne_true] at hloop hrest
              rw [hfin] at hwf'
              rw [if_neg Bool.false_ne_true]
              rw [hafter] at hloop
              rw [← List.length_append] at hrest
              rintro ⟨m, ms, s', hmsgs', hloop', hreceives⟩
              have hcur' : (⟨opcodeAfter r f.opcode, r.data ++ f.data, Kv.i32 (r.data ++ f.data).length⟩ : RecvState).curLen =
                  Kv.i32 (r.data ++ f.data).length := by
                dsimp only
              exact ih hwf' hrest hcur' (fun hs => Bool.noConfusion hs) h1
                ⟨m, ms, s', hmsgs', hloop.symm.trans hloop', hreceives⟩
          · rw [if_neg htakes] at hloop
            exact not_reads_of_none hloop
      · obtain rfl : started = true := by
          by_contra hs
          rw [hstart (Bool.eq_false_iff.mpr hs)] at hhad
          exact hhad (by decide)
        -- the length wraps, and what is there is cut
        have hcut : r.curLen.toNat < r.data.length := by
          rw [hcur]
          unfold Kv.i32
          rw [Int.bmod_def]
          omega
        exact recvLoop_short (.inr hcut) hwf hwhole

/-! ### The end of the stream -/

theorem receives_nil (h : s.Holds []) : Receives maxSize s [] := by
  have hinput : s.input = [] := by
    cases hinput : s.input with
    | nil => rfl
    | cons piece rest =>
      have hpiece := h.pieces piece (by rw [hinput]; exact List.mem_cons_self)
      have hflat := h.bytes
      rw [hinput, List.flatten_cons] at hflat
      exact absurd (List.append_eq_nil_iff.mp hflat).1 hpiece
  refine .closed ?_
  have hread : s.readFixSize 2 = none := by
    unfold Stream.readFixSize Stream.readLoop Stream.read
    rw [h.up, hinput]
    rfl
  unfold WSRecvMessage
  rw [recvLoop, hread]
  rfl

/-- A text frame of one byte. -/
def oneByte : ClientFrame := ⟨WSFrameHead.TEXT_FRAME, true, [0]⟩

theorem wellFormed_oneByte : WellFormed false [oneByte] := by
  unfold WellFormed
  rw [if_neg (by decide)]
  exact ⟨by decide, by decide, rfl⟩

/-! ## Top theorem -/

theorem survives_iff (hlo : 1 < maxSize) (hhi : maxSize < 2 ^ 32) (hwf : WellFormed false fs) :
    Survives maxSize fs ↔ Readable maxSize 0 fs := by
  constructor
  · intro h
    by_contra hnot
    obtain ⟨bytes, hbytes⟩ : ∃ bytes, bytes = wire (fun _ => badMask) fs ++ wire (fun _ => badMask) [oneByte] := ⟨_, rfl⟩
    have hone := length_le_wire (fun _ => badMask) [oneByte]
    have hholds : (⟨[bytes], [], false⟩ : Stream).Holds bytes := by
      refine ⟨rfl, fun piece hp => ?_, List.flatten_singleton⟩
      obtain rfl := List.mem_singleton.mp hp
      refine List.length_pos_iff.mp ?_
      rw [hbytes, List.length_append]
      exact Nat.lt_of_lt_of_le Nat.one_pos (Nat.le_trans hone (Nat.le_add_left _ _))
    rw [hbytes] at hholds
    obtain ⟨s', h', hms⟩ := h (fun _ => badMask) (fun _ => rfl) _ _ hholds
    rw [← List.append_nil (wire _ [oneByte])] at h'
    have hread : Readable maxSize 0 [oneByte] :=
      ⟨by decide, List.cons_ne_nil _ _, show 1 < 2 ^ 31 by decide, by decide, hlo, trivial⟩
    obtain ⟨s2, h2, hone⟩ := reads_of_readable (r := ⟨0, [], 0⟩) hhi (fun _ => rfl) wellFormed_oneByte
      (List.cons_ne_nil _ _) hread (by decide) (fun _ => rfl) (Nat.le_add_left 1 _) h'
    have hreceives := hms _ (hone [] (receives_nil h2)).receives
    exact not_reads (r := ⟨0, [], 0⟩) hhi hwf hnot (by decide) (fun _ => rfl) (List.cons_ne_nil _ _) hholds
      (hreceives.reads (List.append_ne_nil_of_right_ne_nil _ (List.cons_ne_nil _ _)))
  · intro hread masks hmasks s later h
    cases fs with
    | nil => exact ⟨s, h, fun ms hms => hms⟩
    | cons f fs =>
      have hfuel : (f :: fs).length ≤ s.input.flatten.length + 1 := by
        have := length_le_wire masks (f :: fs)
        rw [h.bytes, List.length_append]
        omega
      obtain ⟨s', h', hms⟩ := reads_of_readable (r := ⟨0, [], 0⟩) hhi hmasks hwf (List.cons_ne_nil _ _) hread (by decide)
        (fun _ => rfl) hfuel h
      exact ⟨s', h', fun ms hr => (hms ms hr).receives⟩

/-- Two fragments of a text. -/
theorem survives_iff_fragments : Survives (1024 * 1024 * 32) [⟨1, false, [104]⟩, ⟨0, true, [105]⟩] := by
  refine (survives_iff (by decide) (by decide) ?_).mpr ?_
  · unfold WellFormed
    rw [if_neg (by decide)]
    refine ⟨by decide, by decide, ?_⟩
    unfold WellFormed
    rw [if_neg (by decide)]
    exact ⟨by decide, by decide, rfl⟩
  · exact ⟨by decide, by decide, by decide, by decide, by decide, by decide, by decide, by decide, by decide, by decide,
      trivial⟩

/-- An empty PING before a text of one byte: there is no message. -/
theorem ping_misread : ¬ ∀ fs, WellFormed false fs → Survives (1024 * 1024 * 32) fs := by
  intro h
  have hwf : WellFormed false [⟨WSFrameHead.PING, true, []⟩, oneByte] := by
    unfold WellFormed
    rw [if_pos (by decide)]
    exact ⟨rfl, by decide, wellFormed_oneByte⟩
  obtain ⟨bytes, hbytes⟩ : ∃ bytes, bytes = wire (fun _ => badMask) [⟨WSFrameHead.PING, true, []⟩, oneByte] := ⟨_, rfl⟩
  have hholds : (⟨[bytes], [], false⟩ : Stream).Holds (bytes ++ []) := by
    refine ⟨rfl, fun piece hp => ?_, by rw [List.append_nil]; exact List.flatten_singleton⟩
    obtain rfl := List.mem_singleton.mp hp
    rw [hbytes]
    exact List.cons_ne_nil _ _
  obtain ⟨s', h', hms⟩ := h _ hwf (fun _ => badMask) (fun _ => rfl) _ [] (hbytes ▸ hholds)
  have hnone : WSRecvMessage (1024 * 1024 * 32) false
      ⟨[wire (fun _ => badMask) [⟨WSFrameHead.PING, true, []⟩, oneByte]], [], false⟩ = none := by rfl
  cases hms [] (receives_nil h') with
  | message hloop _ =>
    rw [hnone] at hloop
    cases hloop

end Http
