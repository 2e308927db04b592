import ZeroFrameworks.Kv.Resp.Value

/-!
# Replication backlog

`ReplicationManager` numbers the bytes it propagates from 1 on; `offset` is the number of the last
one.  The backlog keeps the newest payloads as chunks, each with the number of its first byte,
and drops chunks from the front while they take more than `kMaxBacklogBytes`.

With `stream` for all bytes propagated so far, every run of `propagateCommand` keeps

    offset = stream.length
    chunks = the last `backlogBytes` bytes of stream, without gaps   (Inv)
    tryCollectPartial replid o = some out → out = bytes o+1 .. offset of stream
    oldest - 1 ≤ o ≤ offset → (tryCollectPartial replId o succeeds ↔ o < offset)   (continued_iff)
-/

namespace Kv

inductive Role where
  | master | slave
  deriving DecidableEq, Repr

structure BacklogChunk where
  startOffset : Int := 0
  payload : Bytes := []

/-- `ReplicationManager`; sessions are named by numbers. -/
structure Replication where
  role : Role := .master
  replId : Bytes
  offset : Int := 0
  backlog : List BacklogChunk := []
  backlogBytes : Nat := 0
  replicas : List Nat := []
  masterHost : Bytes := []
  masterPort : Int := 0
  masterLinkStatus : Int := 0
  masterReplId : Bytes := []
  masterOffset : Int := -1

namespace Replication

/-! ## Algorithm -/

def kMaxBacklogBytes : Nat := 1024 * 1024

/-- The loop that pops chunks from the front: what is left and its size. -/
def trimBacklog : List BacklogChunk → Nat → List BacklogChunk × Nat
  | [], bytes => ([], bytes)
  | c :: cs, bytes =>
    if kMaxBacklogBytes < bytes then trimBacklog cs (bytes - c.payload.length) else (c :: cs, bytes)

def appendBacklog (payload : Bytes) (r : Replication) : Replication :=
  if payload.isEmpty then r
  else
    let chunks := r.backlog ++ [{ startOffset := r.offset + 1, payload := payload }]
    let kept := trimBacklog chunks (r.backlogBytes + payload.length)
    { r with backlog := kept.1, backlogBytes := kept.2, offset := r.offset + payload.length }

/-- `propagateCommand`, as far as the manager's own state goes. -/
def propagateCommand (r : Replication) (command : RespValue) : Replication :=
  if r.role = .master then r.appendBacklog (encode command) else r

/-- `propagateCommand`, called in the role that the node has by then. -/
def propagateIn (r : Replication) (call : Role × RespValue) : Replication :=
  propagateCommand { r with role := call.1 } call.2

/-- The chunk loop of `tryCollectPartial`. -/
def collectFrom (want : Int) : List BacklogChunk → Option Bytes
  | [] => none
  | c :: cs =>
    if c.startOffset + c.payload.length - 1 < want then collectFrom want cs
    else if want < c.startOffset then none
    else some (c.payload.drop (want - c.startOffset).toNat ++ cs.flatMap BacklogChunk.payload)

def tryCollectPartial (r : Replication) (replid : Bytes) (offset : Int) : Option Bytes :=
  if replid ≠ lit "?" ∧ replid ≠ r.replId then none
  else if offset < 0 then none
  else
    match r.backlog with
    | [] => none
    | c :: _ => if offset + 1 < c.startOffset then none else collectFrom (offset + 1) r.backlog

/-! ## Invariant -/

/-- Chunks that cover the byte numbers after `first` up to `last` without gaps. -/
def Contiguous : Int → List BacklogChunk → Int → Prop
  | first, [], last => first = last
  | first, c :: cs, last => c.startOffset = first + 1 ∧ Contiguous (first + c.payload.length) cs last

/-- The bytes in a list of chunks. -/
def bytesOf (cs : List BacklogChunk) : Bytes := cs.flatMap BacklogChunk.payload

/-- Number of the first byte that the backlog retains, that of the next byte when it retains none. -/
def oldest (r : Replication) : Int := (r.backlog.head?.map BacklogChunk.startOffset).getD (r.offset + 1)

structure Inv (stream : Bytes) (r : Replication) : Prop where
  offset : r.offset = stream.length
  size : r.backlogBytes = (bytesOf r.backlog).length
  bound : r.backlogBytes ≤ kMaxBacklogBytes
  contiguous : Contiguous (stream.length - r.backlogBytes) r.backlog stream.length
  suffix : bytesOf r.backlog <:+ stream

/-! ## Lemmas -/

variable {cs : List BacklogChunk} {first last : Int}

theorem contiguous_snoc (payload : Bytes)
    (h : Contiguous first cs last) :
    Contiguous first (cs ++ [⟨last + 1, payload⟩]) (last + payload.length) := by
  induction cs generalizing first with
  | nil =>
    obtain rfl : first = last := h
    exact ⟨rfl, rfl⟩
  | cons c cs ih => exact ⟨h.1, ih h.2⟩

theorem contiguous_length (h : Contiguous first cs last) :
    first + (bytesOf cs).length = last := by
  induction cs generalizing first with
  | nil =>
    obtain rfl : first = last := h
    simp [bytesOf]
  | cons c cs ih =>
    have := ih h.2
    simp only [bytesOf, List.flatMap_cons, List.length_append] at this ⊢
    omega

/-- What is left after trimming is a gapless end of what was there, within the bound. -/
theorem trimBacklog_spec
    (h : Contiguous first cs last) :
    let kept := trimBacklog cs (bytesOf cs).length
    kept.2 = (bytesOf kept.1).length ∧ kept.2 ≤ kMaxBacklogBytes ∧
      Contiguous (last - kept.2) kept.1 last ∧ bytesOf kept.1 <:+ bytesOf cs := by
  induction cs generalizing first with
  | nil => exact ⟨rfl, Nat.zero_le _, by simp [trimBacklog, bytesOf, Contiguous], List.suffix_rfl⟩
  | cons c cs ih =>
    have hlen : (bytesOf (c :: cs)).length = c.payload.length + (bytesOf cs).length := by
      simp [bytesOf]
    unfold trimBacklog
    split
    next hbig =>
      obtain ⟨h1, h2, h3, h4⟩ := ih h.2
      rw [hlen, Nat.add_sub_cancel_left]
      exact ⟨h1, h2, h3, h4.trans (List.suffix_append c.payload (bytesOf cs))⟩
    next hsmall =>
      refine ⟨rfl, by omega, ?_, List.suffix_rfl⟩
      have hfirst : last - ((bytesOf (c :: cs)).length : Int) = first := by
        have := contiguous_length h
        omega
      rw [hfirst]
      exact h

variable {r : Replication} {stream : Bytes}

theorem Inv.appendBacklog (h : Inv stream r) (payload : Bytes) :
    Inv (stream ++ payload) (r.appendBacklog payload) := by
  unfold Replication.appendBacklog
  split
  next he =>
    obtain rfl : payload = [] := List.isEmpty_iff.mp he
    simpa using h
  next he =>
    have hc := contiguous_snoc payload h.contiguous
    rw [← h.offset] at hc
    have hb : bytesOf (r.backlog ++ [⟨r.offset + 1, payload⟩]) = bytesOf r.backlog ++ payload := by
      simp [bytesOf]
    have hlen : r.backlogBytes + payload.length =
        (bytesOf (r.backlog ++ [⟨r.offset + 1, payload⟩])).length := by
      rw [hb, List.length_append, h.size]
    obtain ⟨h1, h2, h3, h4⟩ := trimBacklog_spec hc
    have hlast : r.offset + payload.length = ((stream ++ payload).length : Int) := by
      rw [h.offset, List.length_append]; push_cast; rfl
    simp only [hlen]
    refine ⟨hlast, h1, h2, ?_, ?_⟩
    · rw [← hlast]
      exact h3
    · obtain ⟨pre, hpre⟩ := h.suffix
      exact h4.trans ⟨pre, by rw [hb, ← List.append_assoc, hpre]⟩

theorem propagateCommand_role (r : Replication) (command : RespValue) :
    (r.propagateCommand command).role = r.role := by
  unfold propagateCommand Replication.appendBacklog
  split
  · split <;> rfl
  · rfl

theorem propagateCommand_replicas (r : Replication) (command : RespValue) :
    (r.propagateCommand command).replicas = r.replicas := by
  unfold propagateCommand appendBacklog
  repeat' split
  all_goals rfl

theorem Inv.propagateCommand (h : Inv stream r)
    (hr : r.role = .master) (command : RespValue) :
    Inv (stream ++ encode command) (r.propagateCommand command) := by
  unfold Replication.propagateCommand
  rw [if_pos hr]
  exact h.appendBacklog _

theorem Inv.foldl_propagateCommand (h : Inv stream r)
    (hr : r.role = .master) (commands : List RespValue) :
    Inv (stream ++ commands.flatMap encode) (commands.foldl Replication.propagateCommand r) := by
  induction commands generalizing stream r with
  | nil => simpa using h
  | cons c cs ih =>
    have hstep := ih (h.propagateCommand hr c) ((propagateCommand_role r c).trans hr)
    simpa [List.append_assoc] using hstep

theorem collectFrom_eq {first last want : Int} {out : Bytes}
    (h : Contiguous first cs last) (hw : first < want) (ho : collectFrom want cs = some out) :
    want ≤ last ∧ out = (bytesOf cs).drop (want - first - 1).toNat := by
  induction cs generalizing first with
  | nil => cases ho
  | cons c cs ih =>
    obtain ⟨hs, hrest⟩ := h
    unfold collectFrom at ho
    split at ho
    next hlt =>
      obtain ⟨hle, rfl⟩ := ih hrest (by omega) ho
      refine ⟨hle, ?_⟩
      have hdrop : (want - first - 1).toNat =
          c.payload.length + (want - (first + c.payload.length) - 1).toNat := by omega
      unfold bytesOf
      rw [List.flatMap_cons, hdrop, ← List.drop_drop, List.drop_left]
    next hge =>
      split at ho
      · cases ho
      next hin =>
        obtain rfl := Option.some.inj ho
        constructor
        · have := contiguous_length hrest
          omega
        · have hpos : (want - first - 1).toNat ≤ c.payload.length := by omega
          have hidx : (want - c.startOffset).toNat = (want - first - 1).toNat := by omega
          unfold bytesOf
          rw [List.flatMap_cons, List.drop_append_of_le_length hpos, hidx]

theorem Inv.tryCollectPartial (h : Inv stream r) {replid : Bytes}
    {offset : Int} {out : Bytes} (ho : r.tryCollectPartial replid offset = some out) :
    0 ≤ offset ∧ offset < r.offset ∧ out = stream.drop offset.toNat := by
  unfold Replication.tryCollectPartial at ho
  split at ho
  · cases ho
  split at ho
  · cases ho
  next hneg =>
    have hc := h.contiguous
    cases hb : r.backlog with
    | nil => rw [hb] at ho; cases ho
    | cons c cs =>
      rw [hb] at ho hc
      simp only at ho
      split at ho
      · cases ho
      next hold =>
        have hstart := hc.1
        obtain ⟨hle, hout⟩ := collectFrom_eq hc (by omega) ho
        refine ⟨by omega, by rw [h.offset]; omega, ?_⟩
        obtain ⟨pre, hpre⟩ := h.suffix
        have hsize := h.size
        rw [hb] at hpre hsize
        have hprelen : pre.length + (bytesOf (c :: cs)).length = stream.length := by
          rw [← hpre, List.length_append]
        have hdrop : offset.toNat =
            pre.length + (offset + 1 - ((stream.length : Int) - r.backlogBytes) - 1).toNat := by
          omega
        rw [hout, ← hpre, hdrop, ← List.drop_drop, List.drop_left, hpre]

/-- The loop finds every byte that the chunks hold, and nothing past the last one. -/
theorem collectFrom_isSome {first last want : Int} (h : Contiguous first cs last)
    (hw : first < want) : (collectFrom want cs).isSome ↔ want ≤ last := by
  induction cs generalizing first with
  | nil =>
    obtain rfl : first = last := h
    constructor
    · intro hs
      cases hs
    · intro hle
      omega
  | cons c cs ih =>
    obtain ⟨hs, hrest⟩ := h
    have hend := contiguous_length hrest
    unfold collectFrom
    split
    next hlt => exact ih hrest (by omega)
    next hge =>
      rw [if_neg (by omega)]
      exact ⟨fun _ => by omega, fun _ => rfl⟩

theorem Inv.oldest_eq (h : Inv stream r) :
    r.oldest = r.offset - r.backlogBytes + 1 := by
  have hc := h.contiguous
  have hsize := h.size
  unfold oldest
  rw [h.offset]
  cases hb : r.backlog with
  | nil =>
    rw [hb] at hsize
    simp [hsize, bytesOf]
  | cons c cs =>
    rw [hb] at hc
    exact hc.1

theorem Inv.tryCollectPartial_isSome (h : Inv stream r) {offset : Int}
    (hlo : r.oldest - 1 ≤ offset) : (r.tryCollectPartial r.replId offset).isSome ↔ offset < r.offset := by
  rw [h.oldest_eq] at hlo
  have hsize : (r.backlogBytes : Int) ≤ r.offset := by
    rw [h.size, h.offset]
    exact_mod_cast h.suffix.length_le
  have hc := h.contiguous
  rw [← h.offset] at hc
  unfold Replication.tryCollectPartial
  rw [if_neg (fun hid => hid.2 rfl), if_neg (by omega)]
  cases hb : r.backlog with
  | nil =>
    rw [hb] at hc
    obtain hc : r.offset - r.backlogBytes = r.offset := hc
    constructor
    · intro hs
      cases hs
    · intro hlt
      omega
  | cons c cs =>
    rw [hb] at hc
    have hfirst : c.startOffset = r.offset - r.backlogBytes + 1 := hc.1
    show (if offset + 1 < c.startOffset then none else collectFrom (offset + 1) (c :: cs)).isSome ↔ _
    rw [if_neg (by omega), collectFrom_isSome hc (by omega)]
    omega

theorem Inv.propagateIn (h : Inv stream r) (call : Role × RespValue) :
    ∃ stream', Inv stream' (r.propagateIn call) := by
  have hrole : Inv stream { r with role := call.1 } := ⟨h.offset, h.size, h.bound, h.contiguous, h.suffix⟩
  cases hm : call.1 with
  | master =>
    rw [hm] at hrole
    exact ⟨_, by rw [Replication.propagateIn, hm]; exact hrole.propagateCommand rfl call.2⟩
  | slave =>
    rw [hm] at hrole
    exact ⟨_, by rw [Replication.propagateIn, hm]; exact hrole⟩

theorem Inv.foldl_propagateIn (h : Inv stream r)
    (calls : List (Role × RespValue)) : ∃ stream', Inv stream' (calls.foldl Replication.propagateIn r) := by
  induction calls generalizing stream r with
  | nil => exact ⟨stream, h⟩
  | cons call calls ih =>
    obtain ⟨stream', h'⟩ := h.propagateIn call
    exact ih h'

/-! ## Top theorem -/

theorem inv_start (replId : Bytes) : Inv [] { replId := replId } :=
  ⟨rfl, rfl, Nat.zero_le _, rfl, List.suffix_rfl⟩

/-- After any run of `propagateCommand` on a master the chunks are gapless, their size is counted
right and within the bound, and a partial resynchronisation from `offset` is answered with
exactly the bytes `offset + 1 .. m_offset` of everything propagated. -/
theorem backlog_exact (replId : Bytes) (commands : List RespValue) :
    let r := commands.foldl propagateCommand { replId := replId }
    let stream := commands.flatMap encode
    r.offset = stream.length ∧
      Contiguous (r.offset - r.backlogBytes) r.backlog r.offset ∧
      r.backlogBytes = (r.backlog.map fun c => c.payload.length).sum ∧
      r.backlogBytes ≤ kMaxBacklogBytes ∧
      ∀ replid offset out, r.tryCollectPartial replid offset = some out →
        0 ≤ offset ∧ offset < r.offset ∧
          out = (stream.take r.offset.toNat).drop offset.toNat := by
  intro r stream
  have h : Inv stream r := by
    simpa using (inv_start replId).foldl_propagateCommand rfl commands
  refine ⟨h.offset, ?_, ?_, h.bound, ?_⟩
  · rw [h.offset]
    exact h.contiguous
  · rw [h.size, bytesOf, List.length_flatMap]
  · intro replid offset out ho
    obtain ⟨h0, hlt, hout⟩ := h.tryCollectPartial ho
    refine ⟨h0, hlt, ?_⟩
    rw [hout, h.offset, Int.toNat_natCast, List.take_length]

/-- From the backlog's first byte on every offset is continued but the last, which is that of a replica that has
everything. -/
theorem continued_iff (replId : Bytes) (calls : List (Role × RespValue)) (offset : Int) :
    let r := calls.foldl propagateIn { replId := replId }
    r.oldest - 1 ≤ offset → offset ≤ r.offset →
      ((r.tryCollectPartial r.replId offset).isSome ↔ offset < r.offset) := by
  intro r hlo _
  obtain ⟨stream, h⟩ := (inv_start replId).foldl_propagateIn calls
  exact h.tryCollectPartial_isSome hlo

theorem continued_iff_ping :
    let r := [(Role.master, RespValue.simple (lit "PING"))].foldl propagateIn { replId := lit "a" }
    (r.tryCollectPartial r.replId 0).isSome ↔ 0 < r.offset :=
  continued_iff (lit "a") [(.master, .simple (lit "PING"))] 0 (by decide) (by decide)

/-- One command propagated, and a replica that has it all: nothing to send, and no continuation. -/
theorem caught_up_refused :
    let r := [(Role.master, RespValue.simple (lit "PING"))].foldl propagateIn { replId := lit "a" }
    r.oldest - 1 ≤ 7 ∧ r.offset = 7 ∧ r.tryCollectPartial r.replId 7 = none := by
  decide

end Replication

end Kv
