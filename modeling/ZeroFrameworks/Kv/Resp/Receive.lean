import ZeroFrameworks.Kv.Resp.Framing

/-!
# Receiving commands from a socket

`KvSession` keeps what it has read in a buffer and parses commands from its front.  A read may end
anywhere in a command, and what has arrived is then parsed as it is.  `cleanAt` names the places
where this does no harm: not right after a type byte or the minus sign of a null bulk, where the
number that is missing counts as a protocol error, and not before the last byte of a null bulk that
ends a command, which is taken for complete.

    tryParse of a proper prefix = NeedMore ↔ it ends at a clean place   (prefix_needMore_iff)
    every read ends at a clean place → the calls return the commands of the stream   (received_all)
-/

namespace Kv

/-! ## Algorithm -/

def kDefaultBufferSize : Nat := 16 * 1024

/-- The size at which the buffer stops growing. -/
def kMaxBufferSize : Nat := 16 * 1024 * 1024

inductive CloseReason where
  | protocol | tooLong | endOfStream
  deriving DecidableEq, Repr

/-- `m_buffer.size()`, its first `m_dataLen` bytes, and `m_readPos`. -/
structure RecvBuffer where
  size : Nat := kDefaultBufferSize
  data : Bytes := []
  readPos : Nat := 0
  closed : Option CloseReason := none

namespace RecvBuffer

def compactIfNeeded (b : RecvBuffer) : RecvBuffer :=
  if b.readPos = 0 then b
  else if b.readPos < b.size / 2 ∧ b.data.length < b.size then b
  else { b with data := b.data.drop b.readPos, readPos := 0 }

def tryRecvCommand (b : RecvBuffer) : Option RespValue × RecvBuffer :=
  let b := b.compactIfNeeded
  if b.data.length ≤ b.readPos then (none, b)
  else
    match tryParse (b.data.drop b.readPos) with
    | .ok v consumed => (some v, { b with readPos := b.readPos + consumed })
    | .error => (none, { b with closed := some .protocol })
    | .needMore => (none, b)

/-- One round of the loop of `recvCommand`; `none` when the loop goes on.  `reads` is what the socket
still has, in the pieces in which it arrives; a read takes the first piece, or as much of it as
there is room for. -/
def recvRound (reads : List Bytes) (b : RecvBuffer) : Option (Option RespValue) × List Bytes × RecvBuffer :=
  let r := b.tryRecvCommand
  match r.1 with
  | some v => (some (some v), reads, r.2)
  | none =>
    if r.2.closed.isSome then (some none, reads, r.2)
    else if r.2.size ≤ r.2.data.length then
      if kMaxBufferSize ≤ r.2.size then (some none, reads, { r.2 with closed := some .tooLong })
      else (none, reads, { r.2 with size := r.2.size * 2 })
    else
      match reads with
      | [] => (some none, [], { r.2 with closed := some .endOfStream })
      | chunk :: rest =>
        let room := r.2.size - r.2.data.length
        (none, if chunk.length ≤ room then rest else chunk.drop room :: rest,
          { r.2 with data := r.2.data ++ chunk.take room })

def recvLoop : Nat → List Bytes → RecvBuffer → Option RespValue × List Bytes × RecvBuffer
  | 0, reads, b => (none, reads, b)
  | fuel + 1, reads, b =>
    match recvRound reads b with
    | (some v, reads, b) => (v, reads, b)
    | (none, reads, b) => recvLoop fuel reads b

/-- `recvCommand`.  A round that goes on reads a byte or doubles the buffer, which it does ten times at
most. -/
def recvCommand (reads : List Bytes) (b : RecvBuffer) : Option RespValue × List Bytes × RecvBuffer :=
  recvLoop (reads.flatten.length + 11) reads b

/-- Which of the two a session's owner calls. -/
inductive Call where
  | recv | tryRecv
  deriving DecidableEq, Repr

/-- The commands returned by a sequence of calls, and the buffer afterwards; a `recvCommand` that fails
is the last call. -/
def received : List Call → List Bytes → RecvBuffer → List RespValue × RecvBuffer
  | [], _, b => ([], b)
  | .tryRecv :: calls, reads, b =>
    let r := b.tryRecvCommand
    let rest := received calls reads r.2
    (r.1.toList ++ rest.1, rest.2)
  | .recv :: calls, reads, b =>
    match recvCommand reads b with
    | (some v, reads, b) =>
      let rest := received calls reads b
      (v :: rest.1, rest.2)
    | (none, _, b) => ([], b)

end RecvBuffer

/-! ## Clean places -/

/-- A place in an item where the end of the data is taken for something else. -/
def badItem (last : Bool) : RespValue → Nat → Bool
  | .bulk _, r => r == 1
  | .nullBulk, r => r == 1 || r == 2 || (r == 4 && last)
  | _, _ => false

def badItems : List RespValue → Nat → Bool
  | [], _ => false
  | x :: xs, r =>
    if r < (encode x).length then badItem xs.isEmpty x r else badItems xs (r - (encode x).length)

/-- A place in a command where the end of the data is taken for something else. -/
def badCut : RespValue → Nat → Bool
  | .array xs, q =>
    let header := (printNat xs.length).length + 3
    q == 1 || (decide (header ≤ q) && badItems xs (q - header))
  | _, _ => false

/-- A place in a stream of commands where a read may end. -/
def cleanAt : List RespValue → Nat → Bool
  | [], _ => true
  | c :: cs, r => if r < (encode c).length then !badCut c r else cleanAt cs (r - (encode c).length)

/-! ## Prefixes of a command -/

theorem readInt64_take (n : Nat) (hn : n < 2 ^ 63) (r : Nat) (h0 : 0 < r) (hr : r ≤ (printNat n).length) :
    ∃ val : Int, readInt64 ((printNat n).take r) = some (val, r) := by
  obtain ⟨-, hd, hv⟩ := printNat_spec n
  have hne : (printNat n).take r ≠ [] := by
    intro h
    have := congrArg List.length h
    rw [List.length_take, List.length_nil] at this
    omega
  have hle : natOf ((printNat n).take r) ≤ natOf (printNat n) := by
    unfold natOf
    conv => rhs; rw [← List.take_append_drop r (printNat n), List.foldl_append]
    exact le_foldl_digits _ _
  have h := readInt64_digits false ((printNat n).take r) hne
    (fun d hm => hd d (List.mem_of_mem_take hm)) (by omega) [] (.inl rfl)
  simp only [Bool.false_eq_true, if_false, List.nil_append, List.append_nil, List.length_take,
    Nat.min_eq_left hr, Nat.zero_add] at h
  exact ⟨_, h⟩

theorem readInt64_take_cr (n : Nat) (hn : n < 2 ^ 63) (rest : Bytes) (r : Nat)
    (hr : (printNat n).length ≤ r) :
    readInt64 ((printNat n ++ 13 :: rest).take r) = some ((n : Int), (printNat n).length) := by
  obtain ⟨hne, hd, hv⟩ := printNat_spec n
  rw [List.take_append, List.take_of_length_le hr]
  have hhead : ((13 :: rest).take (r - (printNat n).length)).head? = none ∨
      ((13 :: rest).take (r - (printNat n).length)).head? = some 13 := by
    cases r - (printNat n).length with
    | zero => exact .inl rfl
    | succ k => exact .inr rfl
  have h := readInt64_digits false (printNat n) hne hd (by omega) _ hhead
  simp only [Bool.false_eq_true, if_false, List.nil_append, Nat.zero_add, hv] at h
  exact h

/-- A proper prefix of a bulk string, after its type byte. -/
theorem parseBulk_take (s : Bytes) (hs : s.length < 2 ^ 63) (r : Nat)
    (hr : r < (printNat s.length ++ crlf ++ (s ++ crlf)).length) :
    parseBulk ((printNat s.length ++ crlf ++ (s ++ crlf)).take r) =
      if r = 0 then .error else .needMore := by
  by_cases h0 : r = 0
  · subst h0
    rfl
  rw [if_neg h0]
  by_cases hk : r ≤ (printNat s.length).length
  · -- the length itself is cut
    obtain ⟨val, hval⟩ := readInt64_take s.length hs r (by omega) hk
    have htake : (printNat s.length ++ crlf ++ (s ++ crlf)).take r = (printNat s.length).take r := by
      rw [List.append_assoc, List.take_append_of_le_length hk]
    have hlen : ((printNat s.length).take r).length = r := by
      rw [List.length_take, Nat.min_eq_left hk]
    have hdrop : ((printNat s.length).take r).drop r = [] := List.drop_eq_nil_of_le (Nat.le_of_eq hlen)
    rw [htake]
    unfold parseBulk
    simp only [hval]
    rw [if_pos ⟨by rw [hdrop]; decide, Nat.le_of_eq hlen⟩]
  · have hval := readInt64_take_cr s.length hs (10 :: (s ++ crlf)) r (by omega)
    have hassoc : printNat s.length ++ crlf ++ (s ++ crlf) = printNat s.length ++ 13 :: 10 :: (s ++ crlf) := by
      simp [crlf]
    have hlen : ((printNat s.length ++ 13 :: 10 :: (s ++ crlf)).take r).length = r := by
      rw [← hassoc, List.length_take, Nat.min_eq_left (Nat.le_of_lt hr)]
    have hshort : r < (printNat s.length).length + 2 + s.length + 2 := by
      simp only [crlf, List.length_append, List.length_cons, List.length_nil] at hr
      omega
    rw [hassoc]
    unfold parseBulk
    simp only [hval, hlen, Int.toNat_natCast]
    rw [if_neg (fun h => hk h.2), if_neg (by omega), if_pos hshort]

/-- The items of a command. -/
def isItem : RespValue → Bool
  | .bulk s => decide (s.length < 2 ^ 63)
  | .nullBulk => true
  | _ => false

theorem parseItem_encode {x : RespValue} (hx : isItem x = true) (fuel : Nat) (rest : Bytes) :
    parseValue (fuel + 1) (encode x ++ rest) = .ok x (encode x).length := by
  cases x with
  | bulk s => exact parseValue_encode (.bulk s) (fuel + 1) rest hx (by simp [depth])
  | nullBulk => rfl
  | _ => cases hx

theorem parseBulkItem_take (s : Bytes) (hs : s.length < 2 ^ 63) (fuel r : Nat) (h0 : 0 < r)
    (hr : r < (encode (.bulk s)).length) :
    parseValue (fuel + 1) ((encode (.bulk s)).take r) = if r = 1 then .error else .needMore := by
  obtain ⟨r, rfl⟩ : ∃ k, r = k + 1 := ⟨r - 1, by omega⟩
  have hr' : r < (printNat s.length ++ crlf ++ (s ++ crlf)).length := by
    simp only [encode, appendInt64_natCast, List.length_cons] at hr
    omega
  simp only [encode, appendInt64_natCast, List.take_succ_cons, parseValue, parseBulk_take s hs r hr',
    Nat.add_eq_right]
  rfl

theorem parseItems_take (fuel : Nat) (xs : List RespValue) (hxs : ∀ x ∈ xs, isItem x = true) (r : Nat)
    (hr : r < (encodeItems xs).length) :
    parseItems (parseValue (fuel + 1)) xs.length ((encodeItems xs).take r) = .needMore ↔
      badItems xs r = false := by
  induction xs generalizing r with
  | nil => cases hr
  | cons x xs ih =>
    have hx := hxs x List.mem_cons_self
    rw [List.length_cons, encodeItems, badItems]
    by_cases hlt : r < (encode x).length
    · rw [if_pos hlt, List.take_append_of_le_length (Nat.le_of_lt hlt)]
      by_cases h0 : r = 0
      · subst h0
        cases x <;> simp [parseItems, parseValue, badItem]
      · cases x with
        | bulk s =>
          have hlen : s.length < 2 ^ 63 := of_decide_eq_true hx
          rw [parseItems, parseBulkItem_take s hlen fuel r (by omega) hlt]
          by_cases h1 : r = 1
          · simp [h1, badItem]
          · simp [h1, badItem]
        | nullBulk =>
          have hlt5 : r < 5 := by simpa [encode, lit_nullBulk] using hlt
          -- the four proper prefixes of $-1 CR LF
          have hcases : r = 1 ∨ r = 2 ∨ r = 3 ∨ r = 4 := by omega
          rcases hcases with rfl | rfl | rfl | rfl
          · simp [parseItems, encode, lit_nullBulk, parseValue, parseBulk, readInt64, badItem]
          · simp [parseItems, encode, lit_nullBulk, parseValue, parseBulk, readInt64, badItem]
          · have hp : parseValue (fuel + 1) ((encode .nullBulk).take 3) = .needMore := rfl
            rw [parseItems, hp]
            simp [badItem]
          · have hp : parseValue (fuel + 1) ((encode .nullBulk).take 4) = .ok .nullBulk 5 := rfl
            rw [parseItems, hp]
            cases xs with
            | nil => simp [parseItems, badItem]
            | cons y ys => simp [parseItems, parseValue, badItem, encode, lit_nullBulk]
        | _ => cases hx
    · have hge : (encode x).length ≤ r := Nat.le_of_not_lt hlt
      have hrest : r - (encode x).length < (encodeItems xs).length := by
        simp only [encodeItems, List.length_append] at hr
        omega
      have hih := ih (fun y hy => hxs y (List.mem_cons_of_mem _ hy)) (r - (encode x).length) hrest
      rw [if_neg hlt, List.take_append, List.take_of_length_le hge, parseItems,
        parseItem_encode hx fuel, ← hih]
      simp only [List.drop_left]
      cases parseItems (parseValue (fuel + 1)) xs.length
          ((encodeItems xs).take (r - (encode x).length)) with
      | needMore => simp
      | error => simp
      | ok v n => cases v <;> simp

theorem isItem_of_isCommand {xs : List RespValue} (h : isCommand (.array xs) = true) :
    xs.length < 2 ^ 63 ∧ ∀ x ∈ xs, isItem x = true := by
  simp only [isCommand, Bool.and_eq_true, decide_eq_true_eq, List.all_eq_true] at h
  refine ⟨h.1, fun x hx => ?_⟩
  have := h.2 x hx
  cases x <;> exact this

variable {c : RespValue}

/-- A proper prefix of a command is found to be incomplete exactly where it is not cut badly. -/
theorem prefix_needMore_iff (hc : isCommand c = true) (q : Nat) (h0 : 0 < q)
    (hq : q < (encode c).length) :
    tryParse ((encode c).take q) = .needMore ↔ badCut c q = false := by
  cases c with
  | array xs =>
    obtain ⟨hlen, hitems⟩ := isItem_of_isCommand hc
    obtain ⟨q, rfl⟩ : ∃ k, q = k + 1 := ⟨q - 1, by omega⟩
    have henc : encode (.array xs) = 42 :: (printNat xs.length ++ 13 :: 10 :: encodeItems xs) := by
      simp [encode, appendInt64_natCast, crlf]
    rw [henc, List.length_cons] at hq
    have hlt : q < (printNat xs.length ++ 13 :: 10 :: encodeItems xs).length := by omega
    have hparse : tryParse ((encode (.array xs)).take (q + 1)) =
        parseValue (q + 1) (42 :: (printNat xs.length ++ 13 :: 10 :: encodeItems xs).take q) := by
      rw [henc, List.take_succ_cons]
      unfold tryParse
      simp only [List.head?_cons, isRespPrefix, List.length_cons, List.length_take,
        Nat.min_eq_left (Nat.le_of_lt hlt)]
      rfl
    rw [hparse, badCut]
    cases q with
    | zero => simp [parseValue, readInt64]
    | succ k =>
      have hne1 : (k + 1 + 1 == 1) = false := by simp
      simp only [hne1, Bool.false_or]
      by_cases hk : k + 1 ≤ (printNat xs.length).length
      · -- the count itself is cut
        obtain ⟨val, hval⟩ := readInt64_take xs.length hlen (k + 1) (by omega) hk
        have hdrop : ((printNat xs.length).take (k + 1)).drop (k + 1) = [] := by
          rw [List.drop_eq_nil_iff, List.length_take]
          omega
        have hhead : ¬ (printNat xs.length).length + 3 ≤ k + 1 + 1 := by omega
        rw [List.take_append_of_le_length hk]
        simp [parseValue, hval, hdrop, crlf, hhead]
      · have hval := readInt64_take_cr xs.length hlen (10 :: encodeItems xs) (k + 1) (by omega)
        have htake : (printNat xs.length ++ 13 :: 10 :: encodeItems xs).take (k + 1) =
            printNat xs.length ++ (13 :: 10 :: encodeItems xs).take (k + 1 - (printNat xs.length).length) := by
          rw [List.take_append, List.take_of_length_le (by omega)]
        by_cases hcr : k + 1 = (printNat xs.length).length + 1
        · -- between CR and LF
          have hhead : ¬ (printNat xs.length).length + 3 ≤ k + 1 + 1 := by omega
          have hone : k + 1 - (printNat xs.length).length = 1 := by omega
          rw [htake, hone, List.take_succ_cons, List.take_zero] at hval
          rw [htake, hone, List.take_succ_cons, List.take_zero]
          simp [parseValue, hval, crlf, hhead]
        · have hhead : (printNat xs.length).length + 3 ≤ k + 1 + 1 := by omega
          obtain ⟨j, hj⟩ : ∃ j, k + 1 - (printNat xs.length).length = j + 2 :=
            ⟨k + 1 - (printNat xs.length).length - 2, by omega⟩
          have hj' : k + 1 + 1 - ((printNat xs.length).length + 3) = j := by omega
          have hjlt : j < (encodeItems xs).length := by
            simp only [List.length_append, List.length_cons] at hlt
            omega
          have hitem := parseItems_take k xs hitems j hjlt
          have hneg : ¬ ((xs.length : Int) < 0) := by omega
          have hdrop : (printNat xs.length ++ 13 :: 10 :: (encodeItems xs).take j).drop
              ((printNat xs.length).length + 2) = (encodeItems xs).take j := by
            rw [← List.drop_drop, drop_printNat]
            rfl
          rw [htake, hj, List.take_succ_cons, List.take_succ_cons] at hval
          rw [htake, hj, List.take_succ_cons, List.take_succ_cons, hj']
          simp only [hhead, decide_true, Bool.true_and, ← hitem]
          simp only [parseValue, hval, drop_printNat, hdrop, hneg, Int.toNat_natCast]
          simp only [crlf, List.take_succ_cons, List.take_zero, if_true, if_false]
          cases parseItems (parseValue (k + 1)) xs.length ((encodeItems xs).take j) <;> simp
  | _ => cases hc

/-! ## Runs of a session -/

/-- What has been read of the stream ends at a clean place. -/
def cleanReads (cmds : List RespValue) (reads : List Bytes) : Bool :=
  cleanAt cmds ((cmds.flatMap encode).length - reads.flatten.length)

/-- Every read of `recvCommand` ends at a clean place. -/
def cleanLoop (cmds : List RespValue) : Nat → List Bytes → RecvBuffer → Bool
  | 0, _, _ => true
  | fuel + 1, reads, b =>
    match RecvBuffer.recvRound reads b with
    | (some _, _, _) => true
    | (none, reads, b) => cleanReads cmds reads && cleanLoop cmds fuel reads b

/-- Every read of a sequence of calls ends at a clean place. -/
def cleanSession (cmds : List RespValue) : List RecvBuffer.Call → List Bytes → RecvBuffer → Bool
  | [], _, _ => true
  | .tryRecv :: calls, reads, b => cleanSession cmds calls reads b.tryRecvCommand.2
  | .recv :: calls, reads, b =>
    cleanLoop cmds (reads.flatten.length + 11) reads b &&
      match RecvBuffer.recvCommand reads b with
      | (some _, reads, b) => cleanSession cmds calls reads b
      | (none, _, _) => true

/-- A command the buffer has room for. -/
def fits (c : RespValue) : Bool := decide ((encode c).length ≤ kMaxBufferSize)

namespace RecvBuffer

/-- The bytes that have been read and not yet consumed. -/
def unread (b : RecvBuffer) : Bytes := b.data.drop b.readPos

/-- The buffer and the socket hold the commands that are to come. -/
structure Holds (todo : List RespValue) (reads : List Bytes) (b : RecvBuffer) : Prop where
  stays : b.closed = none
  pos : b.readPos ≤ b.data.length
  stream : b.unread ++ reads.flatten = todo.flatMap encode
  room : b.data.length ≤ b.size
  grown : ∃ j ≤ 10, b.size = kDefaultBufferSize * 2 ^ j
  chunks : ∀ chunk ∈ reads, chunk ≠ []

theorem cleanAt_append (front todo : List RespValue) (r : Nat) :
    cleanAt (front ++ todo) ((front.flatMap encode).length + r) = cleanAt todo r := by
  induction front with
  | nil => simp
  | cons c front ih =>
    rw [List.cons_append, cleanAt, List.flatMap_cons, List.length_append, if_neg (by omega), ← ih]
    congr 1
    omega

section

variable {cmds todo : List RespValue} {reads : List Bytes} {b : RecvBuffer}

theorem unread_compactIfNeeded (b : RecvBuffer) : b.compactIfNeeded.unread = b.unread := by
  unfold compactIfNeeded
  split
  · rfl
  · split
    · rfl
    · rfl

theorem Holds.compact (h : Holds todo reads b) : Holds todo reads b.compactIfNeeded := by
  have hstream := h.stream
  rw [← unread_compactIfNeeded] at hstream
  unfold compactIfNeeded at hstream ⊢
  split
  · exact h
  next h0 =>
    rw [if_neg h0] at hstream
    split
    · exact h
    next h1 =>
      rw [if_neg h1] at hstream
      refine ⟨h.stays, Nat.zero_le _, hstream, ?_, h.grown, h.chunks⟩
      rw [List.length_drop]
      exact Nat.le_trans (Nat.sub_le _ _) h.room

theorem Holds.cleanAt_unread {front : List RespValue} (h : Holds todo reads b)
    (hclean : cleanReads (front ++ todo) reads = true) : cleanAt todo b.unread.length = true := by
  have hlen := congrArg List.length h.stream
  rw [List.length_append] at hlen
  unfold cleanReads at hclean
  rw [List.flatMap_append, List.length_append, ← hlen] at hclean
  rw [← cleanAt_append front todo b.unread.length, ← hclean]
  congr 1
  omega

theorem Holds.next (h : Holds (c :: todo) reads b) :
    (∃ more, b.unread = encode c ++ more ∧ more ++ reads.flatten = todo.flatMap encode) ∨
      (b.unread.length < (encode c).length ∧ b.unread = (encode c).take b.unread.length) := by
  have hs := h.stream
  rw [List.flatMap_cons] at hs
  rcases List.append_eq_append_iff.mp hs with ⟨more, hc, hr⟩ | ⟨more, hu, hr⟩
  · cases more with
    | nil =>
      refine .inl ⟨[], by simpa using hc.symm, ?_⟩
      simpa using hr
    | cons d more =>
      refine .inr ⟨?_, ?_⟩
      · rw [hc, List.length_append, List.length_cons]
        omega
      · rw [hc, List.take_left]
  · exact .inl ⟨more, hu, hr.symm⟩

theorem unread_of_full (hfull : b.compactIfNeeded.size ≤ b.compactIfNeeded.data.length) :
    b.compactIfNeeded.unread = b.compactIfNeeded.data := by
  unfold compactIfNeeded at hfull ⊢
  split
  next h0 => simp [unread, h0]
  next h0 =>
    rw [if_neg h0] at hfull
    split
    next h1 =>
      rw [if_pos h1] at hfull
      omega
    · rfl

/-- Looking for a command in what has been read: the next one, or nothing as long as it is not
complete. -/
theorem tryRecvCommand_spec (h : Holds todo reads b) (hc : ∀ c ∈ todo, isCommand c = true)
    (hclean : cleanAt todo b.unread.length = true) :
    (∃ c rest, todo = c :: rest ∧ (encode c).length ≤ b.unread.length ∧
        b.tryRecvCommand.1 = some c ∧ Holds rest reads b.tryRecvCommand.2) ∨
      (b.tryRecvCommand = (none, b.compactIfNeeded) ∧
        ∀ c rest, todo = c :: rest → b.unread.length < (encode c).length) := by
  have hb := h.compact
  rw [← unread_compactIfNeeded] at hclean ⊢
  unfold tryRecvCommand
  dsimp only
  generalize b.compactIfNeeded = b' at hb hclean
  cases todo with
  | nil =>
    have hempty : b'.unread = [] := (List.append_eq_nil_iff.mp hb.stream).1
    have hle : b'.data.length ≤ b'.readPos := List.drop_eq_nil_iff.mp hempty
    rw [if_pos hle]
    exact .inr ⟨rfl, fun c rest hn => by cases hn⟩
  | cons c rest =>
    have hcc := hc c List.mem_cons_self
    rcases hb.next with ⟨more, hu, hmore⟩ | ⟨hlt, hu⟩
    · have hpos : 0 < (encode c).length := List.length_pos_iff.mpr (encode_ne_nil c)
      have hlen : b'.data.length - b'.readPos = (encode c).length + more.length := by
        rw [← List.length_drop, ← List.length_append, ← hu]
        rfl
      have hparse : tryParse (b'.data.drop b'.readPos) = .ok c (encode c).length := by
        have := tryParse_encode c more (wire_of_isCommand hcc)
        rw [← hu] at this
        exact this
      rw [if_neg (by omega), hparse]
      refine .inl ⟨c, rest, rfl, ?_, rfl, hb.stays, ?_, ?_, hb.room, hb.grown, hb.chunks⟩
      · rw [hu, List.length_append]
        exact Nat.le_add_right _ _
      · show b'.readPos + (encode c).length ≤ b'.data.length
        omega
      · show b'.data.drop (b'.readPos + (encode c).length) ++ reads.flatten = rest.flatMap encode
        rw [← List.drop_drop, ← hmore]
        congr 1
        show b'.unread.drop (encode c).length = more
        rw [hu, List.drop_left]
    · refine .inr ⟨?_, fun c' rest' he => by cases he; exact hlt⟩
      split
      · rfl
      next hne =>
        have hq : 0 < b'.unread.length := by
          unfold unread
          rw [List.length_drop]
          omega
        rw [cleanAt, if_pos hlt, Bool.not_eq_true'] at hclean
        have hmore := (prefix_needMore_iff hcc b'.unread.length hq hlt).mpr hclean
        rw [← hu] at hmore
        have hparse : tryParse (b'.data.drop b'.readPos) = .needMore := hmore
        rw [hparse]

theorem size_le_max (h : Holds todo reads b) : b.size ≤ kMaxBufferSize := by
  obtain ⟨j, hj, hsize⟩ := h.grown
  have hpow : 2 ^ j ≤ 2 ^ 10 := Nat.pow_le_pow_right (by decide) hj
  have hmul := Nat.mul_le_mul_left kDefaultBufferSize hpow
  rw [hsize]
  exact hmul

/-- A command that is in the buffer has found room there. -/
theorem fits_of_unread (h : Holds todo reads b)
    (hlen : (encode c).length ≤ b.unread.length) : fits c = true := by
  have hdata : b.unread.length ≤ b.data.length := by
    unfold unread
    rw [List.length_drop]
    exact Nat.sub_le _ _
  have hroom := h.room
  have hsize := size_le_max h
  unfold fits
  rw [decide_eq_true_eq]
  omega

/-- What a read leaves to be read. -/
def afterRead (room : Nat) (chunk : Bytes) (rest : List Bytes) : List Bytes :=
  if chunk.length ≤ room then rest else chunk.drop room :: rest

theorem flatten_afterRead (room : Nat) (chunk : Bytes) (rest : List Bytes) :
    chunk.take room ++ (afterRead room chunk rest).flatten = (chunk :: rest).flatten := by
  unfold afterRead
  split
  next h => rw [List.take_of_length_le h, List.flatten_cons]
  next h => rw [List.flatten_cons, List.flatten_cons, ← List.append_assoc, List.take_append_drop]

theorem Holds.read {chunk : Bytes} {rest : List Bytes} (h : Holds todo (chunk :: rest) b) :
    Holds todo (afterRead (b.size - b.data.length) chunk rest)
      { b with data := b.data ++ chunk.take (b.size - b.data.length) } := by
  refine ⟨h.stays, ?_, ?_, ?_, h.grown, fun x hx => ?_⟩
  · rw [List.length_append]
    exact Nat.le_trans h.pos (Nat.le_add_right _ _)
  · show (b.data ++ chunk.take _).drop b.readPos ++ _ = _
    rw [List.drop_append_of_le_length h.pos, List.append_assoc, flatten_afterRead]
    exact h.stream
  · have := h.room
    rw [List.length_append, List.length_take]
    show b.data.length + min (b.size - b.data.length) chunk.length ≤ b.size
    omega
  · unfold afterRead at hx
    split at hx
    · exact h.chunks x (List.mem_cons_of_mem _ hx)
    next hlong =>
      rcases List.mem_cons.mp hx with rfl | hx
      · intro hnil
        exact hlong (List.drop_eq_nil_iff.mp hnil)
      · exact h.chunks x (List.mem_cons_of_mem _ hx)

/-- The loop of `recvCommand`, with a round for each byte to come and each doubling left. -/
theorem recvLoop_spec {front : List RespValue} (hcmds : cmds = front ++ todo)
    (hc : ∀ c ∈ todo, isCommand c = true) (fuel : Nat) :
    ∀ (reads : List Bytes) (b : RecvBuffer) (j : Nat), Holds todo reads b → j ≤ 10 →
      b.size = kDefaultBufferSize * 2 ^ j → reads.flatten.length + (10 - j) < fuel →
      cleanReads cmds reads = true → cleanLoop cmds fuel reads b = true →
      (∃ c rest, todo = c :: rest ∧ fits c = true ∧ ∃ reads' b', recvLoop fuel reads b = (some c, reads', b') ∧
          Holds rest reads' b' ∧ cleanReads cmds reads' = true) ∨
        ((∀ c rest, todo = c :: rest → fits c = false) ∧
          ∃ reads' b', recvLoop fuel reads b = (none, reads', b') ∧ b'.closed ≠ some .protocol) := by
  induction fuel with
  | zero => intro reads b j _ _ _ hfuel; omega
  | succ fuel ih =>
    intro reads b j h hj hsize hfuel hclean hloop
    have hb := h.compact
    have hmax := size_le_max hb
    have hun : cleanAt todo b.unread.length = true := h.cleanAt_unread (hcmds ▸ hclean)
    rw [recvLoop]
    rw [cleanLoop] at hloop
    rcases tryRecvCommand_spec h hc hun with ⟨c, rest, rfl, hlen, hgot, hrest⟩ | ⟨hnone, hpart⟩
    · -- a command is complete
      have hround : recvRound reads b = (some (some c), reads, b.tryRecvCommand.2) := by
        unfold recvRound
        simp only [hgot]
      have hfits := fits_of_unread h hlen
      rw [hround]
      exact .inl ⟨c, rest, rfl, hfits, reads, _, rfl, hrest, hclean⟩
    · have hsize' : b.compactIfNeeded.size = b.size := by
        unfold compactIfNeeded
        split
        · rfl
        · split <;> rfl
      by_cases hfull : b.compactIfNeeded.size ≤ b.compactIfNeeded.data.length
      · by_cases hlimit : kMaxBufferSize ≤ b.compactIfNeeded.size
        · -- the next command is longer than the largest buffer
          have hround : recvRound reads b =
              (some none, reads, { b.compactIfNeeded with closed := some .tooLong }) := by
            unfold recvRound
            simp only [hnone, hb.stays, Option.isSome_none, Bool.false_eq_true, if_false, if_pos hfull,
              if_pos hlimit]
          rw [hround]
          refine .inr ⟨fun c rest he => ?_, reads, _, rfl, fun h => by cases h⟩
          have hlt := hpart c rest he
          rw [← unread_compactIfNeeded, unread_of_full hfull] at hlt
          unfold fits
          rw [decide_eq_false_iff_not]
          omega
        · have hround : recvRound reads b =
              (none, reads, { b.compactIfNeeded with size := b.compactIfNeeded.size * 2 }) := by
            unfold recvRound
            simp only [hnone, hb.stays, Option.isSome_none, Bool.false_eq_true, if_false, if_pos hfull,
              if_neg hlimit]
          rw [hround] at hloop ⊢
          rw [Bool.and_eq_true] at hloop
          have hj' : j < 10 := by
            refine Nat.lt_of_le_of_ne hj fun hten => hlimit ?_
            rw [hsize', hsize, hten]
            decide
          have hdouble : b.compactIfNeeded.size * 2 = kDefaultBufferSize * 2 ^ (j + 1) := by
            rw [hsize', hsize, Nat.pow_succ, Nat.mul_assoc]
          refine ih reads _ (j + 1) ⟨hb.stays, hb.pos, hb.stream, ?_, ⟨j + 1, hj', hdouble⟩, hb.chunks⟩ hj'
            hdouble (by omega) hloop.1 hloop.2
          show b.compactIfNeeded.data.length ≤ b.compactIfNeeded.size * 2
          have := hb.room
          omega
      · cases reads with
        | nil =>
          have hround : recvRound [] b =
              (some none, [], { b.compactIfNeeded with closed := some .endOfStream }) := by
            unfold recvRound
            simp only [hnone, hb.stays, Option.isSome_none, Bool.false_eq_true, if_false, if_neg hfull]
          rw [hround]
          refine .inr ⟨fun c rest he => ?_, [], _, rfl, fun h => by cases h⟩
          have hlt := hpart c rest he
          have hall := congrArg List.length h.stream
          rw [he, List.flatMap_cons, List.length_append, List.length_append, List.flatten_nil,
            List.length_nil] at hall
          omega
        | cons chunk rest =>
          have hround : recvRound (chunk :: rest) b =
              (none, afterRead (b.compactIfNeeded.size - b.compactIfNeeded.data.length) chunk rest,
                { b.compactIfNeeded with
                  data := b.compactIfNeeded.data ++
                    chunk.take (b.compactIfNeeded.size - b.compactIfNeeded.data.length) }) := by
            unfold recvRound afterRead
            simp only [hnone, hb.stays, Option.isSome_none, Bool.false_eq_true, if_false, if_neg hfull]
          rw [hround] at hloop ⊢
          rw [Bool.and_eq_true] at hloop
          have hne : chunk ≠ [] := h.chunks chunk List.mem_cons_self
          have hpos : 0 < chunk.length := List.length_pos_iff.mpr hne
          have hflat := congrArg List.length
            (flatten_afterRead (b.compactIfNeeded.size - b.compactIfNeeded.data.length) chunk rest)
          rw [List.length_append, List.length_take] at hflat
          exact ih _ _ j hb.read hj (hsize'.trans hsize) (by omega) hloop.1 hloop.2

theorem received_spec (calls : List Call) :
    ∀ (front todo : List RespValue) (reads : List Bytes) (b : RecvBuffer), cmds = front ++ todo →
      (∀ c ∈ todo, isCommand c = true) → Holds todo reads b → cleanReads cmds reads = true →
      cleanSession cmds calls reads b = true →
      (received calls reads b).2.closed ≠ some .protocol ∧
        (received calls reads b).1 <+: todo.takeWhile fits ∧
        (todo.length ≤ calls.count .recv → (received calls reads b).1 = todo.takeWhile fits) := by
  induction calls with
  | nil =>
    intro front todo reads b _ _ h _ _
    refine ⟨fun hc => ?_, List.nil_prefix, fun hlen => ?_⟩
    · rw [received, h.stays] at hc
      cases hc
    · rw [List.length_eq_zero_iff.mp (Nat.le_zero.mp hlen)]
      rfl
  | cons call calls ih =>
    intro front todo reads b hcmds hc h hclean hsession
    cases call with
    | tryRecv =>
      rw [cleanSession] at hsession
      have hun : cleanAt todo b.unread.length = true := h.cleanAt_unread (hcmds ▸ hclean)
      rcases tryRecvCommand_spec h hc hun with ⟨c, rest, rfl, hlen, hgot, hrest⟩ | ⟨hnone, -⟩
      · have hih := ih (front ++ [c]) rest reads _ (by rw [hcmds, List.append_assoc]; rfl)
          (fun d hd => hc d (List.mem_cons_of_mem _ hd)) hrest hclean hsession
        simp only [received, hgot, Option.toList_some, List.singleton_append,
          List.takeWhile_cons_of_pos (fits_of_unread h hlen)]
        refine ⟨hih.1, (List.prefix_cons_inj c).mpr hih.2.1, fun hcount => ?_⟩
        rw [hih.2.2]
        rw [List.length_cons, List.count_cons_of_ne (by decide)] at hcount
        omega
      · rw [hnone] at hsession
        have hih := ih front todo reads _ hcmds hc h.compact hclean hsession
        simp only [received, hnone, Option.toList_none, List.nil_append]
        refine ⟨hih.1, hih.2.1, fun hcount => hih.2.2 ?_⟩
        rw [List.count_cons_of_ne (by decide)] at hcount
        exact hcount
    | recv =>
      rw [cleanSession, Bool.and_eq_true] at hsession
      obtain ⟨hloop, hsession⟩ := hsession
      obtain ⟨j, hj, hsize⟩ := h.grown
      unfold recvCommand at hsession
      rcases recvLoop_spec hcmds hc _ reads b j h hj hsize (by omega) hclean hloop with
        ⟨c, rest, rfl, hfits, reads', b', hgot, hrest, hclean'⟩ | ⟨hlong, reads', b', hnone, hclosed⟩
      · rw [hgot] at hsession
        have hih := ih (front ++ [c]) rest reads' b' (by rw [hcmds, List.append_assoc]; rfl)
          (fun d hd => hc d (List.mem_cons_of_mem _ hd)) hrest hclean' hsession
        simp only [received, recvCommand, hgot, List.takeWhile_cons_of_pos hfits]
        refine ⟨hih.1, (List.prefix_cons_inj c).mpr hih.2.1, fun hcount => ?_⟩
        rw [hih.2.2]
        rw [List.length_cons, List.count_cons_self] at hcount
        omega
      · simp only [received, recvCommand, hnone]
        refine ⟨hclosed, List.nil_prefix, fun _ => ?_⟩
        cases todo with
        | nil => rfl
        | cons c rest => rw [List.takeWhile_cons_of_neg (by rw [hlong c rest rfl]; decide)]

end

end RecvBuffer

/-! ## Top theorem -/

/-- A proper prefix of a command is incomplete exactly where it is not cut badly; and where no read
ends at a bad place, the calls return the commands of the stream, whatever the pieces, up to the
first one that no buffer holds, and the session is not closed for a protocol error. -/
theorem received_all (cmds : List RespValue) (hc : ∀ c ∈ cmds, isCommand c = true) :
    (∀ c ∈ cmds, ∀ q, 0 < q → q < (encode c).length →
      (tryParse ((encode c).take q) = .needMore ↔ badCut c q = false)) ∧
    ∀ (reads : List Bytes) (calls : List RecvBuffer.Call), (∀ chunk ∈ reads, chunk ≠ []) →
      reads.flatten = cmds.flatMap encode → cleanSession cmds calls reads {} = true →
      let r := RecvBuffer.received calls reads {}
      r.2.closed ≠ some .protocol ∧ r.1 <+: cmds.takeWhile fits ∧
        (cmds.length ≤ calls.count .recv → r.1 = cmds.takeWhile fits) := by
  refine ⟨fun c hm q h0 hq => prefix_needMore_iff (hc c hm) q h0 hq, ?_⟩
  intro reads calls hchunks hstream hsession
  have hholds : RecvBuffer.Holds cmds reads {} :=
    ⟨rfl, Nat.le_refl 0, hstream, Nat.zero_le _, ⟨0, by decide, rfl⟩, hchunks⟩
  have hclean : cleanReads cmds reads = true := by
    unfold cleanReads
    rw [hstream, Nat.sub_self]
    cases cmds with
    | nil => rfl
    | cons c cs =>
      rw [cleanAt, if_pos (List.length_pos_iff.mpr (encode_ne_nil c))]
      cases c <;> simp [badCut]
  exact RecvBuffer.received_spec calls [] cmds reads {} rfl hc hholds hclean hsession

/-- `PING`, then `GET k`. -/
def pingGet : List RespValue :=
  [.array [.bulk (lit "PING")], .array [.bulk (lit "GET"), .bulk (lit "k")]]

/-- The encoding of `pingGet` in three pieces, cut inside a string and inside a header. -/
def pieces : List Bytes := [lit "*1\r\n$4\r\nPI", lit "NG\r\n*2\r", lit "\n$3\r\nGET\r\n$1\r\nk\r\n"]

/-- Both commands arrive. -/
theorem received_all_pieces :
    (RecvBuffer.received [.recv, .tryRecv, .recv] pieces {}).1 = pingGet.takeWhile fits :=
  ((received_all pingGet (by decide)).2 pieces [.recv, .tryRecv, .recv] (by decide)
    (by decide) (by decide)).2.2 (by decide)

/-- A read that ends after the first byte of a command closes the session. -/
theorem closed_after_type_byte :
    (RecvBuffer.received [.recv] [lit "*", lit "1\r\n$4\r\nPING\r\n"] {}).2.closed = some .protocol ∧
      tryParse ((encode (.array [.bulk (lit "PING")])).take 1) ≠ .needMore := by
  refine ⟨by decide, fun h => ?_⟩
  have hbad := (prefix_needMore_iff (show isCommand (.array [.bulk (lit "PING")]) = true by decide)
    1 (by decide) (by decide)).mp h
  revert hbad
  decide

end Kv
