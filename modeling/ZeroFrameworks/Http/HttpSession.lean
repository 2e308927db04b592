import ZeroFrameworks.Core.Stream

/-!
# The buffer of an HTTP session

`find_header_end` looks for CR LF CR LF in the received block with `memchr`, and compares the three bytes after a CR.

    it reads below len and finds the first end within len ↔ the block is not cut off after CR LF CR
    readPos ≤ dataLen ≤ size after every call, if no block that is scanned is cut off   (headerEnd_inside)

The last position that `memchr` looks at is len - 3, so that the comparison reads position len.
-/

namespace Http

open Kv (Bytes lit)
open Core (Stream)

/-! ## Algorithm -/

section

variable (fetch : Nat → Option UInt8)

/-- `memchr(p, c, n)`; `none` where a position cannot be read. -/
def memchr (c : UInt8) : Nat → Nat → Option (Option Nat)
  | 0, _ => some none
  | n + 1, p => (fetch p).bind fun b => if b = c then some (some p) else memchr c n (p + 1)

/-- Whether the text lies at `p`.  What comes after a difference is not read. -/
def matchesAt : Bytes → Nat → Option Bool
  | [], _ => some true
  | c :: text, p => (fetch p).bind fun b => if b = c then matchesAt text (p + 1) else some false

/-- The loop of `find_header_end`. -/
def findFrom (limit : Nat) : Nat → Nat → Option (Option Nat)
  | 0, _ => some none
  | turns + 1, p =>
    if p ≤ limit then
      (memchr fetch 13 (limit - p + 1) p).bind fun found => found.elim (some none) fun p =>
        (matchesAt fetch [10, 13, 10] (p + 1)).bind fun here =>
          if here then some (some (p + 4)) else findFrom limit turns (p + 1)
    else some none

/-- Positions count from `data`, and every turn takes one at least. -/
def findHeaderEnd (len : Nat) : Option (Option Nat) :=
  if len < 4 then some none else findFrom fetch (len - 3) len 0

end

/-- The offset of `needle`. -/
def memmem (needle : Bytes) : Bytes → Option Nat
  | [] => if needle.isEmpty then some 0 else none
  | c :: rest => if needle.isPrefixOf (c :: rest) then some 0 else (memmem needle rest).map (· + 1)

def scanConnectionClose : Bytes → Bool
  | [] => false
  | c :: rest =>
    if Kv.lower ((c :: rest).take 11) = lit "connection:" then
      let v := ((c :: rest).drop 11).dropWhile fun b => b == 32 || b == 9
      decide (Kv.lower (v.take 5) = lit "close")
    else scanConnectionClose rest

/-- The first field says; `none` where there is none. -/
def scanContentLength : Bytes → Option Bool
  | [] => none
  | c :: rest =>
    if Kv.lower ((c :: rest).take 15) = lit "content-length:" then
      let v := ((c :: rest).drop 15).dropWhile fun b => b == 32 || b == 9
      let cl := (v.takeWhile Kv.isDigit).foldl (fun (cl : Nat) b => (cl * 10 + (b.toNat - 48)) % 2 ^ 64) 0
      some (decide (cl > 0))
    else scanContentLength rest

def scanHasMessageBody (data : Bytes) : Bool :=
  (scanContentLength data).getD (memmem (lit "transfer-encoding:") data).isSome

/-- The path ends at a question mark. -/
def matchFixedPath (path expect : Bytes) : Bool := decide (path.takeWhile (· ≠ 63) = expect)

/-- What `http_parser_execute` asserts: it has read no more than it was given. -/
structure RequestParser (P : Type) where
  reset : P → P
  execute : P → Bytes → P × Nat
  hasError : P → Bool
  isFinished : P → Bool
  getContentLength : P → Nat
  isClose : P → Bool
  nread_le : ∀ p data, (execute p data).2 ≤ data.length

/-- `mem` is the memory from `m_buffer.data()` on. -/
structure HttpSession (P : Type) where
  parser : P
  mem : Nat → UInt8
  size : Nat
  readPos : Nat
  dataLen : Nat
  fastGetScan : Bool
  stream : Stream
  size_lt : size < 2 ^ 64

/-- What `find_header_end` is given. -/
structure Block where
  mem : Nat → UInt8
  len : Nat

/-- The result of a call, and the blocks that it has scanned. -/
structure Outcome (P A : Type) where
  blocks : List Block
  value : A
  session : HttpSession P

inductive GetScan where
  | needMore
  | fallback
  | ok (path : Bytes) (hdrLen : Nat) (clientClose : Bool)

inductive Request (P : Type) where
  | fast (path : Bytes) (close : Bool)
  | parsed (parser : P) (body : Option Bytes)

inductive FixedRoute where
  | error
  | fallback
  | ok (clientClose : Bool)

namespace Block

def bytes (b : Block) (n : Nat) : Bytes := (List.range n).map b.mem

/-- All memory can be read. -/
def headerEnd (b : Block) : Option Nat := (findHeaderEnd (fun i => some (b.mem i)) b.len).join

/-- Without an expected path, `expectPath` is empty. -/
def scanGetHeader (b : Block) (expectPath : Bytes) : GetScan :=
  match b.headerEnd with
  | none => .needMore
  | some len =>
    let header := b.bytes len
    if len < 16 ∨ header.take 4 ≠ lit "GET " then .fallback
    else if scanHasMessageBody header then .fallback
    else
      match memmem (lit " HTTP/") (header.drop 4) with
      | none => .fallback
      | some n =>
        let path := (header.drop 4).take n
        if n = 0 then .fallback
        else if expectPath ≠ [] ∧ matchFixedPath path expectPath = false then .fallback
        else .ok path len (scanConnectionClose header)

end Block

namespace HttpSession

variable {P : Type}

def close (h : HttpSession P) : HttpSession P := { h with stream := { h.stream with closed := true } }

/-- On `size_t`. -/
def usub (a b : Nat) : Nat := (((a : Int) - b) % 2 ^ 64).toNat

def compactReadBufferIfNeeded (h : HttpSession P) : HttpSession P :=
  if h.readPos = 0 then h
  else if h.readPos < h.size / 2 ∧ h.dataLen < h.size then h
  else if h.readPos < h.dataLen then
    { h with
      mem := fun i => if i < h.dataLen - h.readPos then h.mem (h.readPos + i) else h.mem i
      dataLen := h.dataLen - h.readPos
      readPos := 0 }
  else { h with dataLen := 0, readPos := 0 }

/-- The bytes that are there to be read. -/
def block (h : HttpSession P) : Block := ⟨fun i => h.mem (h.readPos + i), usub h.dataLen h.readPos⟩

/-- `read` into the rest of the buffer. -/
def fill (h : HttpSession P) : Option (HttpSession P) :=
  (h.stream.read (h.size - h.dataLen)).map fun (got, stream) =>
    { h with
      mem := fun i => if h.dataLen ≤ i ∧ i < h.dataLen + got.length then got.getD (i - h.dataLen) 0 else h.mem i
      dataLen := h.dataLen + got.length
      stream := stream }

/-- The loop of `recvFixedRouteGet` and `tryRecvGetFast`: so many turns.  It gives `needMore` where it has closed the
stream. -/
def scanLoop (path : Bytes) : Nat → HttpSession P → Option (Outcome P GetScan)
  | 0, _ => none
  | turns + 1, h =>
    let h := h.compactReadBufferIfNeeded
    match h.block.scanGetHeader path with
    | .needMore =>
      if h.size ≤ h.dataLen then some ⟨[h.block], .needMore, h.close⟩
      else
        match h.fill with
        | none => some ⟨[h.block], .needMore, h.close⟩
        | some h' => (scanLoop path turns h').map fun o => { o with blocks := h.block :: o.blocks }
    | .fallback => some ⟨[h.block], .fallback, h⟩
    | .ok path hdrLen clientClose =>
      some ⟨[h.block], .ok path hdrLen clientClose, { h with readPos := h.readPos + hdrLen }⟩

section

variable (lib : RequestParser P) (turns : Nat)

def tryRecvGetFast (h : HttpSession P) : Option (Outcome P (Option (Request P))) :=
  (scanLoop [] turns h).map fun o =>
    match o.value with
    | .ok path _ clientClose =>
      ⟨o.blocks, some (.fast path clientClose), { o.session with parser := lib.reset o.session.parser }⟩
    | _ => ⟨o.blocks, none, o.session⟩

/-- The loop of `recvRequest`; it tells whether the parser has finished. -/
def parseLoop : Nat → HttpSession P → Option (Bool × HttpSession P)
  | 0, _ => none
  | turns + 1, h =>
    if h.size ≤ h.dataLen then some (false, h.close)
    else
      match h.fill with
      | none => some (false, h.close)
      | some h =>
        let (parser, nparse) := lib.execute h.parser (h.block.bytes h.block.len)
        let h := { h with parser := parser, readPos := h.readPos + nparse }
        if lib.hasError parser then some (false, h.close)
        else if lib.isFinished parser then some (true, h)
        else parseLoop turns h

/-- A body of so many bytes: those in the buffer, and then those of the stream. -/
def takeBody (length : Int) (h : HttpSession P) : Option (Request P) × HttpSession P :=
  if length > 0 then
    let copied := min h.block.len length.toNat
    let body := h.block.bytes copied
    let h := { h with readPos := h.readPos + copied }
    if copied < length.toNat then
      match h.stream.readFixSize (length.toNat - copied) with
      | none => (none, h.close)
      | some (rest, stream) => (some (.parsed h.parser (some (body ++ rest))), { h with stream := stream })
    else (some (.parsed h.parser (some body)), h)
  else (some (.parsed h.parser none), h)

/-- The rest of `recvRequest`, after the header. -/
def recvBody (h : HttpSession P) : Option (Request P) × HttpSession P := takeBody (Kv.i64 (lib.getContentLength h.parser)) h

/-- `recvRequest` without the fast path. -/
def recvParsed (h : HttpSession P) : Option (Option (Request P) × HttpSession P) :=
  (parseLoop lib turns { h with parser := lib.reset h.parser }.compactReadBufferIfNeeded).map fun (finished, h) =>
    if finished then recvBody lib h else (none, h)

def recvRequest (h : HttpSession P) : Option (Outcome P (Option (Request P))) :=
  if h.fastGetScan then
    (tryRecvGetFast lib turns h).bind fun o =>
      match o.value with
      | some req => some ⟨o.blocks, some req, o.session⟩
      | none => (recvParsed lib turns o.session).map fun (req, h) => ⟨o.blocks, req, h⟩
  else (recvParsed lib turns h).map fun (req, h) => ⟨[], req, h⟩

/-- `isClose` of a request. -/
def isClose : Request P → Bool
  | .fast _ close => close
  | .parsed parser _ => lib.isClose parser

/-- `none` as the value where it returns false. -/
def recvGetRequestFast (h : HttpSession P) : Option (Outcome P (Option Bool)) :=
  if h.fastGetScan then
    (tryRecvGetFast lib turns h).bind fun o =>
      match o.value with
      | some req => some ⟨o.blocks, some (isClose lib req), o.session⟩
      | none =>
        (recvRequest lib turns o.session).map fun o' => ⟨o.blocks ++ o'.blocks, o'.value.map (isClose lib), o'.session⟩
  else (recvRequest lib turns h).map fun o => ⟨o.blocks, o.value.map (isClose lib), o.session⟩

def recvFixedRouteGet (path : Bytes) (h : HttpSession P) : Option (Outcome P FixedRoute) :=
  if h.fastGetScan then
    (scanLoop path turns h).map fun o =>
      ⟨o.blocks,
        match o.value with
        | .needMore => .error
        | .fallback => .fallback
        | .ok _ _ clientClose => .ok clientClose,
        o.session⟩
  else (recvGetRequestFast lib turns h).map fun o => ⟨o.blocks, (o.value.map FixedRoute.ok).getD .error, o.session⟩

end

end HttpSession

/-! ## Specification -/

/-- The end of a header lies at `p`. -/
def Terminator (mem : Nat → UInt8) (p : Nat) : Prop :=
  mem p = 13 ∧ mem (p + 1) = 10 ∧ mem (p + 2) = 13 ∧ mem (p + 3) = 10

/-- The position after the first end within the block, or none. -/
def Finds (b : Block) : Option Nat → Prop
  | some e => ∃ p, e = p + 4 ∧ p + 4 ≤ b.len ∧ Terminator b.mem p ∧ ∀ q < p, ¬ Terminator b.mem q
  | none => ∀ p, p + 4 ≤ b.len → ¬ Terminator b.mem p

/-- Only the positions below `len`. -/
def Block.within (b : Block) (i : Nat) : Option UInt8 := if i < b.len then some (b.mem i) else none

/-- `find_header_end` needs no other position, and finds the end. -/
def Block.Contained (b : Block) : Prop := ∃ r, findHeaderEnd b.within b.len = some r ∧ Finds b r

/-- No end lies within the block, and its last bytes are CR LF CR. -/
structure Block.CutOff (b : Block) : Prop where
  long : 4 ≤ b.len
  last : b.mem (b.len - 3) = 13 ∧ b.mem (b.len - 2) = 10 ∧ b.mem (b.len - 1) = 13
  endless : Finds b none

namespace HttpSession

variable {P : Type}

structure Within (h : HttpSession P) : Prop where
  read : h.readPos ≤ h.dataLen
  data : h.dataLen ≤ h.size

inductive Call where
  | setMinimalParse (v : Bool)
  | recvRequest
  | recvGetRequestFast
  | recvFixedRouteGet (path : Bytes)

/-- A call that returns after so many turns of its loops. -/
def Call.perform (lib : RequestParser P) (turns : Nat) (h : HttpSession P) : Call → Option (List Block × HttpSession P)
  | .setMinimalParse v => some ([], { h with fastGetScan := v })
  | .recvRequest => (HttpSession.recvRequest lib turns h).map fun o => (o.blocks, o.session)
  | .recvGetRequestFast => (HttpSession.recvGetRequestFast lib turns h).map fun o => (o.blocks, o.session)
  | .recvFixedRouteGet path => (HttpSession.recvFixedRouteGet lib turns path h).map fun o => (o.blocks, o.session)

/-- A session with whatever lies in memory, and the calls that scan no block that is cut off. -/
inductive Reaches (lib : RequestParser P) : HttpSession P → Prop
  | create {h : HttpSession P} : h.readPos = 0 → h.dataLen = 0 → Reaches lib h
  | call {h h' : HttpSession P} {c : Call} {turns : Nat} {blocks : List Block} : Reaches lib h →
      c.perform lib turns h = some (blocks, h') → (∀ b ∈ blocks, ¬ b.CutOff) → Reaches lib h'

end HttpSession

/-! ## Lemmas -/

/-! ### The search -/

variable {b : Block} {n p len : Nat}

theorem memchr_within (c : UInt8) (h : p + n ≤ b.len) :
    memchr b.within c n p = some none ∧ (∀ q, p ≤ q → q < p + n → b.mem q ≠ c) ∨
      ∃ q, memchr b.within c n p = some (some q) ∧ p ≤ q ∧ q < p + n ∧ b.mem q = c ∧ ∀ i, p ≤ i → i < q → b.mem i ≠ c := by
  induction n generalizing p with
  | zero => exact .inl ⟨rfl, fun q hlo hhi => by omega⟩
  | succ n ih =>
    have hread : b.within p = some (b.mem p) := if_pos (by omega)
    rw [memchr, hread, Option.bind_some]
    by_cases hc : b.mem p = c
    · rw [if_pos hc]
      exact .inr ⟨p, rfl, Nat.le_refl _, by omega, hc, fun i hlo hhi => by omega⟩
    · rw [if_neg hc]
      have hskip : ∀ i, p ≤ i → (p + 1 ≤ i → b.mem i ≠ c) → b.mem i ≠ c := by
        intro i hlo hlater
        rcases Nat.eq_or_lt_of_le hlo with rfl | hlt
        · exact hc
        · exact hlater hlt
      rcases ih (p := p + 1) (by omega) with ⟨hnone, hall⟩ | ⟨q, hsome, hlo, hhi, hq, hall⟩
      · exact .inl ⟨hnone, fun i hi hlt => hskip i hi fun h => hall i h (by omega)⟩
      · exact .inr ⟨q, hsome, by omega, by omega, hq, fun i hi hlt => hskip i hi fun h => hall i h hlt⟩

/-- After a CR: the comparison needs the position `q + 3` if LF CR lies before it. -/
theorem matchesAt_within {q : Nat} (hcr : b.mem q = 13) (hq : q + 3 ≤ b.len) :
    matchesAt b.within [10, 13, 10] (q + 1) = some true ∧ q + 4 ≤ b.len ∧ Terminator b.mem q ∨
      matchesAt b.within [10, 13, 10] (q + 1) = some false ∧ ¬ Terminator b.mem q ∧
        ¬ (q + 3 = b.len ∧ b.mem (q + 1) = 10 ∧ b.mem (q + 2) = 13) ∨
      matchesAt b.within [10, 13, 10] (q + 1) = none ∧ q + 3 = b.len ∧ b.mem (q + 1) = 10 ∧ b.mem (q + 2) = 13 := by
  have hread : ∀ i < b.len, b.within i = some (b.mem i) := fun i hi => if_pos hi
  rw [matchesAt, hread _ (by omega), Option.bind_some]
  by_cases h1 : b.mem (q + 1) = 10
  · rw [if_pos h1, matchesAt, hread _ (by omega), Option.bind_some]
    by_cases h2 : b.mem (q + 2) = 13
    · rw [if_pos h2, matchesAt]
      by_cases hlen : q + 4 ≤ b.len
      · rw [hread _ (by omega), Option.bind_some]
        by_cases h3 : b.mem (q + 3) = 10
        · rw [if_pos h3]
          exact .inl ⟨rfl, hlen, hcr, h1, h2, h3⟩
        · rw [if_neg h3]
          exact .inr (.inl ⟨rfl, fun h => h3 h.2.2.2, fun h => by omega⟩)
      · have hout : b.within (q + 3) = none := if_neg (by omega)
        rw [hout]
        exact .inr (.inr ⟨rfl, by omega, h1, h2⟩)
    · rw [if_neg h2]
      exact .inr (.inl ⟨rfl, fun h => h2 h.2.2.1, fun h => h2 h.2.2⟩)
  · rw [if_neg h1]
    exact .inr (.inl ⟨rfl, fun h => h1 h.2.1, fun h => h1 h.2.1⟩)

/-- The loop from a position before which there is no end, and not past the CR of a block that is cut off. -/
theorem findFrom_within (hlen : 4 ≤ b.len) (turns : Nat) (hturns : b.len ≤ turns + p)
    (hbefore : ∀ q < p, ¬ Terminator b.mem q) (hcut : b.CutOff → p ≤ b.len - 3) :
    (∃ r, findFrom b.within (b.len - 3) turns p = some r ∧ Finds b r) ∧ ¬ b.CutOff ∨
      findFrom b.within (b.len - 3) turns p = none ∧ b.CutOff := by
  induction turns generalizing p with
  | zero =>
    refine .inl ⟨⟨none, rfl, fun q hq => hbefore q (by omega)⟩, fun h => ?_⟩
    have := hcut h
    omega
  | succ turns ih =>
    rw [findFrom]
    by_cases hp : p ≤ b.len - 3
    · rw [if_pos hp]
      rcases memchr_within 13 (b := b) (p := p) (n := b.len - 3 - p + 1) (by omega) with
        ⟨hnone, hall⟩ | ⟨q, hsome, hlo, hhi, hcr, hall⟩
      · rw [hnone]
        refine .inl ⟨⟨none, rfl, fun q hq => ?_⟩, fun h => hall (b.len - 3) hp (by omega) h.last.1⟩
        by_cases hqp : q < p
        · exact hbefore q hqp
        · exact fun h => hall q (Nat.le_of_not_lt hqp) (by omega) h.1
      · have hearlier : ∀ i < q, ¬ Terminator b.mem i := by
          intro i hi
          by_cases hip : i < p
          · exact hbefore i hip
          · exact fun h => hall i (Nat.le_of_not_lt hip) hi h.1
        rw [hsome, Option.bind_some, Option.elim_some]
        rcases matchesAt_within hcr (by omega) with ⟨hmatch, hin, hend⟩ | ⟨hmatch, hno, hnot⟩ | ⟨hmatch, hout, hlf, hcr'⟩
        · rw [hmatch]
          exact .inl ⟨⟨_, rfl, q, rfl, hin, hend, hearlier⟩, fun h => h.endless q hin hend⟩
        · rw [hmatch]
          refine ih (by omega) (fun i hi => ?_) fun h => ?_
          · rcases Nat.lt_or_eq_of_le (Nat.le_of_lt_succ hi) with hlt | rfl
            · exact hearlier i hlt
            · exact hno
          · -- the last CR of a block that is cut off is not passed
            by_contra hpast
            have hq : q = b.len - 3 := by omega
            refine hnot ⟨by omega, ?_, ?_⟩
            · rw [show q + 1 = b.len - 2 by omega]
              exact h.last.2.1
            · rw [show q + 2 = b.len - 1 by omega]
              exact h.last.2.2
        · rw [hmatch]
          refine .inr ⟨rfl, hlen, ⟨?_, ?_, ?_⟩, fun i hi => hearlier i (by omega)⟩
          · rw [show b.len - 3 = q by omega]
            exact hcr
          · rw [show b.len - 2 = q + 1 by omega]
            exact hlf
          · rw [show b.len - 1 = q + 2 by omega]
            exact hcr'
    · rw [if_neg hp]
      exact .inl ⟨⟨none, rfl, fun q hq => hbefore q (by omega)⟩, fun h => hp (hcut h)⟩

theorem contained_iff (b : Block) : b.Contained ↔ ¬ b.CutOff := by
  unfold Block.Contained findHeaderEnd
  by_cases hlen : b.len < 4
  · have hshort : ¬ b.CutOff := fun h => by
      have := h.long
      omega
    simp only [if_pos hlen, hshort, not_false_eq_true, iff_true]
    exact ⟨none, rfl, fun p hp => by omega⟩
  · rw [if_neg hlen]
    rcases findFrom_within (b := b) (p := 0) (by omega) b.len (by omega) (fun q hq => absurd hq (Nat.not_lt_zero q))
      fun _ => Nat.zero_le _ with ⟨hfound, hnot⟩ | ⟨hnone, hcut⟩
    · exact ⟨fun _ => hnot, fun _ => hfound⟩
    · refine ⟨fun ⟨r, hr, _⟩ => ?_, fun h => absurd hcut h⟩
      rw [hnone] at hr
      cases hr

/-! ### Memory in which all can be read -/

theorem memchr_mono {fetch fetch' : Nat → Option UInt8} (hle : ∀ i x, fetch i = some x → fetch' i = some x) (c : UInt8)
    {r : Option Nat} (h : memchr fetch c n p = some r) : memchr fetch' c n p = some r := by
  induction n generalizing p with
  | zero => exact h
  | succ n ih =>
    obtain ⟨x, hx, h⟩ := Option.bind_eq_some_iff.mp h
    rw [memchr, hle p x hx, Option.bind_some]
    split
    · next hc => rwa [if_pos hc] at h
    · next hc =>
      rw [if_neg hc] at h
      exact ih h

theorem matchesAt_mono {fetch fetch' : Nat → Option UInt8} (hle : ∀ i x, fetch i = some x → fetch' i = some x) (text : Bytes)
    {r : Bool} (h : matchesAt fetch text p = some r) : matchesAt fetch' text p = some r := by
  induction text generalizing p with
  | nil => exact h
  | cons c text ih =>
    obtain ⟨x, hx, h⟩ := Option.bind_eq_some_iff.mp h
    rw [matchesAt, hle p x hx, Option.bind_some]
    split
    · next hc =>
      rw [if_pos hc] at h
      exact ih h
    · next hc => rwa [if_neg hc] at h

theorem findFrom_mono {fetch fetch' : Nat → Option UInt8} (hle : ∀ i x, fetch i = some x → fetch' i = some x)
    (limit turns : Nat) {r : Option Nat} (h : findFrom fetch limit turns p = some r) :
    findFrom fetch' limit turns p = some r := by
  induction turns generalizing p with
  | zero => exact h
  | succ turns ih =>
    rw [findFrom] at h ⊢
    split
    · next hp =>
      rw [if_pos hp] at h
      obtain ⟨found, hfound, h⟩ := Option.bind_eq_some_iff.mp h
      rw [memchr_mono hle 13 hfound, Option.bind_some]
      cases found with
      | none => exact h
      | some q =>
        rw [Option.elim_some] at h ⊢
        obtain ⟨here, hhere, h⟩ := Option.bind_eq_some_iff.mp h
        rw [matchesAt_mono hle _ hhere, Option.bind_some]
        cases here with
        | true => exact h
        | false => exact ih h
    · next hp => rwa [if_neg hp] at h

theorem headerEnd_le (h : ¬ b.CutOff) {e : Nat} (he : b.headerEnd = some e) : e ≤ b.len := by
  obtain ⟨r, hr, hfinds⟩ := (contained_iff b).mpr h
  have hle : ∀ i x, b.within i = some x → some (b.mem i) = some x := by
    intro i x hx
    unfold Block.within at hx
    split at hx
    · exact hx
    · cases hx
  have hall : findHeaderEnd (fun i => some (b.mem i)) b.len = some r := by
    unfold findHeaderEnd at hr ⊢
    split
    · next hlen => rwa [if_pos hlen] at hr
    · next hlen =>
      rw [if_neg hlen] at hr
      exact findFrom_mono hle _ _ hr
  unfold Block.headerEnd at he
  rw [hall, Option.join_some] at he
  subst he
  obtain ⟨p, rfl, hin, -⟩ := hfinds
  exact hin

theorem scanGetHeader_le (h : ¬ b.CutOff) {expectPath path : Bytes} {hdrLen : Nat} {close : Bool}
    (hok : b.scanGetHeader expectPath = .ok path hdrLen close) : hdrLen ≤ b.len := by
  unfold Block.scanGetHeader at hok
  cases he : b.headerEnd with
  | none =>
    rw [he] at hok
    cases hok
  | some e =>
    rw [he] at hok
    have hle := headerEnd_le h he
    dsimp only at hok
    split at hok
    · cases hok
    · split at hok
      · cases hok
      · split at hok
        · cases hok
        · split at hok
          · cases hok
          · split at hok
            · cases hok
            · cases hok
              exact hle

/-! ### The session -/

namespace HttpSession

variable {P : Type} {h h' : HttpSession P} {lib : RequestParser P} {turns : Nat}

theorem usub_of_le {a b : Nat} (hle : b ≤ a) (ha : a < 2 ^ 64) : usub a b = a - b := by
  unfold usub
  omega

theorem Within.block_len (hin : h.Within) : h.block.len = h.dataLen - h.readPos :=
  usub_of_le hin.read (Nat.lt_of_le_of_lt hin.data h.size_lt)

theorem Within.close (hin : h.Within) : h.close.Within := ⟨hin.read, hin.data⟩

theorem Within.compact (hin : h.Within) : h.compactReadBufferIfNeeded.Within := by
  have hdata := hin.data
  unfold compactReadBufferIfNeeded
  split
  · exact hin
  · split
    · exact hin
    · split
      · exact ⟨Nat.zero_le _, Nat.le_trans (Nat.sub_le ..) hdata⟩
      · exact ⟨Nat.zero_le _, Nat.zero_le _⟩

theorem Within.fill (hin : h.Within) (hfill : h.fill = some h') : h'.Within := by
  have hread := hin.read
  have hdata := hin.data
  obtain ⟨⟨got, s⟩, hgot, heq⟩ := Option.map_eq_some_iff.mp hfill
  cases heq
  have hle := Stream.read_length_le hgot
  exact ⟨Nat.le_trans hread (Nat.le_add_right ..), by show h.dataLen + got.length ≤ h.size; omega⟩

theorem Within.advance (hin : h.Within) {n : Nat} (hn : n ≤ h.block.len) : { h with readPos := h.readPos + n }.Within := by
  have hread := hin.read
  rw [hin.block_len] at hn
  refine ⟨?_, hin.data⟩
  show h.readPos + n ≤ h.dataLen
  omega

theorem Within.scanLoop {path : Bytes} {o : Outcome P GetScan} (hin : h.Within)
    (ho : HttpSession.scanLoop path turns h = some o) (hclean : ∀ b ∈ o.blocks, ¬ b.CutOff) : o.session.Within := by
  induction turns generalizing h o with
  | zero => cases ho
  | succ turns ih =>
    have hcompact := hin.compact
    rw [HttpSession.scanLoop] at ho
    cases hscan : h.compactReadBufferIfNeeded.block.scanGetHeader path with
    | needMore =>
      rw [hscan] at ho
      dsimp only at ho
      split at ho
      · cases ho
        exact hcompact.close
      · cases hfill : h.compactReadBufferIfNeeded.fill with
        | none =>
          rw [hfill] at ho
          cases ho
          exact hcompact.close
        | some h₁ =>
          rw [hfill] at ho
          obtain ⟨o1, ho1, heq⟩ := Option.map_eq_some_iff.mp ho
          cases heq
          have hnext : o1.session.Within :=
            ih (hcompact.fill hfill) ho1 fun b hb => hclean b (List.mem_cons_of_mem _ hb)
          exact hnext
    | fallback =>
      rw [hscan] at ho
      cases ho
      exact hcompact
    | ok found hdrLen clientClose =>
      rw [hscan] at ho
      cases ho
      exact hcompact.advance (scanGetHeader_le (hclean _ List.mem_cons_self) hscan)

theorem Within.parseLoop {finished : Bool} (hin : h.Within) (ho : HttpSession.parseLoop lib turns h = some (finished, h')) :
    h'.Within := by
  induction turns generalizing h with
  | zero => cases ho
  | succ turns ih =>
    rw [HttpSession.parseLoop] at ho
    split at ho
    · cases ho
      exact hin.close
    · cases hfill : h.fill with
      | none =>
        rw [hfill] at ho
        cases ho
        exact hin.close
      | some h₁ =>
        rw [hfill] at ho
        have hfilled := hin.fill hfill
        have hnread : (lib.execute h₁.parser (h₁.block.bytes h₁.block.len)).2 ≤ h₁.block.len := by
          refine Nat.le_trans (lib.nread_le ..) (Nat.le_of_eq ?_)
          unfold Block.bytes
          rw [List.length_map, List.length_range]
        have hparsed := hfilled.advance hnread
        dsimp only at ho
        split at ho
        · cases ho
          exact ⟨hparsed.read, hparsed.data⟩
        · split at ho
          · cases ho
            exact ⟨hparsed.read, hparsed.data⟩
          · refine ih ?_ ho
            exact ⟨hparsed.read, hparsed.data⟩

theorem Within.takeBody (hin : h.Within) (length : Int) : (HttpSession.takeBody length h).2.Within := by
  unfold HttpSession.takeBody
  split
  · have hbody := hin.advance (Nat.min_le_left h.block.len length.toNat)
    dsimp only
    split
    · split
      · exact hbody.close
      · exact ⟨hbody.read, hbody.data⟩
    · exact hbody
  · exact hin

theorem Within.recvParsed {req : Option (Request P)} (hin : h.Within)
    (ho : HttpSession.recvParsed lib turns h = some (req, h')) : h'.Within := by
  obtain ⟨⟨finished, h₁⟩, hloop, heq⟩ := Option.map_eq_some_iff.mp ho
  have hreset : { h with parser := lib.reset h.parser }.Within := ⟨hin.read, hin.data⟩
  have hparsed := hreset.compact.parseLoop hloop
  dsimp only at heq
  split at heq
  · have hbody := hparsed.takeBody (Kv.i64 (lib.getContentLength h₁.parser))
    rw [show HttpSession.takeBody _ h₁ = (req, h') from heq] at hbody
    exact hbody
  · cases heq
    exact hparsed

theorem Within.tryRecvGetFast {o : Outcome P (Option (Request P))} (hin : h.Within)
    (ho : HttpSession.tryRecvGetFast lib turns h = some o) (hclean : ∀ b ∈ o.blocks, ¬ b.CutOff) : o.session.Within := by
  obtain ⟨o1, hscan, rfl⟩ := Option.map_eq_some_iff.mp ho
  have hblocks : ∀ b ∈ o1.blocks, ¬ b.CutOff := by
    intro b hb
    refine hclean b ?_
    split
    · exact hb
    · exact hb
  have hscanned := hin.scanLoop hscan hblocks
  split
  · exact ⟨hscanned.read, hscanned.data⟩
  · exact hscanned

theorem Within.recvRequest {o : Outcome P (Option (Request P))} (hin : h.Within)
    (ho : HttpSession.recvRequest lib turns h = some o) (hclean : ∀ b ∈ o.blocks, ¬ b.CutOff) : o.session.Within := by
  unfold HttpSession.recvRequest at ho
  split at ho
  · obtain ⟨o1, hfast, ho⟩ := Option.bind_eq_some_iff.mp ho
    cases hvalue : o1.value with
    | some req =>
      rw [hvalue] at ho
      cases ho
      have hfirst : o1.session.Within := hin.tryRecvGetFast hfast hclean
      exact hfirst
    | none =>
      rw [hvalue] at ho
      obtain ⟨⟨req, h₁⟩, hparsed, heq⟩ := Option.map_eq_some_iff.mp ho
      cases heq
      exact (hin.tryRecvGetFast hfast hclean).recvParsed hparsed
  · obtain ⟨⟨req, h₁⟩, hparsed, heq⟩ := Option.map_eq_some_iff.mp ho
    cases heq
    exact hin.recvParsed hparsed

theorem Within.recvGetRequestFast {o : Outcome P (Option Bool)} (hin : h.Within)
    (ho : HttpSession.recvGetRequestFast lib turns h = some o) (hclean : ∀ b ∈ o.blocks, ¬ b.CutOff) : o.session.Within := by
  unfold HttpSession.recvGetRequestFast at ho
  split at ho
  · obtain ⟨o1, hfast, ho⟩ := Option.bind_eq_some_iff.mp ho
    cases hvalue : o1.value with
    | some req =>
      rw [hvalue] at ho
      cases ho
      exact hin.tryRecvGetFast hfast hclean
    | none =>
      rw [hvalue] at ho
      obtain ⟨o2, hrequest, heq⟩ := Option.map_eq_some_iff.mp ho
      cases heq
      have hfirst := hin.tryRecvGetFast hfast fun b hb => hclean b (List.mem_append_left _ hb)
      exact hfirst.recvRequest hrequest fun b hb => hclean b (List.mem_append_right _ hb)
  · obtain ⟨o1, hrequest, heq⟩ := Option.map_eq_some_iff.mp ho
    cases heq
    exact hin.recvRequest hrequest hclean

theorem Within.recvFixedRouteGet {path : Bytes} {o : Outcome P FixedRoute} (hin : h.Within)
    (ho : HttpSession.recvFixedRouteGet lib turns path h = some o) (hclean : ∀ b ∈ o.blocks, ¬ b.CutOff) :
    o.session.Within := by
  unfold HttpSession.recvFixedRouteGet at ho
  split at ho
  · obtain ⟨o1, hscan, heq⟩ := Option.map_eq_some_iff.mp ho
    cases heq
    exact hin.scanLoop hscan hclean
  · obtain ⟨o1, hfast, heq⟩ := Option.map_eq_some_iff.mp ho
    cases heq
    exact hin.recvGetRequestFast hfast hclean

theorem Within.perform {c : Call} {blocks : List Block} (hin : h.Within) (hcall : c.perform lib turns h = some (blocks, h'))
    (hclean : ∀ b ∈ blocks, ¬ b.CutOff) : h'.Within := by
  cases c with
  | setMinimalParse v =>
    cases hcall
    exact ⟨hin.read, hin.data⟩
  | recvRequest =>
    obtain ⟨o, ho, heq⟩ := Option.map_eq_some_iff.mp hcall
    cases heq
    exact hin.recvRequest ho hclean
  | recvGetRequestFast =>
    obtain ⟨o, ho, heq⟩ := Option.map_eq_some_iff.mp hcall
    cases heq
    exact hin.recvGetRequestFast ho hclean
  | recvFixedRouteGet path =>
    obtain ⟨o, ho, heq⟩ := Option.map_eq_some_iff.mp hcall
    cases heq
    exact hin.recvFixedRouteGet ho hclean

theorem Reaches.within (hr : Reaches lib h) : h.Within := by
  induction hr with
  | create hread hdata =>
    refine ⟨Nat.le_of_eq (hread.trans hdata.symm), ?_⟩
    rw [hdata]
    exact Nat.zero_le _
  | call _ hcall hclean ih => exact ih.perform hcall hclean

/-! ## Top theorem -/

/-- For every block, and for every run. -/
theorem headerEnd_inside {P : Type} (lib : RequestParser P) : (∀ b : Block, b.Contained ↔ ¬ b.CutOff) ∧
    ∀ h : HttpSession P, Reaches lib h → h.Within :=
  ⟨contained_iff, fun _ hr => hr.within⟩

/-! ### A block that is cut off -/

/-- A parser that reads nothing. -/
def idle : RequestParser Unit where
  reset := id
  execute _ _ := ((), 0)
  hasError _ := true
  isFinished _ := false
  getContentLength _ := 0
  isClose _ := true
  nread_le _ data := Nat.zero_le data.length

/-- A parser that reads twenty bytes, in whatever parts they come. -/
def twenty : RequestParser Nat where
  reset _ := 0
  execute n data := (n + data.length, min (20 - n) data.length)
  hasError _ := false
  isFinished n := decide (20 ≤ n)
  getContentLength _ := 0
  isClose _ := true
  nread_le n data := Nat.min_le_right (20 - n) data.length

/-- A request in two pieces, with the beginning of another. -/
def cutRequest : HttpSession Nat where
  parser := 0
  mem _ := 0
  size := 32
  readPos := 0
  dataLen := 0
  fastGetScan := false
  stream := ⟨[lit "PUT /ab HTT", lit "P/1.1\r\n\r\nGET /"], [], false⟩
  size_lt := by decide

theorem headerEnd_inside_read :
    ∃ h, Reaches twenty h ∧ (h.readPos, h.dataLen) = (20, 25) ∧ h.Within := by
  have hrun : (Call.recvRequest.perform twenty 4 cutRequest).map (fun r => (r.1.length, r.2.readPos, r.2.dataLen)) =
      some (0, 20, 25) := by decide
  obtain ⟨⟨blocks, h⟩, hcall, heq⟩ := Option.map_eq_some_iff.mp hrun
  simp only [Prod.mk.injEq, List.length_eq_zero_iff] at heq
  obtain ⟨rfl, hread, hdata⟩ := heq
  have hreaches : Reaches twenty h := .call (.create rfl rfl) hcall nofun
  exact ⟨h, hreaches, by rw [hread, hdata], (headerEnd_inside twenty).2 h hreaches⟩

/-- The second request arrives without its last byte; the first has left an LF where it is to come. -/
def twoRequests : HttpSession Unit where
  parser := ()
  mem _ := 0
  size := 32
  readPos := 0
  dataLen := 0
  fastGetScan := true
  stream := ⟨[lit "GET /ab HTTP/1.1\r\n\r\n", lit "GET / HTTP/1.1\r\n\r"], [], false⟩
  size_lt := by decide

/-- CR LF CR with an LF after it, outside the block. -/
def straddling : Block := ⟨fun i => [65, 13, 10, 13].getD i 10, 4⟩

theorem straddling_cutOff : straddling.CutOff where
  long := by decide
  last := by decide
  endless := by
    intro p hp h
    obtain rfl : p = 0 := by
      have : p + 4 ≤ 4 := hp
      omega
    exact absurd h.1 (by decide)

theorem overrun : ¬ straddling.Contained ∧ ((HttpSession.recvFixedRouteGet idle 2 [] twoRequests).bind fun o =>
    (HttpSession.recvFixedRouteGet idle 2 [] o.session).map fun o => (o.session.readPos, o.session.dataLen)) =
      some (18, 17) :=
  ⟨fun h => (contained_iff straddling).mp h straddling_cutOff, by decide⟩

end HttpSession

end Http
