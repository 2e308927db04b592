import Mathlib.Data.List.Infix
import Mathlib.Logic.Function.Basic
import ZeroFrameworks.Kv.Bytes
import ZeroFrameworks.Lib.Codec

/-!
# A channel and its callers

Callers share an `RpcChannel` through the pool.  `call` holds the mutex only while it looks at `m_fd`; the
frame is written and the response read without it, one `poll` and one `send` or `recv` at a time, on whatever
descriptor `m_fd` is by then.  The server reads the frames of a connection in order and answers each.

An octet on the wire carries the number of the call that it belongs to, which no one but the reader of this
model looks at: a request's octets have the number of their call, and a response's the number of the call whose
octet begins the frame that it answers.

    decodeBe32 (encodeBe32 n) = n   for n < 2 ^ 32   (decode_encode)
-/

namespace Rpc

open Kv (Bytes)

/-! ## Algorithm -/

def encodeBe32 (val : Nat) : Bytes := (Codec.le 4 val).reverse

def decodeBe32 (bytes : Bytes) : Nat := Codec.ofLe bytes.reverse

def frame (wire : Bytes) : Bytes := encodeBe32 wire.length ++ wire

/-- The longest message that is read. -/
def maxMessage : Nat := 64 * 1024 * 1024

/-- `SerializeToString` fails for messages that are not below 2 GiB. -/
def maxSerialized : Nat := 2 ^ 31

structure Octet where
  byte : UInt8
  call : Nat
deriving DecidableEq

def tag (n : Nat) (bytes : Bytes) : List Octet := bytes.map fun b => ⟨b, n⟩

/-- A connection: what the server has to read, what the client has to read, and all that was ever sent. -/
structure Conn where
  inbox : List Octet := []
  outbox : List Octet := []
  sent : List Octet := []
deriving DecidableEq

/-- The first frame that the server has to read: the call that it begins with, the message, and what follows. -/
def Conn.nextFrame (conn : Conn) : Option (Nat × Bytes × List Octet) :=
  let len := decodeBe32 ((conn.inbox.take 4).map (·.byte))
  match conn.inbox with
  | [] => none
  | first :: _ =>
    if 4 + len ≤ conn.inbox.length ∧ 0 < len ∧ len ≤ maxMessage then
      some (first.call, ((conn.inbox.drop 4).take len).map (·.byte), conn.inbox.drop (4 + len))
    else none

/-- Where a caller is in `call`.  `writing` is in `writeFull` for the length, with the message after it, or for
the message; `reading` is in `readFull` for the length or for the message.  `polled`: `poll` has returned. -/
inductive CallerStage where
  | idle
  | writing (n : Nat) (polled : Bool) (rest : Bytes) (body : Option Bytes)
  | reading (n : Nat) (polled : Bool) (header : Bool) (need : Nat) (got : List Octet)
  | closing (n : Nat) (begun : Bool)
deriving DecidableEq

/-- The caller has sent something, and has not read its response or closed the descriptor since. -/
def CallerStage.engaged : CallerStage → Bool
  | .idle => false
  | .writing _ _ rest body => !(body.isSome && rest.length == 4)
  | .reading .. => true
  | .closing _ begun => begun

/-- After `writeFull` has sent something: go on, or go on to what comes next. -/
def CallerStage.written (n : Nat) (rest : Bytes) (body : Option Bytes) : CallerStage :=
  if rest ≠ [] then .writing n false rest body
  else match body with
    | none | some [] => .reading n false true 4 []
    | some (b :: bs) => .writing n false (b :: bs) none

/-- `fd` is the connection that `m_fd` stands for.  `requests`, `served` and `returned` record the messages of
all calls, what the server read and answered, and what the calls returned. -/
structure Channel (P : Type) where
  fd : Option Nat
  conns : Nat → Conn
  made : Nat
  stage : P → CallerStage
  requests : List Bytes
  served : List (Nat × Bytes × Bytes)
  returned : List (Nat × Bytes)

inductive ChannelEvent (P : Type) where
  | connect (ok : Bool)
  | close
  | call (p : P) (wire : Bytes)
  | poll (p : P) (ready : Bool)
  | send (p : P) (k : Nat)
  /-- `parsed`: `ParseFromString` takes the message. -/
  | recv (p : P) (k : Nat) (parsed : Bool)
  /-- `EAGAIN` or `EINTR`. -/
  | again (p : P)
  | error (p : P)
  /-- A failed call closes what the channel has open by now. -/
  | hangUp (p : P)
  | serve (c : Nat) (response : Bytes)
deriving DecidableEq

namespace Channel

variable {P : Type} [DecidableEq P]

def new : Channel P := ⟨none, fun _ => {}, 0, fun _ => .idle, [], [], []⟩

def setStage (p : P) (st : CallerStage) (s : Channel P) : Channel P := { s with stage := Function.update s.stage p st }

def setConn (c : Nat) (conn : Conn) (s : Channel P) : Channel P := { s with conns := Function.update s.conns c conn }

/-- The locked beginning of `call`. -/
def call (p : P) (wire : Bytes) (s : Channel P) : Channel P :=
  if s.fd = none ∨ maxSerialized ≤ wire.length then s
  else { s.setStage p (.writing s.requests.length false (encodeBe32 wire.length) (some wire)) with
    requests := s.requests ++ [wire] }

/-- `readFull` has all that it was to read. -/
def received (p : P) (n : Nat) (header : Bool) (got : List Octet) (parsed : Bool) (s : Channel P) : Channel P :=
  if header then
    let len := decodeBe32 (got.map (·.byte))
    if len = 0 ∨ maxMessage < len then s.setStage p (.closing n true)
    else s.setStage p (.reading n false false len [])
  else if parsed then { s.setStage p .idle with returned := (n, got.map (·.byte)) :: s.returned }
  else s.setStage p .idle

/-- The server reads a frame, if a whole one is there, and answers it. -/
def serve (c : Nat) (response : Bytes) (s : Channel P) : Option (Channel P) :=
  match (s.conns c).nextFrame with
  | none => none
  | some (owner, request, rest) =>
    if response.length < maxSerialized then
      some { s.setConn c { s.conns c with
        inbox := rest
        outbox := (s.conns c).outbox ++ tag owner (frame response) } with
        served := (owner, request, response) :: s.served }
    else none

def step (s : Channel P) : ChannelEvent P → Option (Channel P)
  | .connect ok =>
    if ok then some { s with fd := some s.made, made := s.made + 1 } else some { s with fd := none }
  | .close => some { s with fd := none }
  | .call p wire => if s.stage p = .idle then some (s.call p wire) else none
  | .poll p ready =>
    match s.stage p with
    | .writing n false rest body =>
      if ready then if s.fd.isSome then some (s.setStage p (.writing n true rest body)) else none
      else some (s.setStage p (.closing n (s.stage p).engaged))
    | .reading n false header need got =>
      if ready then if s.fd.isSome then some (s.setStage p (.reading n true header need got)) else none
      else some (s.setStage p (.closing n true))
    | _ => none
  | .again p =>
    match s.stage p with
    | .writing n true rest body => some (s.setStage p (.writing n false rest body))
    | .reading n true header need got => some (s.setStage p (.reading n false header need got))
    | _ => none
  | .error p =>
    match s.stage p with
    | .writing n true _ _ => some (s.setStage p (.closing n (s.stage p).engaged))
    | .reading n true _ _ _ => some (s.setStage p (.closing n true))
    | _ => none
  | .send p k =>
    match s.stage p, s.fd with
    | .writing n true rest body, some c =>
      if 0 < k ∧ k ≤ rest.length then
        let out := tag n (rest.take k)
        some ((s.setConn c { s.conns c with inbox := (s.conns c).inbox ++ out, sent := (s.conns c).sent ++ out }).setStage p
          (.written n (rest.drop k) body))
      else none
    | _, _ => none
  | .recv p k parsed =>
    match s.stage p, s.fd with
    | .reading n true header need got, some c =>
      if 0 < k ∧ k ≤ need ∧ k ≤ (s.conns c).outbox.length then
        let got := got ++ (s.conns c).outbox.take k
        let s := s.setConn c { s.conns c with outbox := (s.conns c).outbox.drop k }
        if need = k then some (s.received p n header got parsed)
        else some (s.setStage p (.reading n false header (need - k) got))
      else none
    | _, _ => none
  | .hangUp p =>
    match s.stage p with
    | .closing _ _ => some { s.setStage p .idle with fd := none }
    | _ => none
  | .serve c response => s.serve c response

def run (s : Channel P) : List (ChannelEvent P) → Option (Channel P)
  | [] => some s
  | e :: es => (s.step e).bind fun s' => s'.run es

/-- `P` holds of every event of a run, in the state that it finds. -/
def Along (Q : Channel P → ChannelEvent P → Prop) (s : Channel P) : List (ChannelEvent P) → Prop
  | [] => True
  | e :: es => Q s e ∧ ∀ s' ∈ s.step e, s'.Along Q es

instance Along.decidable (Q : Channel P → ChannelEvent P → Prop) [∀ s e, Decidable (Q s e)] :
    (es : List (ChannelEvent P)) → (s : Channel P) → Decidable (s.Along Q es)
  | [], _ => inferInstanceAs (Decidable True)
  | e :: es, s =>
    have := Along.decidable Q es
    inferInstanceAs (Decidable (Q s e ∧ ∀ s' ∈ s.step e, s'.Along Q es))

end Channel

/-! ## Lemmas -/

theorem encodeBe32_length (n : Nat) : (encodeBe32 n).length = 4 := by
  unfold encodeBe32
  rw [List.length_reverse, Codec.le_length]

theorem decode_encode {n : Nat} (h : n < 2 ^ 32) : decodeBe32 (encodeBe32 n) = n := by
  unfold decodeBe32 encodeBe32
  rw [List.reverse_reverse]
  exact Codec.ofLe_le 4 n h

theorem frame_length (wire : Bytes) : (frame wire).length = 4 + wire.length := by
  unfold frame
  rw [List.length_append, encodeBe32_length]

theorem take_frame (wire : Bytes) : (frame wire).take 4 = encodeBe32 wire.length := by
  unfold frame
  rw [List.take_left' (encodeBe32_length _)]

theorem drop_frame (wire : Bytes) : (frame wire).drop 4 = wire := by
  unfold frame
  rw [List.drop_left' (encodeBe32_length _)]

theorem tag_append (n : Nat) (a b : Bytes) : tag n (a ++ b) = tag n a ++ tag n b := List.map_append ..

theorem tag_length (n : Nat) (a : Bytes) : (tag n a).length = a.length := List.length_map ..

theorem tag_bytes (n : Nat) (a : Bytes) : (tag n a).map (·.byte) = a := by
  unfold tag
  rw [List.map_map]
  exact List.map_id a

theorem tag_take (n k : Nat) (a : Bytes) : (tag n a).take k = tag n (a.take k) := (List.map_take ..).symm

theorem tag_drop (n k : Nat) (a : Bytes) : (tag n a).drop k = tag n (a.drop k) := (List.map_drop ..).symm

theorem mem_tag {n : Nat} {a : Bytes} {o : Octet} (h : o ∈ tag n a) : o.call = n := by
  obtain ⟨b, -, rfl⟩ := List.mem_map.mp h
  rfl

/-- The server reads a frame when all of it has been written, and nothing else. -/
theorem nextFrame_tag {conn : Conn} {n : Nat} {wire done : Bytes} {x : Nat × Bytes × List Octet}
    (hin : conn.inbox = tag n done) (hdone : done <+: frame wire) (hlength : wire.length < 2 ^ 32)
    (h : conn.nextFrame = some x) : done = frame wire ∧ x = (n, wire, []) := by
  unfold Conn.nextFrame at h
  dsimp only at h
  split at h
  next => cases h
  next first rest hinbox =>
    obtain ⟨⟨hwhole, -, -⟩, h⟩ := Option.ite_none_right_eq_some.mp h
    have hfirst : first.call = n := mem_tag (hin ▸ hinbox ▸ List.mem_cons_self)
    have hsize : conn.inbox.length = done.length := by rw [hin, tag_length]
    have hlen : decodeBe32 ((conn.inbox.take 4).map (·.byte)) = wire.length := by
      obtain ⟨left, hleft⟩ := hdone
      have htake : done.take 4 = encodeBe32 wire.length := by
        rw [← take_frame, ← hleft, List.take_append_of_le_length (by omega)]
      rw [hin, tag_take, tag_bytes, htake, decode_encode hlength]
    rw [hlen] at h hwhole
    have hall : done = frame wire := by
      refine hdone.eq_of_length_le ?_
      rw [frame_length]
      omega
    refine ⟨hall, ?_⟩
    cases h
    have hrest : conn.inbox.drop 4 = tag n wire := by rw [hin, hall, tag_drop, drop_frame]
    rw [hfirst, hrest, tag_take, tag_bytes, List.take_length, ← List.drop_drop, hrest, tag_drop, List.drop_length]
    rfl

end Rpc
