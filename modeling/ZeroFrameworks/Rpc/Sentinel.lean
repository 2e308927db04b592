import Mathlib.Data.List.Basic
import Mathlib.Logic.Function.Basic
import ZeroFrameworks.Kv.Bytes

/-!
# Sentinels

`SentinelManager` elects a leader among the sentinels.  A sentinel has a thread that runs `runLoop`, and
its RPC server calls the handlers for the requests of the others; both meet in the fields under
`m_stateMutex`.

Here every section under that mutex is one step.  The loop's thread is at a `Point` of its code, with the
local variables that are still needed there.  A request on a channel is an `Exchange`: it is sent, handled
by the peer, answered with the term that the peer has by then, and received by the caller, unless the
caller has given it up.  What is never handled, answered or received was lost.

The clock is left out: whether a timeout has passed is part of the event.  So are the monitored nodes,
which the election does not look at.
-/

namespace Rpc

open Kv (Bytes)

/-! ## The election state -/

inductive SentinelRole where
  | follower
  | candidate
  | leader
deriving DecidableEq

structure SentinelManager where
  currentTerm : Nat := 0
  votedFor : Bytes := []
  role : SentinelRole := .follower
  leaderId : Bytes := []
deriving DecidableEq

namespace SentinelManager

def handleRequestVote (term : Nat) (candidateId : Bytes) (m : SentinelManager) : Bool × SentinelManager :=
  if term ≤ m.currentTerm then (false, m)
  else if m.votedFor = [] ∨ m.votedFor = candidateId then
    (true, { m with currentTerm := term, votedFor := candidateId, role := .follower })
  else (false, m)

def handleHeartbeat (term : Nat) (leaderId : Bytes) (m : SentinelManager) : Bool × SentinelManager :=
  if term < m.currentTerm then (false, m)
  else (true, { currentTerm := term, votedFor := [], role := .follower, leaderId := leaderId })

def becomeFollower (newTerm : Nat) (m : SentinelManager) : SentinelManager :=
  { m with currentTerm := max m.currentTerm newTerm, votedFor := [], role := .follower }

/-- The term is a `uint64_t`. -/
def becomeCandidate (myId : Bytes) (m : SentinelManager) : SentinelManager :=
  { m with currentTerm := (m.currentTerm + 1) % 2 ^ 64, votedFor := myId, role := .candidate }

def becomeLeader (myId : Bytes) (m : SentinelManager) : SentinelManager :=
  { m with role := .leader, leaderId := myId }

/-- The section of `startElection` that has seen a quorum of votes for `term`. -/
def takeLead (term : Nat) (m : SentinelManager) : SentinelManager :=
  if m.role = .candidate ∧ m.currentTerm = term then { m with role := .leader } else m

end SentinelManager

/-! ## The cluster -/

/-- Sentinels by their addresses.  The peers of a sentinel are all the others; the list may have itself
in it, or a peer twice. -/
structure Config (N : Type) where
  nodeId : N → Bytes
  sentinelPeers : N → List N
  complete : ∀ i j, j ≠ i → j ∈ sentinelPeers i

/-- Votes for a quorum, the sentinel itself counted beside its peers. -/
def Config.quorum {N : Type} (cfg : Config N) (i : N) : Nat := (1 + (cfg.sentinelPeers i).length) / 2 + 1

inductive Request where
  | requestVote (term : Nat) (candidateId : Bytes)
  | heartbeat (term : Nat) (leaderId : Bytes)
deriving DecidableEq

inductive Stage where
  | sent
  | handled (ok : Bool)
  | answered (ok : Bool) (term : Nat)
deriving DecidableEq

structure Exchange (N : Type) where
  caller : N
  peer : N
  request : Request
  stage : Stage := .sent
deriving DecidableEq

/-- Where the thread of `runLoop` is. -/
inductive Point (N : Type) where
  | top
  | becomeCandidate
  | startElection
  | poll (term : Nat) (peers : List N) (votes : Nat)
  | requestVote (term : Nat) (peers : List N) (votes : Nat) (call : Nat)
  | stepDown (newTerm : Nat)
  | takeLead (term : Nat)
  | result
  | becomeLeader (term : Nat)
  | sendHeartbeats (peers : List N)
  | heartbeat (term : Nat) (peers : List N) (call : Nat)
  | heartbeatStepDown (newTerm : Nat) (peers : List N)
deriving DecidableEq

/-- `ballots v t` is who got the vote of `v` in term `t`.  It is history: no step looks at it. -/
structure Cluster (N : Type) where
  node : N → SentinelManager := fun _ => {}
  point : N → Point N := fun _ => .top
  exchanges : List (Exchange N) := []
  ballots : N → Nat → Option N := fun _ _ => none

namespace Cluster

variable {N : Type} [DecidableEq N]

/-- The sentinel's state and where its thread goes. -/
def move (i : N) (m : SentinelManager) (p : Point N) (c : Cluster N) : Cluster N :=
  { c with node := Function.update c.node i m, point := Function.update c.point i p }

def vote (v : N) (term : Nat) (i : N) (c : Cluster N) : Cluster N :=
  { c with ballots := Function.update c.ballots v (Function.update (c.ballots v) term (some i)) }

/-- The thread of `i` sends a request and waits for the answer. -/
def send (x : Exchange N) (p : Nat → Point N) (c : Cluster N) : Cluster N :=
  { c with
    point := Function.update c.point x.caller (p c.exchanges.length)
    exchanges := c.exchanges ++ [x] }

/-- The loop of `startElection` after an answer, or without one. -/
def tally (cfg : Config N) (i : N) (term : Nat) (peers : List N) (votes : Nat) : Point N :=
  if cfg.quorum i ≤ votes then .takeLead term else .poll term peers votes

/-- The next step of the thread of `i`, which does not wait for an answer.  `late` says at the top of the
loop that the election timeout has passed, or for a leader that heartbeats are due. -/
def turn (cfg : Config N) (i : N) (late : Bool) (c : Cluster N) : Cluster N :=
  let m := c.node i
  match c.point i with
  | .top =>
    match m.role with
    | .follower => if late then c.move i m .becomeCandidate else c
    | .candidate => c.move i m .startElection
    | .leader => if late then c.move i m (.sendHeartbeats (cfg.sentinelPeers i)) else c
  | .becomeCandidate =>
    let m' := m.becomeCandidate (cfg.nodeId i)
    (c.vote i m'.currentTerm i).move i m' .top
  | .startElection => c.move i m (.poll m.currentTerm (cfg.sentinelPeers i) 1)
  | .poll _ [] _ => c.move i m .result
  | .poll term (p :: peers) votes =>
    c.send ⟨i, p, .requestVote term (cfg.nodeId i), .sent⟩ (.requestVote term peers votes)
  | .stepDown newTerm => c.move i (m.becomeFollower newTerm) .result
  | .takeLead term => c.move i (m.takeLead term) .result
  | .result =>
    if m.role = .leader then c.move i m (.becomeLeader m.currentTerm)
    else c.move i { m with role := .follower } .top
  | .becomeLeader _ => c.move i (m.becomeLeader (cfg.nodeId i)) .top
  | .sendHeartbeats [] => c.move i m .top
  | .sendHeartbeats (p :: peers) =>
    c.send ⟨i, p, .heartbeat m.currentTerm (cfg.nodeId i), .sent⟩ (.heartbeat m.currentTerm peers)
  | .heartbeatStepDown newTerm peers => c.move i (m.becomeFollower newTerm) (.sendHeartbeats peers)
  | .requestVote _ _ _ _ | .heartbeat _ _ _ => c

/-- The call of `i` returns without an answer. -/
def giveUp (cfg : Config N) (i : N) (c : Cluster N) : Cluster N :=
  match c.point i with
  | .requestVote term peers votes _ => c.move i (c.node i) (tally cfg i term peers votes)
  | .heartbeat _ peers _ => c.move i (c.node i) (.sendHeartbeats peers)
  | _ => c

/-- The exchange that the thread of `i` waits for. -/
def waiting (i : N) (c : Cluster N) : Option (Exchange N) :=
  match c.point i with
  | .requestVote _ _ _ call | .heartbeat _ _ call => c.exchanges[call]?
  | _ => none

/-- The call of `i` returns with the answer, if there is one. -/
def receive (cfg : Config N) (i : N) (c : Cluster N) : Cluster N :=
  match c.waiting i with
  | some ⟨_, _, _, .answered ok peerTerm⟩ =>
    match c.point i with
    | .requestVote term peers votes _ =>
      if ok then c.move i (c.node i) (tally cfg i term peers (votes + 1))
      else if term < peerTerm then c.move i (c.node i) (.stepDown peerTerm)
      else c.move i (c.node i) (tally cfg i term peers votes)
    | .heartbeat term peers _ =>
      if term < peerTerm then c.move i (c.node i) (.heartbeatStepDown peerTerm peers)
      else c.move i (c.node i) (.sendHeartbeats peers)
    | _ => c
  | _ => c

/-- What the peer makes of a request. -/
def answerOf (r : Request) (m : SentinelManager) : Bool × SentinelManager :=
  match r with
  | .requestVote term candidateId => m.handleRequestVote term candidateId
  | .heartbeat term leaderId => m.handleHeartbeat term leaderId

/-- The peer of exchange `k` handles the request. -/
def handle (k : Nat) (c : Cluster N) : Cluster N :=
  match c.exchanges[k]? with
  | some ⟨caller, peer, request, .sent⟩ =>
    let r := answerOf request (c.node peer)
    let c' := { c with
      node := Function.update c.node peer r.2
      exchanges := c.exchanges.set k ⟨caller, peer, request, .handled r.1⟩ }
    match request with
    | .requestVote term _ => if r.1 then c'.vote peer term caller else c'
    | .heartbeat _ _ => c'
  | _ => c

/-- The peer of exchange `k` reads its term again for the answer. -/
def answer (k : Nat) (c : Cluster N) : Cluster N :=
  match c.exchanges[k]? with
  | some ⟨caller, peer, request, .handled ok⟩ =>
    { c with exchanges :=
        c.exchanges.set k ⟨caller, peer, request, .answered ok (c.node peer).currentTerm⟩ }
  | _ => c

end Cluster

/-! ## Runs -/

inductive Event (N : Type) where
  | turn (i : N) (late : Bool)
  | giveUp (i : N)
  | receive (i : N)
  | handle (k : Nat)
  | answer (k : Nat)

namespace Cluster

variable {N : Type} [DecidableEq N]

def step (cfg : Config N) (c : Cluster N) : Event N → Cluster N
  | .turn i late => c.turn cfg i late
  | .giveUp i => c.giveUp cfg i
  | .receive i => c.receive cfg i
  | .handle k => c.handle k
  | .answer k => c.answer k

/-- A property of every event, with the state before it. -/
def Along (cfg : Config N) (P : Cluster N → Event N → Prop) (c : Cluster N) : List (Event N) → Prop
  | [] => True
  | e :: events => P c e ∧ Along cfg P (c.step cfg e) events

/-- Two sentinels that lead in one term are the same one. -/
def OneLeader (c : Cluster N) : Prop :=
  ∀ i j, (c.node i).role = .leader → (c.node j).role = .leader →
    (c.node i).currentTerm = (c.node j).currentTerm → i = j

/-- The term counter does not wrap, and a sentinel that has won an election is still in the term it won
when `becomeLeader` makes it the leader. -/
def Steady (c : Cluster N) (e : Event N) : Prop :=
  match e with
  | .turn i _ =>
    match c.point i with
    | .becomeCandidate => (c.node i).currentTerm + 1 < 2 ^ 64
    | .becomeLeader term => (c.node i).currentTerm = term
    | _ => True
  | _ => True

end Cluster

end Rpc
