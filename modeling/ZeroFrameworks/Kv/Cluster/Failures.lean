import Mathlib.Data.Finset.Card
import ZeroFrameworks.Kv.Cluster.Frames
import ZeroFrameworks.Lib.Causes

/-!
# Failed nodes

A node votes that another has failed when that has not answered for too long, and takes down the votes of the others
from their messages.  A quorum of the masters marks the node as failed.

    a node marked as failed was said to be by a message, replaced by its replica, or had a quorum of distinct
      voters   (failed_cause)
    a vote is never taken back: those from before a node's recovery still count after it   (stale_votes)
    failoverReplica hands the slots of the old master to the replica and moves no others   (failover_owners)
-/

namespace Kv

namespace Cluster

open ClusterManager

/-! ## Data -/

/-- The view of a node with its `m_failure_reports`. -/
structure Peer where
  view : ClusterManager
  reports : Bytes → Finset Bytes := fun _ => ∅

/-- What changes the view of who has failed. -/
inductive HealthEvent where
  /-- A PING, PONG or UPDATE. -/
  | ping (env : Env) (msg : ClusterMessage)
  | meet (env : Env) (msg : ClusterMessage)
  | fail (msg : ClusterMessage)
  | check (now timeout : Int)
  | failover (replicaId : Bytes)

/-! ## Algorithm -/

def HealthEvent.sender : HealthEvent → Option Bytes
  | .ping _ msg | .meet _ msg | .fail msg => some msg.senderId
  | .check _ _ | .failover _ => none

namespace ClusterManager

def getMasterCount (s : ClusterManager) : Nat :=
  s.nodes.entries.countP fun e => e.2.hasFlag ClusterNodeFlag.master && !e.2.hasFlag ClusterNodeFlag.fail

def handleMeet (env : Env) (msg : ClusterMessage) (s : ClusterManager) : ClusterManager :=
  s.addNode msg.senderId
    { ip := msg.ip, port := msg.port, clusterPort := msg.clusterPort, masterId := msg.masterId
      flags := msg.flags &&& ~~~ClusterNodeFlag.myself, slots := msg.recvSlots, pongReceived := env.now }

def handleFail (msg : ClusterMessage) (s : ClusterManager) : ClusterManager :=
  if msg.data1 ≠ [] then s.markNodeFail msg.data1 else s

/-- `failoverReplica`.  Where the replica is its own master, the flag and the empty set are those of the master. -/
def failoverReplica (replicaId : Bytes) (s : ClusterManager) : Bool × ClusterManager :=
  match s.getNode replicaId with
  | none => (false, s)
  | some replica =>
    if !replica.hasFlag ClusterNodeFlag.slave then (false, s)
    else if replica.masterId = [] then (false, s)
    else
      match s.getNode replica.masterId with
      | none => (false, s)
      | some oldMaster =>
        let epoch := max replica.configEpoch oldMaster.configEpoch + 1
        let promoted := s.modify replicaId fun n =>
          { (n.clearFlag ClusterNodeFlag.slave).setFlag ClusterNodeFlag.master with
            masterId := [], slots := oldMaster.slots, configEpoch := epoch }
        let pointed := promoted.mapNodes fun _ n =>
          if n.hasFlag ClusterNodeFlag.slave ∧ n.masterId = replica.masterId then { n with masterId := replicaId } else n
        let s' := pointed.modify replica.masterId fun n =>
          { (n.setFlag ClusterNodeFlag.fail).clearFlag ClusterNodeFlag.pFail with slots := fun _ => false }
        (true, { s' with configEpoch := if s.configEpoch < epoch then epoch else s.configEpoch + 1 })

end ClusterManager

namespace Peer

def addFailureReport (failedNodeId reportingNodeId : Bytes) (p : Peer) : Peer :=
  if failedNodeId = reportingNodeId then p
  else { p with reports := Function.update p.reports failedNodeId (insert reportingNodeId (p.reports failedNodeId)) }

def handlePingPong (env : Env) (msg : ClusterMessage) (p : Peer) : Peer :=
  let p : Peer := { p with view := ClusterBus.handlePingPong env msg p.view }
  let p := if msg.data1 ≠ [] then p.addFailureReport msg.data1 msg.senderId else p
  if msg.flags &&& ClusterNodeFlag.pFail ≠ 0 then p.addFailureReport msg.senderId msg.senderId else p

/-- A node that has not answered for too long. -/
def late (now timeout : Int) (n : ClusterNode) : Bool :=
  decide (0 < n.pongReceived) && decide (timeout < now - n.pongReceived)

/-- The nodes that the loop of `checkFailureDetection` looks at. -/
def looksAt (n : ClusterNode) : Bool := !n.hasFlag ClusterNodeFlag.myself && !n.hasFlag ClusterNodeFlag.fail

/-- The own vote on a node, if the loop gives one. -/
def ownVote (now timeout : Int) (s : ClusterManager) (id : Bytes) : Bool :=
  (s.getNode s.myNodeId).isSome && (s.getNode id).any fun n =>
    looksAt n && late now timeout n && !n.hasFlag ClusterNodeFlag.pFail

def checkFailureDetection (now timeout : Int) (p : Peer) : Peer :=
  let quorum := p.view.getMasterCount / 2 + 1
  let reports := fun id => if ownVote now timeout p.view id then insert p.view.myNodeId (p.reports id) else p.reports id
  { reports := reports
    view := p.view.mapNodes fun id n =>
      if !looksAt n then n
      else
        let n := if late now timeout n then n.setFlag ClusterNodeFlag.pFail else n
        if n.hasFlag ClusterNodeFlag.pFail ∧ quorum ≤ (reports id).card then
          (n.setFlag ClusterNodeFlag.fail).clearFlag ClusterNodeFlag.pFail
        else n }

/-- What an event does, unless it is skipped. -/
def effect (p : Peer) : HealthEvent → Peer
  | .ping env msg => p.handlePingPong env msg
  | .meet env msg => { p with view := p.view.handleMeet env msg }
  | .fail msg => { p with view := p.view.handleFail msg }
  | .check now timeout => p.checkFailureDetection now timeout
  | .failover replicaId => { p with view := (p.view.failoverReplica replicaId).2 }

/-- One event; `onMessage` skips the own messages. -/
def step (p : Peer) (e : HealthEvent) : Peer := if e.sender = some p.view.myNodeId then p else p.effect e

def run (p : Peer) (es : List HealthEvent) : Peer := es.foldl step p

end Peer

/-! ## Specification -/

/-- A known node with the mark. -/
def failed (s : ClusterManager) (x : Bytes) : Bool := (s.getNode x).any (·.hasFlag ClusterNodeFlag.fail)

/-- The node has said so, or this node has found it late. -/
def Voted (me : Bytes) (es : List HealthEvent) (x r : Bytes) : Prop :=
  r = me ∨ ∃ env msg, HealthEvent.ping env msg ∈ es ∧ msg.senderId = r ∧ msg.data1 = x

/-- Why the event `e`, after the events `pre`, marks `x`. -/
def Blames (p : Peer) (pre : List HealthEvent) (x : Bytes) : HealthEvent → Prop
  | .ping _ msg | .meet _ msg => msg.senderId = x ∧ msg.flags &&& ClusterNodeFlag.fail ≠ 0
  | .fail msg => msg.data1 = x
  | .check _ _ => ∃ voters : Finset Bytes, (p.run pre).view.getMasterCount / 2 + 1 ≤ voters.card ∧
      ∀ r ∈ voters, Voted p.view.myNodeId pre x r
  | .failover replicaId => ∃ n, (p.run pre).view.getNode replicaId = some n ∧ n.masterId = x

/-! ## Lemmas -/

variable {s : ClusterManager} {p : Peer} {es : List HealthEvent} {x i : Bytes}

/-! ### The mark -/

theorem hasFlag_clearFlag_self (f : BitVec 16) (n : ClusterNode) : (n.clearFlag f).hasFlag f = false := by
  simp [ClusterNode.hasFlag, ClusterNode.clearFlag, BitVec.and_assoc]

theorem hasFlag_setFlag_self {f : BitVec 16} (hf : f ≠ 0) (n : ClusterNode) : (n.setFlag f).hasFlag f = true := by
  have habsorb : (n.flags ||| f) &&& f = f := by
    apply BitVec.eq_of_getLsbD_eq
    intro i _
    simp only [BitVec.getLsbD_and, BitVec.getLsbD_or]
    cases n.flags.getLsbD i <;> simp
  unfold ClusterNode.hasFlag ClusterNode.setFlag
  rw [habsorb]
  simpa using hf

theorem same_mark :
    Stepwise fun n n' => n'.hasFlag ClusterNodeFlag.fail = n.hasFlag ClusterNodeFlag.fail :=
  ⟨fun _ => rfl, fun h h' => h'.trans h⟩

theorem failed_congr {s' : ClusterManager} (h : (s'.getNode x).map (·.hasFlag ClusterNodeFlag.fail) =
    (s.getNode x).map (·.hasFlag ClusterNodeFlag.fail)) : failed s' x = failed s x := by
  have hany : ∀ s : ClusterManager, failed s x = ((s.getNode x).map (·.hasFlag ClusterNodeFlag.fail)).getD false := by
    intro s
    unfold failed
    cases s.getNode x <;> rfl
  rw [hany, hany, h]

theorem failed_addNode_ne (h : x ≠ i) (n : ClusterNode) (s : ClusterManager) : failed (s.addNode i n) x = failed s x :=
  failed_congr (by rw [getNode_addNode, if_neg h])

theorem failed_addNode_self (n : ClusterNode) (s : ClusterManager) :
    failed (s.addNode i n) i = n.hasFlag ClusterNodeFlag.fail := by
  unfold failed
  rw [getNode_addNode, if_pos rfl]
  rfl

theorem failed_markNodePFail (q : Prop) [Decidable q] (s : ClusterManager) (i : Bytes) :
    failed (if q then s.markNodePFail i else s) x = failed s x := by
  refine failed_congr (Follows.map_eq (.mark same_mark q (fun s => .modify same_mark (fun n => ?_) s i) s) id x)
  split
  · rfl
  · exact hasFlag_setFlag (by decide) n

theorem failed_of_markNodeFail {q : Prop} [Decidable q] (h : failed (if q then s.markNodeFail i else s) x = true) :
    failed s x = true ∨ x = i ∧ q := by
  split at h
  · next hq =>
    by_cases hx : x = i
    · exact .inr ⟨hx, hq⟩
    · unfold failed markNodeFail at h
      rw [getNode_modify, if_neg hx] at h
      exact .inl h
  · exact .inl h

theorem failed_clearNodeFail_self (s : ClusterManager) (i : Bytes) : failed (s.clearNodeFail i) i = false := by
  unfold failed clearNodeFail
  rw [getNode_modify, if_pos rfl]
  cases s.getNode i with
  | none => rfl
  | some n => simpa using (hasFlag_clearFlag (by decide) _).trans (hasFlag_clearFlag_self ClusterNodeFlag.fail n)

theorem failed_of_clearNodeFail (h : failed (s.clearNodeFail i) x = true) : failed s x = true ∧ x ≠ i := by
  have hx : x ≠ i := by
    rintro rfl
    rw [failed_clearNodeFail_self] at h
    cases h
  refine ⟨?_, hx⟩
  unfold failed clearNodeFail at h
  rwa [getNode_modify, if_neg hx] at h

theorem failed_of_handlePingPong {env : Env} {msg : ClusterMessage}
    (h : failed (ClusterBus.handlePingPong env msg s) x = true) :
    failed s x = true ∨ msg.senderId = x ∧ msg.flags &&& ClusterNodeFlag.fail ≠ 0 := by
  unfold ClusterBus.handlePingPong at h
  rcases failed_of_markNodeFail h with h | ⟨hx, hflag⟩
  · rw [failed_markNodePFail, failed_markNodePFail] at h
    obtain ⟨h, hne⟩ := failed_of_clearNodeFail h
    have hslots := Follows.updateNodeSlots same_mark msg.claimed (fun _ _ _ _ => rfl) (fun _ _ => rfl) env msg.senderId
      msg.configEpoch (s.addNode msg.senderId (msg.describe env.now ((s.getNode msg.senderId).getD {})))
    rw [failed_congr (hslots.map_eq id x), failed_addNode_ne hne] at h
    exact .inl h
  · exact .inr ⟨hx.symm, hflag⟩

theorem myNodeId_handlePingPong (env : Env) (msg : ClusterMessage) (s : ClusterManager) :
    (ClusterBus.handlePingPong env msg s).myNodeId = s.myNodeId :=
  (follows_handlePingPong (R := fun _ _ => True) ⟨fun _ => trivial, fun _ _ => trivial⟩ env msg s (fun _ _ _ _ => trivial)
    (fun _ _ => trivial) fun _ _ => trivial).myNodeId

/-! ### Failover -/

/-- What becomes of a node when `replica`, under the id `r`, takes the place of `oldMaster`. -/
def promote (r : Bytes) (replica oldMaster : ClusterNode) (id : Bytes) (n : ClusterNode) : ClusterNode :=
  let n := if id = r then
      { (n.clearFlag ClusterNodeFlag.slave).setFlag ClusterNodeFlag.master with
        masterId := [], slots := oldMaster.slots, configEpoch := max replica.configEpoch oldMaster.configEpoch + 1 }
    else n
  let n := if n.hasFlag ClusterNodeFlag.slave ∧ n.masterId = replica.masterId then { n with masterId := r } else n
  if id = replica.masterId then
    { (n.setFlag ClusterNodeFlag.fail).clearFlag ClusterNodeFlag.pFail with slots := fun _ => false }
  else n

theorem failoverReplica_cases (s : ClusterManager) (r : Bytes) :
    s.failoverReplica r = (false, s) ∨ ∃ replica oldMaster, s.getNode r = some replica ∧
      replica.hasFlag ClusterNodeFlag.slave = true ∧ s.getNode replica.masterId = some oldMaster ∧
      (s.failoverReplica r).2.myNodeId = s.myNodeId ∧
      ∀ id, (s.failoverReplica r).2.getNode id = (s.getNode id).map (promote r replica oldMaster id) := by
  unfold failoverReplica
  cases hr : s.getNode r with
  | none => exact .inl rfl
  | some replica =>
    simp only
    by_cases hslave : replica.hasFlag ClusterNodeFlag.slave = true
    · rw [if_neg (by simp [hslave])]
      by_cases hnil : replica.masterId = []
      · rw [if_pos hnil]
        exact .inl rfl
      · rw [if_neg hnil]
        cases hm : s.getNode replica.masterId with
        | none => exact .inl rfl
        | some oldMaster =>
          refine .inr ⟨replica, oldMaster, rfl, hslave, hm, rfl, fun id => ?_⟩
          show (ClusterManager.modify _ _ (ClusterManager.mapNodes _ (ClusterManager.modify _ _ s))).getNode id = _
          simp only [getNode_modify, getNode_mapNodes]
          unfold promote
          cases s.getNode id with
          | none => simp only [Option.map_none, ite_self]
          | some n => split <;> split <;> rfl
    · rw [if_pos (by simpa using hslave)]
      exact .inl rfl

variable {r : Bytes}

theorem failed_of_failoverReplica (h : failed (s.failoverReplica r).2 x = true) :
    failed s x = true ∨ ∃ n, s.getNode r = some n ∧ n.masterId = x := by
  rcases failoverReplica_cases s r with heq | ⟨replica, oldMaster, hr, -, -, -, hget⟩
  · rw [heq] at h
    exact .inl h
  · by_cases hx : x = replica.masterId
    · exact .inr ⟨replica, hr, hx.symm⟩
    · refine .inl ?_
      rw [← h]
      refine (failed_congr ?_).symm
      rw [hget x, Option.map_map]
      refine congrArg (Option.map · _) (funext fun n => ?_)
      have hpromoted : ((n.clearFlag ClusterNodeFlag.slave).setFlag ClusterNodeFlag.master).hasFlag ClusterNodeFlag.fail =
          n.hasFlag ClusterNodeFlag.fail := by
        rw [hasFlag_setFlag (by decide), hasFlag_clearFlag (by decide)]
      simp only [Function.comp_apply, promote, if_neg hx]
      by_cases hxr : x = r
      · simp only [if_pos hxr]
        split <;> exact hpromoted
      · simp only [if_neg hxr]
        split <;> rfl

theorem promote_slots (r : Bytes) (replica oldMaster : ClusterNode) (id : Bytes) (n : ClusterNode) :
    (promote r replica oldMaster id n).slots =
      if id = replica.masterId then fun _ => false else if id = r then oldMaster.slots else n.slots := by
  simp only [promote, apply_ite ClusterNode.slots, ite_self]

theorem promote_slave (r : Bytes) (replica oldMaster : ClusterNode) (id : Bytes) (n : ClusterNode) :
    (promote r replica oldMaster id n).hasFlag ClusterNodeFlag.slave =
      if id = r then false else n.hasFlag ClusterNodeFlag.slave := by
  have hpromoted : ((n.clearFlag ClusterNodeFlag.slave).setFlag ClusterNodeFlag.master).hasFlag ClusterNodeFlag.slave =
      false := by
    rw [hasFlag_setFlag (by decide), hasFlag_clearFlag_self]
  have hfailed : ∀ n : ClusterNode, ((n.setFlag ClusterNodeFlag.fail).clearFlag ClusterNodeFlag.pFail).hasFlag
      ClusterNodeFlag.slave = n.hasFlag ClusterNodeFlag.slave := by
    intro n
    rw [hasFlag_clearFlag (by decide), hasFlag_setFlag (by decide)]
  have hfollow : ∀ n : ClusterNode, (if n.hasFlag ClusterNodeFlag.slave ∧ n.masterId = replica.masterId then
      { n with masterId := r } else n).hasFlag ClusterNodeFlag.slave = n.hasFlag ClusterNodeFlag.slave := by
    intro n
    split <;> rfl
  have hlast : (promote r replica oldMaster id n).hasFlag ClusterNodeFlag.slave = ClusterNode.hasFlag (if id = r then
      { (n.clearFlag ClusterNodeFlag.slave).setFlag ClusterNodeFlag.master with
        masterId := [], slots := oldMaster.slots, configEpoch := max replica.configEpoch oldMaster.configEpoch + 1 }
      else n) ClusterNodeFlag.slave := by
    unfold promote
    by_cases hm : id = replica.masterId
    · rw [if_pos hm]
      exact (hfailed _).trans (hfollow _)
    · rw [if_neg hm]
      exact hfollow _
  rw [hlast]
  split
  · exact hpromoted
  · rfl

theorem promote_masterId {replica : ClusterNode} (hne : replica.masterId ≠ r) (oldMaster : ClusterNode)
    (id : Bytes) {n : ClusterNode} (hs : (promote r replica oldMaster id n).hasFlag ClusterNodeFlag.slave = true) :
    (promote r replica oldMaster id n).masterId ≠ replica.masterId := by
  have hr : id ≠ r := by
    rintro rfl
    rw [promote_slave, if_pos rfl] at hs
    cases hs
  rw [promote_slave, if_neg hr] at hs
  have hkeep : (promote r replica oldMaster id n).masterId =
      if n.hasFlag ClusterNodeFlag.slave ∧ n.masterId = replica.masterId then r else n.masterId := by
    simp only [promote, if_neg hr, ClusterNode.setFlag, ClusterNode.clearFlag, apply_ite ClusterNode.masterId, ite_self]
  rw [hkeep]
  split
  · exact hne.symm
  · next hc => exact fun heq => hc ⟨hs, heq⟩

/-! ### One event -/

/-- The vote that an event adds. -/
def Votes (p : Peer) (x r : Bytes) : HealthEvent → Prop
  | .ping _ msg => msg.data1 ≠ [] ∧ msg.data1 ≠ msg.senderId ∧ x = msg.data1 ∧ r = msg.senderId
  | .check now timeout => Peer.ownVote now timeout p.view x = true ∧ r = p.view.myNodeId
  | _ => False

/-- The mark of an event, by the votes after it. -/
def Marks (p : Peer) (x : Bytes) : HealthEvent → Prop
  | .ping _ msg | .meet _ msg => msg.senderId = x ∧ msg.flags &&& ClusterNodeFlag.fail ≠ 0
  | .fail msg => msg.data1 = x
  | .check now timeout => p.view.getMasterCount / 2 + 1 ≤ ((p.effect (.check now timeout)).reports x).card
  | .failover replicaId => ∃ n, p.view.getNode replicaId = some n ∧ n.masterId = x

theorem view_addFailureReport (q : Prop) [Decidable q] (a b : Bytes) (p : Peer) :
    (if q then p.addFailureReport a b else p).view = p.view := by
  unfold Peer.addFailureReport
  split
  · split <;> rfl
  · rfl

theorem view_handlePingPong (env : Env) (msg : ClusterMessage) (p : Peer) :
    (p.handlePingPong env msg).view = ClusterBus.handlePingPong env msg p.view := by
  unfold Peer.handlePingPong
  rw [view_addFailureReport, view_addFailureReport]

theorem step_cases (p : Peer) (e : HealthEvent) : p.step e = p ∨ p.step e = p.effect e := by
  unfold Peer.step
  split
  · exact .inl rfl
  · exact .inr rfl

theorem myNodeId_step (p : Peer) (e : HealthEvent) : (p.step e).view.myNodeId = p.view.myNodeId := by
  rcases step_cases p e with heq | heq
  · rw [heq]
  · rw [heq]
    cases e with
    | ping env msg =>
      show (p.handlePingPong env msg).view.myNodeId = _
      rw [view_handlePingPong]
      exact myNodeId_handlePingPong env msg p.view
    | meet env msg => rfl
    | fail msg =>
      show (if _ then _ else _ : ClusterManager).myNodeId = _
      split <;> rfl
    | check now timeout => rfl
    | failover r =>
      show (p.view.failoverReplica r).2.myNodeId = _
      rcases failoverReplica_cases p.view r with heq | ⟨-, -, -, -, -, hid, -⟩
      · rw [heq]
      · exact hid

theorem mem_addFailureReport (q : Prop) [Decidable q] (a b : Bytes) (p : Peer) (x r : Bytes) :
    r ∈ (if q then p.addFailureReport a b else p).reports x ↔ r ∈ p.reports x ∨ q ∧ a ≠ b ∧ x = a ∧ r = b := by
  unfold Peer.addFailureReport
  split
  · next hq =>
    split
    · next hab => simp [hab]
    · next hab =>
      by_cases hx : x = a
      · subst hx
        simp [Function.update_self, Finset.mem_insert, hq, hab, or_comm]
      · simp [hx]
  · next hq => simp [hq]

theorem mem_reports_handlePingPong (env : Env) (msg : ClusterMessage) (p : Peer) (x r : Bytes) :
    r ∈ (p.handlePingPong env msg).reports x ↔
      r ∈ p.reports x ∨ msg.data1 ≠ [] ∧ msg.data1 ≠ msg.senderId ∧ x = msg.data1 ∧ r = msg.senderId := by
  unfold Peer.handlePingPong
  rw [mem_addFailureReport, mem_addFailureReport]
  simp

theorem mem_reports_check (now timeout : Int) (p : Peer) (x r : Bytes) :
    r ∈ (p.checkFailureDetection now timeout).reports x ↔
      r ∈ p.reports x ∨ Peer.ownVote now timeout p.view x = true ∧ r = p.view.myNodeId := by
  show r ∈ (if Peer.ownVote now timeout p.view x then insert p.view.myNodeId (p.reports x) else p.reports x) ↔ _
  split
  · next hv => simp [hv, Finset.mem_insert, or_comm]
  · next hv => simp [hv]

theorem mem_reports_effect (p : Peer) (e : HealthEvent) (x r : Bytes) :
    r ∈ (p.effect e).reports x ↔ r ∈ p.reports x ∨ Votes p x r e := by
  cases e with
  | ping env msg => exact mem_reports_handlePingPong env msg p x r
  | check now timeout => exact mem_reports_check now timeout p x r
  | meet | fail | failover =>
    show r ∈ p.reports x ↔ _
    simp [Votes]

theorem failed_check (now timeout : Int) (p : Peer) (x : Bytes) :
    failed (p.checkFailureDetection now timeout).view x = true ↔ failed p.view x = true ∨
      ∃ n, p.view.getNode x = some n ∧ Peer.looksAt n = true ∧
        (n.hasFlag ClusterNodeFlag.pFail = true ∨ Peer.late now timeout n = true) ∧
        p.view.getMasterCount / 2 + 1 ≤ ((p.checkFailureDetection now timeout).reports x).card := by
  have hreports : ∀ y, (p.checkFailureDetection now timeout).reports y =
      if Peer.ownVote now timeout p.view y then insert p.view.myNodeId (p.reports y) else p.reports y := fun _ => rfl
  unfold failed
  show (ClusterManager.getNode (ClusterManager.mapNodes _ _) x).any _ = true ↔ _
  rw [getNode_mapNodes]
  cases hn : p.view.getNode x with
  | none => simp
  | some n =>
    have hset : (n.setFlag ClusterNodeFlag.pFail).hasFlag ClusterNodeFlag.pFail = true := hasFlag_setFlag_self (by decide) n
    have hkeep : (n.setFlag ClusterNodeFlag.pFail).hasFlag ClusterNodeFlag.fail = n.hasFlag ClusterNodeFlag.fail :=
      hasFlag_setFlag (by decide) n
    have hmark : ∀ m : ClusterNode,
        ((m.setFlag ClusterNodeFlag.fail).clearFlag ClusterNodeFlag.pFail).hasFlag ClusterNodeFlag.fail = true := by
      intro m
      rw [hasFlag_clearFlag (by decide), hasFlag_setFlag_self (by decide)]
    simp only [Option.map_some, Option.any_some, Option.some.injEq, exists_eq_left', hreports]
    by_cases hl : Peer.looksAt n = true
    · have hnot : n.hasFlag ClusterNodeFlag.fail = false := by
        unfold Peer.looksAt at hl
        simp only [Bool.and_eq_true, Bool.not_eq_true'] at hl
        exact hl.2
      rw [if_neg (by simp [hl])]
      by_cases hq : p.view.getMasterCount / 2 + 1 ≤
          (if Peer.ownVote now timeout p.view x then insert p.view.myNodeId (p.reports x) else p.reports x).card
      · by_cases hlate : Peer.late now timeout n = true
        · simp [hq, hlate, hset, hmark, hl]
        · by_cases hp : n.hasFlag ClusterNodeFlag.pFail = true
          · simp [hq, hlate, hp, hmark, hl]
          · simp [hlate, hp, hnot]
      · by_cases hlate : Peer.late now timeout n = true
        · simp [hq, hlate, hkeep]
        · simp [hq, hlate]
    · rw [if_pos (by simpa using hl)]
      simp [hl]

theorem marks_of_failed {e : HealthEvent} (h : failed (p.step e).view x = true) : failed p.view x = true ∨ Marks p x e := by
  rcases step_cases p e with heq | heq
  · rw [heq] at h
    exact .inl h
  · rw [heq] at h
    cases e with
    | ping env msg =>
      replace h : failed (p.handlePingPong env msg).view x = true := h
      rw [view_handlePingPong] at h
      exact failed_of_handlePingPong h
    | meet env msg =>
      replace h : failed (p.view.addNode msg.senderId _) x = true := h
      by_cases hx : x = msg.senderId
      · subst hx
        refine .inr ⟨rfl, ?_⟩
        rw [failed_addNode_self] at h
        replace h : (msg.flags &&& ~~~ClusterNodeFlag.myself &&& ClusterNodeFlag.fail != 0) = true := h
        rw [BitVec.and_assoc, show ~~~ClusterNodeFlag.myself &&& ClusterNodeFlag.fail = ClusterNodeFlag.fail by decide] at h
        simpa using h
      · rw [failed_addNode_ne hx] at h
        exact .inl h
    | fail msg =>
      replace h : failed (if msg.data1 ≠ [] then p.view.markNodeFail msg.data1 else p.view) x = true := h
      exact (failed_of_markNodeFail h).imp_right fun hx => hx.1.symm
    | check now timeout =>
      refine ((failed_check now timeout p x).mp h).imp_right ?_
      rintro ⟨n, -, -, -, hq⟩
      exact hq
    | failover replicaId => exact failed_of_failoverReplica h

/-! ### Runs -/

theorem run_append (p : Peer) (es es' : List HealthEvent) : p.run (es ++ es') = (p.run es).run es' := List.foldl_append

theorem myNodeId_run (p : Peer) (es : List HealthEvent) : (p.run es).view.myNodeId = p.view.myNodeId := by
  induction es generalizing p with
  | nil => rfl
  | cons e es ih =>
    show ((p.step e).run es).view.myNodeId = _
    rw [ih, myNodeId_step]

theorem votes_stay (p : Peer) (es : List HealthEvent) (x : Bytes) : p.reports x ⊆ (p.run es).reports x := by
  induction es generalizing p with
  | nil => exact Finset.Subset.refl _
  | cons e es ih =>
    refine fun r hr => ih (p.step e) ?_
    rcases step_cases p e with heq | heq
    · rwa [heq]
    · rw [heq]
      exact (mem_reports_effect p e x r).mpr (.inl hr)

theorem voted_of_mem (h0 : ∀ x, p.reports x = ∅) (h : r ∈ (p.run es).reports x) :
    Voted p.view.myNodeId es x r := by
  induction es using List.reverseRecOn with
  | nil =>
    replace h : r ∈ p.reports x := h
    rw [h0 x] at h
    exact absurd h (Finset.notMem_empty r)
  | append_singleton es e ih =>
    have hold : r ∈ (p.run es).reports x → Voted p.view.myNodeId (es ++ [e]) x r := by
      intro hin
      rcases ih hin with hme | ⟨env, msg, hin, hr, hx⟩
      · exact .inl hme
      · exact .inr ⟨env, msg, List.mem_append_left _ hin, hr, hx⟩
    rw [run_append] at h
    replace h : r ∈ ((p.run es).step e).reports x := h
    rcases step_cases (p.run es) e with heq | heq
    · exact hold (heq ▸ h)
    · rw [heq] at h
      rcases (mem_reports_effect (p.run es) e x r).mp h with hin | hvote
      · exact hold hin
      · cases e with
        | ping env msg =>
          obtain ⟨-, -, hx, hr⟩ := hvote
          exact .inr ⟨env, msg, List.mem_append_right _ (List.mem_singleton_self _), hr.symm, hx.symm⟩
        | check now timeout => exact .inl (hvote.2.trans (myNodeId_run p es))
        | meet | fail | failover => exact hvote.elim

/-! ## Top theorems -/

/-- A node that is marked as failed has been since an event that blames it: a message of its own or one that names it,
the failover of its replica, or a check that found a quorum of distinct voters. -/
theorem failed_cause (p : Peer) (es : List HealthEvent) (x : Bytes) (h0 : ∀ x, p.reports x = ∅)
    (hfine : failed p.view x = false) (h : failed (p.run es).view x = true) :
    ∃ pre e post, es = pre ++ e :: post ∧ Blames p pre x e ∧
      Causes.Cause Peer.step (fun p => failed p.view x = true) p pre e post := by
  obtain ⟨pre, e, post, rfl, hc⟩ := Causes.exists_cause Peer.step (fun p => failed p.view x = true)
    (by rw [hfine]; exact Bool.false_ne_true) h
  refine ⟨pre, e, post, rfl, ?_, hc⟩
  rcases marks_of_failed (p := p.run pre) (e := e) hc.after with hbefore | hmarks
  · exact absurd hbefore hc.before
  · cases e with
    | ping env msg => exact hmarks
    | meet env msg => exact hmarks
    | fail msg => exact hmarks
    | failover replicaId => exact hmarks
    | check now timeout =>
      refine ⟨((p.run pre).effect (.check now timeout)).reports x, hmarks, fun r hr => ?_⟩
      rcases (mem_reports_effect (p.run pre) (.check now timeout) x r).mp hr with hold | hvote
      · exact voted_of_mem h0 hold
      · exact .inl (hvote.2.trans (myNodeId_run p pre))

/-- Two masters, of which `b2` has been late. -/
def samplePeer : Peer :=
  { view := (({ myNodeId := lit "a1" } : ClusterManager).addNode (lit "a1") { flags := 5 }).addNode (lit "b2")
      { flags := 1, pongReceived := 10 } }

theorem failed_cause_sample :
    let told : HealthEvent := .fail { senderId := lit "c3", flags := 1, configEpoch := 0, data1 := lit "b2" }
    ∃ pre e post, [told] = pre ++ e :: post ∧ Blames samplePeer pre (lit "b2") e ∧
      Causes.Cause Peer.step (fun p => failed p.view (lit "b2") = true) samplePeer pre e post := by
  intro told
  exact failed_cause samplePeer [told] (lit "b2") (fun _ => rfl) (by decide) (by decide)

/-- Votes from before any events still count after them, however often the node has answered in between: once it is
late again, the first check marks it. -/
theorem stale_votes (p : Peer) (es : List HealthEvent) {x : Bytes} {n : ClusterNode} (now timeout : Int)
    (hn : (p.run es).view.getNode x = some n) (hlook : Peer.looksAt n = true) (hlate : Peer.late now timeout n = true)
    (hquorum : (p.run es).view.getMasterCount / 2 + 1 ≤ (p.reports x).card) :
    p.reports x ⊆ (p.run es).reports x ∧ failed ((p.run es).step (.check now timeout)).view x = true := by
  refine ⟨fun r hr => votes_stay p es x hr,
    (failed_check now timeout (p.run es) x).mpr (.inr ⟨n, hn, hlook, .inr hlate, hquorum.trans ?_⟩)⟩
  have hsub : p.reports x ⊆ ((p.run es).effect (.check now timeout)).reports x :=
    fun r hr => (mem_reports_effect (p.run es) _ x r).mpr (.inl (votes_stay p es x hr))
  exact Finset.card_le_card hsub

/-- Two old votes against `b2`, and a message of `b2` since. -/
theorem stale_votes_sample :
    let voted : Peer := { samplePeer with reports := fun _ => {lit "c3", lit "d4"} }
    let answer : HealthEvent := .meet { now := 20 } { senderId := lit "b2", flags := 1, configEpoch := 0 }
    failed ((voted.run [answer]).step (.check 30000 15000)).view (lit "b2") = true := by
  intro voted answer
  exact (stale_votes voted [answer] 30000 15000 rfl (by decide) (by decide) (by decide)).2

/-- The replica takes all the slots of its master and no others; nobody else gains or loses one, and no replica that is
known follows the old master any more. -/
theorem failover_owners {replica : ClusterNode} (h : (s.failoverReplica r).1 = true)
    (hr : s.getNode r = some replica) (hne : replica.masterId ≠ r)
    (hmaster : (s.getNode replica.masterId).any (·.hasFlag ClusterNodeFlag.slave) = false) :
    (∀ t id, (s.failoverReplica r).2.holds id t = true ↔
      ∃ owner, s.holds owner t = true ∧ id = if owner = replica.masterId then r else owner) ∧
    ∀ id n, (s.failoverReplica r).2.getNode id = some n → n.hasFlag ClusterNodeFlag.slave = true →
      n.masterId ≠ replica.masterId := by
  rcases failoverReplica_cases s r with heq | ⟨replica', oldMaster, hr', hslave, hold, -, hget⟩
  · rw [heq] at h
    cases h
  · obtain rfl : replica = replica' := Option.some.inj (hr.symm.trans hr')
    have holdmaster : oldMaster.hasFlag ClusterNodeFlag.slave = false := by
      rw [hold] at hmaster
      exact hmaster
    have hholds : ∀ id t, (s.failoverReplica r).2.holds id t =
        if id = replica.masterId then false else if id = r then oldMaster.slots t else s.holds id t := by
      intro id t
      unfold holds
      rw [hget id]
      by_cases hid : id = r
      · rw [hid, hr, if_neg (Ne.symm hne), if_pos rfl, Option.map_some, Option.any_some,
          promote_slots, promote_slave, if_pos rfl, if_neg (Ne.symm hne), if_pos rfl]
        rfl
      · cases s.getNode id with
        | none => simp [hid]
        | some n =>
          rw [Option.map_some, Option.any_some, Option.any_some, promote_slots, promote_slave, if_neg hid, if_neg hid]
          split
          · simp
          · rfl
    have hreplica : ∀ t, s.holds r t = false := by
      intro t
      unfold holds
      rw [hr, Option.any_some, hslave]
      rfl
    have hmasterslots : ∀ t, s.holds replica.masterId t = oldMaster.slots t := by
      intro t
      unfold holds
      rw [hold, Option.any_some, holdmaster]
      rfl
    refine ⟨fun t id => ?_, fun id n' hn' hs => ?_⟩
    · rw [hholds]
      constructor
      · intro hh
        split at hh
        · cases hh
        · next hid =>
          split at hh
          · next hidr => exact ⟨replica.masterId, by rw [hmasterslots, hh], by rw [if_pos rfl, hidr]⟩
          · exact ⟨id, hh, by rw [if_neg hid]⟩
      · rintro ⟨owner, howner, rfl⟩
        by_cases ho : owner = replica.masterId
        · rw [if_pos ho, if_neg (Ne.symm hne), if_pos rfl, ← hmasterslots, ← ho, howner]
        · have hor : owner ≠ r := by
            rintro rfl
            rw [hreplica] at howner
            cases howner
          rw [if_neg ho, if_neg ho, if_neg hor, howner]
    · rw [hget id] at hn'
      obtain ⟨n, -, rfl⟩ := Option.map_eq_some_iff.mp hn'
      exact promote_masterId hne oldMaster id hs

/-- A master with a replica. -/
def samplePair : ClusterManager :=
  (({} : ClusterManager).addNode (lit "m1") { flags := 1, slots := fun i => decide (i.val < 4) }).addNode (lit "r2")
    { flags := 2, masterId := lit "m1" }

theorem failover_owners_sample : (samplePair.failoverReplica (lit "r2")).2.holds (lit "r2") ⟨3, by decide⟩ = true :=
  ((failover_owners (s := samplePair) (r := lit "r2") rfl rfl (by decide) (by decide)).1 ⟨3, by decide⟩ (lit "r2")).mpr
    ⟨lit "m1", by decide, rfl⟩

end Cluster

end Kv
