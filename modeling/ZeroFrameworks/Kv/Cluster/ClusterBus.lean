import ZeroFrameworks.Kv.Cluster.ClusterManager
import ZeroFrameworks.Util.HashUtil

/-!
# Messages of the cluster bus

What a PING or PONG of another node does to the view of the cluster.  `handlePingPong` stores the sender's epoch and
slots first and has `updateNodeSlots` arbitrate them then, by the epoch it has just stored.

    handlePingPong env msg s = the sender stored, its slots claimed one by one, marks set   (handlePingPong_eq)
-/

namespace Kv

namespace Cluster

/-! ## Algorithm -/

/-- `base64ToSlots`; `none` where it leaves the slots alone. -/
def base64ToSlots (b64 : Bytes) : Option Slots :=
  let raw := Util.base64decode b64
  if raw.length ≠ kClusterSlotCount / 8 then none
  else some fun i => (raw.getD (i / 8) 0).toNat.testBit (i % 8)

/-- A PING or PONG, with the fields that its handler reads. -/
structure ClusterMessage where
  senderId : Bytes
  ip : Bytes := []
  port : Int := 0
  clusterPort : Int := 0
  flags : BitVec 16
  configEpoch : UInt64
  masterId : Bytes := []
  slotsBase64 : Bytes := []
  /-- The node that the sender reports as failed. -/
  data1 : Bytes := []

namespace ClusterMessage

def recvSlots (msg : ClusterMessage) : Slots := (base64ToSlots msg.slotsBase64).getD fun _ => false

/-- The slots that the message claims, in ascending order. -/
def claimed (msg : ClusterMessage) : List Slot := (List.finRange kClusterSlotCount).filter msg.recvSlots

/-- The node as the message describes it. -/
def describe (msg : ClusterMessage) (now : Int) (n : ClusterNode) : ClusterNode :=
  { n with
    ip := msg.ip
    port := msg.port
    clusterPort := msg.clusterPort
    flags := msg.flags &&& ~~~ClusterNodeFlag.myself
    masterId := msg.masterId
    configEpoch := msg.configEpoch
    slots := msg.recvSlots
    pongReceived := now }

end ClusterMessage

namespace ClusterBus

open ClusterManager

def handlePingPong (env : Env) (msg : ClusterMessage) (s : ClusterManager) : ClusterManager :=
  let node := msg.describe env.now ((s.getNode msg.senderId).getD {})
  let s := s.addNode msg.senderId node
  let s := s.updateNodeSlots env msg.senderId (msg.claimed.map fun i => (i.val : Int)) msg.configEpoch
  let s := s.clearNodeFail msg.senderId
  let s := if msg.data1 ≠ [] then s.markNodePFail msg.data1 else s
  let s := if msg.flags &&& ClusterNodeFlag.pFail ≠ 0 then s.markNodePFail msg.senderId else s
  if msg.flags &&& ClusterNodeFlag.fail ≠ 0 then s.markNodeFail msg.senderId else s

/-- `onMessage` on a PING or PONG. -/
def onMessage (env : Env) (msg : ClusterMessage) (s : ClusterManager) : ClusterManager :=
  if msg.senderId = s.myNodeId then s else handlePingPong env msg s

end ClusterBus

/-! ## Lemmas -/

/-- What the marks of failure leave alone. -/
structure Same (s s' : ClusterManager) : Prop where
  myNodeId : s'.myNodeId = s.myNodeId
  slots : ∀ id, (s'.getNode id).map (·.slots) = (s.getNode id).map (·.slots)
  configEpoch : ∀ id, (s'.getNode id).map (·.configEpoch) = (s.getNode id).map (·.configEpoch)
  slave : ∀ id, (s'.getNode id).map (·.hasFlag ClusterNodeFlag.slave) =
    (s.getNode id).map (·.hasFlag ClusterNodeFlag.slave)

theorem Same.refl (s : ClusterManager) : Same s s := ⟨rfl, fun _ => rfl, fun _ => rfl, fun _ => rfl⟩

theorem Same.trans {a b c : ClusterManager} (h : Same a b) (h' : Same b c) : Same a c :=
  ⟨h'.myNodeId.trans h.myNodeId, fun id => (h'.slots id).trans (h.slots id),
    fun id => (h'.configEpoch id).trans (h.configEpoch id), fun id => (h'.slave id).trans (h.slave id)⟩

theorem Same.modify {f : ClusterNode → ClusterNode} (hslots : ∀ n, (f n).slots = n.slots)
    (hepoch : ∀ n, (f n).configEpoch = n.configEpoch)
    (hslave : ∀ n, (f n).hasFlag ClusterNodeFlag.slave = n.hasFlag ClusterNodeFlag.slave)
    (s : ClusterManager) (id : Bytes) : Same s (s.modify id f) := by
  have hmap : ∀ {β : Type} (g : ClusterNode → β), (∀ n, g (f n) = g n) → ∀ i,
      ((s.modify id f).getNode i).map g = (s.getNode i).map g := by
    intro β g hg i
    rw [ClusterManager.getNode_modify]
    split
    · rw [Option.map_map]
      exact congrArg (Option.map · _) (funext hg)
    · rfl
  exact ⟨rfl, hmap _ hslots, hmap _ hepoch, hmap _ hslave⟩

theorem Same.holds {s s' : ClusterManager} (h : Same s s') : s'.holds = s.holds := by
  funext id slot
  have hslots := h.slots id
  have hslave := h.slave id
  unfold ClusterManager.holds
  cases hn : s.getNode id with
  | none =>
    rw [hn] at hslots
    rw [Option.map_eq_none_iff.mp hslots]
  | some n =>
    rw [hn] at hslots hslave
    obtain ⟨n', hn', heq⟩ := Option.map_eq_some_iff.mp hslots
    rw [hn', Option.map_some, Option.map_some, Option.some.injEq] at hslave
    rw [hn', Option.any_some, Option.any_some, heq, hslave]

theorem hasFlag_setFlag {f g : BitVec 16} (h : f &&& g = 0) (n : ClusterNode) :
    (n.setFlag f).hasFlag g = n.hasFlag g := by
  unfold ClusterNode.hasFlag ClusterNode.setFlag
  rw [BitVec.and_or_distrib_right, h]
  simp

theorem hasFlag_clearFlag {f g : BitVec 16} (h : ~~~f &&& g = g) (n : ClusterNode) :
    (n.clearFlag f).hasFlag g = n.hasFlag g := by
  unfold ClusterNode.hasFlag ClusterNode.clearFlag
  rw [BitVec.and_assoc, h]

theorem same_markNodePFail (s : ClusterManager) (id : Bytes) : Same s (s.markNodePFail id) := by
  refine .modify (fun n => ?_) (fun n => ?_) (fun n => ?_) s id
  · split <;> rfl
  · split <;> rfl
  · split
    · rfl
    · exact hasFlag_setFlag (by decide) n

theorem same_markNodeFail (s : ClusterManager) (id : Bytes) : Same s (s.markNodeFail id) := by
  refine .modify (fun n => ?_) (fun n => ?_) (fun n => ?_) s id
  · split <;> rfl
  · split <;> rfl
  · split
    · rfl
    · rw [hasFlag_clearFlag (by decide), hasFlag_setFlag (by decide)]

theorem same_clearNodeFail (s : ClusterManager) (id : Bytes) : Same s (s.clearNodeFail id) :=
  .modify (f := fun n => (n.clearFlag ClusterNodeFlag.fail).clearFlag ClusterNodeFlag.pFail) (fun _ => rfl)
    (fun _ => rfl) (fun n => by rw [hasFlag_clearFlag (by decide), hasFlag_clearFlag (by decide)]) s id

theorem slot?_val (i : Slot) : slot? (i.val : Int) = some i := by
  have hi : 0 ≤ (i.val : Int) ∧ (i.val : Int) < kClusterSlotCount := ⟨Int.natCast_nonneg _, Int.ofNat_lt.mpr i.isLt⟩
  unfold slot?
  rw [dif_pos hi]
  exact congrArg some (Fin.ext (Int.toNat_natCast i.val))

theorem filterMap_slot? (l : List Slot) : (l.map fun i => (i.val : Int)).filterMap slot? = l := by
  induction l with
  | nil => rfl
  | cons i l ih => rw [List.map_cons, List.filterMap_cons_some (slot?_val i), ih]

/-- The sender with what it says of itself, but for its slots, which it is to claim. -/
def ClusterMessage.stored (env : Env) (msg : ClusterMessage) (s : ClusterManager) : ClusterManager :=
  (s.addNode msg.senderId (msg.describe env.now ((s.getNode msg.senderId).getD {}))).modify msg.senderId fun n =>
    { n with
      configEpoch := if n.configEpoch < msg.configEpoch then msg.configEpoch else n.configEpoch
      slots := fun _ => false }

theorem describe_master {msg : ClusterMessage} (h : msg.flags &&& ClusterNodeFlag.slave = 0) (now : Int)
    (n : ClusterNode) : (msg.describe now n).hasFlag ClusterNodeFlag.slave = false := by
  unfold ClusterNode.hasFlag ClusterMessage.describe
  rw [BitVec.and_assoc, show ~~~ClusterNodeFlag.myself &&& ClusterNodeFlag.slave = ClusterNodeFlag.slave by decide, h]
  rfl

/-- The guard on stale messages compares the epoch of the message with itself. -/
theorem same_handlePingPong (env : Env) {msg : ClusterMessage} (h : msg.flags &&& ClusterNodeFlag.slave = 0)
    (s : ClusterManager) :
    Same (msg.claimed.foldl (ClusterManager.claimSlot env msg.senderId msg.configEpoch) (msg.stored env s))
      (ClusterBus.handlePingPong env msg s) := by
  have hepoch : ¬msg.configEpoch < (msg.describe env.now ((s.getNode msg.senderId).getD {})).configEpoch :=
    UInt64.lt_irrefl msg.configEpoch
  have hclaim : (s.addNode msg.senderId (msg.describe env.now ((s.getNode msg.senderId).getD {}))).updateNodeSlots env
      msg.senderId (msg.claimed.map fun i => (i.val : Int)) msg.configEpoch =
        msg.claimed.foldl (ClusterManager.claimSlot env msg.senderId msg.configEpoch) (msg.stored env s) := by
    unfold ClusterManager.updateNodeSlots
    rw [ClusterManager.getNode_addNode, if_pos rfl]
    simp only
    rw [describe_master h, if_neg Bool.false_ne_true, if_neg hepoch, filterMap_slot?]
    rfl
  have hmark : ∀ (p : Prop) [Decidable p] (f : ClusterManager → ClusterManager) (s : ClusterManager),
      (∀ s, Same s (f s)) → Same s (if p then f s else s) := by
    intro p _ f s hf
    split
    · exact hf s
    · exact .refl s
  unfold ClusterBus.handlePingPong
  simp only [hclaim]
  exact (((same_clearNodeFail _ msg.senderId).trans
    (hmark _ (·.markNodePFail msg.data1) _ fun s => same_markNodePFail s msg.data1)).trans
    (hmark _ (·.markNodePFail msg.senderId) _ fun s => same_markNodePFail s msg.senderId)).trans
    (hmark _ (·.markNodeFail msg.senderId) _ fun s => same_markNodeFail s msg.senderId)

end Cluster

end Kv
