import Mathlib.Data.List.AList
import ZeroFrameworks.Kv.Cluster.Slots
import ZeroFrameworks.Kv.Platform

/-!
# The view of the cluster

What a node knows of the others and of the slots each of them serves.  Slots are given to a node by `addSlots`, by
`setSlotOwner`, at the end of a migration, and by `updateNodeSlots`, which lets the configuration epochs decide
between two nodes that claim the same slot.

`m_myself` is the entry of the map under the node's own id, so it is looked up there.
-/

namespace Kv

namespace Cluster

/-! ## Data -/

abbrev Slot := Fin kClusterSlotCount

/-- `std::bitset`. -/
abbrev Slots := Slot → Bool

namespace ClusterNodeFlag

def master : BitVec 16 := 1
def slave : BitVec 16 := 2
def myself : BitVec 16 := 4
def pFail : BitVec 16 := 8
def fail : BitVec 16 := 16

end ClusterNodeFlag

/-- A node without its id, which is its key in the map. -/
structure ClusterNode where
  ip : Bytes := []
  port : Int := 0
  clusterPort : Int := 0
  flags : BitVec 16 := 0
  masterId : Bytes := []
  slots : Slots := fun _ => false
  configEpoch : UInt64 := 0
  pongReceived : Int := 0

namespace ClusterNode

def hasFlag (n : ClusterNode) (f : BitVec 16) : Bool := n.flags &&& f != 0

def setFlag (f : BitVec 16) (n : ClusterNode) : ClusterNode := { n with flags := n.flags ||| f }

def clearFlag (f : BitVec 16) (n : ClusterNode) : ClusterNode := { n with flags := n.flags &&& ~~~f }

/-- `slots.set(slot)` and `slots.reset(slot)`. -/
def putSlot (slot : Slot) (v : Bool) (n : ClusterNode) : ClusterNode :=
  { n with slots := fun t => if t = slot then v else n.slots t }

end ClusterNode

inductive SlotStateType where
  | normal
  | migrating
  | importing
deriving DecidableEq

structure SlotState where
  type : SlotStateType := .normal
  targetNodeId : Bytes := []

structure ClusterManager where
  myNodeId : Bytes := []
  nodes : AList fun _ : Bytes => ClusterNode := ∅
  slotStates : Slot → SlotState := fun _ => {}
  configEpoch : UInt64 := 0

/-- The check of a slot number. -/
def slot? (n : Int) : Option Slot :=
  if h : 0 ≤ n ∧ n < kClusterSlotCount then some ⟨n.toNat, by omega⟩ else none

namespace ClusterManager

/-! ## Algorithm -/

/-- `init`; `fresh` is the id that `generateNodeId` draws. -/
def init (myNodeId bindIp : Bytes) (port clusterPort : Int) (announceIp : Bytes) (announcePort : Int)
    (fresh : Bytes) (now : Int) (s : ClusterManager) : ClusterManager :=
  let id := if myNodeId = [] then fresh else myNodeId
  let node : ClusterNode :=
    { ip := if announceIp = [] then bindIp else announceIp
      port := if 0 < announcePort then announcePort else port
      clusterPort := clusterPort
      flags := ClusterNodeFlag.myself ||| ClusterNodeFlag.master
      pongReceived := now }
  { s with myNodeId := id, nodes := s.nodes.insert id node }

def getNode (s : ClusterManager) (id : Bytes) : Option ClusterNode := s.nodes.lookup id

def addNode (id : Bytes) (n : ClusterNode) (s : ClusterManager) : ClusterManager :=
  { s with nodes := s.nodes.insert id n }

/-- A change of the nodes in their places. -/
def mapNodes (f : Bytes → ClusterNode → ClusterNode) (s : ClusterManager) : ClusterManager :=
  { s with nodes := ⟨s.nodes.entries.map (.map id f), s.nodes.nodupKeys.map₂ f⟩ }

/-- A change of the node that `m_nodes.find` gives, if it does. -/
def modify (id : Bytes) (f : ClusterNode → ClusterNode) (s : ClusterManager) : ClusterManager :=
  s.mapNodes fun i n => if i = id then f n else n

def setState (slot : Slot) (st : SlotState) (s : ClusterManager) : ClusterManager :=
  { s with slotStates := fun t => if t = slot then st else s.slotStates t }

/-- A known master has the slot in its set. -/
def holds (s : ClusterManager) (id : Bytes) (slot : Slot) : Bool :=
  (s.getNode id).any fun n => !n.hasFlag ClusterNodeFlag.slave && n.slots slot

def addSlot (s : ClusterManager) (slot : Slot) : ClusterManager :=
  (s.modify s.myNodeId (.putSlot slot true)).setState slot { s.slotStates slot with type := .normal }

def addSlots (slots : List Int) (s : ClusterManager) : ClusterManager :=
  if (s.getNode s.myNodeId).isNone then s else (slots.filterMap slot?).foldl addSlot s

def setSlotMigrating (slot : Int) (targetNodeId : Bytes) (s : ClusterManager) : Bool × ClusterManager :=
  match slot? slot with
  | none => (false, s)
  | some t =>
    if !(s.getNode s.myNodeId).any (·.slots t) then (false, s)
    else (true, s.setState t { type := .migrating, targetNodeId := targetNodeId })

def setSlotImporting (slot : Int) (sourceNodeId : Bytes) (s : ClusterManager) : Bool × ClusterManager :=
  match slot? slot with
  | none => (false, s)
  | some t =>
    if !(s.getNode s.myNodeId).any (!·.slots t) then (false, s)
    else (true, s.setState t { type := .importing, targetNodeId := sourceNodeId })

def setSlotStable (slot : Int) (s : ClusterManager) : Bool × ClusterManager :=
  match slot? slot with
  | none => (false, s)
  | some t => (true, s.setState t {})

def finishMigration (slot : Int) (s : ClusterManager) : Bool × ClusterManager :=
  match slot? slot with
  | none => (false, s)
  | some t =>
    let st := s.slotStates t
    if st.type ≠ .migrating then (false, s)
    else if st.targetNodeId = [] then (false, s)
    else
      (true, ((s.modify s.myNodeId (.putSlot t false)).modify st.targetNodeId (.putSlot t true)).setState t {})

def setSlotOwner (slot : Int) (nodeId : Bytes) (epoch : UInt64) (s : ClusterManager) : Bool × ClusterManager :=
  match slot? slot with
  | none => (false, s)
  | some t =>
    match s.getNode nodeId with
    | none => (false, s)
    | some target =>
      if target.hasFlag ClusterNodeFlag.slave then (false, s)
      else
        let cleared := s.mapNodes fun id n =>
          if n.hasFlag ClusterNodeFlag.slave ∨ id = nodeId then n else n.putSlot t false
        let s' := (cleared.modify nodeId (.putSlot t true)).setState t {}
        (true, { s' with configEpoch := if s.configEpoch < epoch then epoch else s.configEpoch + 1 })

/-- One round of the loop of `updateNodeSlots`; the nodes are met in the order of the map. -/
def claimSlot (env : Env) (nodeId : Bytes) (epoch : UInt64) (s : ClusterManager) (slot : Slot) : ClusterManager :=
  match (env.order s.nodes.keys).find? fun id => id != nodeId && s.holds id slot with
  | none => s.modify nodeId (.putSlot slot true)
  | some owner =>
    if owner = [] then s.modify nodeId (.putSlot slot true)
    else
      let ownerEpoch := (s.getNode owner).elim 0 (·.configEpoch)
      -- of two equal epochs the greater id wins
      if ownerEpoch < epoch ∨ epoch = ownerEpoch ∧ (compare nodeId owner).isGT then
        (s.modify owner (.putSlot slot false)).modify nodeId (.putSlot slot true)
      else s

def updateNodeSlots (env : Env) (nodeId : Bytes) (slots : List Int) (epoch : UInt64) (s : ClusterManager) :
    ClusterManager :=
  match s.getNode nodeId with
  | none => s
  | some target =>
    if target.hasFlag ClusterNodeFlag.slave then s
    else if epoch < target.configEpoch then s
    else
      (slots.filterMap slot?).foldl (claimSlot env nodeId epoch) (s.modify nodeId fun n =>
        { n with configEpoch := if n.configEpoch < epoch then epoch else n.configEpoch, slots := fun _ => false })

def markNodePFail (id : Bytes) (s : ClusterManager) : ClusterManager :=
  s.modify id fun n => if n.hasFlag ClusterNodeFlag.myself then n else n.setFlag ClusterNodeFlag.pFail

def markNodeFail (id : Bytes) (s : ClusterManager) : ClusterManager :=
  s.modify id fun n =>
    if n.hasFlag ClusterNodeFlag.myself then n
    else (n.setFlag ClusterNodeFlag.fail).clearFlag ClusterNodeFlag.pFail

def clearNodeFail (id : Bytes) (s : ClusterManager) : ClusterManager :=
  s.modify id fun n => (n.clearFlag ClusterNodeFlag.fail).clearFlag ClusterNodeFlag.pFail

/-! ## Lemmas -/

variable {s : ClusterManager} {id nodeId : Bytes} {slot t : Slot}

@[simp] theorem getNode_mapNodes (f : Bytes → ClusterNode → ClusterNode) (s : ClusterManager) (id : Bytes) :
    (s.mapNodes f).getNode id = (s.getNode id).map (f id) := List.dlookup_map₂ id

@[simp] theorem getNode_modify (f : ClusterNode → ClusterNode) (s : ClusterManager) (i id : Bytes) :
    (s.modify i f).getNode id = if id = i then (s.getNode id).map f else s.getNode id := by
  rw [modify, getNode_mapNodes]
  split
  · rfl
  · exact Option.map_id'

theorem isSome_getNode_modify (f : ClusterNode → ClusterNode) (s : ClusterManager) (i id : Bytes) :
    ((s.modify i f).getNode id).isSome = (s.getNode id).isSome := by
  rw [getNode_modify]
  split
  · exact Option.isSome_map
  · rfl

theorem getNode_addNode (n : ClusterNode) (s : ClusterManager) (i id : Bytes) :
    (s.addNode i n).getNode id = if id = i then some n else s.getNode id := by
  unfold addNode getNode
  by_cases h : id = i
  · subst h
    rw [if_pos rfl]
    exact AList.lookup_insert s.nodes
  · rw [if_neg h]
    exact AList.lookup_insert_ne h

theorem known_of_holds (h : s.holds id slot = true) : (s.getNode id).isSome := by
  unfold holds at h
  obtain ⟨n, hn, -⟩ := (Option.any_eq_true ..).mp h
  exact Option.isSome_iff_exists.mpr ⟨n, hn⟩

theorem mem_keys_of_holds (h : s.holds id slot = true) : id ∈ s.nodes.keys :=
  AList.lookup_isSome.mp (known_of_holds h)

theorem holds_putSlot (v : Bool) (s : ClusterManager) (i id : Bytes) :
    (s.modify i (.putSlot slot v)).holds id t =
      if id = i ∧ t = slot then
        v && (s.getNode id).any fun n => !n.hasFlag ClusterNodeFlag.slave
      else s.holds id t := by
  unfold holds
  rw [getNode_modify]
  by_cases hid : id = i
  · rw [if_pos hid]
    by_cases ht : t = slot
    · rw [if_pos ⟨hid, ht⟩]
      cases s.getNode id with
      | none => simp
      | some n => simp [ClusterNode.putSlot, ClusterNode.hasFlag, ht, Bool.and_comm]
    · rw [if_neg fun h => ht h.2]
      cases s.getNode id with
      | none => rfl
      | some n => simp [ClusterNode.putSlot, ClusterNode.hasFlag, ht]
  · rw [if_neg hid, if_neg fun h => hid h.1]

end ClusterManager

end Cluster

end Kv
