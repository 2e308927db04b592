import ZeroFrameworks.Kv.Cluster.Frames

/-!
# What nodes are told about each other

A message carries the slots of a node as a bitmap in base64, which comes back (`base64ToSlots_slotsToBase64`), and the
receiver stores all of a message under the id of its sender (`stored_of_message`).  A PING or PONG describes its sender:

    the receiver has the address and no slots but those of the sender's own entry   (announced)

An UPDATE describes the node whose slots have changed, under the id of the node that tells:

    the receiver has the address and no slots but those of the other node, as the sender's   (update_misattributed)
-/

namespace Kv

namespace Cluster

/-! ## Algorithm -/

/-- The bitmap: bit `i % 8` of byte `i / 8` for the slot `i`. -/
def slotsToRaw (slots : Slots) : Bytes :=
  (List.finRange kClusterSlotCount).foldl
    (fun raw i => if slots i then raw.modify (i.val / 8) (· ||| 1 <<< UInt8.ofNat (i.val % 8)) else raw)
    (List.replicate (kClusterSlotCount / 8) 0)

def slotsToBase64 (slots : Slots) : Bytes := Util.base64encode (slotsToRaw slots)

namespace ClusterManager

/-- `buildNodeMessage`: what a node says of itself. -/
def buildNodeMessage (s : ClusterManager) : ClusterMessage :=
  match s.getNode s.myNodeId with
  | none => { senderId := s.myNodeId, flags := 0, configEpoch := 0 }
  | some myself =>
    { senderId := s.myNodeId, ip := myself.ip, port := myself.port, clusterPort := myself.clusterPort
      flags := myself.flags, configEpoch := s.configEpoch, masterId := myself.masterId
      slotsBase64 := slotsToBase64 myself.slots }

/-- The message of `broadcastSlotUpdate`, where the node is known. -/
def slotUpdate (nodeId : Bytes) (s : ClusterManager) : Option ClusterMessage :=
  (s.getNode nodeId).map fun node =>
    { senderId := s.myNodeId, ip := node.ip, port := node.port, clusterPort := node.clusterPort, flags := node.flags
      masterId := node.masterId, configEpoch := s.configEpoch, slotsBase64 := slotsToBase64 node.slots }

end ClusterManager

/-! ## Specification -/

/-- Where a node is reached, and its master. -/
def address (n : ClusterNode) : Bytes × Int × Int × Bytes := (n.ip, n.port, n.clusterPort, n.masterId)

/-- In `b'`, the entry of `id` has the address of `node` and no slots but those of `node`, and the others have the
addresses that they have in `b`. -/
structure Recorded (id : Bytes) (node : ClusterNode) (b b' : ClusterManager) : Prop where
  entry : ∃ n, b'.getNode id = some n ∧ address n = address node ∧ ∀ t, n.slots t = true → node.slots t = true
  others : ∀ i, i ≠ id → (b'.getNode i).map address = (b.getNode i).map address

/-! ## Lemmas -/

/-! ### Slots -/

theorem testBit_or_shift (b : UInt8) {k j : Nat} (hk : k < 8) (hj : j < 8) :
    (b ||| 1 <<< UInt8.ofNat k).toNat.testBit j = (b.toNat.testBit j || decide (k = j)) := by
  have hone : ∀ k < 8, ∀ j < 8, ((1 : UInt8) <<< UInt8.ofNat k).toNat.testBit j = decide (k = j) := by decide
  rw [UInt8.toNat_or, Nat.testBit_or, hone k hk j hj]

/-- The bits that the loop over `is` sets, on top of those that are set. -/
theorem getD_foldl_bits (slots : Slots) (is : List Slot) (raw : Bytes) (hlen : raw.length = kClusterSlotCount / 8) {k j : Nat}
    (hk : k < kClusterSlotCount / 8) (hj : j < 8) :
    let out := is.foldl
      (fun raw i => if slots i then raw.modify (i.val / 8) (· ||| 1 <<< UInt8.ofNat (i.val % 8)) else raw) raw
    out.length = raw.length ∧ (out.getD k 0).toNat.testBit j =
      ((raw.getD k 0).toNat.testBit j || is.any fun i => slots i && decide (i.val / 8 = k ∧ i.val % 8 = j)) := by
  induction is generalizing raw with
  | nil => simp
  | cons i is ih =>
    simp only [List.foldl_cons, List.any_cons]
    by_cases hi : slots i = true
    · rw [if_pos hi]
      obtain ⟨hlen', hbit⟩ := ih (raw.modify (i.val / 8) (· ||| 1 <<< UInt8.ofNat (i.val % 8))) (by simp [hlen])
      refine ⟨by simpa using hlen', ?_⟩
      rw [hbit, hi, Bool.true_and, ← Bool.or_assoc]
      congr 1
      simp only [List.getD_eq_getElem?_getD, List.getElem?_modify]
      have hget : raw[k]? = some raw[k] := List.getElem?_eq_getElem (by omega)
      rw [hget]
      by_cases hik : i.val / 8 = k
      · simp only [hik, if_true, Option.map_eq_map, Option.map_some, Option.getD_some, true_and]
        rw [testBit_or_shift _ (by omega) hj]
      · simp [hik]
    · rw [if_neg hi]
      simpa [hi] using ih raw hlen

theorem length_slotsToRaw (slots : Slots) : (slotsToRaw slots).length = kClusterSlotCount / 8 := by
  have h := getD_foldl_bits slots (List.finRange kClusterSlotCount) (List.replicate (kClusterSlotCount / 8) 0)
    List.length_replicate (k := 0) (j := 0) (by decide) (by decide)
  rw [slotsToRaw, h.1, List.length_replicate]

theorem testBit_slotsToRaw (slots : Slots) (i : Slot) :
    ((slotsToRaw slots).getD (i.val / 8) 0).toNat.testBit (i.val % 8) = slots i := by
  have hcount : kClusterSlotCount = 16384 := rfl
  have hi := i.isLt
  have h := getD_foldl_bits slots (List.finRange kClusterSlotCount) (List.replicate (kClusterSlotCount / 8) 0)
    List.length_replicate (k := i.val / 8) (j := i.val % 8) (by omega) (by omega)
  rw [slotsToRaw, h.2, List.getD_eq_getElem?_getD, List.getElem?_replicate, if_pos (by omega)]
  simp only [Option.getD_some, UInt8.toNat_zero, Nat.zero_testBit, Bool.false_or]
  rw [Bool.eq_iff_iff, List.any_eq_true]
  constructor
  · rintro ⟨t, -, ht⟩
    simp only [Bool.and_eq_true, decide_eq_true_eq] at ht
    have heq : t = i := Fin.ext (by omega)
    rw [← heq]
    exact ht.1
  · intro hs
    exact ⟨i, List.mem_finRange i, by simp [hs]⟩

theorem base64ToSlots_slotsToBase64 (slots : Slots) : base64ToSlots (slotsToBase64 slots) = some slots := by
  have hraw : Util.base64decode (slotsToBase64 slots) = slotsToRaw slots := Util.base64decode_encode _
  unfold base64ToSlots
  rw [hraw]
  simp only
  rw [if_neg (by rw [length_slotsToRaw]; exact fun h => h rfl)]
  exact congrArg some (funext fun i => testBit_slotsToRaw slots i)

/-! ### Messages -/

/-- A message stores its address under the id of its sender, and gives nobody slots but those that it lists. -/
theorem within_handlePingPong (env : Env) (msg : ClusterMessage) (s : ClusterManager) :
    Follows (fun n n' => address n' = address n ∧ ∀ t, n'.slots t = true → n.slots t = true ∨ msg.recvSlots t = true)
      (s.addNode msg.senderId (msg.describe env.now ((s.getNode msg.senderId).getD {})))
      (ClusterBus.handlePingPong env msg s) := by
  refine follows_handlePingPong ⟨fun _ => ⟨rfl, fun _ h => .inl h⟩, ?_⟩ env msg s ?_
    (fun _ _ => ⟨rfl, fun _ h => absurd h Bool.false_ne_true⟩) (fun _ _ => ⟨rfl, fun _ h => .inl h⟩)
  · rintro a b c ⟨haddr, hslots⟩ ⟨haddr', hslots'⟩
    refine ⟨haddr'.trans haddr, fun t ht => ?_⟩
    rcases hslots' t ht with hin | hall
    · exact hslots t hin
    · exact .inr hall
  · intro n t ht v
    refine ⟨rfl, fun u hu => ?_⟩
    simp only [ClusterNode.putSlot] at hu
    split at hu
    · next heq => exact .inr (heq ▸ (List.mem_filter.mp ht).2)
    · exact .inl hu

/-- A message is stored as the entry of its sender, whatever it describes. -/
theorem stored_of_message {env : Env} {b : ClusterManager} {msg : ClusterMessage} {id : Bytes} {node : ClusterNode}
    (hne : id ≠ b.myNodeId) (hsender : msg.senderId = id) (hslots : msg.slotsBase64 = slotsToBase64 node.slots)
    (haddress : ∀ n, address (msg.describe env.now n) = address node) :
    Recorded id node b (ClusterBus.onMessage env msg b) := by
  subst hsender
  have hrecv : msg.recvSlots = node.slots := by
    unfold ClusterMessage.recvSlots
    rw [hslots, base64ToSlots_slotsToBase64]
    rfl
  have hmessage : ClusterBus.onMessage env msg b = ClusterBus.handlePingPong env msg b := if_neg hne
  have hw := within_handlePingPong env msg b
  rw [← hmessage, hrecv] at hw
  refine ⟨?_, fun id hid => ?_⟩
  · have hrel := hw.node msg.senderId
    rw [ClusterManager.getNode_addNode, if_pos rfl] at hrel
    generalize hn : (ClusterBus.onMessage env msg b).getNode msg.senderId = o at hrel ⊢
    cases hrel with
    | some hr =>
      refine ⟨_, rfl, hr.1.trans (haddress _), fun t ht => ?_⟩
      rcases hr.2 t ht with hin | hin
      · exact hrecv ▸ hin
      · exact hin
  · rw [hw.map_eq And.left id, ClusterManager.getNode_addNode, if_neg hid]

/-! ## Top theorems -/

/-- Who hears a node speak of itself, and of one that it holds for failed, records it so. -/
theorem announced (env : Env) {a b : ClusterManager} {myself : ClusterNode} (hself : a.getNode a.myNodeId = some myself)
    (hne : a.myNodeId ≠ b.myNodeId) (gossip : Bytes) :
    Recorded a.myNodeId myself b (ClusterBus.onMessage env { a.buildNodeMessage with data1 := gossip } b) := by
  have hsender : a.buildNodeMessage.senderId = a.myNodeId := by
    unfold ClusterManager.buildNodeMessage
    split <;> rfl
  refine stored_of_message hne hsender ?_ fun n => ?_
  · show a.buildNodeMessage.slotsBase64 = _
    unfold ClusterManager.buildNodeMessage
    rw [hself]
  · show (a.buildNodeMessage.ip, a.buildNodeMessage.port, a.buildNodeMessage.clusterPort, a.buildNodeMessage.masterId) = _
    unfold ClusterManager.buildNodeMessage
    rw [hself]
    rfl

/-- The view of a master `a1` that knows the master `x2`. -/
def sampleSender : ClusterManager :=
  (({ myNodeId := lit "a1" } : ClusterManager).addNode (lit "a1") { ip := lit "10.0.0.7", flags := 5 }).addNode (lit "x2")
    { ip := lit "10.0.0.8", port := 6380, clusterPort := 16380, flags := 1, slots := fun i => decide (i.val < 10) }

theorem announced_sample :
    ∃ n, (ClusterBus.onMessage { now := 1 } { sampleSender.buildNodeMessage with data1 := lit "x2" }
      { myNodeId := lit "b3" }).getNode (lit "a1") = some n ∧ n.ip = lit "10.0.0.7" := by
  obtain ⟨n, hn, haddr, -⟩ := (announced { now := 1 } (a := sampleSender) (b := { myNodeId := lit "b3" }) rfl
    (by decide) (lit "x2")).entry
  exact ⟨n, hn, congrArg Prod.fst haddr⟩

/-- Who gets an UPDATE of `a` about the node `x` takes the address and the slots of `x` for those of `a`; what it knows
of the address of `x` stays. -/
theorem update_misattributed (env : Env) {a b : ClusterManager} {x : Bytes} {node : ClusterNode} {msg : ClusterMessage}
    (hx : a.getNode x = some node) (hmsg : a.slotUpdate x = some msg) (hne : a.myNodeId ≠ b.myNodeId) :
    Recorded a.myNodeId node b (ClusterBus.onMessage env msg b) := by
  simp only [ClusterManager.slotUpdate, hx, Option.map_some, Option.some.injEq] at hmsg
  refine stored_of_message hne ?_ ?_ fun n => ?_
  · rw [← hmsg]
  · rw [← hmsg]
  · rw [← hmsg]
    rfl

theorem update_misattributed_sample :
    ∃ msg, sampleSender.slotUpdate (lit "x2") = some msg ∧
      ∃ n, (ClusterBus.onMessage { now := 1 } msg { myNodeId := lit "b3" }).getNode (lit "a1") = some n ∧
        n.ip = lit "10.0.0.8" ∧ n.port = 6380 := by
  refine ⟨_, rfl, ?_⟩
  obtain ⟨n, hn, haddr, -⟩ := (update_misattributed { now := 1 } (a := sampleSender) (b := { myNodeId := lit "b3" })
    (x := lit "x2") rfl rfl (by decide)).entry
  exact ⟨n, hn, congrArg Prod.fst haddr, congrArg (·.2.1) haddr⟩

end Cluster

end Kv
