import ZeroFrameworks.Kv.Cluster.SlotClaims

/-!
# What a message leaves of each node

Each node of a view, compared with the same node before an operation: `Follows R s s'` holds if `R` holds of every node
before and after.

    every change that a message makes to one node is in R → the message leaves a view that follows   (follows_handlePingPong)
-/

namespace Kv

namespace Cluster

/-- The same nodes are known, and each is as `R` says. -/
structure Follows (R : ClusterNode → ClusterNode → Prop) (s s' : ClusterManager) : Prop where
  myNodeId : s'.myNodeId = s.myNodeId
  node : ∀ id, Option.Rel R (s.getNode id) (s'.getNode id)

/-- `R` allows a node to stay, and to change in steps. -/
structure Stepwise (R : ClusterNode → ClusterNode → Prop) : Prop where
  refl : ∀ n, R n n
  trans : ∀ {a b c}, R a b → R b c → R a c

/-! ## Lemmas -/

namespace Follows

open ClusterManager

variable {R : ClusterNode → ClusterNode → Prop} {s s' s'' : ClusterManager} {id : Bytes}

theorem map_eq {β : Type} {g : ClusterNode → β} (h : Follows R s s') (hg : ∀ {n n'}, R n n' → g n' = g n) (id : Bytes) :
    (s'.getNode id).map g = (s.getNode id).map g := by
  have hrel := h.node id
  generalize s.getNode id = a, s'.getNode id = b at hrel
  cases hrel with
  | some hr => exact congrArg some (hg hr)
  | none => rfl

theorem refl (hR : Stepwise R) (s : ClusterManager) : Follows R s s := by
  refine ⟨rfl, fun id => ?_⟩
  cases s.getNode id with
  | none => exact .none
  | some n => exact .some (hR.refl n)

theorem trans (hR : Stepwise R) (h : Follows R s s') (h' : Follows R s' s'') : Follows R s s'' := by
  refine ⟨h'.myNodeId.trans h.myNodeId, fun id => ?_⟩
  have hab := h.node id
  have hbc := h'.node id
  generalize s.getNode id = a, s'.getNode id = b, s''.getNode id = c at hab hbc
  cases hab with
  | none => exact hbc
  | some hr =>
    cases hbc with
    | some hr' => exact .some (hR.trans hr hr')

theorem modify (hR : Stepwise R) {f : ClusterNode → ClusterNode} (hf : ∀ n, R n (f n)) (s : ClusterManager) (i : Bytes) :
    Follows R s (s.modify i f) := by
  refine ⟨rfl, fun id => ?_⟩
  rw [getNode_modify]
  cases s.getNode id with
  | none => split <;> exact .none
  | some n =>
    split
    · exact .some (hf n)
    · exact .some (hR.refl n)

theorem mark (hR : Stepwise R) (q : Prop) [Decidable q] {f : ClusterManager → ClusterManager} (h : ∀ s, Follows R s (f s))
    (s : ClusterManager) : Follows R s (if q then f s else s) := by
  split
  · exact h s
  · exact refl hR s

theorem updateNodeSlots (hR : Stepwise R) (ts : List Slot) (hput : ∀ n, ∀ t ∈ ts, ∀ v, R n (n.putSlot t v))
    (hclear : ∀ n e, R n { n with configEpoch := e, slots := fun _ => false }) (env : Env) (i : Bytes) (epoch : UInt64)
    (s : ClusterManager) : Follows R s (s.updateNodeSlots env i (ts.map fun t => (t.val : Int)) epoch) := by
  have hclaim : ∀ (ts' : List Slot) (s : ClusterManager), (∀ t ∈ ts', t ∈ ts) →
      Follows R s (ts'.foldl (claimSlot env i epoch) s) := by
    intro ts'
    induction ts' with
    | nil => exact fun s _ => refl hR s
    | cons t ts' ih =>
      intro s hsub
      have hone : ∀ (v : Bool) (s : ClusterManager) (j : Bytes), Follows R s (s.modify j (.putSlot t v)) :=
        fun v s j => modify hR (fun n => hput n t (hsub t List.mem_cons_self) v) s j
      have hfirst : Follows R s (claimSlot env i epoch s t) := by
        rcases claimSlot_cases env i epoch s t with ⟨heq, -⟩ | ⟨owner, -, -, -, heq | heq⟩
        · rw [heq]
          exact hone true s i
        · rw [heq]
          exact (hone false s owner).trans hR (hone true _ i)
        · rw [heq]
          exact refl hR s
      exact hfirst.trans hR (ih _ fun u hu => hsub u (List.mem_cons_of_mem t hu))
  unfold ClusterManager.updateNodeSlots
  split
  · exact refl hR s
  · split
    · exact refl hR s
    · split
      · exact refl hR s
      · rw [filterMap_slot?]
        exact (modify hR (fun n => hclear n _) s i).trans hR (hclaim ts _ fun _ ht => ht)

end Follows

/-! ## Top theorem -/

theorem follows_handlePingPong {R : ClusterNode → ClusterNode → Prop} (hR : Stepwise R) (env : Env) (msg : ClusterMessage)
    (s : ClusterManager) (hput : ∀ n, ∀ t ∈ msg.claimed, ∀ v, R n (n.putSlot t v))
    (hclear : ∀ n e, R n { n with configEpoch := e, slots := fun _ => false }) (hflags : ∀ n fl, R n { n with flags := fl }) :
    Follows R (s.addNode msg.senderId (msg.describe env.now ((s.getNode msg.senderId).getD {})))
      (ClusterBus.handlePingPong env msg s) := by
  have hpfail : ∀ i s, Follows R s (ClusterManager.markNodePFail i s) := by
    refine fun i s => .modify hR (fun n => ?_) s i
    split
    · exact hR.refl n
    · exact hflags n _
  have hfail : ∀ s, Follows R s (ClusterManager.markNodeFail msg.senderId s) := by
    refine fun s => .modify hR (fun n => ?_) s msg.senderId
    split
    · exact hR.refl n
    · exact hflags n _
  have hback : ∀ s, Follows R s (ClusterManager.clearNodeFail msg.senderId s) :=
    fun s => .modify hR (fun n => hflags n _) s msg.senderId
  exact ((((Follows.updateNodeSlots hR msg.claimed hput hclear env msg.senderId msg.configEpoch _).trans hR (hback _)).trans hR
    (.mark hR _ (hpfail msg.data1) _)).trans hR (.mark hR _ (hpfail msg.senderId) _)).trans hR (.mark hR _ hfail _)

end Cluster

end Kv
