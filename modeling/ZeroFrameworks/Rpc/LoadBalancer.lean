import ZeroFrameworks.Kv.Bytes

/-!
# The load balancer

The nodes of a service in the order of its last discovery update, and the strategies that pick one by its
position.

    selectNode = some i → the node at i is healthy   (selectNode_healthy)
    selectLeastConnections = some i → no healthy node has fewer activeRequests   (selectLeastConnections_spec)
-/

namespace Rpc

open Kv (Bytes BMap lit)

structure RpcNode where
  id : Bytes
  host : Bytes
  port : Int
  weight : Int32 := 1
  healthy : Bool := true
  activeRequests : UInt64 := 0
  totalRequests : UInt64 := 0
  failedRequests : UInt64 := 0
  metadata : BMap Bytes := ∅

structure RpcLbContext where
  sourceKey : Bytes := []
  zone : Bytes := []
  canary : Bool := false
  canaryTag : Bytes := []

inductive LoadBalanceStrategy where
  | roundRobin
  | random
  | leastConnections
  | weightedRoundRobin
  | weightedRandom
  | consistentHash
  | canary
  | sameZone
deriving DecidableEq

structure RpcLoadBalancer where
  strategy : LoadBalanceStrategy
  nodes : List RpcNode := []
  rrIndex : UInt64 := 0
  wrrIndex : UInt64 := 0

/-! ## Algorithm -/

def fnv1aHash (s : Bytes) : UInt64 :=
  s.foldl (fun h c => (h ^^^ c.toUInt64) * 1099511628211) 14695981039346656037

def RpcNode.isCanary (n : RpcNode) : Bool := decide (n.metadata[lit "canary"]? = some (lit "true"))

def RpcNode.isIn (zone : Bytes) (n : RpcNode) : Bool := decide (n.metadata[lit "zone"]? = some zone)

/-- The positions of the healthy nodes that `p` holds of. -/
def healthyIdx (p : RpcNode → Bool) (nodes : List RpcNode) : List Nat :=
  (nodes.zipIdx.filter fun x => x.1.healthy && p x.1).map (·.2)

/-- `candidates[hash % candidates.size()]`, or `-1` when there is none. -/
def pick (candidates : List Nat) (hash : Nat) : Option Nat := candidates[hash % candidates.length]?

/-- One turn of the loop of `selectLeastConnections`, with `best` and `minActive`. -/
def lessActive (acc : Option Nat × UInt64) (x : RpcNode × Nat) : Option Nat × UInt64 :=
  if x.1.healthy = true ∧ x.1.activeRequests < acc.2 then (some x.2, x.1.activeRequests) else acc

def totalWeight (nodes : List RpcNode) : Int32 :=
  (nodes.filter (·.healthy)).foldl (fun total n => total + n.weight) 0

/-- The loop of the weighted strategies. -/
def reach (target : Int32) : List (RpcNode × Nat) → Int32 → Option Nat
  | [], _ => none
  | (n, i) :: rest, current =>
    if !n.healthy then reach target rest current
    else if target ≤ current + n.weight then some i
    else reach target rest (current + n.weight)

namespace RpcLoadBalancer

def create (strategy : LoadBalanceStrategy) : RpcLoadBalancer := { strategy }

def updateNodes (nodes : List RpcNode) (b : RpcLoadBalancer) : RpcLoadBalancer :=
  { b with nodes := nodes.map fun n =>
    { id := n.id, host := n.host, port := n.port, weight := n.weight, healthy := n.healthy, metadata := n.metadata } }

def selectRoundRobin (b : RpcLoadBalancer) : Option Nat × RpcLoadBalancer :=
  if b.nodes.isEmpty then (none, b)
  else
    (((List.range b.nodes.length).map fun i => (b.rrIndex + UInt64.ofNat i).toNat % b.nodes.length).find?
      fun idx => b.nodes[idx]?.any (·.healthy), { b with rrIndex := b.rrIndex + 1 })

def selectRandom (rand : Nat) (b : RpcLoadBalancer) : Option Nat := pick (healthyIdx (fun _ => true) b.nodes) rand

def selectLeastConnections (b : RpcLoadBalancer) : Option Nat :=
  (b.nodes.zipIdx.foldl lessActive (none, UInt64.ofNat (2 ^ 64 - 1))).1

def selectWeightedRoundRobin (b : RpcLoadBalancer) : Option Nat × RpcLoadBalancer :=
  let total := totalWeight b.nodes
  if total ≤ 0 then (none, b)
  else (reach (Int32.ofNat (b.wrrIndex.toNat % total.toInt.toNat + 1)) b.nodes.zipIdx 0,
    { b with wrrIndex := b.wrrIndex + 1 })

def selectWeightedRandom (rand : Nat) (b : RpcLoadBalancer) : Option Nat :=
  let total := totalWeight b.nodes
  if total ≤ 0 then none else reach (Int32.ofNat (rand % total.toInt.toNat + 1)) b.nodes.zipIdx 0

def selectConsistentHash (ctx : RpcLbContext) (b : RpcLoadBalancer) : Option Nat :=
  pick (healthyIdx (fun _ => true) b.nodes) (fnv1aHash ctx.sourceKey).toNat

def selectCanary (ctx : RpcLbContext) (b : RpcLoadBalancer) : Option Nat :=
  if ctx.canary && !(healthyIdx RpcNode.isCanary b.nodes).isEmpty then
    pick (healthyIdx RpcNode.isCanary b.nodes)
      (fnv1aHash (if ctx.canaryTag.isEmpty then ctx.sourceKey else ctx.canaryTag)).toNat
  else if !(healthyIdx (fun n => !n.isCanary) b.nodes).isEmpty then
    pick (healthyIdx (fun n => !n.isCanary) b.nodes) (fnv1aHash ctx.sourceKey).toNat
  else pick (healthyIdx RpcNode.isCanary b.nodes) 0

def selectSameZone (ctx : RpcLbContext) (b : RpcLoadBalancer) : Option Nat :=
  if !(healthyIdx (·.isIn ctx.zone) b.nodes).isEmpty then
    pick (healthyIdx (·.isIn ctx.zone) b.nodes) (fnv1aHash ctx.sourceKey).toNat
  else pick (healthyIdx (fun n => !n.isIn ctx.zone) b.nodes) (fnv1aHash ctx.sourceKey).toNat

/-- `rand` is what `rand()` returns, should the strategy ask for it. -/
def selectNode (ctx : RpcLbContext) (rand : Nat) (b : RpcLoadBalancer) : Option Nat × RpcLoadBalancer :=
  match b.strategy with
  | .roundRobin => b.selectRoundRobin
  | .random => (b.selectRandom rand, b)
  | .leastConnections => (b.selectLeastConnections, b)
  | .weightedRoundRobin => b.selectWeightedRoundRobin
  | .weightedRandom => (b.selectWeightedRandom rand, b)
  | .consistentHash => (b.selectConsistentHash ctx, b)
  | .canary => (b.selectCanary ctx, b)
  | .sameZone => (b.selectSameZone ctx, b)

end RpcLoadBalancer

/-! ## Specification -/

/-- A position of the list with a healthy node. -/
def HealthyAt (nodes : List RpcNode) (i : Nat) : Prop := ∃ n, nodes[i]? = some n ∧ n.healthy = true

/-! ## Lemmas -/

theorem healthyAt_of_pick {nodes : List RpcNode} {p : RpcNode → Bool} {hash i : Nat}
    (h : pick (healthyIdx p nodes) hash = some i) : HealthyAt nodes i := by
  obtain ⟨x, hx, rfl⟩ := List.mem_map.mp (List.mem_of_getElem? h)
  obtain ⟨hmem, hp⟩ := List.mem_filter.mp hx
  rw [Bool.and_eq_true] at hp
  exact ⟨x.1, List.mem_zipIdx_iff_getElem?.mp hmem, hp.1⟩

theorem healthyAt_of_reach {nodes : List RpcNode} {target : Int32} {l : List (RpcNode × Nat)}
    (hl : ∀ x ∈ l, x ∈ nodes.zipIdx) {current : Int32} {i : Nat} (h : reach target l current = some i) :
    HealthyAt nodes i := by
  induction l generalizing current with
  | nil => cases h
  | cons x rest ih =>
    obtain ⟨n, j⟩ := x
    have hrest : ∀ x ∈ rest, x ∈ nodes.zipIdx := fun x hx => hl x (List.mem_cons_of_mem _ hx)
    unfold reach at h
    by_cases hn : n.healthy = true
    · rw [if_neg (by simp [hn])] at h
      by_cases ht : target ≤ current + n.weight
      · rw [if_pos ht] at h
        cases h
        exact ⟨n, List.mem_zipIdx_iff_getElem?.mp (hl _ List.mem_cons_self), hn⟩
      · rw [if_neg ht] at h
        exact ih hrest h
    · rw [if_pos (by simp [hn])] at h
      exact ih hrest h

/-- What the loop of `selectLeastConnections` has found, from any start. -/
theorem foldl_lessActive (l : List (RpcNode × Nat)) (acc : Option Nat × UInt64) :
    (l.foldl lessActive acc).2 ≤ acc.2 ∧
    (∀ x ∈ l, x.1.healthy = true → (l.foldl lessActive acc).2 ≤ x.1.activeRequests) ∧
    (l.foldl lessActive acc = acc ∨
      ∃ x ∈ l, x.1.healthy = true ∧ l.foldl lessActive acc = (some x.2, x.1.activeRequests)) := by
  induction l generalizing acc with
  | nil => exact ⟨UInt64.le_refl _, by simp, .inl rfl⟩
  | cons x l ih =>
    obtain ⟨hle, hall, hfrom⟩ := ih (lessActive acc x)
    by_cases hx : x.1.healthy = true ∧ x.1.activeRequests < acc.2
    · have hstep : lessActive acc x = (some x.2, x.1.activeRequests) := if_pos hx
      rw [List.foldl_cons]
      rw [hstep] at hle hall hfrom ⊢
      refine ⟨UInt64.le_trans hle (UInt64.le_of_lt hx.2), ?_, .inr ?_⟩
      · intro y hy hyh
        rcases List.mem_cons.mp hy with rfl | hy
        · exact hle
        · exact hall y hy hyh
      · rcases hfrom with heq | ⟨y, hy, hyh, heq⟩
        · exact ⟨x, List.mem_cons_self, hx.1, heq⟩
        · exact ⟨y, List.mem_cons_of_mem _ hy, hyh, heq⟩
    · have hstep : lessActive acc x = acc := if_neg hx
      rw [List.foldl_cons]
      rw [hstep] at hle hall hfrom ⊢
      refine ⟨hle, ?_, ?_⟩
      · intro y hy hyh
        rcases List.mem_cons.mp hy with rfl | hy
        · exact UInt64.le_trans hle (UInt64.not_lt.mp fun hlt => hx ⟨hyh, hlt⟩)
        · exact hall y hy hyh
      · exact hfrom.imp_right fun ⟨y, hy, hyh, heq⟩ => ⟨y, List.mem_cons_of_mem _ hy, hyh, heq⟩

namespace RpcLoadBalancer

variable {b : RpcLoadBalancer} {i : Nat}

theorem selectLeastConnections_spec (h : b.selectLeastConnections = some i) :
    ∃ n, b.nodes[i]? = some n ∧ n.healthy = true ∧
      ∀ m ∈ b.nodes, m.healthy = true → n.activeRequests ≤ m.activeRequests := by
  obtain ⟨-, hall, hfrom⟩ := foldl_lessActive b.nodes.zipIdx (none, UInt64.ofNat (2 ^ 64 - 1))
  unfold selectLeastConnections at h
  rcases hfrom with heq | ⟨x, hx, hxh, heq⟩
  · rw [heq] at h
    cases h
  · rw [heq] at h hall
    cases h
    refine ⟨x.1, List.mem_zipIdx_iff_getElem?.mp hx, hxh, ?_⟩
    intro m hm hmh
    obtain ⟨j, hj⟩ := List.mem_iff_getElem?.mp hm
    exact hall (m, j) (List.mem_zipIdx_iff_getElem?.mpr hj) hmh

/-- Only a node whose counter is as large as it can be is passed over. -/
theorem selectLeastConnections_isSome {m : RpcNode} (hm : m ∈ b.nodes) (hmh : m.healthy = true)
    (hlt : m.activeRequests < UInt64.ofNat (2 ^ 64 - 1)) : ∃ i, b.selectLeastConnections = some i := by
  obtain ⟨-, hall, hfrom⟩ := foldl_lessActive b.nodes.zipIdx (none, UInt64.ofNat (2 ^ 64 - 1))
  unfold selectLeastConnections
  rcases hfrom with heq | ⟨x, -, -, heq⟩
  · obtain ⟨j, hj⟩ := List.mem_iff_getElem?.mp hm
    have hle := hall (m, j) (List.mem_zipIdx_iff_getElem?.mpr hj) hmh
    rw [heq] at hle
    exact absurd hlt (UInt64.not_lt.mpr hle)
  · exact ⟨x.2, by rw [heq]⟩

theorem selectRoundRobin_healthy (h : b.selectRoundRobin.1 = some i) : HealthyAt b.nodes i := by
  unfold selectRoundRobin at h
  by_cases hb : b.nodes.isEmpty = true
  · rw [if_pos hb] at h
    cases h
  · rw [if_neg hb] at h
    have hi := List.find?_some h
    obtain ⟨n, hn, hnh⟩ := Option.any_eq_true _ _ |>.mp hi
    exact ⟨n, hn, hnh⟩

theorem selectWeightedRoundRobin_healthy (h : b.selectWeightedRoundRobin.1 = some i) : HealthyAt b.nodes i := by
  unfold selectWeightedRoundRobin at h
  by_cases ht : totalWeight b.nodes ≤ 0
  · rw [if_pos ht] at h
    cases h
  · rw [if_neg ht] at h
    exact healthyAt_of_reach (fun _ hx => hx) h

theorem selectWeightedRandom_healthy {rand : Nat} (h : b.selectWeightedRandom rand = some i) :
    HealthyAt b.nodes i := by
  unfold selectWeightedRandom at h
  by_cases ht : totalWeight b.nodes ≤ 0
  · rw [if_pos ht] at h
    cases h
  · rw [if_neg ht] at h
    exact healthyAt_of_reach (fun _ hx => hx) h

variable {ctx : RpcLbContext}

theorem selectCanary_healthy (h : b.selectCanary ctx = some i) : HealthyAt b.nodes i := by
  unfold selectCanary at h
  by_cases hc : (ctx.canary && !(healthyIdx RpcNode.isCanary b.nodes).isEmpty) = true
  · rw [if_pos hc] at h
    exact healthyAt_of_pick h
  · rw [if_neg hc] at h
    split at h
    · exact healthyAt_of_pick h
    · exact healthyAt_of_pick h

theorem selectSameZone_healthy (h : b.selectSameZone ctx = some i) : HealthyAt b.nodes i := by
  unfold selectSameZone at h
  split at h
  · exact healthyAt_of_pick h
  · exact healthyAt_of_pick h

/-! ## Top theorem -/

theorem selectNode_healthy {rand : Nat} (h : (b.selectNode ctx rand).1 = some i) :
    HealthyAt b.nodes i := by
  unfold selectNode at h
  cases hs : b.strategy with
  | roundRobin => exact selectRoundRobin_healthy (by rwa [hs] at h)
  | random => exact healthyAt_of_pick (by rwa [hs] at h)
  | leastConnections =>
    rw [hs] at h
    obtain ⟨n, hn, hnh, -⟩ := selectLeastConnections_spec h
    exact ⟨n, hn, hnh⟩
  | weightedRoundRobin => exact selectWeightedRoundRobin_healthy (by rwa [hs] at h)
  | weightedRandom => exact selectWeightedRandom_healthy (by rwa [hs] at h)
  | consistentHash => exact healthyAt_of_pick (by rwa [hs] at h)
  | canary => exact selectCanary_healthy (by rwa [hs] at h)
  | sameZone => exact selectSameZone_healthy (by rwa [hs] at h)

theorem selectNode_nodes (ctx : RpcLbContext) (rand : Nat) : (b.selectNode ctx rand).2.nodes = b.nodes := by
  have hrr : b.selectRoundRobin.2.nodes = b.nodes := by
    unfold selectRoundRobin
    split <;> rfl
  have hwrr : b.selectWeightedRoundRobin.2.nodes = b.nodes := by
    unfold selectWeightedRoundRobin
    by_cases ht : totalWeight b.nodes ≤ 0
    · rw [if_pos ht]
    · rw [if_neg ht]
  unfold selectNode
  cases b.strategy with
  | roundRobin => exact hrr
  | weightedRoundRobin => exact hwrr
  | _ => rfl

end RpcLoadBalancer

end Rpc
