import ZeroFrameworks.Rpc.Failover
import ZeroFrameworks.Rpc.LoadBalancer

/-!
# Calls through the channel manager

`doCall` asks the load balancer for a position and then, in another critical section, for the list to look the
position up in.  Service discovery may replace the list between the two, as at any other time.  The calls of a
manager are numbered; `chosen` records the node that was at the position when it was selected.

Nobody marks the start and the end of a call, so that `activeRequests` is 0 for every node.

    every state Right ↔ every step Careful   (calls_right_iff)
-/

namespace Rpc

open Kv (Bytes BMap lit printNat)

/-! ## Algorithm -/

structure ServiceInstance where
  id : Bytes
  host : Bytes
  port : Int
  metadata : BMap Bytes := ∅
  healthy : Bool := true

/-- A node as the watcher makes it; a weight that `stoi` does not take leaves the default. -/
def ServiceInstance.toNode (inst : ServiceInstance) : RpcNode :=
  { id := inst.id, host := inst.host, port := inst.port, metadata := inst.metadata, healthy := inst.healthy
    weight := match inst.metadata[lit "weight"]?.bind stoi with
      | some w => Int32.ofInt w
      | none => 1 }

/-- What `doCall` reads of an invocation. -/
structure RpcInvocation where
  serviceName : Bytes
  requestId : Nat
  traceId : Bytes := []
  tags : BMap Bytes := ∅

def RpcInvocation.lbContext (inv : RpcInvocation) : RpcLbContext where
  sourceKey := if inv.traceId.isEmpty then printNat inv.requestId else inv.traceId
  zone := inv.tags[lit "zone"]?.getD []
  canary := decide (inv.tags[lit "canary"]? = some (lit "true"))
  canaryTag := if inv.tags[lit "canary"]?.isSome then inv.tags[lit "canaryTag"]?.getD [] else []

inductive CallError where
  | noAvailableNode
  | nodeIndexOutOfRange
  | circuitBreakerOpen
  | connectFailed
  | rpcCallFailed
deriving DecidableEq

def CallError.text : CallError → String
  | .noAvailableNode => "no available node"
  | .nodeIndexOutOfRange => "node index out of range"
  | .circuitBreakerOpen => "circuit breaker open"
  | .connectFailed => "connect failed"
  | .rpcCallFailed => "rpc call failed"

/-- Where a call is in `doCall`; `calling` is inside of `channel->call`. -/
inductive CallStage where
  | selected (idx : Nat)
  | lookedUp
  | allowed
  | calling
  | ended (error : Option CallError)
deriving DecidableEq

/-- `node` is what `doCall` copied from the list: its host and port are where the call goes. -/
structure Call where
  serviceName : Bytes
  stage : CallStage
  chosen : Option RpcNode
  node : Option RpcNode := none

structure ChannelManager where
  loadBalancers : BMap RpcLoadBalancer := ∅
  calls : List Call := []

inductive ManagerEvent where
  | registerService (serviceName : Bytes) (strategy : LoadBalanceStrategy)
  /-- The watcher of a service is told its instances. -/
  | watched (serviceName : Bytes) (instances : List ServiceInstance)
  | select (inv : RpcInvocation) (strategy : LoadBalanceStrategy) (rand : Nat)
  | lookUp (c : Nat)
  | allowRequest (c : Nat) (allowed : Bool)
  | connect (c : Nat) (ok : Bool)
  | finish (c : Nat) (ok : Bool)

namespace ChannelManager

def new : ChannelManager := {}

def getNodes (serviceName : Bytes) (s : ChannelManager) : List RpcNode :=
  match s.loadBalancers[serviceName]? with
  | some b => b.nodes
  | none => []

def setCall (c : Nat) (call : Call) (s : ChannelManager) : ChannelManager := { s with calls := s.calls.set c call }

def registerService (serviceName : Bytes) (strategy : LoadBalanceStrategy) (s : ChannelManager) : ChannelManager :=
  if serviceName ∈ s.loadBalancers then s
  else { s with loadBalancers := s.loadBalancers.insert serviceName (.create strategy) }

def watched (serviceName : Bytes) (instances : List ServiceInstance) (s : ChannelManager) : ChannelManager :=
  match s.loadBalancers[serviceName]? with
  | none => s
  | some b =>
    let b' := b.updateNodes (instances.map ServiceInstance.toNode)
    { s with loadBalancers := s.loadBalancers.insert serviceName b' }

/-- `selectNode`; a service without a balancer is given one, and the call fails. -/
def selectNode (inv : RpcInvocation) (strategy : LoadBalanceStrategy) (rand : Nat) (s : ChannelManager) :
    Option Nat × ChannelManager :=
  match s.loadBalancers[inv.serviceName]? with
  | none => (none, { s with loadBalancers := s.loadBalancers.insert inv.serviceName (.create strategy) })
  | some b =>
    let r := b.selectNode inv.lbContext rand
    (r.1, { s with loadBalancers := s.loadBalancers.insert inv.serviceName r.2 })

/-- A call when the balancer has been asked. -/
def newCall (inv : RpcInvocation) (s : ChannelManager) : Option Nat → Call
  | none => { serviceName := inv.serviceName, stage := .ended (some .noAvailableNode), chosen := none }
  | some idx =>
    { serviceName := inv.serviceName, stage := .selected idx, chosen := (s.getNodes inv.serviceName)[idx]? }

def select (inv : RpcInvocation) (strategy : LoadBalanceStrategy) (rand : Nat) (s : ChannelManager) : ChannelManager :=
  { (s.selectNode inv strategy rand).2 with
    calls := s.calls ++ [s.newCall inv (s.selectNode inv strategy rand).1] }

/-- What `doCall` does next with a call, unless it waits for another event. -/
def advance (call : Call) (s : ChannelManager) : ManagerEvent → Option Call
  | .lookUp _ =>
    match call.stage with
    | .selected idx =>
      match (s.getNodes call.serviceName)[idx]? with
      | none => some { call with stage := .ended (some .nodeIndexOutOfRange) }
      | some n => some { call with stage := .lookedUp, node := some n }
    | _ => none
  | .allowRequest _ allowed =>
    if call.stage = .lookedUp then
      some { call with stage := if allowed then .allowed else .ended (some .circuitBreakerOpen) }
    else none
  | .connect _ ok =>
    if call.stage = .allowed then some { call with stage := if ok then .calling else .ended (some .connectFailed) }
    else none
  | .finish _ ok =>
    if call.stage = .calling then
      some { call with stage := if ok then .ended none else .ended (some .rpcCallFailed) }
    else none
  | _ => none

def step (s : ChannelManager) (e : ManagerEvent) : Option ChannelManager :=
  match e with
  | .registerService serviceName strategy => some (s.registerService serviceName strategy)
  | .watched serviceName instances => some (s.watched serviceName instances)
  | .select inv strategy rand => some (s.select inv strategy rand)
  | .lookUp c | .allowRequest c _ | .connect c _ | .finish c _ =>
    s.calls[c]?.bind fun call => (s.advance call e).map fun call' => s.setCall c call'

end ChannelManager

/-! ## Specification -/

/-- The call is sent to the host and the port of the node. -/
def Call.goesTo (n : RpcNode) (call : Call) : Bool := call.node.any fun t => decide (t.host = n.host ∧ t.port = n.port)

namespace ChannelManager

/-- The number of calls in flight to a node of a service. -/
def inFlight (serviceName : Bytes) (n : RpcNode) (s : ChannelManager) : Nat :=
  s.calls.countP fun call => decide (call.stage = .calling ∧ call.serviceName = serviceName) && call.goesTo n

structure Right (s : ChannelManager) : Prop where
  dialled : ∀ call ∈ s.calls, ∀ n ∈ call.node,
    ∃ t ∈ call.chosen, t.healthy = true ∧ t.host = n.host ∧ t.port = n.port
  counted : ∀ serviceName, ∀ n ∈ s.getNodes serviceName, n.activeRequests.toNat = s.inFlight serviceName n
  fewest : ∀ serviceName, ∀ b ∈ s.loadBalancers[serviceName]?, (∃ m ∈ b.nodes, m.healthy = true) →
    ∃ i n, b.selectLeastConnections = some i ∧ b.nodes[i]? = some n ∧ n.healthy = true ∧
      ∀ m ∈ b.nodes, m.healthy = true → s.inFlight serviceName n ≤ s.inFlight serviceName m

/-- A position is looked up where the address selected still is, a call begins to a node that is not listed any
more, and no node is listed that calls are in flight to. -/
def Careful (s : ChannelManager) : ManagerEvent → Prop
  | .lookUp c => ∀ call ∈ s.calls[c]?, ∀ idx, call.stage = .selected idx →
      ∀ n ∈ (s.getNodes call.serviceName)[idx]?, ∃ t ∈ call.chosen, t.host = n.host ∧ t.port = n.port
  | .connect c ok => ok = true → ∀ call ∈ s.calls[c]?, call.stage = .allowed →
      ∀ n ∈ s.getNodes call.serviceName, call.goesTo n = false
  | .watched serviceName instances => serviceName ∈ s.loadBalancers →
      ∀ inst ∈ instances, s.inFlight serviceName inst.toNode = 0
  | _ => True

def Along (P : ChannelManager → ManagerEvent → Prop) (s : ChannelManager) : List ManagerEvent → Prop
  | [] => True
  | e :: es => P s e ∧ ∀ s' ∈ s.step e, s'.Along P es

/-- `P` holds of every state that a run goes through. -/
def States (P : ChannelManager → Prop) (s : ChannelManager) : List ManagerEvent → Prop
  | [] => P s
  | e :: es => P s ∧ ∀ s' ∈ s.step e, s'.States P es

end ChannelManager

/-! ## Lemmas -/

/-- A call is addressed to the node selected, and if in flight, then to no listed node. -/
structure Call.Fine (nodes : Bytes → List RpcNode) (call : Call) : Prop where
  addressed : ∀ n ∈ call.node, ∃ t ∈ call.chosen, t.host = n.host ∧ t.port = n.port
  unlisted : call.stage = .calling → ∀ n ∈ nodes call.serviceName, call.goesTo n = false

namespace ChannelManager

variable {s s' : ChannelManager} {e : ManagerEvent}

def nodesOf (s : ChannelManager) : Bytes → List RpcNode := fun serviceName => s.getNodes serviceName

structure Sound (s : ChannelManager) : Prop where
  unmarked : ∀ serviceName, ∀ n ∈ s.getNodes serviceName, n.activeRequests = 0
  healthy : ∀ call ∈ s.calls, ∀ t ∈ call.chosen, t.healthy = true

variable {serviceName : Bytes}

theorem getNodes_of_balancer {b : RpcLoadBalancer}
    (h : s.loadBalancers[serviceName]? = some b) : s.getNodes serviceName = b.nodes := by
  rw [getNodes, h]

theorem getNodes_insert (serviceName name : Bytes) (b : RpcLoadBalancer) (calls : List Call) :
    getNodes name { loadBalancers := s.loadBalancers.insert serviceName b, calls } =
      if serviceName = name then b.nodes else s.getNodes name := by
  unfold getNodes
  by_cases h : serviceName = name
  · simp [h]
  · simp [h, Std.ExtTreeMap.getElem?_insert]

theorem nodesOf_insert_same {b : RpcLoadBalancer} (calls : List Call)
    (h : b.nodes = s.getNodes serviceName) :
    nodesOf { loadBalancers := s.loadBalancers.insert serviceName b, calls } = s.nodesOf := by
  funext name
  show getNodes name _ = getNodes name s
  rw [getNodes_insert]
  by_cases hname : serviceName = name
  · rw [if_pos hname, h, hname]
  · rw [if_neg hname]

theorem inFlight_eq_zero {n : RpcNode} :
    s.inFlight serviceName n = 0 ↔
      ∀ call ∈ s.calls, call.stage = .calling → call.serviceName = serviceName → call.goesTo n = false := by
  unfold inFlight
  rw [List.countP_eq_zero]
  constructor
  · intro h call hcall hstage hname
    have := h call hcall
    simpa [hstage, hname] using this
  · intro h call hcall htrue
    rw [Bool.and_eq_true, decide_eq_true_iff] at htrue
    rw [h call hcall htrue.1.1 htrue.1.2] at htrue
    exact Bool.false_ne_true htrue.2

/-- As no call is ever counted, the counters are right where no listed node has a call in flight. -/
theorem right_iff (h : s.Sound) : s.Right ↔ ∀ call ∈ s.calls, call.Fine s.nodesOf := by
  constructor
  · intro hr call hcall
    refine ⟨?_, ?_⟩
    · intro n hn
      obtain ⟨t, ht, -, hhost, hport⟩ := hr.dialled call hcall n hn
      exact ⟨t, ht, hhost, hport⟩
    · intro hstage n hn
      have hcount := hr.counted call.serviceName n hn
      rw [h.unmarked call.serviceName n hn] at hcount
      exact inFlight_eq_zero.mp hcount.symm call hcall hstage rfl
  · intro hfine
    have hzero : ∀ serviceName, ∀ n ∈ s.getNodes serviceName, s.inFlight serviceName n = 0 := by
      intro serviceName n hn
      apply inFlight_eq_zero.mpr
      intro call hcall hstage hname
      exact (hfine call hcall).unlisted hstage n (by rw [hname]; exact hn)
    refine ⟨?_, ?_, ?_⟩
    · intro call hcall n hn
      obtain ⟨t, ht, hhost, hport⟩ := (hfine call hcall).addressed n hn
      exact ⟨t, ht, h.healthy call hcall t ht, hhost, hport⟩
    · intro serviceName n hn
      rw [h.unmarked serviceName n hn, hzero serviceName n hn]
      rfl
    · intro serviceName b hb hm
      obtain ⟨m, hm, hmh⟩ := hm
      have hnodes : s.getNodes serviceName = b.nodes := getNodes_of_balancer hb
      have hlt : m.activeRequests < UInt64.ofNat (2 ^ 64 - 1) := by
        rw [h.unmarked serviceName m (by rw [hnodes]; exact hm)]
        decide
      obtain ⟨i, hi⟩ := b.selectLeastConnections_isSome hm hmh hlt
      obtain ⟨n, hn, hnh, -⟩ := b.selectLeastConnections_spec hi
      refine ⟨i, n, hi, hn, hnh, ?_⟩
      intro m' _ _
      rw [hzero serviceName n (by rw [hnodes]; exact List.mem_of_getElem? hn)]
      exact Nat.zero_le _

/-! ### One step -/

theorem Sound.of_same (h : s.Sound) (hnodes : s'.nodesOf = s.nodesOf)
    (hcalls : ∀ call ∈ s'.calls, ∀ t ∈ call.chosen, t.healthy = true) : s'.Sound := by
  refine ⟨?_, hcalls⟩
  intro serviceName n hn
  have hsame : s'.getNodes serviceName = s.getNodes serviceName := congrFun hnodes serviceName
  rw [hsame] at hn
  exact h.unmarked serviceName n hn

theorem nodesOf_registerService (serviceName : Bytes) (strategy : LoadBalanceStrategy) :
    (s.registerService serviceName strategy).nodesOf = s.nodesOf := by
  unfold registerService
  by_cases hmem : serviceName ∈ s.loadBalancers
  · rw [if_pos hmem]
  · rw [if_neg hmem]
    apply nodesOf_insert_same
    simp [getNodes, RpcLoadBalancer.create, hmem]

theorem calls_registerService (serviceName : Bytes) (strategy : LoadBalanceStrategy) :
    (s.registerService serviceName strategy).calls = s.calls := by
  unfold registerService
  split <;> rfl

theorem nodesOf_selectNode (inv : RpcInvocation) (strategy : LoadBalanceStrategy) (rand : Nat) (calls : List Call) :
    nodesOf { (s.selectNode inv strategy rand).2 with calls } = s.nodesOf := by
  unfold selectNode
  cases hb : s.loadBalancers[inv.serviceName]? with
  | none =>
    apply nodesOf_insert_same
    simp [getNodes, hb, RpcLoadBalancer.create]
  | some b =>
    apply nodesOf_insert_same
    rw [RpcLoadBalancer.selectNode_nodes, getNodes_of_balancer hb]

theorem selectNode_healthyAt {inv : RpcInvocation} {strategy : LoadBalanceStrategy} {rand idx : Nat}
    (h : (s.selectNode inv strategy rand).1 = some idx) : HealthyAt (s.getNodes inv.serviceName) idx := by
  unfold selectNode at h
  cases hb : s.loadBalancers[inv.serviceName]? with
  | none =>
    rw [hb] at h
    cases h
  | some b =>
    rw [hb] at h
    rw [getNodes_of_balancer hb]
    exact RpcLoadBalancer.selectNode_healthy h

theorem newCall_spec (inv : RpcInvocation) (strategy : LoadBalanceStrategy) (rand : Nat) :
    let call := s.newCall inv (s.selectNode inv strategy rand).1
    call.node = none ∧ call.stage ≠ .calling ∧ ∀ t ∈ call.chosen, t.healthy = true := by
  intro call
  cases hidx : (s.selectNode inv strategy rand).1 with
  | none =>
    have hcall : call = s.newCall inv none := by rw [← hidx]
    rw [hcall]
    exact ⟨rfl, by simp [newCall], by simp [newCall]⟩
  | some idx =>
    have hcall : call = s.newCall inv (some idx) := by rw [← hidx]
    rw [hcall]
    obtain ⟨n, hn, hnh⟩ := selectNode_healthyAt hidx
    refine ⟨rfl, by simp [newCall], ?_⟩
    intro t ht
    cases hn.symm.trans ht
    exact hnh

theorem watched_of_mem (instances : List ServiceInstance) (h : serviceName ∈ s.loadBalancers) :
    ∃ b, (b.nodes = instances.map ServiceInstance.toNode) ∧
      s.watched serviceName instances = { s with loadBalancers := s.loadBalancers.insert serviceName b } := by
  obtain ⟨b, hb⟩ := Option.isSome_iff_exists.mp (Std.ExtTreeMap.isSome_getElem?_iff_mem.mpr h)
  refine ⟨b.updateNodes (instances.map ServiceInstance.toNode), ?_, ?_⟩
  · simp [RpcLoadBalancer.updateNodes, ServiceInstance.toNode]
  · rw [watched, hb]

theorem watched_of_not_mem (instances : List ServiceInstance)
    (h : serviceName ∉ s.loadBalancers) : s.watched serviceName instances = s := by
  rw [watched, Std.ExtTreeMap.getElem?_eq_none h]

theorem Sound.watched (h : s.Sound) (serviceName : Bytes) (instances : List ServiceInstance) :
    (s.watched serviceName instances).Sound := by
  by_cases hmem : serviceName ∈ s.loadBalancers
  · obtain ⟨b, hb, heq⟩ := watched_of_mem instances hmem
    rw [heq]
    refine ⟨?_, h.healthy⟩
    intro name n hn
    rw [getNodes_insert] at hn
    by_cases hname : serviceName = name
    · rw [if_pos hname, hb] at hn
      obtain ⟨inst, -, rfl⟩ := List.mem_map.mp hn
      rfl
    · rw [if_neg hname] at hn
      exact h.unmarked name n hn
  · rw [watched_of_not_mem instances hmem]
    exact h

theorem watched_fine (hfine : ∀ call ∈ s.calls, call.Fine s.nodesOf) (serviceName : Bytes)
    (instances : List ServiceInstance) :
    (∀ call ∈ (s.watched serviceName instances).calls, call.Fine (s.watched serviceName instances).nodesOf) ↔
      s.Careful (.watched serviceName instances) := by
  by_cases hmem : serviceName ∈ s.loadBalancers
  · obtain ⟨b, hb, heq⟩ := watched_of_mem instances hmem
    have hnodes : ∀ name, nodesOf { s with loadBalancers := s.loadBalancers.insert serviceName b } name =
        if serviceName = name then instances.map ServiceInstance.toNode else s.getNodes name := by
      intro name
      rw [← hb]
      exact getNodes_insert serviceName name b s.calls
    rw [heq]
    constructor
    · intro hall _ inst hinst
      apply inFlight_eq_zero.mpr
      intro call hcall hstage hname
      apply (hall call hcall).unlisted hstage
      rw [hnodes, if_pos hname.symm]
      exact List.mem_map_of_mem hinst
    · intro hcareful call hcall
      refine ⟨(hfine call hcall).addressed, ?_⟩
      intro hstage n hn
      rw [hnodes] at hn
      by_cases hname : serviceName = call.serviceName
      · rw [if_pos hname] at hn
        obtain ⟨inst, hinst, rfl⟩ := List.mem_map.mp hn
        exact inFlight_eq_zero.mp (hcareful hmem inst hinst) call hcall hstage hname.symm
      · rw [if_neg hname] at hn
        exact (hfine call hcall).unlisted hstage n hn
  · rw [watched_of_not_mem instances hmem]
    exact iff_of_true hfine fun h => absurd h hmem

/-- Only a lookup and the beginning of a call can go wrong. -/
theorem advance_spec {c : Nat} {call call' : Call} (hfine : call.Fine s.nodesOf) (hc : s.calls[c]? = some call)
    (he : e = .lookUp c ∨ (∃ b, e = .allowRequest c b) ∨ (∃ b, e = .connect c b) ∨ ∃ b, e = .finish c b)
    (h : s.advance call e = some call') :
    call'.chosen = call.chosen ∧ (call'.Fine s.nodesOf ↔ s.Careful e) := by
  rcases he with rfl | ⟨ok, rfl⟩ | ⟨ok, rfl⟩ | ⟨ok, rfl⟩
  · unfold advance at h
    cases hstage : call.stage with
    | selected idx =>
      rw [hstage] at h
      have hcareful : s.Careful (.lookUp c) ↔
          ∀ n ∈ (s.getNodes call.serviceName)[idx]?, ∃ t ∈ call.chosen, t.host = n.host ∧ t.port = n.port := by
        constructor
        · intro hs n hn
          exact hs call hc idx hstage n hn
        · intro hs call1 hc1 idx1 hstage1 n hn
          cases hc.symm.trans hc1
          cases hstage.symm.trans hstage1
          exact hs n hn
      rw [hcareful]
      cases hn : (s.getNodes call.serviceName)[idx]? with
      | none =>
        simp only [hn, Option.some.injEq] at h
        subst h
        exact ⟨rfl, iff_of_true ⟨hfine.addressed, by simp⟩ (by simp)⟩
      | some n =>
        simp only [hn, Option.some.injEq] at h
        subst h
        refine ⟨rfl, ?_⟩
        constructor
        · intro hf
          exact hf.addressed
        · intro hs
          exact ⟨hs, by simp⟩
    | _ =>
      rw [hstage] at h
      cases h
  · obtain ⟨-, h⟩ := Option.ite_none_right_eq_some.mp h
    cases h
    refine ⟨rfl, iff_of_true ⟨hfine.addressed, ?_⟩ trivial⟩
    cases ok <;> simp
  · obtain ⟨hstage, h⟩ := Option.ite_none_right_eq_some.mp h
    cases h
    refine ⟨rfl, ?_⟩
    constructor
    · intro hf hok call1 hc1 _
      cases hc.symm.trans hc1
      exact hf.unlisted (by simp [hok])
    · intro hs
      refine ⟨hfine.addressed, ?_⟩
      intro hcalling
      have hok : ok = true := by
        by_contra hok
        simp [hok] at hcalling
      exact hs hok call hc hstage
  · obtain ⟨-, h⟩ := Option.ite_none_right_eq_some.mp h
    cases h
    refine ⟨rfl, iff_of_true ⟨hfine.addressed, ?_⟩ trivial⟩
    cases ok <;> simp

theorem setCall_spec {c : Nat} (h : s.Sound) (hfine : ∀ call ∈ s.calls, call.Fine s.nodesOf)
    (he : e = .lookUp c ∨ (∃ b, e = .allowRequest c b) ∨ (∃ b, e = .connect c b) ∨ ∃ b, e = .finish c b)
    (hstep : (s.calls[c]?.bind fun call => (s.advance call e).map fun call' => s.setCall c call') = some s') :
    s'.Sound ∧ ((∀ call ∈ s'.calls, call.Fine s'.nodesOf) ↔ s.Careful e) := by
  obtain ⟨call, hc, hstep⟩ := Option.bind_eq_some_iff.mp hstep
  obtain ⟨call', hadvance, rfl⟩ := Option.map_eq_some_iff.mp hstep
  have hcall : call ∈ s.calls := List.mem_of_getElem? hc
  obtain ⟨hchosen, hiff⟩ := advance_spec (hfine call hcall) hc he hadvance
  have hset : ∀ x ∈ (s.setCall c call').calls, x ∈ s.calls ∨ x = call' := fun x hx => List.mem_or_eq_of_mem_set hx
  refine ⟨h.of_same rfl ?_, ?_⟩
  · intro x hx t ht
    rcases hset x hx with hx | rfl
    · exact h.healthy x hx t ht
    · rw [hchosen] at ht
      exact h.healthy call hcall t ht
  · rw [← hiff]
    constructor
    · intro hall
      obtain ⟨hlt, -⟩ := List.getElem?_eq_some_iff.mp hc
      exact hall call' (List.mem_set hlt call')
    · intro hf x hx
      rcases hset x hx with hx | rfl
      · exact hfine x hx
      · exact hf

theorem step_spec (h : s.Sound) (hfine : ∀ call ∈ s.calls, call.Fine s.nodesOf) (hstep : s.step e = some s') :
    s'.Sound ∧ ((∀ call ∈ s'.calls, call.Fine s'.nodesOf) ↔ s.Careful e) := by
  cases e with
  | registerService serviceName strategy =>
    cases hstep
    have hcalls := calls_registerService (s := s) serviceName strategy
    have hnodes := nodesOf_registerService (s := s) serviceName strategy
    refine ⟨h.of_same hnodes ?_, iff_of_true ?_ trivial⟩
    · rw [hcalls]
      exact h.healthy
    · rw [hcalls, hnodes]
      exact hfine
  | watched serviceName instances =>
    cases hstep
    exact ⟨h.watched serviceName instances, watched_fine hfine serviceName instances⟩
  | select inv strategy rand =>
    cases hstep
    have hnodes : (s.select inv strategy rand).nodesOf = s.nodesOf := nodesOf_selectNode inv strategy rand _
    obtain ⟨hnode, hstage, hchosen⟩ := newCall_spec (s := s) inv strategy rand
    have hmem : ∀ x ∈ (s.select inv strategy rand).calls,
        x ∈ s.calls ∨ x = s.newCall inv (s.selectNode inv strategy rand).1 := by
      intro x hx
      rcases List.mem_append.mp hx with hx | hx
      · exact .inl hx
      · exact .inr (List.mem_singleton.mp hx)
    refine ⟨h.of_same hnodes ?_, iff_of_true ?_ trivial⟩
    · intro x hx
      rcases hmem x hx with hx | rfl
      · exact h.healthy x hx
      · exact hchosen
    · intro x hx
      rw [hnodes]
      rcases hmem x hx with hx | rfl
      · exact hfine x hx
      · refine ⟨?_, fun hcalling => absurd hcalling hstage⟩
        rw [hnode]
        simp
  | lookUp c => exact setCall_spec h hfine (.inl rfl) hstep
  | allowRequest c ok => exact setCall_spec h hfine (.inr (.inl ⟨ok, rfl⟩)) hstep
  | connect c ok => exact setCall_spec h hfine (.inr (.inr (.inl ⟨ok, rfl⟩))) hstep
  | finish c ok => exact setCall_spec h hfine (.inr (.inr (.inr ⟨ok, rfl⟩))) hstep

/-- An event that cannot happen is no matter. -/
theorem careful_of_none (hstep : s.step e = none) : s.Careful e := by
  cases e with
  | lookUp c =>
    intro call hc idx hstage n hn
    rw [Option.mem_def] at hc hn
    simp [step, advance, hc, hstage, hn] at hstep
  | connect c ok =>
    intro hok call hc hstage
    rw [Option.mem_def] at hc
    simp [step, advance, hc, hstage] at hstep
  | watched serviceName instances => cases hstep
  | _ => trivial

/-! ## Top theorem -/

theorem states_right_iff (es : List ManagerEvent) (h : s.Sound) (hfine : ∀ call ∈ s.calls, call.Fine s.nodesOf) :
    s.States Right es ↔ s.Along Careful es := by
  induction es generalizing s with
  | nil => exact iff_of_true ((right_iff h).mpr hfine) trivial
  | cons e es ih =>
    have hright : s.Right := (right_iff h).mpr hfine
    cases hstep : s.step e with
    | none =>
      refine iff_of_true ⟨hright, ?_⟩ ⟨careful_of_none hstep, ?_⟩
      all_goals simp [hstep]
    | some s1 =>
      obtain ⟨hsound, hiff⟩ := step_spec h hfine hstep
      have hstates : s.States Right (e :: es) ↔ s1.States Right es := by
        simp [States, hstep, hright]
      have halong : s.Along Careful (e :: es) ↔ s.Careful e ∧ s1.Along Careful es := by
        simp [Along, hstep]
      rw [hstates, halong, ← hiff]
      constructor
      · intro hrun
        have hright1 : s1.Right := by
          cases es with
          | nil => exact hrun
          | cons => exact hrun.1
        have hfine1 := (right_iff hsound).mp hright1
        exact ⟨hfine1, (ih hsound hfine1).mp hrun⟩
      · rintro ⟨hfine1, hrun⟩
        exact (ih hsound hfine1).mpr hrun

theorem calls_right_iff (es : List ManagerEvent) : new.States Right es ↔ new.Along Careful es := by
  refine states_right_iff es ⟨?_, ?_⟩ ?_
  · intro serviceName n hn
    simp [new, getNodes] at hn
  · simp [new]
  · simp [new]

def nodeA : ServiceInstance := { id := [97], host := [97], port := 8001 }

def nodeB : ServiceInstance := { id := [98], host := [98], port := 8002 }

/-- The node that was selected leaves the list before it is looked up: the call goes to the other. -/
def replaced : List ManagerEvent :=
  [.registerService [115] .leastConnections, .watched [115] [nodeA, nodeB],
    .select { serviceName := [115], requestId := 1 } .leastConnections 0, .watched [115] [nodeB],
    .lookUp 0, .allowRequest 0 true, .connect 0 true]

/-- Two calls at a time: the second selects the node that has the first in flight. -/
def overlapping : List ManagerEvent :=
  [.registerService [115] .leastConnections, .watched [115] [nodeA, nodeB],
    .select { serviceName := [115], requestId := 1 } .leastConnections 0, .lookUp 0, .allowRequest 0 true,
    .connect 0 true]

theorem calls_go_wrong : ¬ new.States Right replaced ∧ ¬ new.States Right overlapping := by
  constructor
  · intro h
    have hend := (((((((h.2 _ rfl).2 _ rfl).2 _ rfl).2 _ rfl).2 _ rfl).2 _ rfl).2 _ rfl).dialled
    obtain ⟨t, ht, -, hhost, -⟩ := hend _ List.mem_cons_self _ rfl
    cases ht
    exact absurd hhost (by decide)
  · intro h
    -- `activeRequests` of both nodes is 0, and the first in the list is selected again
    have hend := ((((((h.2 _ rfl).2 _ rfl).2 _ rfl).2 _ rfl).2 _ rfl).2 _ rfl).fewest
    obtain ⟨i, n, hi, hn, -, hle⟩ := hend [115] _ rfl ⟨_, List.mem_cons_self, rfl⟩
    cases (show some 0 = some i from hi)
    cases hn
    exact absurd (hle _ (List.mem_cons_of_mem _ List.mem_cons_self) rfl) (by decide)

end ChannelManager

end Rpc
