import ZeroFrameworks.Lib.Blocks
import ZeroFrameworks.Rpc.LoadBalancer

/-!
# What the strategies promise

Every strategy picks a healthy node whenever there is one, and the two that take turns share the calls: each healthy
node once, or as often as it weighs.  `selectWeightedRoundRobin` looks its turn up among the healthy nodes alone.
`selectRoundRobin` looks it up among all, and the node after an unhealthy one gets the turns of both.

    Contract b ↔ Served b   (contract_iff_served)

`Served` asks of a round that all nodes are healthy, or at most one.
-/

namespace Rpc

open Blocks

/-! ## Specification -/

/-- A list whose positions are `int`s and whose weights an `int` can sum. -/
structure Weighed (nodes : List RpcNode) : Prop where
  length : nodes.length < 2 ^ 31
  weight : ∀ n ∈ nodes, 0 ≤ n.weight.toInt
  total : (nodes.map fun n => n.weight.toInt).sum < 2 ^ 31

/-- What a strategy may ask of a node before it picks it. -/
def RpcNode.Eligible (strategy : LoadBalanceStrategy) (n : RpcNode) : Prop :=
  n.healthy = true ∧ (strategy = .weightedRoundRobin ∨ strategy = .weightedRandom → 0 < n.weight.toInt)

/-- The positions of the healthy nodes. -/
def healthyPositions (nodes : List RpcNode) : List Nat := healthyIdx (fun _ => true) nodes

/-- What each node weighs for the weighted strategies. -/
def shares (nodes : List RpcNode) : List Nat := nodes.map fun n => if n.healthy then n.weight.toInt.toNat else 0

namespace RpcLoadBalancer

/-- What consecutive calls pick, each with its context and what `rand()` would return in it. -/
def picks : List (RpcLbContext × Nat) → RpcLoadBalancer → List (Option Nat)
  | [], _ => []
  | (ctx, rand) :: calls, b => (b.selectNode ctx rand).1 :: picks calls (b.selectNode ctx rand).2

/-- What a call of `selectNode` and a round of calls promise; the rounds are those in which no counter wraps. -/
structure Contract (b : RpcLoadBalancer) : Prop where
  sound : ∀ ctx rand i, (b.selectNode ctx rand).1 = some i → HealthyAt b.nodes i
  none_iff : ∀ ctx rand, (b.selectNode ctx rand).1 = none ↔ ∀ n ∈ b.nodes, ¬n.Eligible b.strategy
  roundRobin : b.strategy = .roundRobin → ∀ (c : UInt64) (calls : List (RpcLbContext × Nat)),
    calls.length = (healthyPositions b.nodes).length → c.toNat + calls.length + b.nodes.length ≤ 2 ^ 64 →
    ∀ i, HealthyAt b.nodes i → (picks calls { b with rrIndex := c }).count (some i) = 1
  weightedRoundRobin : b.strategy = .weightedRoundRobin → ∀ (c : UInt64) (calls : List (RpcLbContext × Nat)),
    calls.length = (shares b.nodes).sum → c.toNat + calls.length ≤ 2 ^ 64 →
    ∀ i n, b.nodes[i]? = some n → n.healthy = true →
      (picks calls { b with wrrIndex := c }).count (some i) = n.weight.toInt.toNat

/-- The position that the turn `i` of the loop of `selectRoundRobin` looks at. -/
def looked (b : RpcLoadBalancer) (i : Nat) : Nat := (b.rrIndex.toNat + i) % 2 ^ 64 % b.nodes.length

def Served (b : RpcLoadBalancer) : Prop :=
  match b.strategy with
  | .roundRobin =>
    ((∃ n ∈ b.nodes, n.healthy = true) → ∃ i < b.nodes.length, HealthyAt b.nodes (b.looked i)) ∧
      ((∀ n ∈ b.nodes, n.healthy = true) ∨ (healthyPositions b.nodes).length ≤ 1)
  | .leastConnections =>
    (∃ n ∈ b.nodes, n.healthy = true) → ∃ n ∈ b.nodes, n.healthy = true ∧ n.activeRequests < UInt64.ofNat (2 ^ 64 - 1)
  | _ => True

end RpcLoadBalancer

/-! ## Lemmas -/

variable {nodes : List RpcNode} {i : Nat}

theorem healthyAt_iff :
    HealthyAt nodes i ↔ nodes[i]?.any (·.healthy) = true := by
  cases h : nodes[i]? <;> simp [HealthyAt, h]

theorem exists_healthyAt : (∃ i, HealthyAt nodes i) ↔ ∃ n ∈ nodes, n.healthy = true := by
  constructor
  · rintro ⟨i, n, hn, hh⟩
    exact ⟨n, List.mem_of_getElem? hn, hh⟩
  · rintro ⟨n, hn, hh⟩
    obtain ⟨i, hi⟩ := List.mem_iff_getElem?.mp hn
    exact ⟨i, n, hi, hh⟩

theorem HealthyAt.lt (h : HealthyAt nodes i) : i < nodes.length := by
  obtain ⟨n, hn, -⟩ := h
  exact (List.getElem?_eq_some_iff.mp hn).1

theorem pick_eq_none {l : List Nat} {hash : Nat} : pick l hash = none ↔ l = [] := by
  rw [pick, List.getElem?_eq_none_iff]
  constructor
  · intro h
    cases l with
    | nil => rfl
    | cons x l => exact absurd (Nat.mod_lt hash (Nat.succ_pos l.length)) (Nat.not_lt.mpr h)
  · rintro rfl
    exact Nat.zero_le _

theorem healthyIdx_eq_nil {p : RpcNode → Bool} :
    healthyIdx p nodes = [] ↔ ∀ n ∈ nodes, n.healthy = true → p n = false := by
  rw [healthyIdx, List.map_eq_nil_iff, List.filter_eq_nil_iff]
  constructor
  · intro h n hn hh
    obtain ⟨i, hi⟩ := List.mem_iff_getElem?.mp hn
    simpa [hh] using h (n, i) (List.mem_zipIdx_iff_getElem?.mpr hi)
  · intro h x hx
    have := h x.1 (List.mem_of_getElem? (List.mem_zipIdx_iff_getElem?.mp hx))
    simpa using this

theorem mem_healthyPositions : i ∈ healthyPositions nodes ↔ HealthyAt nodes i := by
  simp only [healthyPositions, healthyIdx, List.mem_map, List.mem_filter, List.mem_zipIdx_iff_getElem?, HealthyAt,
    Bool.and_true]
  constructor
  · rintro ⟨x, ⟨hx, hh⟩, rfl⟩
    exact ⟨x.1, hx, hh⟩
  · rintro ⟨n, hn, hh⟩
    exact ⟨(n, i), ⟨hn, hh⟩, rfl⟩

theorem healthyPositions_sublist (nodes : List RpcNode) :
    (healthyPositions nodes).Sublist (List.range nodes.length) := by
  have hidx : nodes.zipIdx.map (·.2) = List.range nodes.length := by simp [List.range_eq_range']
  rw [← hidx]
  exact List.filter_sublist.map _

theorem length_healthyPositions (h : ∀ n ∈ nodes, n.healthy = true) :
    (healthyPositions nodes).length = nodes.length := by
  rw [healthyPositions, healthyIdx, List.filter_eq_self.mpr, List.length_map, List.length_zipIdx]
  intro x hx
  rw [h x.1 (List.mem_of_getElem? (List.mem_zipIdx_iff_getElem?.mp hx))]
  rfl

/-! ### The weighted sums -/

theorem getD_shares {n : RpcNode} (hn : nodes[i]? = some n)
    (hh : n.healthy = true) : (shares nodes).getD i 0 = n.weight.toInt.toNat := by
  rw [List.getD_eq_getElem?_getD, shares, List.getElem?_map, hn, Option.map_some, if_pos hh]
  rfl

theorem shares_cons (n : RpcNode) (nodes : List RpcNode) :
    shares (n :: nodes) = (if n.healthy then n.weight.toInt.toNat else 0) :: shares nodes := rfl

theorem sum_shares_le (h : ∀ n ∈ nodes, 0 ≤ n.weight.toInt) :
    ((shares nodes).sum : Int) ≤ (nodes.map fun n => n.weight.toInt).sum := by
  induction nodes with
  | nil => exact Int.le_refl _
  | cons n nodes ih =>
    have hn := h n List.mem_cons_self
    have hrest := ih fun m hm => h m (List.mem_cons_of_mem _ hm)
    rw [shares_cons, List.sum_cons, List.map_cons, List.sum_cons]
    split <;> omega

theorem sum_shares_eq_zero :
    (shares nodes).sum = 0 ↔ ∀ n ∈ nodes, n.healthy = true → ¬0 < n.weight.toInt := by
  rw [List.sum_eq_zero_iff_forall_eq_nat]
  constructor
  · intro h n hn hh
    have := h _ (List.mem_map_of_mem hn)
    rw [if_pos hh] at this
    omega
  · intro h x hx
    obtain ⟨n, hn, rfl⟩ := List.mem_map.mp hx
    by_cases hh : n.healthy = true
    · have := h n hn hh
      rw [if_pos hh]
      omega
    · rw [if_neg hh]

theorem toInt_add_of_lt {a b : Int32} (ha : 0 ≤ a.toInt) (hb : 0 ≤ b.toInt) (h : a.toInt + b.toInt < 2 ^ 31) :
    (a + b).toInt = a.toInt + b.toInt := by
  rw [Int32.toInt_add, Int.bmod_eq_of_le (by omega) (by omega)]

theorem toInt_totalWeight (hw : ∀ n ∈ nodes, 0 ≤ n.weight.toInt) (total : Int32)
    (h0 : 0 ≤ total.toInt) (hlt : total.toInt + (shares nodes).sum < 2 ^ 31) :
    ((nodes.filter (·.healthy)).foldl (fun total n => total + n.weight) total).toInt =
      total.toInt + (shares nodes).sum := by
  induction nodes generalizing total with
  | nil => simp [shares]
  | cons n nodes ih =>
    have hn := hw n List.mem_cons_self
    have hrest : ∀ m ∈ nodes, 0 ≤ m.weight.toInt := fun m hm => hw m (List.mem_cons_of_mem _ hm)
    rw [shares_cons, List.sum_cons] at hlt ⊢
    by_cases hh : n.healthy = true
    · rw [if_pos hh] at hlt ⊢
      have hadd := toInt_add_of_lt h0 hn (by omega)
      rw [List.filter_cons_of_pos hh, List.foldl_cons, ih hrest (total + n.weight) (by omega) (by omega), hadd]
      omega
    · rw [if_neg hh] at hlt ⊢
      rw [List.filter_cons_of_neg hh, ih hrest total h0 (by omega)]
      omega

/-- The loop of the weighted strategies ends at the node whose block the target is in. -/
theorem reach_eq_slot (hw : ∀ n ∈ nodes, 0 ≤ n.weight.toInt) (k : Nat)
    (target current : Int32) (h0 : 0 ≤ current.toInt) (ht : current.toInt < target.toInt)
    (hlt : current.toInt + (shares nodes).sum < 2 ^ 31) :
    reach target (nodes.zipIdx k) current =
      (slot (shares nodes) (target.toInt - current.toInt - 1).toNat).map (· + k) := by
  induction nodes generalizing k current with
  | nil => rfl
  | cons n nodes ih =>
    have hn := hw n List.mem_cons_self
    have hrest : ∀ m ∈ nodes, 0 ≤ m.weight.toInt := fun m hm => hw m (List.mem_cons_of_mem _ hm)
    rw [shares_cons, List.sum_cons] at hlt
    rw [shares_cons, List.zipIdx_cons, reach]
    have hmap : ∀ o : Option Nat, (o.map (· + 1)).map (· + k) = o.map (· + (k + 1)) := by
      intro o
      cases o with
      | none => rfl
      | some i =>
        show some (i + 1 + k) = some (i + (k + 1))
        rw [Nat.add_assoc, Nat.add_comm 1 k]
    by_cases hh : n.healthy = true
    · rw [if_pos hh] at hlt
      have hadd := toInt_add_of_lt h0 hn (by omega)
      rw [if_neg (by simp [hh]), if_pos hh]
      by_cases hle : target ≤ current + n.weight
      · rw [Int32.le_iff_toInt_le, hadd] at hle
        rw [if_pos (by rwa [Int32.le_iff_toInt_le, hadd]), slot_cons_lt _ (by omega)]
        exact congrArg some (Nat.zero_add k).symm
      · rw [Int32.le_iff_toInt_le, hadd] at hle
        rw [if_neg (by rwa [Int32.le_iff_toInt_le, hadd]),
          ih hrest (k + 1) (current + n.weight) (by omega) (by omega) (by omega), hadd]
        rw [show (target.toInt - current.toInt - 1).toNat =
          n.weight.toInt.toNat + (target.toInt - (current.toInt + n.weight.toInt) - 1).toNat by omega]
        rw [slot_cons_add, hmap]
    · rw [if_neg hh] at hlt
      rw [if_pos (by simp [hh]), if_neg hh, ih hrest (k + 1) current h0 ht (by omega)]
      rw [← Nat.zero_add (target.toInt - current.toInt - 1).toNat, slot_cons_add, hmap, Nat.zero_add]

namespace RpcLoadBalancer

variable {b : RpcLoadBalancer}

/-! ### What one call picks -/

theorem weighted_eq_slot (hw : Weighed b.nodes) (turn : Nat) :
    (if totalWeight b.nodes ≤ 0 then none
      else reach (Int32.ofNat (turn % (totalWeight b.nodes).toInt.toNat + 1)) b.nodes.zipIdx 0) =
      slot (shares b.nodes) (turn % (shares b.nodes).sum) := by
  have hle := sum_shares_le hw.weight
  have hlt := hw.total
  have htotal : (totalWeight b.nodes).toInt = (shares b.nodes).sum := by
    have := toInt_totalWeight hw.weight 0 (Int.le_refl _) (by show (0 : Int) + _ < _; omega)
    rwa [show ((0 : Int32).toInt) = 0 from rfl, Int.zero_add] at this
  by_cases h0 : (shares b.nodes).sum = 0
  · rw [if_pos (by rw [Int32.le_iff_toInt_le, htotal, h0]; decide)]
    have := isSome_slot (shares b.nodes) (turn % (shares b.nodes).sum)
    rw [h0, decide_eq_false (Nat.not_lt_zero _), Option.isSome_eq_false_iff, Option.isNone_iff_eq_none] at this
    rw [h0]
    exact this.symm
  · have hmod := Nat.mod_lt turn (Nat.pos_of_ne_zero h0)
    rw [if_neg (by rw [Int32.le_iff_toInt_le, htotal]; show ¬((_ : Int) ≤ 0); omega), htotal, Int.toNat_natCast]
    have htarget : (Int32.ofNat (turn % (shares b.nodes).sum + 1)).toInt = (turn % (shares b.nodes).sum + 1 : Nat) :=
      Int32.toInt_ofNat_of_lt (by omega)
    have hzero : (0 : Int32).toInt = 0 := rfl
    rw [reach_eq_slot hw.weight 0 _ 0 (Int.le_refl _) (by rw [htarget, hzero]; omega) (by rw [hzero]; omega)]
    rw [htarget, hzero, show ((turn % (shares b.nodes).sum + 1 : Nat) - (0 : Int) - 1).toNat =
      turn % (shares b.nodes).sum by omega]
    exact Option.map_id' ..

theorem selectWeightedRoundRobin_fst (hw : Weighed b.nodes) :
    b.selectWeightedRoundRobin.1 = slot (shares b.nodes) (b.wrrIndex.toNat % (shares b.nodes).sum) := by
  rw [← weighted_eq_slot hw, selectWeightedRoundRobin]
  by_cases h : totalWeight b.nodes ≤ 0
  · rw [if_pos h, if_pos h]
  · rw [if_neg h, if_neg h]

theorem selectWeightedRandom_eq (hw : Weighed b.nodes) (rand : Nat) :
    b.selectWeightedRandom rand = slot (shares b.nodes) (rand % (shares b.nodes).sum) := weighted_eq_slot hw rand

theorem slot_eq_none_iff (turn : Nat) : slot (shares b.nodes) (turn % (shares b.nodes).sum) = none ↔
    ∀ n ∈ b.nodes, n.healthy = true → ¬0 < n.weight.toInt := by
  rw [← sum_shares_eq_zero, ← Option.isNone_iff_eq_none, ← Option.isSome_eq_false_iff, isSome_slot,
    decide_eq_false_iff_not]
  constructor
  · intro h
    by_contra h0
    exact h (Nat.mod_lt turn (Nat.pos_of_ne_zero h0))
  · intro h0
    rw [h0]
    exact Nat.not_lt_zero _

theorem selectCanary_eq_none {ctx : RpcLbContext} :
    b.selectCanary ctx = none ↔ ∀ n ∈ b.nodes, ¬n.healthy = true := by
  have hboth : healthyIdx RpcNode.isCanary b.nodes = [] ∧ healthyIdx (fun n => !n.isCanary) b.nodes = [] ↔
      ∀ n ∈ b.nodes, ¬n.healthy = true := by
    rw [healthyIdx_eq_nil, healthyIdx_eq_nil]
    constructor
    · intro h n hn hh
      have hstable := h.2 n hn hh
      rw [h.1 n hn hh] at hstable
      cases hstable
    · intro h
      exact ⟨fun n hn hh => absurd hh (h n hn), fun n hn hh => absurd hh (h n hn)⟩
  rw [← hboth]
  unfold selectCanary
  by_cases hcanary : healthyIdx RpcNode.isCanary b.nodes = []
  · by_cases hstable : healthyIdx (fun n => !n.isCanary) b.nodes = []
    · simp [hcanary, hstable, pick]
    · simp [hcanary, hstable, pick_eq_none]
  · by_cases hstable : healthyIdx (fun n => !n.isCanary) b.nodes = []
    · cases hc : ctx.canary <;> simp [hcanary, hstable, pick_eq_none]
    · cases hc : ctx.canary <;> simp [hcanary, hstable, pick_eq_none]

theorem selectSameZone_eq_none {ctx : RpcLbContext} :
    b.selectSameZone ctx = none ↔ ∀ n ∈ b.nodes, ¬n.healthy = true := by
  unfold selectSameZone
  by_cases hsame : healthyIdx (·.isIn ctx.zone) b.nodes = []
  · rw [if_neg (by simp [hsame]), pick_eq_none, healthyIdx_eq_nil]
    have hnone := healthyIdx_eq_nil.mp hsame
    constructor
    · intro h n hn hh
      have hother := h n hn hh
      rw [hnone n hn hh] at hother
      cases hother
    · exact fun h n hn hh => absurd hh (h n hn)
  · rw [if_pos (by simp [hsame]), pick_eq_none]
    constructor
    · exact fun h => absurd h hsame
    · intro h
      exact healthyIdx_eq_nil.mpr fun n hn hh => absurd hh (h n hn)

theorem pick_healthyPositions_eq_none {hash : Nat} :
    pick (healthyIdx (fun _ => true) nodes) hash = none ↔ ∀ n ∈ nodes, ¬n.healthy = true := by
  rw [pick_eq_none, healthyIdx_eq_nil]
  exact ⟨fun h n hn hh => (by cases h n hn hh), fun h n hn hh => absurd hh (h n hn)⟩

theorem selectLeastConnections_eq_none : b.selectLeastConnections = none ↔
    ∀ n ∈ b.nodes, n.healthy = true → ¬n.activeRequests < UInt64.ofNat (2 ^ 64 - 1) := by
  constructor
  · intro h n hn hh hlt
    obtain ⟨i, hi⟩ := selectLeastConnections_isSome hn hh hlt
    rw [h] at hi
    cases hi
  · intro h
    rw [selectLeastConnections]
    have hskip : ∀ l : List (RpcNode × Nat), (∀ x ∈ l, x.1 ∈ b.nodes) →
        l.foldl lessActive (none, UInt64.ofNat (2 ^ 64 - 1)) = (none, UInt64.ofNat (2 ^ 64 - 1)) := by
      intro l hl
      induction l with
      | nil => rfl
      | cons x l ih =>
        rw [List.foldl_cons, lessActive, if_neg fun hx => h x.1 (hl x List.mem_cons_self) hx.1 hx.2]
        exact ih fun y hy => hl y (List.mem_cons_of_mem _ hy)
    rw [hskip _ fun x hx => List.mem_of_getElem? (List.mem_zipIdx_iff_getElem?.mp hx)]

theorem selectRoundRobin_fst : b.selectRoundRobin.1 =
    ((List.range b.nodes.length).map b.looked).find? fun idx => b.nodes[idx]?.any (·.healthy) := by
  unfold selectRoundRobin
  by_cases hb : b.nodes.isEmpty = true
  · rw [if_pos hb, List.isEmpty_iff.mp hb]
    rfl
  · rw [if_neg hb]
    refine congrArg (List.find? _) (List.map_congr_left fun i _ => ?_)
    rw [UInt64.toNat_add, UInt64.toNat_ofNat']
    show (b.rrIndex.toNat + i % 2 ^ 64) % 2 ^ 64 % b.nodes.length = _
    rw [Nat.add_mod_mod]
    rfl

theorem selectRoundRobin_eq_none :
    b.selectRoundRobin.1 = none ↔ ∀ i < b.nodes.length, ¬HealthyAt b.nodes (b.looked i) := by
  rw [selectRoundRobin_fst, List.find?_eq_none]
  constructor
  · intro h i hi hh
    exact h _ (List.mem_map_of_mem (List.mem_range.mpr hi)) (healthyAt_iff.mp hh)
  · intro h x hx hh
    obtain ⟨i, hi, rfl⟩ := List.mem_map.mp hx
    exact h i (List.mem_range.mp hi) (healthyAt_iff.mpr hh)

theorem selectRoundRobin_of_looked (hi : i < b.nodes.length) (hh : HealthyAt b.nodes (b.looked i))
    (hbefore : ∀ j < i, ¬HealthyAt b.nodes (b.looked j)) : b.selectRoundRobin.1 = some (b.looked i) := by
  have hfind : (List.range b.nodes.length).find? ((fun idx => b.nodes[idx]?.any (·.healthy)) ∘ b.looked) = some i := by
    rw [List.find?_range_eq_some]
    refine ⟨healthyAt_iff.mp hh, List.mem_range.mpr hi, ?_⟩
    intro j hj
    rw [Function.comp_apply, Bool.not_eq_true', Bool.eq_false_iff]
    exact fun h => hbefore j hj (healthyAt_iff.mpr h)
  rw [selectRoundRobin_fst, List.find?_map, hfind]
  rfl

theorem looked_of_lt (h : b.rrIndex.toNat + i < 2 ^ 64) :
    b.looked i = (b.rrIndex.toNat + i) % b.nodes.length := by rw [looked, Nat.mod_eq_of_lt h]

theorem exists_turn (c n : Nat) (hi : i < n) : ∃ k < n, (c + k) % n = i := by
  obtain ⟨k, hk, hik⟩ := List.mem_map.mp ((turns_perm n c).mem_iff.mpr (List.mem_range.mpr hi))
  exact ⟨k, List.mem_range.mp hk, hik⟩

theorem exists_looked (hwrap : b.rrIndex.toNat + b.nodes.length ≤ 2 ^ 64) (hi : i < b.nodes.length) :
    ∃ k < b.nodes.length, b.looked k = i := by
  obtain ⟨k, hk, hik⟩ := exists_turn b.rrIndex.toNat b.nodes.length hi
  exact ⟨k, hk, by rw [looked_of_lt (by omega), hik]⟩

/-! ### What a round picks -/

theorem picks_eq (turn : Nat → RpcLoadBalancer) (f : Nat → Option Nat) (calls : List (RpcLbContext × Nat))
    (h : ∀ k < calls.length, ∀ ctx rand, (turn k).selectNode ctx rand = (f k, turn (k + 1))) :
    picks calls (turn 0) = (List.range calls.length).map f := by
  induction calls generalizing turn f with
  | nil => rfl
  | cons call calls ih =>
    have hhead := h 0 (by simp) call.1 call.2
    have hrest := ih (fun k => turn (k + 1)) (fun k => f (k + 1)) fun k hk => h (k + 1) (by simpa using hk)
    rw [List.length_cons, List.range_succ_eq_map, List.map_cons, List.map_map]
    show _ :: picks calls _ = _
    rw [hhead, hrest]
    rfl

theorem toNat_turn {c : UInt64} {k : Nat} (h : c.toNat + k < 2 ^ 64) : (c + UInt64.ofNat k).toNat = c.toNat + k := by
  rw [UInt64.toNat_add, UInt64.toNat_ofNat']
  show (c.toNat + k % 2 ^ 64) % 2 ^ 64 = _
  rw [Nat.add_mod_mod, Nat.mod_eq_of_lt h]

theorem turn_succ (c : UInt64) (k : Nat) : c + UInt64.ofNat k + 1 = c + UInt64.ofNat (k + 1) := by
  rw [UInt64.ofNat_add, UInt64.add_assoc]
  rfl

theorem weightedRoundRobin_fair (hw : Weighed b.nodes) (hs : b.strategy = .weightedRoundRobin) (c : UInt64)
    (calls : List (RpcLbContext × Nat)) (hlen : calls.length = (shares b.nodes).sum)
    (hwrap : c.toNat + calls.length ≤ 2 ^ 64) (i : Nat) :
    (picks calls { b with wrrIndex := c }).count (some i) = (shares b.nodes).getD i 0 := by
  have hle := sum_shares_le hw.weight
  have hlt := hw.total
  have hpicks := picks_eq (fun k => { b with wrrIndex := c + UInt64.ofNat k })
    (fun k => slot (shares b.nodes) ((c.toNat + k) % (shares b.nodes).sum)) calls ?_
  · have hzero : ({ b with wrrIndex := c + UInt64.ofNat 0 } : RpcLoadBalancer) = { b with wrrIndex := c } := by
      rw [show UInt64.ofNat 0 = 0 from rfl, UInt64.add_zero]
    have hturns : (List.range (shares b.nodes).sum).map
        (fun k => slot (shares b.nodes) ((c.toNat + k) % (shares b.nodes).sum)) =
        (turns (shares b.nodes).sum c.toNat).map (slot (shares b.nodes)) := by
      rw [turns, List.map_map]
      rfl
    rw [hzero, hlen, hturns] at hpicks
    rw [hpicks, count_slot_turns]
  · intro k hk ctx rand
    have hfst := selectWeightedRoundRobin_fst (b := { b with wrrIndex := c + UInt64.ofNat k }) hw
    have hpos : ¬totalWeight b.nodes ≤ 0 := by
      intro h0
      rw [selectWeightedRoundRobin, if_pos h0] at hfst
      have := isSome_slot (shares b.nodes) ((c + UInt64.ofNat k).toNat % (shares b.nodes).sum)
      rw [← hfst, decide_eq_true (Nat.mod_lt _ (by omega))] at this
      cases this
    have hselect : ({ b with wrrIndex := c + UInt64.ofNat k } : RpcLoadBalancer).selectNode ctx rand =
        ({ b with wrrIndex := c + UInt64.ofNat k } : RpcLoadBalancer).selectWeightedRoundRobin := by
      rw [selectNode, hs]
    rw [hselect]
    refine Prod.ext ?_ ?_
    · rw [hfst]
      show slot _ ((c + UInt64.ofNat k).toNat % _) = _
      rw [toNat_turn (by omega)]
    · rw [selectWeightedRoundRobin, if_neg hpos, ← turn_succ]

theorem selectRoundRobin_snd (hne : b.nodes ≠ []) : b.selectRoundRobin.2 = { b with rrIndex := b.rrIndex + 1 } := by
  rw [selectRoundRobin, if_neg (by simpa using hne)]

/-! ### When the turns are fair -/

theorem selectNode_roundRobin (hs : b.strategy = .roundRobin) (c : UInt64) (ctx : RpcLbContext) (rand : Nat) :
    ({ b with rrIndex := c } : RpcLoadBalancer).selectNode ctx rand =
      ({ b with rrIndex := c } : RpcLoadBalancer).selectRoundRobin := by
  rw [selectNode, hs]

theorem healthyAt_of_all (hall : ∀ n ∈ b.nodes, n.healthy = true) (hi : i < b.nodes.length) :
    HealthyAt b.nodes i :=
  ⟨b.nodes[i], List.getElem?_eq_getElem hi, hall _ (List.getElem_mem hi)⟩

theorem roundRobin_all (hs : b.strategy = .roundRobin) (hall : ∀ n ∈ b.nodes, n.healthy = true) (c : UInt64)
    (calls : List (RpcLbContext × Nat)) (hlen : calls.length = b.nodes.length)
    (hwrap : c.toNat + calls.length + b.nodes.length ≤ 2 ^ 64) (hi : HealthyAt b.nodes i) :
    (picks calls { b with rrIndex := c }).count (some i) = 1 := by
  have hpos : 0 < b.nodes.length := Nat.zero_lt_of_lt hi.lt
  have hpicks := picks_eq (fun k => { b with rrIndex := c + UInt64.ofNat k })
    (fun k => some ((c.toNat + k) % b.nodes.length)) calls ?_
  · have hturns : (List.range b.nodes.length).map (fun k => some ((c.toNat + k) % b.nodes.length)) =
        (turns b.nodes.length c.toNat).map some := by
      rw [turns, List.map_map]
      rfl
    have hzero : ({ b with rrIndex := c + UInt64.ofNat 0 } : RpcLoadBalancer) = { b with rrIndex := c } := by
      rw [show UInt64.ofNat 0 = 0 from rfl, UInt64.add_zero]
    rw [hzero, hlen, hturns] at hpicks
    rw [hpicks, List.count_map_of_injective _ _ (Option.some_injective _), (turns_perm _ _).count_eq]
    exact List.count_eq_one_of_mem List.nodup_range (List.mem_range.mpr hi.lt)
  · intro k hk ctx rand
    rw [selectNode_roundRobin hs]
    have hlooked := looked_of_lt (b := { b with rrIndex := c + UInt64.ofNat k }) (i := 0)
      (by show (c + UInt64.ofNat k).toNat + 0 < _; rw [toNat_turn (by omega)]; omega)
    have hfirst := selectRoundRobin_of_looked (b := { b with rrIndex := c + UInt64.ofNat k }) hpos
      (by rw [hlooked]; exact healthyAt_of_all hall (Nat.mod_lt _ hpos)) (by simp)
    refine Prod.ext ?_ ?_
    · rw [hfirst, hlooked]
      show some (((c + UInt64.ofNat k).toNat + 0) % _) = _
      rw [toNat_turn (by omega), Nat.add_zero]
    · rw [selectRoundRobin_snd (b := { b with rrIndex := c + UInt64.ofNat k }) (List.ne_nil_of_length_pos hpos),
        ← turn_succ]

theorem roundRobin_one (hs : b.strategy = .roundRobin) (hone : (healthyPositions b.nodes).length ≤ 1) (c : UInt64)
    (calls : List (RpcLbContext × Nat)) (hlen : calls.length = (healthyPositions b.nodes).length)
    (hwrap : c.toNat + calls.length + b.nodes.length ≤ 2 ^ 64) (hi : HealthyAt b.nodes i) :
    (picks calls { b with rrIndex := c }).count (some i) = 1 := by
  have hmem := mem_healthyPositions.mpr hi
  obtain ⟨j, hj⟩ := List.length_eq_one_iff.mp (Nat.le_antisymm hone (List.length_pos_of_mem hmem))
  rw [hj] at hlen
  obtain ⟨call, rfl⟩ := List.length_eq_one_iff.mp hlen
  obtain ⟨k, hk, hki⟩ := exists_looked (b := { b with rrIndex := c })
    (by show c.toNat + b.nodes.length ≤ 2 ^ 64; omega) hi.lt
  have hfound : ({ b with rrIndex := c } : RpcLoadBalancer).selectRoundRobin.1 = some i := by
    cases hp : ({ b with rrIndex := c } : RpcLoadBalancer).selectRoundRobin.1 with
    | none => exact absurd (by rw [hki]; exact hi) (selectRoundRobin_eq_none.mp hp k hk)
    | some p =>
      have hpos := mem_healthyPositions.mpr (selectRoundRobin_healthy hp)
      rw [hj, List.mem_singleton] at hmem
      rw [show ({ b with rrIndex := c } : RpcLoadBalancer).nodes = b.nodes from rfl, hj, List.mem_singleton] at hpos
      rw [hpos, hmem]
  show (((({ b with rrIndex := c } : RpcLoadBalancer).selectNode call.1 call.2).1) :: []).count (some i) = 1
  rw [selectNode_roundRobin hs, hfound, List.count_cons_self, List.count_nil]

/-- On the way round from an unhealthy node to a healthy one there is a step from the one to the other. -/
theorem exists_step (hun : ∃ n ∈ b.nodes, ¬n.healthy = true) (hh : ∃ i, HealthyAt b.nodes i) :
    ∃ p < b.nodes.length, ¬HealthyAt b.nodes p ∧ HealthyAt b.nodes ((p + 1) % b.nodes.length) := by
  obtain ⟨n, hn, hnh⟩ := hun
  obtain ⟨p, hp⟩ := List.mem_iff_getElem?.mp hn
  have hlt : p < b.nodes.length := (List.getElem?_eq_some_iff.mp hp).1
  have hun : ¬HealthyAt b.nodes p := by
    rintro ⟨m, hm, hmh⟩
    rw [hp] at hm
    cases hm
    exact hnh hmh
  by_contra hno
  have hwalk : ∀ k, ¬HealthyAt b.nodes ((p + k) % b.nodes.length) := by
    intro k
    induction k with
    | zero => rwa [Nat.add_zero, Nat.mod_eq_of_lt hlt]
    | succ k ih =>
      intro hk
      refine hno ⟨_, Nat.mod_lt _ (by omega), ih, ?_⟩
      rwa [Nat.mod_add_mod]
  obtain ⟨i, hi⟩ := hh
  obtain ⟨k, -, hk⟩ := exists_turn p b.nodes.length hi.lt
  exact hwalk k (hk.symm ▸ hi)

/-- The node after an unhealthy one is picked in two turns running. -/
theorem roundRobin_unfair (hs : b.strategy = .roundRobin) (hlt : b.nodes.length < 2 ^ 31)
    (hun : ∃ n ∈ b.nodes, ¬n.healthy = true) (htwo : 2 ≤ (healthyPositions b.nodes).length) :
    ∃ (c : UInt64) (calls : List (RpcLbContext × Nat)) (i : Nat),
      calls.length = (healthyPositions b.nodes).length ∧ c.toNat + calls.length + b.nodes.length ≤ 2 ^ 64 ∧
      HealthyAt b.nodes i ∧ (picks calls { b with rrIndex := c }).count (some i) ≠ 1 := by
  obtain ⟨i, hi⟩ := List.exists_mem_of_length_pos (Nat.zero_lt_of_lt htwo)
  obtain ⟨p, hp, hpun, hq⟩ := exists_step hun ⟨i, mem_healthyPositions.mp hi⟩
  have hle := (healthyPositions_sublist b.nodes).length_le
  rw [List.length_range] at hle
  obtain ⟨m, hm⟩ := Nat.exists_eq_add_of_le htwo
  have hone : (1 : Nat) < b.nodes.length := by omega
  have hc : (UInt64.ofNat p).toNat = p := UInt64.toNat_ofNat_of_lt' (by show p < 2 ^ 64; omega)
  have hc1 : (UInt64.ofNat p + 1).toNat = p + 1 := by
    have := toNat_turn (c := UInt64.ofNat p) (k := 1) (by rw [hc]; omega)
    rwa [hc] at this
  refine ⟨UInt64.ofNat p, List.replicate (2 + m) ({}, 0), (p + 1) % b.nodes.length, ?_, ?_, hq, ?_⟩
  · rw [List.length_replicate, hm]
  · rw [List.length_replicate, hc]
    omega
  have hfst : ({ b with rrIndex := UInt64.ofNat p } : RpcLoadBalancer).selectRoundRobin =
      (some ((p + 1) % b.nodes.length), { b with rrIndex := UInt64.ofNat p + 1 }) := by
    have h0 : looked { b with rrIndex := UInt64.ofNat p } 0 = p := by
      rw [looked_of_lt (by show (UInt64.ofNat p).toNat + 0 < _; omega)]
      show ((UInt64.ofNat p).toNat + 0) % _ = p
      rw [hc, Nat.add_zero, Nat.mod_eq_of_lt hp]
    have h1 : looked { b with rrIndex := UInt64.ofNat p } 1 = (p + 1) % b.nodes.length := by
      rw [looked_of_lt (by show (UInt64.ofNat p).toNat + 1 < _; omega)]
      show ((UInt64.ofNat p).toNat + 1) % _ = _
      rw [hc]
    refine Prod.ext ?_ (selectRoundRobin_snd (List.ne_nil_of_length_pos (Nat.zero_lt_of_lt hp)))
    rw [selectRoundRobin_of_looked (b := { b with rrIndex := UInt64.ofNat p }) hone (by rw [h1]; exact hq), h1]
    intro j hj
    rw [Nat.lt_one_iff.mp hj, h0]
    exact hpun
  have hsnd : ({ b with rrIndex := UInt64.ofNat p + 1 } : RpcLoadBalancer).selectRoundRobin.1 =
      some ((p + 1) % b.nodes.length) := by
    have h0 : looked { b with rrIndex := UInt64.ofNat p + 1 } 0 = (p + 1) % b.nodes.length := by
      rw [looked_of_lt (by show (UInt64.ofNat p + 1).toNat + 0 < _; omega)]
      show ((UInt64.ofNat p + 1).toNat + 0) % _ = _
      rw [hc1, Nat.add_zero]
    rw [selectRoundRobin_of_looked (b := { b with rrIndex := UInt64.ofNat p + 1 }) (Nat.zero_lt_of_lt hp)
      (by rw [h0]; exact hq) (by simp), h0]
  rw [show 2 + m = m + 1 + 1 by omega, List.replicate_succ, List.replicate_succ]
  rw [picks, selectNode_roundRobin hs, hfst, picks, selectNode_roundRobin hs, hsnd]
  rw [List.count_cons_self, List.count_cons_self]
  omega

/-! ## Top theorem -/

theorem selectNode_none_iff (hw : Weighed b.nodes) (ctx : RpcLbContext) (rand : Nat)
    (hrr : b.strategy ≠ .roundRobin) (hlc : b.strategy ≠ .leastConnections) :
    (b.selectNode ctx rand).1 = none ↔ ∀ n ∈ b.nodes, ¬n.Eligible b.strategy := by
  have hplain : ∀ s : LoadBalanceStrategy, s ≠ .weightedRoundRobin → s ≠ .weightedRandom →
      ((∀ n ∈ b.nodes, ¬n.Eligible s) ↔ ∀ n ∈ b.nodes, ¬n.healthy = true) := by
    intro s h1 h2
    refine forall₂_congr fun n _ => not_congr ⟨fun h => h.1, fun h => ⟨h, ?_⟩⟩
    exact fun hs => hs.elim (fun hs => absurd hs h1) (fun hs => absurd hs h2)
  have hweighted : ∀ s : LoadBalanceStrategy, s = .weightedRoundRobin ∨ s = .weightedRandom →
      ((∀ n ∈ b.nodes, ¬n.Eligible s) ↔ ∀ n ∈ b.nodes, n.healthy = true → ¬0 < n.weight.toInt) := by
    intro s hs
    refine forall₂_congr fun n _ => ?_
    rw [RpcNode.Eligible, not_and]
    exact imp_congr_right fun _ => not_congr ⟨fun h => h hs, fun h _ => h⟩
  unfold selectNode
  cases hs : b.strategy with
  | roundRobin => exact absurd hs hrr
  | leastConnections => exact absurd hs hlc
  | random => exact pick_healthyPositions_eq_none.trans (hplain _ (by decide) (by decide)).symm
  | consistentHash => exact pick_healthyPositions_eq_none.trans (hplain _ (by decide) (by decide)).symm
  | canary => exact selectCanary_eq_none.trans (hplain _ (by decide) (by decide)).symm
  | sameZone => exact selectSameZone_eq_none.trans (hplain _ (by decide) (by decide)).symm
  | weightedRoundRobin =>
    show b.selectWeightedRoundRobin.1 = none ↔ _
    rw [selectWeightedRoundRobin_fst hw, slot_eq_none_iff]
    exact (hweighted _ (.inl rfl)).symm
  | weightedRandom =>
    show b.selectWeightedRandom rand = none ↔ _
    rw [selectWeightedRandom_eq hw, slot_eq_none_iff]
    exact (hweighted _ (.inr rfl)).symm

theorem none_iff_roundRobin (hs : b.strategy = .roundRobin) :
    (∀ ctx rand, (b.selectNode ctx rand).1 = none ↔ ∀ n ∈ b.nodes, ¬n.Eligible b.strategy) ↔
      ((∃ n ∈ b.nodes, n.healthy = true) → ∃ i < b.nodes.length, HealthyAt b.nodes (b.looked i)) := by
  have hnone : ∀ ctx rand, (b.selectNode ctx rand).1 = none ↔
      ¬∃ i < b.nodes.length, HealthyAt b.nodes (b.looked i) := by
    intro ctx rand
    rw [selectNode, hs]
    exact selectRoundRobin_eq_none.trans (by simp)
  have helig : (∀ n ∈ b.nodes, ¬n.Eligible b.strategy) ↔ ¬∃ n ∈ b.nodes, n.healthy = true := by
    simp [RpcNode.Eligible, hs]
  rw [helig]
  constructor
  · intro h hex
    by_contra hno
    exact (h {} 0).mp ((hnone {} 0).mpr hno) hex
  · intro h ctx rand
    rw [hnone]
    refine not_congr ⟨?_, h⟩
    rintro ⟨i, -, hi⟩
    exact exists_healthyAt.mp ⟨_, hi⟩

theorem none_iff_leastConnections (hs : b.strategy = .leastConnections) :
    (∀ ctx rand, (b.selectNode ctx rand).1 = none ↔ ∀ n ∈ b.nodes, ¬n.Eligible b.strategy) ↔
      ((∃ n ∈ b.nodes, n.healthy = true) →
        ∃ n ∈ b.nodes, n.healthy = true ∧ n.activeRequests < UInt64.ofNat (2 ^ 64 - 1)) := by
  have hnone : ∀ ctx rand, (b.selectNode ctx rand).1 = none ↔
      ¬∃ n ∈ b.nodes, n.healthy = true ∧ n.activeRequests < UInt64.ofNat (2 ^ 64 - 1) := by
    intro ctx rand
    rw [selectNode, hs]
    refine selectLeastConnections_eq_none.trans ⟨?_, ?_⟩
    · rintro h ⟨n, hn, hh, hlt⟩
      exact h n hn hh hlt
    · exact fun h n hn hh hlt => h ⟨n, hn, hh, hlt⟩
  have helig : (∀ n ∈ b.nodes, ¬n.Eligible b.strategy) ↔ ¬∃ n ∈ b.nodes, n.healthy = true := by
    simp [RpcNode.Eligible, hs]
  rw [helig]
  constructor
  · intro h hex
    by_contra hno
    exact (h {} 0).mp ((hnone {} 0).mpr hno) hex
  · intro h ctx rand
    rw [hnone]
    refine not_congr ⟨?_, h⟩
    rintro ⟨n, hn, hh, -⟩
    exact ⟨n, hn, hh⟩

theorem fair_iff_roundRobin (hs : b.strategy = .roundRobin) (hlt : b.nodes.length < 2 ^ 31) :
    (∀ (c : UInt64) (calls : List (RpcLbContext × Nat)), calls.length = (healthyPositions b.nodes).length →
      c.toNat + calls.length + b.nodes.length ≤ 2 ^ 64 →
      ∀ i, HealthyAt b.nodes i → (picks calls { b with rrIndex := c }).count (some i) = 1) ↔
    (∀ n ∈ b.nodes, n.healthy = true) ∨ (healthyPositions b.nodes).length ≤ 1 := by
  constructor
  · intro h
    by_contra hno
    obtain ⟨hall, hone⟩ := not_or.mp hno
    obtain ⟨c, calls, i, hlen, hwrap, hi, hcount⟩ :=
      roundRobin_unfair hs hlt (by simpa using hall) (Nat.lt_of_not_le hone)
    exact hcount (h c calls hlen hwrap i hi)
  · intro h c calls hlen hwrap i hi
    rcases h with hall | hone
    · exact roundRobin_all hs hall c calls (hlen.trans (length_healthyPositions hall)) hwrap hi
    · exact roundRobin_one hs hone c calls hlen hwrap hi

theorem contract_iff_served (hw : Weighed b.nodes) : b.Contract ↔ b.Served := by
  have hweighted : b.strategy = .weightedRoundRobin → ∀ (c : UInt64) (calls : List (RpcLbContext × Nat)),
      calls.length = (shares b.nodes).sum → c.toNat + calls.length ≤ 2 ^ 64 →
      ∀ i n, b.nodes[i]? = some n → n.healthy = true →
        (picks calls { b with wrrIndex := c }).count (some i) = n.weight.toInt.toNat := by
    intro hs c calls hlen hwrap i n hn hh
    rw [weightedRoundRobin_fair hw hs c calls hlen hwrap, getD_shares hn hh]
  have hcontract : b.Contract ↔
      (∀ ctx rand, (b.selectNode ctx rand).1 = none ↔ ∀ n ∈ b.nodes, ¬n.Eligible b.strategy) ∧
      (b.strategy = .roundRobin → ∀ (c : UInt64) (calls : List (RpcLbContext × Nat)),
        calls.length = (healthyPositions b.nodes).length → c.toNat + calls.length + b.nodes.length ≤ 2 ^ 64 →
        ∀ i, HealthyAt b.nodes i → (picks calls { b with rrIndex := c }).count (some i) = 1) :=
    ⟨fun h => ⟨h.none_iff, h.roundRobin⟩, fun h => ⟨fun _ _ _ => selectNode_healthy, h.1, h.2, hweighted⟩⟩
  rw [hcontract, Served]
  cases hs : b.strategy with
  | roundRobin =>
    have hfair := fair_iff_roundRobin hs hw.length
    rw [← hs, none_iff_roundRobin hs, hs]
    rw [hs] at hfair
    exact and_congr_right fun _ => ⟨fun h => hfair.mp (h rfl), fun h _ => hfair.mpr h⟩
  | leastConnections =>
    rw [← hs, none_iff_leastConnections hs, hs]
    exact and_iff_left (fun h => (by cases h))
  | _ =>
    refine iff_of_true ⟨fun ctx rand => ?_, fun h => (by cases h)⟩ trivial
    rw [selectNode_none_iff hw ctx rand (by rw [hs]; decide) (by rw [hs]; decide), hs]

/-- Nodes up, down and up: the third is picked in both calls that follow its predecessor's turn. -/
def upDownUp : RpcLoadBalancer :=
  { strategy := .roundRobin
    nodes := [{ id := [], host := [], port := 1 }, { id := [], host := [], port := 2, healthy := false },
      { id := [], host := [], port := 3 }] }

theorem weighed_upDownUp : Weighed upDownUp.nodes where
  length := by decide
  weight := by decide
  total := by decide

theorem contract_upDownUp : Weighed upDownUp.nodes ∧ (upDownUp.Contract ↔ upDownUp.Served) :=
  ⟨weighed_upDownUp, contract_iff_served weighed_upDownUp⟩

theorem upDownUp_unfair : Weighed upDownUp.nodes ∧ ¬upDownUp.Contract := by
  refine ⟨weighed_upDownUp, fun h => ?_⟩
  have := h.roundRobin rfl 1 [({}, 0), ({}, 0)] (by decide) (by decide) 2 ⟨_, rfl, rfl⟩
  exact absurd this (by decide)

end RpcLoadBalancer

end Rpc
