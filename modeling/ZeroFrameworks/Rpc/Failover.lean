import ZeroFrameworks.Kv.Bytes

/-!
# Failover

A leader checks the health of the KV nodes and promotes a replica when a master has missed three checks.
The node table and `m_currentMaster` are changed by the leader's own thread only, as long as it leads, so a
leadership is the sequence of its health checks.

The promoted node is an alive replica with the largest offset, unless a node that answers as SENTINEL is all
there is.  A failed master that comes back and still says MASTER is taken for the master again.  So the
leader picks the best replica and sticks to it if and only if neither happens:

    Along Kept (lead s) checks ↔ Along Sober (lead s) checks
-/

namespace Rpc

open Kv (Bytes BMap lit printInt strtoll)

/-! ## Data -/

inductive NodeRole where
  | master
  | replica
  | sentinel
deriving DecidableEq

structure HealthCheckResponse where
  nodeId : Bytes
  role : NodeRole
  replicationId : Bytes
  replicationOffset : Int
deriving DecidableEq

structure NodeState where
  addr : Bytes := []
  port : Int := 0
  role : NodeRole := .master
  replId : Bytes := []
  replOffset : Int := 0
  alive : Bool := false
  consecutiveFailures : Nat := 0
deriving DecidableEq

structure MasterInfo where
  valid : Bool := false
  host : Bytes := []
  port : Int := 0
  nodeId : Bytes := []
deriving DecidableEq

/-- A monitored node.  The list of them is read from `host:port,host:port`, split at the first colon. -/
structure Addr where
  host : Bytes
  port : Int
  plain : 58 ∉ host
  isInt : -(2 ^ 31) ≤ port ∧ port < 2 ^ 31
deriving DecidableEq

def Addr.key (a : Addr) : Bytes := a.host ++ 58 :: printInt a.port

/-- What a leader knows of the KV nodes. -/
structure Monitor where
  kvNodes : BMap NodeState
  currentMaster : MasterInfo := {}

/-- One health check with the answer, if any.  Should it lead to a failover, `accepted` is whether the
promotion is, and `order` the order in which the hash table is gone through. -/
structure Check where
  node : Addr
  reply : Option HealthCheckResponse
  accepted : Bool := true
  order : BMap NodeState → List (Bytes × NodeState) := fun m => m.toList
  perm : ∀ m, (order m).Perm m.toList := by exact fun _ => List.Perm.refl _

/-! ## Algorithm -/

/-- `std::stoi`, `none` when it throws. -/
def stoi (s : Bytes) : Option Int :=
  let r := strtoll s
  if r.2 = 0 ∨ r.1 < -(2 ^ 31) ∨ 2 ^ 31 ≤ r.1 then none else some r.1

def parseAddr (s : Bytes) : Option (Bytes × Int) :=
  match s.dropWhile (· ≠ 58) with
  | [] => none
  | _ :: rest => (stoi rest).map fun port => (s.takeWhile (· ≠ 58), port)

/-- One loop of `selectBestReplica`. -/
def bestOf (p : NodeState → Bool) (nodes : List (Bytes × NodeState)) (best : Bytes × Int) : Bytes × Int :=
  nodes.foldl (fun b kv => if kv.2.alive && p kv.2 && decide (b.2 < kv.2.replOffset) then (kv.1, kv.2.replOffset) else b)
    best

def selectBestReplica (nodes : List (Bytes × NodeState)) : Bytes :=
  let best := bestOf (fun n => decide (n.role = .replica)) nodes ([], -1)
  if best.1 = [] then (bestOf (fun n => decide (n.role ≠ .master)) nodes best).1 else best.1

def kMaxHealthCheckFailures : Nat := 3

namespace Monitor

/-- The node that `handleFailover` asks to become master: its key and its address. -/
def candidate (c : Check) (s : Monitor) : Option (Bytes × Bytes × Int) :=
  let best := selectBestReplica (c.order s.kvNodes)
  if best = [] then none else (parseAddr best).map fun a => (best, a.1, a.2)

def handleFailover (failed : Bytes) (c : Check) (s : Monitor) : Monitor :=
  match s.candidate c with
  | none => s
  | some (best, host, port) =>
    if c.accepted then
      { kvNodes := (s.kvNodes.modify failed fun n => { n with role := .replica }).modify best
          fun n => { n with role := .master }
        currentMaster := ⟨true, host, port, best⟩ }
    else s

/-- A node that is not in the table yet. -/
def fresh (a : Addr) (reply : Option HealthCheckResponse) : NodeState :=
  match reply with
  | some r => { addr := a.host, port := a.port, alive := true, role := r.role, replId := r.replicationId,
                replOffset := r.replicationOffset, consecutiveFailures := 0 }
  | none => { addr := a.host, port := a.port, alive := false, consecutiveFailures := 1 }

/-- The section of `checkKVNodes` that takes down the answer. -/
def record (c : Check) (s : Monitor) : Monitor :=
  match s.kvNodes[c.node.key]? with
  | none => { s with kvNodes := s.kvNodes.insert c.node.key (fresh c.node c.reply) }
  | some n =>
    match c.reply with
    | some r =>
      { kvNodes := s.kvNodes.insert c.node.key { n with
          alive := true, role := r.role, replId := r.replicationId, replOffset := r.replicationOffset,
          consecutiveFailures := 0 }
        currentMaster :=
          if r.role = .master then ⟨true, c.node.host, c.node.port, r.nodeId⟩ else s.currentMaster }
    | none =>
      { s with kvNodes := s.kvNodes.insert c.node.key { n with
          alive := false, consecutiveFailures := n.consecutiveFailures + 1 } }

/-- The check is the third one in a row that a master misses. -/
def failsOver (c : Check) (s : Monitor) : Bool :=
  match s.kvNodes[c.node.key]?, c.reply with
  | some n, none => decide (n.role = .master) && decide (kMaxHealthCheckFailures ≤ n.consecutiveFailures + 1)
  | _, _ => false

def check (c : Check) (s : Monitor) : Monitor :=
  if s.failsOver c then (s.record c).handleFailover c.node.key c else s.record c

/-- One round over the configured nodes, which ends at a failover. -/
def checkKVNodes (s : Monitor) : List Check → Monitor
  | [] => s
  | c :: checks => if s.failsOver c then s.check c else checkKVNodes (s.check c) checks

/-- What `becomeLeader` does to the table. -/
def becomeLeader (s : Monitor) : Monitor :=
  { s with kvNodes := s.kvNodes.map fun _ n => { n with alive := false, consecutiveFailures := 0 } }

end Monitor

/-! ## Leadership -/

/-- The first of the alive replicas with the largest offset, which is above -1. -/
structure FirstBest (nodes : List (Bytes × NodeState)) (kv : Bytes × NodeState) : Prop where
  alive : kv.2.alive = true
  role : kv.2.role = .replica
  offset : -1 < kv.2.replOffset
  best : ∀ kv' ∈ nodes, kv'.2.alive = true → kv'.2.role = .replica → kv'.2.replOffset ≤ kv.2.replOffset
  first : ∃ before after, nodes = before ++ kv :: after ∧
    ∀ kv' ∈ before, kv'.2.alive = true → kv'.2.role = .replica → kv'.2.replOffset < kv.2.replOffset

/-- A leadership, with its history: `seen` is what the last health check of a node said, until the node is
promoted, and `deposed` are the failed masters with the nodes promoted in their place, as long as these
answer as masters. -/
structure Leadership where
  monitor : Monitor
  seen : Bytes → Option HealthCheckResponse
  deposed : List (Addr × Bytes)

namespace Leadership

def lead (s : Monitor) : Leadership := ⟨s.becomeLeader, fun _ => none, []⟩

/-- The node that this check makes the leader promote. -/
def promotion (c : Check) (l : Leadership) : Option (Bytes × Bytes × Int) :=
  if l.monitor.failsOver c then (l.monitor.record c).candidate c else none

def seenNow (c : Check) (l : Leadership) : Bytes → Option HealthCheckResponse :=
  Function.update l.seen c.node.key c.reply

def answersMaster (c : Check) : Bool := c.reply.any fun r => decide (r.role = .master)

def inForce (c : Check) (l : Leadership) : List (Addr × Bytes) :=
  l.deposed.filter fun p => decide (p.2 ≠ c.node.key) || answersMaster c

def step (l : Leadership) (c : Check) : Leadership :=
  match l.promotion c with
  | some (best, _, _) =>
    if c.accepted then
      ⟨l.monitor.check c, Function.update (l.seenNow c) best none, (c.node, best) :: l.inForce c⟩
    else ⟨l.monitor.check c, l.seenNow c, l.inForce c⟩
  | none => ⟨l.monitor.check c, l.seenNow c, l.inForce c⟩

/-- A property of every check, with what is known before it. -/
def Along (P : Leadership → Check → Prop) (l : Leadership) : List Check → Prop
  | [] => True
  | c :: checks => P l c ∧ Along P (l.step c) checks

/-- An alive node of the table, with an offset above -1. -/
def Ready (l : Leadership) (c : Check) (n : NodeState) : Prop :=
  (∃ k : Bytes, (l.monitor.record c).kvNodes[k]? = some n) ∧ n.alive = true ∧ -1 < n.replOffset

def isMaster (a : Addr) (s : Monitor) : Prop := s.currentMaster.host = a.host ∧ s.currentMaster.port = a.port

/-- The promoted node is an alive replica other than the failed master, and no alive replica has a larger
offset; and no failed master is the current one again. -/
structure Kept (l : Leadership) (c : Check) : Prop where
  picks : ∀ best host port, l.promotion c = some (best, host, port) →
    (∃ a : Addr, a.key = best ∧ a.host = host ∧ a.port = port) ∧ best ≠ c.node.key ∧
      ∃ r, l.seenNow c best = some r ∧ r.role = .replica ∧
        ∀ k r', l.seenNow c k = some r' → r'.role = .replica → r'.replicationOffset ≤ r.replicationOffset
  sticks : ∀ p ∈ (l.step c).deposed, ¬ isMaster p.1 (l.step c).monitor

/-- At a failover no node that answers as SENTINEL has an offset above -1, unless a replica has one; no failed master
whose successor still answers as master is the first of the best replicas then, and none answers as MASTER. -/
structure Sober (l : Leadership) (c : Check) : Prop where
  replica : l.monitor.failsOver c = true → (∃ n, l.Ready c n ∧ n.role = .sentinel) → ∃ n, l.Ready c n ∧ n.role = .replica
  others : l.monitor.failsOver c = true → c.accepted = true →
    ∀ p ∈ l.inForce c, ∀ n, ¬FirstBest (c.order (l.monitor.record c).kvNodes) (p.1.key, n)
  quiet : answersMaster c = true → ∀ p ∈ l.inForce c, p.1.key ≠ c.node.key

end Leadership

/-! ## Lemmas -/

theorem Addr.key_ne_nil (a : Addr) : a.key ≠ [] := by
  unfold Addr.key
  intro h
  have := congrArg List.length h
  simp at this

theorem takeWhile_key (a : Addr) : a.key.takeWhile (· ≠ 58) = a.host := by
  unfold Addr.key
  rw [List.takeWhile_append_of_pos]
  · simp
  · intro b hb
    have hne : b ≠ 58 := fun h => a.plain (h ▸ hb)
    simp [hne]

theorem dropWhile_key (a : Addr) : a.key.dropWhile (· ≠ 58) = 58 :: printInt a.port := by
  unfold Addr.key
  rw [List.dropWhile_append_of_pos]
  · simp
  · intro b hb
    have hne : b ≠ 58 := fun h => a.plain (h ▸ hb)
    simp [hne]

theorem parseAddr_key (a : Addr) : parseAddr a.key = some (a.host, a.port) := by
  obtain ⟨hlo, hhi⟩ := a.isInt
  have hport : stoi (printInt a.port) = some a.port := by
    unfold stoi
    rw [Kv.strtoll_printInt a.port (by omega) (by omega)]
    have hlen := List.length_pos_iff.mpr (Kv.printInt_ne_nil a.port)
    simp only
    rw [if_neg (by omega)]
  unfold parseAddr
  rw [dropWhile_key, takeWhile_key]
  simp only
  rw [hport]
  rfl

theorem Addr.key_inj {a b : Addr} (h : a.key = b.key) : a.host = b.host ∧ a.port = b.port := by
  have hparse := parseAddr_key a
  rw [h, parseAddr_key b, Option.some.injEq, Prod.mk.injEq] at hparse
  exact ⟨hparse.1.symm, hparse.2.symm⟩

theorem Addr.key_congr {a b : Addr} (hh : a.host = b.host) (hp : a.port = b.port) : a.key = b.key := by
  unfold Addr.key
  rw [hh, hp]

/-! ### The best replica -/

section best

variable {p : NodeState → Bool} {nodes : List (Bytes × NodeState)}

theorem mem_of_parts {before after : List (Bytes × NodeState)} {kv : Bytes × NodeState}
    (h : nodes = before ++ kv :: after) : kv ∈ nodes :=
  h ▸ List.mem_append_right before List.mem_cons_self

/-- A loop of `selectBestReplica` finds a node with the largest offset, or leaves things as they were. -/
theorem bestOf_spec (p : NodeState → Bool) (nodes : List (Bytes × NodeState)) (best : Bytes × Int) :
    best.2 ≤ (bestOf p nodes best).2 ∧
    (∀ kv ∈ nodes, kv.2.alive = true → p kv.2 = true → kv.2.replOffset ≤ (bestOf p nodes best).2) ∧
    (bestOf p nodes best = best ∨ ∃ before kv after, nodes = before ++ kv :: after ∧ kv.2.alive = true ∧ p kv.2 = true ∧
      best.2 < kv.2.replOffset ∧ bestOf p nodes best = (kv.1, kv.2.replOffset) ∧
      ∀ kv' ∈ before, kv'.2.alive = true → p kv'.2 = true → kv'.2.replOffset < kv.2.replOffset) := by
  induction nodes generalizing best with
  | nil => exact ⟨Int.le_refl _, fun kv hkv => absurd hkv List.not_mem_nil, Or.inl rfl⟩
  | cons kv nodes ih =>
    have hcons : bestOf p (kv :: nodes) best = bestOf p nodes
        (if kv.2.alive && p kv.2 && decide (best.2 < kv.2.replOffset) then (kv.1, kv.2.replOffset) else best) := rfl
    rw [hcons]
    split
    · next htake =>
      simp only [Bool.and_eq_true, decide_eq_true_eq] at htake
      obtain ⟨⟨halive, hp⟩, hlt⟩ := htake
      obtain ⟨hge, hall, hfrom⟩ := ih (kv.1, kv.2.replOffset)
      refine ⟨by simp only at hge; omega, ?_, ?_⟩
      · intro kv' hkv' ha' hp'
        obtain rfl | hkv' := List.mem_cons.mp hkv'
        · exact hge
        · exact hall kv' hkv' ha' hp'
      · obtain hsame | ⟨before, kv', after, rfl, ha', hp', hlt', heq, hfirst⟩ := hfrom
        · exact Or.inr ⟨[], kv, nodes, rfl, halive, hp, hlt, hsame, fun _ h => absurd h List.not_mem_nil⟩
        · simp only at hlt'
          refine Or.inr ⟨kv :: before, kv', after, rfl, ha', hp', by omega, heq, ?_⟩
          exact List.forall_mem_cons.mpr ⟨fun _ _ => hlt', hfirst⟩
    · next hleave =>
      simp only [Bool.and_eq_true, decide_eq_true_eq] at hleave
      obtain ⟨hge, hall, hfrom⟩ := ih best
      have hle : kv.2.alive = true → p kv.2 = true → kv.2.replOffset ≤ best.2 :=
        fun ha hp => Int.not_lt.mp fun hlt => hleave ⟨⟨ha, hp⟩, hlt⟩
      refine ⟨hge, ?_, ?_⟩
      · intro kv' hkv' ha' hp'
        obtain rfl | hkv' := List.mem_cons.mp hkv'
        · exact Int.le_trans (hle ha' hp') hge
        · exact hall kv' hkv' ha' hp'
      · obtain hsame | ⟨before, kv', after, rfl, ha', hp', hlt', heq, hfirst⟩ := hfrom
        · exact Or.inl hsame
        · refine Or.inr ⟨kv :: before, kv', after, rfl, ha', hp', hlt', heq, ?_⟩
          exact List.forall_mem_cons.mpr ⟨fun ha hp => Int.lt_of_le_of_lt (hle ha hp) hlt', hfirst⟩

/-- What is selected is an alive replica with the largest offset, or, if no replica will do, an alive node
that is neither master nor replica. -/
theorem selectBestReplica_spec (hkeys : ∀ kv ∈ nodes, kv.2.alive = true → kv.1 ≠ [])
    (hbest : selectBestReplica nodes ≠ []) :
    ∃ kv ∈ nodes, kv.1 = selectBestReplica nodes ∧ kv.2.alive = true ∧ -1 < kv.2.replOffset ∧
      (kv.2.role = .sentinel ∧ (∀ kv' ∈ nodes, kv'.2.alive = true → kv'.2.role = .replica → kv'.2.replOffset ≤ -1) ∨
        FirstBest nodes kv) := by
  obtain ⟨hge, hall, hfrom⟩ := bestOf_spec (fun n => decide (n.role = .replica)) nodes ([], -1)
  unfold selectBestReplica at hbest ⊢
  obtain hnone | ⟨before, kv, after, hparts, halive, hrole, hlt, heq, hfirst⟩ := hfrom
  · rw [hnone] at hbest hall ⊢
    simp only [if_true] at hbest ⊢
    obtain ⟨-, -, hfrom'⟩ := bestOf_spec (fun n => decide (n.role ≠ .master)) nodes ([], -1)
    obtain hnone' | ⟨before, kv, after, hparts, halive, hrole, hlt, heq, -⟩ := hfrom'
    · rw [hnone'] at hbest
      exact absurd rfl hbest
    · rw [heq]
      have hkv : kv ∈ nodes := mem_of_parts hparts
      refine ⟨kv, hkv, rfl, halive, hlt, Or.inl ⟨?_, fun kv' hkv' ha' hr' => hall kv' hkv' ha' (by simp [hr'])⟩⟩
      -- A replica would have been found by the first loop.
      cases hr : kv.2.role with
      | sentinel => rfl
      | master =>
        rw [hr] at hrole
        cases hrole
      | replica =>
        have hle := hall kv hkv halive (by simp [hr])
        simp only at hle hlt
        omega
  · rw [heq] at hall ⊢
    have hkv : kv ∈ nodes := mem_of_parts hparts
    simp only [if_neg (hkeys kv hkv halive)]
    refine ⟨kv, hkv, rfl, halive, hlt, Or.inr ⟨halive, of_decide_eq_true hrole, hlt, ?_, before, after, hparts, ?_⟩⟩
    · exact fun kv' hkv' ha' hr' => hall kv' hkv' ha' (decide_eq_true hr')
    · exact fun kv' hkv' ha' hr' => hfirst kv' hkv' ha' (decide_eq_true hr')

theorem selectBestReplica_ne (hkeys : ∀ kv ∈ nodes, kv.2.alive = true → kv.1 ≠ []) {kv : Bytes × NodeState}
    (hkv : kv ∈ nodes) (halive : kv.2.alive = true) (hrole : kv.2.role ≠ .master) (hoffset : -1 < kv.2.replOffset) :
    selectBestReplica nodes ≠ [] := by
  obtain ⟨-, -, hfrom⟩ := bestOf_spec (fun n => decide (n.role = .replica)) nodes ([], -1)
  unfold selectBestReplica
  obtain hnone | ⟨before, kv', after, hparts, ha', -, -, heq, -⟩ := hfrom
  · rw [hnone, if_pos rfl]
    obtain ⟨-, hall, hfrom⟩ := bestOf_spec (fun n => decide (n.role ≠ .master)) nodes ([], -1)
    have hle := hall kv hkv halive (decide_eq_true hrole)
    obtain hnone' | ⟨before, kv', after, hparts, ha', -, -, heq, -⟩ := hfrom
    · rw [hnone'] at hle
      simp only at hle
      omega
    · rw [heq]
      exact hkeys kv' (mem_of_parts hparts) ha'
  · have hkey := hkeys kv' (mem_of_parts hparts) ha'
    rw [heq, if_neg hkey]
    exact hkey

theorem FirstBest.unique {kv kv' : Bytes × NodeState} (h : FirstBest nodes kv) (h' : FirstBest nodes kv') : kv = kv' := by
  obtain ⟨before, after, hparts, hlt⟩ := h.first
  obtain ⟨before', after', hparts', hlt'⟩ := h'.first
  have hle := h.best kv' (mem_of_parts hparts') h'.alive h'.role
  have hle' := h'.best kv (mem_of_parts hparts) h.alive h.role
  rcases List.append_eq_append_iff.mp (hparts.symm.trans hparts') with ⟨mid, rfl, hmid⟩ | ⟨mid, rfl, hmid⟩
  · cases mid with
    | nil => exact (List.cons.inj hmid).1
    | cons x mid =>
      obtain ⟨rfl, -⟩ := List.cons.inj hmid
      have := hlt' kv (List.mem_append_right before List.mem_cons_self) h.alive h.role
      omega
  · cases mid with
    | nil => exact (List.cons.inj hmid).1.symm
    | cons x mid =>
      obtain ⟨rfl, -⟩ := List.cons.inj hmid
      have := hlt kv' (List.mem_append_right before' List.mem_cons_self) h'.alive h'.role
      omega

end best

/-! ### The node table -/

section table

variable {s : Monitor} {c : Check}

theorem getElem?_insert_node (m : BMap NodeState) (k k' : Bytes) (n : NodeState) :
    (m.insert k n)[k']? = if k' = k then some n else m[k']? := by
  rw [Std.ExtTreeMap.getElem?_insert]
  by_cases h : k' = k
  · subst h
    simp
  · rw [if_neg h, if_neg (by simpa using fun he => h he.symm)]

theorem getElem?_modify_node (m : BMap NodeState) (k k' : Bytes) (f : NodeState → NodeState) :
    (m.modify k f)[k']? = if k' = k then m[k']?.map f else m[k']? := by
  rw [Std.ExtTreeMap.getElem?_modify]
  by_cases h : k' = k
  · subst h
    simp
  · rw [if_neg h, if_neg (by simpa using fun he => h he.symm)]

theorem kvNodes_record (s : Monitor) (c : Check) :
    ∃ n, (s.record c).kvNodes = s.kvNodes.insert c.node.key n ∧
      (c.reply = none → n.alive = false) ∧
      ∀ r, c.reply = some r → n.alive = true ∧ n.role = r.role ∧ n.replOffset = r.replicationOffset := by
  unfold Monitor.record
  split
  · refine ⟨_, rfl, ?_, ?_⟩
    · intro hnone
      rw [hnone]
      rfl
    · intro r hr
      rw [hr]
      exact ⟨rfl, rfl, rfl⟩
  · split
    · next r hr =>
      refine ⟨_, rfl, ?_, ?_⟩
      · intro hnone
        rw [hr] at hnone
        cases hnone
      · intro r' hr'
        rw [hr] at hr'
        cases hr'
        exact ⟨rfl, rfl, rfl⟩
    · next hr =>
      refine ⟨_, rfl, fun _ => rfl, ?_⟩
      intro r' hr'
      rw [hr] at hr'
      cases hr'

theorem reply_of_failsOver (h : s.failsOver c = true) : c.reply = none := by
  unfold Monitor.failsOver at h
  split at h
  · assumption
  · cases h

/-- A check changes the current master when it promotes, and when a node of the table answers as master. -/
theorem currentMaster_record (s : Monitor) (c : Check) :
    (∃ n r, s.kvNodes[c.node.key]? = some n ∧ c.reply = some r ∧ r.role = .master ∧
      (s.record c).currentMaster = ⟨true, c.node.host, c.node.port, r.nodeId⟩) ∨
    ((s.record c).currentMaster = s.currentMaster ∧
      (s.kvNodes[c.node.key]? = none ∨ ∀ r, c.reply = some r → r.role ≠ .master)) := by
  unfold Monitor.record
  split
  · next hnone => exact Or.inr ⟨rfl, Or.inl hnone⟩
  · next n hn =>
    split
    · next r hr =>
      by_cases hrole : r.role = .master
      · exact Or.inl ⟨n, r, hn, hr, hrole, if_pos hrole⟩
      · refine Or.inr ⟨if_neg hrole, Or.inr ?_⟩
        intro r' hr'
        rw [hr] at hr'
        cases hr'
        exact hrole
    · next hr =>
      refine Or.inr ⟨rfl, Or.inr ?_⟩
      intro r' hr'
      rw [hr] at hr'
      cases hr'

end table

namespace Leadership

variable {l : Leadership} {c : Check}

/-- The table agrees with what was seen, and has the failed masters. -/
structure Sound (l : Leadership) : Prop where
  table : ∀ k n, l.monitor.kvNodes[k]? = some n → n.alive = true →
    (∃ a : Addr, a.key = k) ∧
      (n.role = .master ∨ ∃ r, l.seen k = some r ∧ n.role = r.role ∧ n.replOffset = r.replicationOffset)
  seen : ∀ k r, l.seen k = some r → ∃ n, l.monitor.kvNodes[k]? = some n ∧ n.alive = true ∧
    n.role = r.role ∧ n.replOffset = r.replicationOffset
  known : ∀ p ∈ l.deposed, ∃ n, l.monitor.kvNodes[p.1.key]? = some n

/-- No failed master is the current one. -/
def Away (l : Leadership) : Prop := ∀ p ∈ l.deposed, ¬ isMaster p.1 l.monitor

theorem sound_lead (s : Monitor) : (lead s).Sound where
  table k n hn halive := by
    have hn : (s.kvNodes.map fun _ n => { n with alive := false, consecutiveFailures := 0 })[k]? = some n := hn
    rw [Std.ExtTreeMap.getElem?_map] at hn
    obtain ⟨n', -, rfl⟩ := Option.map_eq_some_iff.mp hn
    cases halive
  seen _ _ h := nomatch h
  known _ h := nomatch h

theorem Sound.record (h : l.Sound) (c : Check) :
    Sound ⟨l.monitor.record c, l.seenNow c, l.inForce c⟩ := by
  obtain ⟨n, htable, hnone, hsome⟩ := kvNodes_record l.monitor c
  constructor
  · intro k n' hn' halive
    have hn' : (l.monitor.record c).kvNodes[k]? = some n' := hn'
    show _ ∧ (_ ∨ ∃ r, Function.update l.seen c.node.key c.reply k = some r ∧ _)
    rw [htable, getElem?_insert_node] at hn'
    by_cases hk : k = c.node.key
    · rw [if_pos hk] at hn'
      cases hn'
      refine ⟨⟨c.node, hk.symm⟩, Or.inr ?_⟩
      rw [hk, Function.update_self]
      cases hr : c.reply with
      | none =>
        rw [hnone hr] at halive
        cases halive
      | some r => exact ⟨r, rfl, (hsome r hr).2⟩
    · rw [if_neg hk] at hn'
      rw [Function.update_of_ne hk]
      exact h.table k n' hn' halive
  · intro k r hr
    have hr : Function.update l.seen c.node.key c.reply k = some r := hr
    show ∃ n, (l.monitor.record c).kvNodes[k]? = some n ∧ _
    rw [htable, getElem?_insert_node]
    by_cases hk : k = c.node.key
    · rw [hk, Function.update_self] at hr
      rw [if_pos hk]
      exact ⟨n, rfl, hsome r hr⟩
    · rw [Function.update_of_ne hk] at hr
      rw [if_neg hk]
      exact h.seen k r hr
  · intro p hp
    show ∃ n, (l.monitor.record c).kvNodes[p.1.key]? = some n
    rw [htable, getElem?_insert_node]
    by_cases hk : p.1.key = c.node.key
    · exact ⟨n, if_pos hk⟩
    · rw [if_neg hk]
      exact h.known p (List.mem_filter.mp hp).1

theorem mem_order (c : Check) (m : BMap NodeState) (kv : Bytes × NodeState) : kv ∈ c.order m ↔ m[kv.1]? = some kv.2 := by
  rw [(c.perm _).mem_iff]
  exact Std.ExtTreeMap.mem_toList_iff_getElem?_eq_some

theorem Sound.keys (h : l.Sound) (c : Check) :
    ∀ kv ∈ c.order (l.monitor.record c).kvNodes, kv.2.alive = true → kv.1 ≠ [] := by
  intro kv hkv halive
  obtain ⟨⟨a, ha⟩, -⟩ := (h.record c).table kv.1 kv.2 ((mem_order c _ kv).mp hkv) halive
  rw [← ha]
  exact a.key_ne_nil

variable {best host : Bytes}

/-- What is known of the node that is asked to become master. -/
theorem Sound.promotion (h : l.Sound) {port : Int}
    (hp : l.promotion c = some (best, host, port)) :
    l.monitor.failsOver c = true ∧ (∃ a : Addr, a.key = best ∧ a.host = host ∧ a.port = port) ∧ best ≠ c.node.key ∧
      ∃ r n, l.seenNow c best = some r ∧ l.Ready c n ∧ n.role = r.role ∧
        (r.role = .sentinel ∧ (¬∃ n', l.Ready c n' ∧ n'.role = .replica) ∨ r.role = .replica ∧
          FirstBest (c.order (l.monitor.record c).kvNodes) (best, n) ∧ ∀ k r', l.seenNow c k = some r' →
            r'.role = .replica → r'.replicationOffset ≤ r.replicationOffset) := by
  have hr := h.record c
  unfold Leadership.promotion at hp
  split at hp
  · next hfails =>
    unfold Monitor.candidate at hp
    simp only at hp
    split at hp
    · cases hp
    · next hbest =>
      obtain ⟨kv, hkv, hkey, halive, hlt, hrole⟩ := selectBestReplica_spec (h.keys c) hbest
      have hkv := (mem_order c _ kv).mp hkv
      obtain ⟨⟨a, ha⟩, hseen⟩ := hr.table kv.1 kv.2 hkv halive
      rw [← hkey, ← ha, parseAddr_key] at hp
      simp only [Option.map_some, Option.some.injEq, Prod.mk.injEq] at hp
      obtain ⟨hbest', hhost, hport⟩ := hp
      refine ⟨hfails, ⟨a, hbest', hhost, hport⟩, ?_, ?_⟩
      · -- The failed master is not alive.
        rintro rfl
        obtain ⟨n, htable, hdead, -⟩ := kvNodes_record l.monitor c
        rw [← ha, hbest', htable, getElem?_insert_node, if_pos rfl] at hkv
        cases hkv
        rw [hdead (reply_of_failsOver hfails)] at halive
        cases halive
      · obtain hmaster | ⟨r, hr', hrole', hoffset⟩ := hseen
        · obtain ⟨hs, -⟩ | ⟨-, hs, -⟩ := hrole
          · rw [hmaster] at hs
            cases hs
          · rw [hmaster] at hs
            cases hs
        · have hr' : l.seenNow c kv.1 = some r := hr'
          rw [← hbest', ha]
          refine ⟨r, kv.2, hr', ⟨⟨kv.1, hkv⟩, halive, hlt⟩, hrole', ?_⟩
          rw [← hrole', ← hoffset]
          obtain ⟨hs, hno⟩ | hfirst := hrole
          · refine Or.inl ⟨hs, ?_⟩
            rintro ⟨n', ⟨⟨k', hk'⟩, ha', hlt'⟩, hreplica⟩
            have hle := hno (k', n') ((mem_order c _ (k', n')).mpr hk') ha' hreplica
            simp only at hle
            omega
          · refine Or.inr ⟨hfirst.role, hfirst, ?_⟩
            intro k r'' hk hrole''
            obtain ⟨n, hn, ha'', hrn, hon⟩ := hr.seen k r'' hk
            rw [← hon]
            exact hfirst.best (k, n) ((mem_order c _ (k, n)).mpr hn) ha'' (hrn.trans hrole'')
  · cases hp

theorem Sound.promotes (h : l.Sound) (hfails : l.monitor.failsOver c = true) {n : NodeState} (hn : l.Ready c n)
    (hrole : n.role ≠ .master) : ∃ best host port, l.promotion c = some (best, host, port) := by
  obtain ⟨⟨k, hk⟩, halive, hlt⟩ := hn
  have hbest := selectBestReplica_ne (h.keys c) ((mem_order c _ (k, n)).mpr hk) halive hrole hlt
  obtain ⟨kv, hkv, hkey, halive', -⟩ := selectBestReplica_spec (h.keys c) hbest
  obtain ⟨⟨a, ha⟩, -⟩ := (h.record c).table kv.1 kv.2 ((mem_order c _ kv).mp hkv) halive'
  refine ⟨a.key, a.host, a.port, ?_⟩
  unfold Leadership.promotion Monitor.candidate
  rw [if_pos hfails]
  simp only
  rw [if_neg hbest, ← hkey, ← ha, parseAddr_key]
  rfl

theorem check_of_none (h : l.promotion c = none ∨ c.accepted = false) :
    l.monitor.check c = l.monitor.record c := by
  unfold Monitor.check
  split
  · next hfails =>
    unfold Leadership.promotion at h
    rw [if_pos hfails] at h
    unfold Monitor.handleFailover
    split
    · rfl
    · next hcand =>
      rw [if_neg]
      obtain h | h := h
      · rw [hcand] at h
        cases h
      · rw [h]
        exact Bool.false_ne_true
  · rfl

theorem check_of_some {port : Int} (h : l.promotion c = some (best, host, port))
    (ha : c.accepted = true) :
    l.monitor.check c =
      { kvNodes := ((l.monitor.record c).kvNodes.modify c.node.key fun n => { n with role := .replica }).modify best
          fun n => { n with role := .master }
        currentMaster := ⟨true, host, port, best⟩ } := by
  unfold Leadership.promotion at h
  split at h
  · next hfails =>
    unfold Monitor.check Monitor.handleFailover
    rw [if_pos hfails, h]
    simp only [ha, if_true]
  · cases h

theorem step_of_none (h : l.promotion c = none ∨ c.accepted = false) :
    l.step c = ⟨l.monitor.record c, l.seenNow c, l.inForce c⟩ := by
  have hcheck := check_of_none h
  unfold step
  split
  · next hsome =>
    obtain h | h := h
    · rw [hsome] at h
      cases h
    · rw [h, hcheck]
      rfl
  · rw [hcheck]

theorem step_of_some {port : Int} (h : l.promotion c = some (best, host, port))
    (ha : c.accepted = true) :
    l.step c = ⟨l.monitor.check c, Function.update (l.seenNow c) best none, (c.node, best) :: l.inForce c⟩ := by
  unfold step
  rw [h]
  simp only [ha, if_true]

theorem Sound.step (h : l.Sound) (c : Check) : (l.step c).Sound := by
  have hr := h.record c
  by_cases hnone : l.promotion c = none ∨ c.accepted = false
  · rw [step_of_none hnone]
    exact hr
  · simp only [not_or, Bool.not_eq_false] at hnone
    obtain ⟨hsome, ha⟩ := hnone
    obtain ⟨⟨best, host, port⟩, hp⟩ := Option.ne_none_iff_exists'.mp hsome
    obtain ⟨hfails, -, hne, -⟩ := h.promotion hp
    have hdead : ∀ n, (l.monitor.record c).kvNodes[c.node.key]? = some n → n.alive = false := by
      intro n hn
      obtain ⟨n', htable, hdead, -⟩ := kvNodes_record l.monitor c
      rw [htable, getElem?_insert_node, if_pos rfl] at hn
      cases hn
      exact hdead (reply_of_failsOver hfails)
    -- Two roles are overwritten: the promoted node is a master, and the failed one is not alive.
    have hlookup : ∀ k, (l.monitor.check c).kvNodes[k]? =
        if k = best then ((l.monitor.record c).kvNodes[k]?).map fun n => { n with role := .master }
        else if k = c.node.key then ((l.monitor.record c).kvNodes[k]?).map fun n => { n with role := .replica }
        else (l.monitor.record c).kvNodes[k]? := by
      intro k
      rw [check_of_some hp ha]
      simp only [getElem?_modify_node]
      by_cases hk : k = best
      · rw [if_pos hk, if_pos hk, if_neg (by rw [hk]; exact hne)]
      · rw [if_neg hk, if_neg hk]
    rw [step_of_some hp ha]
    constructor
    · intro k n hn halive
      rw [hlookup k] at hn
      show _ ∧ (_ ∨ ∃ r, Function.update (l.seenNow c) best none k = some r ∧ _)
      split at hn
      · next hk =>
        obtain ⟨n', hn', rfl⟩ := Option.map_eq_some_iff.mp hn
        exact ⟨(hr.table k n' hn' halive).1, Or.inl rfl⟩
      · next hk =>
        split at hn
        · next hk' =>
          obtain ⟨n', hn', rfl⟩ := Option.map_eq_some_iff.mp hn
          rw [hk'] at hn'
          rw [hdead n' hn'] at halive
          cases halive
        · rw [Function.update_of_ne hk]
          exact hr.table k n hn halive
    · intro k r hseen
      have hseen : Function.update (l.seenNow c) best none k = some r := hseen
      by_cases hk : k = best
      · rw [hk, Function.update_self] at hseen
        cases hseen
      · rw [Function.update_of_ne hk] at hseen
        obtain ⟨n, hn, halive, hrole⟩ := hr.seen k r hseen
        have hk' : k ≠ c.node.key := by
          rintro rfl
          rw [hdead n hn] at halive
          cases halive
        show ∃ n, (l.monitor.check c).kvNodes[k]? = some n ∧ _
        rw [hlookup k, if_neg hk, if_neg hk']
        exact ⟨n, hn, halive, hrole⟩
    · intro p hp'
      show ∃ n, (l.monitor.check c).kvNodes[p.1.key]? = some n
      have hknown : ∃ n, (l.monitor.record c).kvNodes[p.1.key]? = some n := by
        obtain rfl | hp' := List.mem_cons.mp hp'
        · obtain ⟨n, htable, -⟩ := kvNodes_record l.monitor c
          exact ⟨n, by rw [htable, getElem?_insert_node, if_pos rfl]⟩
        · exact hr.known p hp'
      obtain ⟨n, hn⟩ := hknown
      rw [hlookup, hn]
      split
      · exact ⟨_, rfl⟩
      · split
        · exact ⟨_, rfl⟩
        · exact ⟨n, rfl⟩

theorem picks_iff (h : l.Sound) (c : Check) :
    (∀ best host port, l.promotion c = some (best, host, port) →
      (∃ a : Addr, a.key = best ∧ a.host = host ∧ a.port = port) ∧ best ≠ c.node.key ∧
        ∃ r, l.seenNow c best = some r ∧ r.role = .replica ∧
          ∀ k r', l.seenNow c k = some r' → r'.role = .replica → r'.replicationOffset ≤ r.replicationOffset) ↔
    (l.monitor.failsOver c = true → (∃ n, l.Ready c n ∧ n.role = .sentinel) → ∃ n, l.Ready c n ∧ n.role = .replica) := by
  constructor
  · rintro hall hfails ⟨n, hn, hsentinel⟩
    obtain ⟨best, host, port, hp⟩ := h.promotes hfails hn (by rw [hsentinel]; exact nofun)
    obtain ⟨-, -, -, r, n', hr, hn', hrole, -⟩ := h.promotion hp
    obtain ⟨-, -, r', hr', hreplica, -⟩ := hall best host port hp
    rw [hr] at hr'
    cases hr'
    exact ⟨n', hn', hrole.trans hreplica⟩
  · intro hno best host port hp
    obtain ⟨hfails, ha, hne, r, n, hr, hn, hrole, hs | hs⟩ := h.promotion hp
    · exact absurd (hno hfails ⟨n, hn, hrole.trans hs.1⟩) hs.2
    · exact ⟨ha, hne, r, hr, hs.1, hs.2.2⟩

/-- Where no node that answers as SENTINEL is chosen, the first of the best replicas is. -/
theorem others_iff (h : l.Sound) (c : Check)
    (hno : l.monitor.failsOver c = true → (∃ n, l.Ready c n ∧ n.role = .sentinel) → ∃ n, l.Ready c n ∧ n.role = .replica) :
    (∀ best host port, l.promotion c = some (best, host, port) → c.accepted = true →
      ∀ p ∈ l.inForce c, p.1.key ≠ best) ↔
    (l.monitor.failsOver c = true → c.accepted = true →
      ∀ p ∈ l.inForce c, ∀ n, ¬FirstBest (c.order (l.monitor.record c).kvNodes) (p.1.key, n)) := by
  have hfirst : ∀ best host port, l.promotion c = some (best, host, port) →
      l.monitor.failsOver c = true ∧ ∃ n, FirstBest (c.order (l.monitor.record c).kvNodes) (best, n) := by
    intro best host port hp
    obtain ⟨hfails, -, -, r, n, -, hn, hrole, hs | hs⟩ := h.promotion hp
    · exact absurd (hno hfails ⟨n, hn, hrole.trans hs.1⟩) hs.2
    · exact ⟨hfails, n, hs.2.1⟩
  constructor
  · intro hall hfails ha p hp n hbest
    obtain ⟨before, after, hparts, -⟩ := hbest.first
    have hmem := (mem_order c _ (p.1.key, n)).mp (mem_of_parts hparts)
    obtain ⟨best, host, port, hprom⟩ := h.promotes hfails ⟨⟨_, hmem⟩, hbest.alive, hbest.offset⟩
      (by rw [hbest.role]; exact nofun)
    obtain ⟨-, n', hbest'⟩ := hfirst best host port hprom
    exact hall best host port hprom ha p hp (congrArg Prod.fst (hbest.unique hbest'))
  · rintro hall best host port hprom ha p hp rfl
    obtain ⟨hfails, n, hbest⟩ := hfirst _ host port hprom
    exact hall hfails ha p hp n hbest

theorem isMaster_iff {a b : Addr} {s : Monitor} (hh : s.currentMaster.host = a.host) (hp : s.currentMaster.port = a.port) :
    isMaster b s ↔ b.key = a.key := by
  unfold isMaster
  rw [hh, hp]
  constructor
  · rintro ⟨hhost, hport⟩
    exact Addr.key_congr hhost.symm hport.symm
  · intro hkey
    obtain ⟨hhost, hport⟩ := Addr.key_inj hkey
    exact ⟨hhost.symm, hport.symm⟩

theorem sticks_iff (h : l.Sound) (hw : l.Away) (c : Check) :
    (∀ p ∈ (l.step c).deposed, ¬ isMaster p.1 (l.step c).monitor) ↔
    (∀ best host port, l.promotion c = some (best, host, port) → c.accepted = true →
      ∀ p ∈ l.inForce c, p.1.key ≠ best) ∧
    (answersMaster c = true → ∀ p ∈ l.inForce c, p.1.key ≠ c.node.key) := by
  by_cases hnone : l.promotion c = none ∨ c.accepted = false
  · rw [step_of_none hnone]
    have hothers : ∀ best host port, l.promotion c = some (best, host, port) → c.accepted = true →
        ∀ p ∈ l.inForce c, p.1.key ≠ best := by
      intro best host port hp ha
      obtain hn | hn := hnone
      · rw [hp] at hn
        cases hn
      · rw [ha] at hn
        cases hn
    refine Iff.trans ?_ (and_iff_right hothers).symm
    show (∀ p ∈ l.inForce c, ¬ isMaster p.1 (l.monitor.record c)) ↔ _
    obtain ⟨n, r, -, hr, hrole, hcurrent⟩ | ⟨hcurrent, hquiet⟩ := currentMaster_record l.monitor c
    · have hanswers : answersMaster c = true := by
        unfold answersMaster
        rw [hr]
        exact decide_eq_true hrole
      rw [hanswers]
      simp only [true_implies]
      refine forall_congr' fun p => imp_congr_right fun _ => ?_
      rw [isMaster_iff (a := c.node) (by rw [hcurrent]) (by rw [hcurrent])]
    · constructor
      · intro _ hanswers p hp hkey
        obtain ⟨n, hn⟩ := h.known p (List.mem_filter.mp hp).1
        unfold answersMaster at hanswers
        obtain hunknown | hrole := hquiet
        · rw [hkey, hunknown] at hn
          cases hn
        · cases hr : c.reply with
          | none =>
            rw [hr] at hanswers
            cases hanswers
          | some r =>
            rw [hr] at hanswers
            exact hrole r hr (of_decide_eq_true hanswers)
      · intro _ p hp
        unfold isMaster
        rw [hcurrent]
        exact hw p (List.mem_filter.mp hp).1
  · simp only [not_or, Bool.not_eq_false] at hnone
    obtain ⟨hsome, ha⟩ := hnone
    obtain ⟨⟨best, host, port⟩, hp⟩ := Option.ne_none_iff_exists'.mp hsome
    obtain ⟨hfails, ⟨a, hkey, hhost, hport⟩, hne, -⟩ := h.promotion hp
    have hanswers : answersMaster c = false := by
      unfold answersMaster
      rw [reply_of_failsOver hfails]
      rfl
    have hmaster : ∀ b, isMaster b (l.monitor.check c) ↔ b.key = best := by
      intro b
      rw [← hkey]
      refine isMaster_iff ?_ ?_
      · rw [check_of_some hp ha, hhost]
      · rw [check_of_some hp ha, hport]
    rw [step_of_some hp ha, hanswers]
    simp only [hp, hmaster, List.mem_cons, forall_eq_or_imp, Option.some.injEq, Prod.mk.injEq, ha]
    constructor
    · rintro ⟨-, hall⟩
      refine ⟨?_, fun h => nomatch h⟩
      rintro _ _ _ ⟨rfl, -⟩ - p hmem
      exact hall p hmem
    · rintro ⟨hall, -⟩
      exact ⟨fun h => hne h.symm, hall best host port ⟨rfl, rfl, rfl⟩ trivial⟩

theorem kept_iff (h : l.Sound) (hw : l.Away) (c : Check) : Kept l c ↔ Sober l c := by
  constructor
  · intro hk
    obtain ⟨hothers, hquiet⟩ := (sticks_iff h hw c).mp hk.sticks
    have hpicks := (picks_iff h c).mp hk.picks
    exact ⟨hpicks, (others_iff h c hpicks).mp hothers, hquiet⟩
  · intro hs
    exact ⟨(picks_iff h c).mpr hs.replica, (sticks_iff h hw c).mpr ⟨(others_iff h c hs.replica).mpr hs.others, hs.quiet⟩⟩

theorem along_iff (h : l.Sound) (hw : l.Away) (checks : List Check) : Along Kept l checks ↔ Along Sober l checks := by
  induction checks generalizing l with
  | nil => exact ⟨fun _ => trivial, fun _ => trivial⟩
  | cons c checks ih =>
    constructor
    · rintro ⟨hkept, hrest⟩
      exact ⟨(kept_iff h hw c).mp hkept, (ih (h.step c) hkept.sticks).mp hrest⟩
    · rintro ⟨hsober, hrest⟩
      have hkept := (kept_iff h hw c).mpr hsober
      exact ⟨hkept, (ih (h.step c) hkept.sticks).mpr hrest⟩

theorem checkKVNodes_eq (l : Leadership) (checks : List Check) :
    ∃ n, l.monitor.checkKVNodes checks = ((checks.take n).foldl Leadership.step l).monitor := by
  have hstep : ∀ (l : Leadership) c, (l.step c).monitor = l.monitor.check c := by
    intro l c
    unfold Leadership.step
    split
    · split <;> rfl
    · rfl
  induction checks generalizing l with
  | nil => exact ⟨0, rfl⟩
  | cons c checks ih =>
    unfold Monitor.checkKVNodes
    split
    · exact ⟨1, (hstep l c).symm⟩
    · obtain ⟨n, hn⟩ := ih (l.step c)
      rw [hstep] at hn
      exact ⟨n + 1, hn⟩

end Leadership

/-! ## Top theorem -/

open Leadership

/-- **Failover picks the best replica and sticks to it.** -/
theorem kept_iff_sober (s : Monitor) (checks : List Check) :
    Along Kept (lead s) checks ↔ Along Sober (lead s) checks :=
  along_iff (sound_lead s) (fun _ hp => nomatch hp) checks

def nodeA : Addr := ⟨lit "10.0.0.1", 7001, by decide, by decide⟩

def nodeB : Addr := ⟨lit "10.0.0.2", 7002, by decide, by decide⟩

def monitored : Monitor where
  kvNodes := (({} : BMap NodeState).insert nodeA.key { addr := nodeA.host, port := nodeA.port }).insert nodeB.key
    { addr := nodeB.host, port := nodeB.port }

def answer (a : Addr) (role : NodeRole) : Check where
  node := a
  reply := some ⟨a.host, role, [], 10⟩

def missed (a : Addr) : Check where
  node := a
  reply := none

/-- Rounds over the replica and the master.  The master misses three checks, the replica is promoted, and
the old master comes back as a master. -/
def returningMaster : List Check :=
  [answer nodeB .replica, answer nodeA .master, answer nodeB .replica, missed nodeA, answer nodeB .replica,
    missed nodeA, answer nodeB .replica, missed nodeA, answer nodeB .master, answer nodeA .master]

theorem master_taken_back : ¬ Along Kept (lead monitored) returningMaster := by
  intro h
  have hlast := h.2.2.2.2.2.2.2.2.2.1
  exact hlast.sticks (nodeA, nodeB.key) (by decide) (by unfold isMaster; decide)

end Rpc
