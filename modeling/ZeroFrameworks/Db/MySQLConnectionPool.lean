import Mathlib.Data.List.Range
import ZeroFrameworks.Lib.Shares

/-!
# The MySQL connection pool

Fibers take connections from the pool and give them back.  A `Point` says where a fiber stands in its call; each
section under `m_mutex` and each change of the counter is one step.  Connects, pings and idle timeouts turn out as
they like.

    nobody in a call → m_totalConnections = idle + handed out   (pool_balanced)
    every growth Uncontended → open connections ≤ maxConnections
-/

namespace Db

/-! ## Algorithm -/

structure MySQLPoolConfig where
  minConnections : Nat
  maxConnections : Nat

/-- The two loops of `getConnection` that take connections from the queue: before the wait and after it. -/
inductive Scan where
  | first | waited
deriving DecidableEq

/-- Where a fiber stands.  Connections are named by the order in which they were made. -/
inductive Point where
  | out
  /-- `getConnection` is about to look at the queue. -/
  | scan (l : Scan)
  /-- It has a connection in hand, and checks its idle time and its health. -/
  | idleCheck (l : Scan) (conn : Nat)
  | healthCheck (l : Scan) (conn : Nat)
  /-- The connection has been idle too long and is discounted, but not closed yet. -/
  | expired (l : Scan) (conn : Nat)
  /-- It is about to connect, in the place of a broken connection or to let the pool grow. -/
  | replace (l : Scan)
  | grow
  /-- It is connected, and about to count the connection. -/
  | count (conn : Nat)
  | wait
  | release (conn : Nat)
  /-- `close` is about to set `m_running`, or to empty the queue. -/
  | stop
  | drain
deriving DecidableEq

structure MySQLConnectionPool (F : Type) where
  config : MySQLPoolConfig
  connections : List Nat
  running : Bool
  totalConnections : Nat
  point : F → Point
  /-- Who was given which connection. -/
  lent : List (F × Nat)
  made : Nat

/-- A fiber begins a call, or goes on with it.  `ok`: the connect or the ping succeeds, the idle time is over, or the
wait has timed out. -/
inductive PoolOp (F : Type) where
  | getConnection (f : F)
  | releaseConnection (f : F) (lease : F × Nat)
  | close (f : F)
  | run (f : F) (ok : Bool)

namespace MySQLConnectionPool

variable {F : Type} [DecidableEq F]

/-- `initPool`.  `ok`: which connects succeed. -/
def Create (config : MySQLPoolConfig) (ok : Nat → Bool) : MySQLConnectionPool F :=
  (List.range config.minConnections).foldl
    (fun s i =>
      if ok i then
        { s with connections := s.connections ++ [s.made], totalConnections := s.totalConnections + 1, made := s.made + 1 }
      else s)
    ⟨config, [], true, 0, fun _ => .out, [], 0⟩

def goto (f : F) (p : Point) (s : MySQLConnectionPool F) : MySQLConnectionPool F :=
  { s with point := Function.update s.point f p }

/-- `getConnection` returns a connection. -/
def hand (f : F) (conn : Nat) (s : MySQLConnectionPool F) : MySQLConnectionPool F :=
  { s with lent := (f, conn) :: s.lent }.goto f .out

/-- The section at the head of a loop of `getConnection`.  After the first loop come the size check and the first
look of the wait; after the second one `getConnection` gives up. -/
def scan (f : F) (l : Scan) (s : MySQLConnectionPool F) : MySQLConnectionPool F :=
  match s.connections, l with
  | conn :: rest, l => { s with connections := rest }.goto f (.idleCheck l conn)
  | [], .first =>
    if s.totalConnections < s.config.maxConnections then s.goto f .grow
    else if s.running then s.goto f .wait
    else s.goto f .out
  | [], .waited => s.goto f .out

/-- The section of the wait: its condition and, where that holds, what follows. -/
def wait (f : F) (timeout : Bool) (s : MySQLConnectionPool F) : MySQLConnectionPool F :=
  if !s.running then s.goto f .out
  else
    match s.connections with
    | conn :: rest => { s with connections := rest }.goto f (.idleCheck .waited conn)
    | [] => if timeout then s.goto f .out else s

def checkIdleTimeout (f : F) (l : Scan) (conn : Nat) (timeout : Bool) (s : MySQLConnectionPool F) :
    MySQLConnectionPool F :=
  if timeout then { s with totalConnections := s.totalConnections - 1 }.goto f (.expired l conn)
  else s.goto f (.healthCheck l conn)

def checkConnection (f : F) (l : Scan) (conn : Nat) (ping : Bool) (s : MySQLConnectionPool F) : MySQLConnectionPool F :=
  if ping then s.hand f conn
  else { s with totalConnections := s.totalConnections - 1 }.goto f (.replace l)

/-- `failed`: where the fiber goes on without the connection. -/
def connect (f : F) (failed : Point) (ok : Bool) (s : MySQLConnectionPool F) : MySQLConnectionPool F :=
  if ok then { s with made := s.made + 1 }.goto f (.count s.made) else s.goto f failed

def releaseConnectionInternal (f : F) (conn : Nat) (s : MySQLConnectionPool F) : MySQLConnectionPool F :=
  if !s.running then { s with totalConnections := s.totalConnections - 1 }.goto f .out
  else { s with connections := s.connections ++ [conn] }.goto f .out

/-- The loop of `close`. -/
def drain (f : F) (s : MySQLConnectionPool F) : MySQLConnectionPool F :=
  { s with connections := [], totalConnections := s.totalConnections - s.connections.length }.goto f .out

/-- The call of the fiber goes on. -/
def run (f : F) (ok : Bool) (s : MySQLConnectionPool F) : Option (MySQLConnectionPool F) :=
  match s.point f with
  | .out => none
  | .scan l => some (s.scan f l)
  | .idleCheck l conn => some (s.checkIdleTimeout f l conn ok)
  | .healthCheck l conn => some (s.checkConnection f l conn ok)
  | .expired l _ => some (s.goto f (.scan l))
  | .replace l => some (s.connect f (.scan l) ok)
  | .grow => some (s.connect f .wait ok)
  | .count conn => some ({ s with totalConnections := s.totalConnections + 1 }.hand f conn)
  | .wait => some (s.wait f ok)
  | .release conn => some (s.releaseConnectionInternal f conn)
  | .stop => some ({ s with running := false }.goto f .drain)
  | .drain => some (s.drain f)

/-- A connection that was given out is released once. -/
def step (s : MySQLConnectionPool F) : PoolOp F → Option (MySQLConnectionPool F)
  | .getConnection f => if s.point f = .out then some (s.goto f (.scan .first)) else none
  | .releaseConnection f lease =>
    if s.point f = .out ∧ lease ∈ s.lent then
      some ({ s with lent := s.lent.erase lease }.goto f (.release lease.2))
    else none
  | .close f => if s.point f = .out then some (s.goto f .stop) else none
  | .run f ok => s.run f ok

/-! ## Specification -/

/-- The connections that a call holds and that are counted. -/
def counted : Point → Multiset Nat
  | .idleCheck _ conn | .healthCheck _ conn | .release conn => {conn}
  | _ => 0

/-- The connections that a call holds open and that are not counted, or no longer. -/
def uncounted : Point → Multiset Nat
  | .expired _ conn | .count conn => {conn}
  | _ => 0

/-- The connects that are under way. -/
def connecting : Point → Nat
  | .replace _ | .grow => 1
  | _ => 0

variable [Fintype F]

/-- The connections that are connected, and neither closed nor found broken. -/
def opened (s : MySQLConnectionPool F) : Multiset Nat :=
  ↑s.connections + ↑(s.lent.map Prod.snd) + Shares.sum counted s.point + Shares.sum uncounted s.point

/-- `balanced`: with no call in progress the counter is right.  `exclusive`: no connection is in two places, be it
with two callers. -/
structure Sound (s : MySQLConnectionPool F) : Prop where
  balanced : (∀ f, s.point f = .out) → s.totalConnections = s.connections.length + s.lent.length
  exclusive : s.opened.Nodup

def Bounded (s : MySQLConnectionPool F) : Prop := Multiset.card s.opened ≤ s.config.maxConnections

/-- A size check that finds room leaves room for the connects that are under way, and for what is open and not
counted. -/
def Uncontended (s : MySQLConnectionPool F) : PoolOp F → Prop
  | .run f _ => s.point f = .scan .first → s.connections = [] → s.totalConnections < s.config.maxConnections →
      s.totalConnections + Multiset.card (Shares.sum uncounted s.point) + Shares.sum connecting s.point <
        s.config.maxConnections
  | _ => True

/-- The state after the operations; those that cannot be made are left out. -/
def after (s : MySQLConnectionPool F) (ops : List (PoolOp F)) : MySQLConnectionPool F :=
  ops.foldl (fun s op => (s.step op).getD s) s

/-- `P` holds of every operation where it is made. -/
def Along (P : MySQLConnectionPool F → PoolOp F → Prop) (s : MySQLConnectionPool F) : List (PoolOp F) → Prop
  | [] => True
  | op :: ops => P s op ∧ ((s.step op).getD s).Along P ops

/-! ## Lemmas -/

/-- The connections that the counter stands for. -/
def booked (s : MySQLConnectionPool F) : Multiset Nat :=
  ↑s.connections + ↑(s.lent.map Prod.snd) + Shares.sum counted s.point

variable {s s' : MySQLConnectionPool F} {op : PoolOp F}

/-- What a step does to the books. -/
inductive Turn (s : MySQLConnectionPool F) (op : PoolOp F) (s' : MySQLConnectionPool F) : Prop where
  /-- Connections are discounted and are no longer open; a connect may begin in their place. -/
  | leaves (gone : Multiset Nat) (hbooked : s.booked = s'.booked + gone)
      (hopen : Shares.sum uncounted s'.point = Shares.sum uncounted s.point)
      (htotal : s'.totalConnections = s.totalConnections - Multiset.card gone) (hmade : s'.made = s.made)
      (hconn : Shares.sum connecting s'.point ≤ Shares.sum connecting s.point + Multiset.card gone)
  | discounts (conn : Nat) (hbooked : s.booked = s'.booked + {conn})
      (hopen : Shares.sum uncounted s'.point = Shares.sum uncounted s.point + {conn})
      (htotal : s'.totalConnections = s.totalConnections - 1) (hmade : s'.made = s.made)
      (hconn : Shares.sum connecting s'.point = Shares.sum connecting s.point)
  | closes (conn : Nat) (hbooked : s'.booked = s.booked)
      (hopen : Shares.sum uncounted s.point = Shares.sum uncounted s'.point + {conn})
      (htotal : s'.totalConnections = s.totalConnections) (hmade : s'.made = s.made)
      (hconn : Shares.sum connecting s'.point = Shares.sum connecting s.point)
  | grows (f : F) (ok : Bool) (hop : op = .run f ok) (hp : s.point f = .scan .first) (hq : s.connections = [])
      (hroom : s.totalConnections < s.config.maxConnections) (hbooked : s'.booked = s.booked)
      (hopen : Shares.sum uncounted s'.point = Shares.sum uncounted s.point)
      (htotal : s'.totalConnections = s.totalConnections) (hmade : s'.made = s.made)
      (hconn : Shares.sum connecting s'.point = Shares.sum connecting s.point + 1)
  | connects (hbooked : s'.booked = s.booked)
      (hopen : Shares.sum uncounted s'.point = Shares.sum uncounted s.point + {s.made})
      (htotal : s'.totalConnections = s.totalConnections) (hmade : s'.made = s.made + 1)
      (hconn : Shares.sum connecting s.point = Shares.sum connecting s'.point + 1)
  | counts (conn : Nat) (hbooked : s'.booked = s.booked + {conn})
      (hopen : Shares.sum uncounted s.point = Shares.sum uncounted s'.point + {conn})
      (htotal : s'.totalConnections = s.totalConnections + 1) (hmade : s'.made = s.made)
      (hconn : Shares.sum connecting s'.point = Shares.sum connecting s.point)

/-- The books of a pool: what the counter stands for, and that no connection is in two places. -/
structure Ledger (s : MySQLConnectionPool F) : Prop where
  accounted : s.totalConnections = Multiset.card s.booked
  distinct : (s.booked + Shares.sum uncounted s.point).Nodup
  older : ∀ conn ∈ s.booked + Shares.sum uncounted s.point, conn < s.made

omit [DecidableEq F] in
theorem Ledger.sound (h : s.Ledger) : s.Sound := by
  refine ⟨fun hout => ?_, h.distinct⟩
  have hnone : Shares.sum counted s.point = 0 := Shares.sum_eq_zero fun f => by rw [hout f]; rfl
  rw [h.accounted, booked, hnone]
  simp

omit [DecidableEq F] in
theorem Turn.ledger (ht : Turn s op s') (h : s.Ledger) : s'.Ledger := by
  obtain ⟨haccounted, hdistinct, holder⟩ := h
  cases ht with
  | leaves gone hbooked hopen htotal hmade hconn =>
    rw [hbooked, ← hopen, add_right_comm] at hdistinct holder
    rw [hbooked, Multiset.card_add] at haccounted
    refine ⟨by omega, (Multiset.nodup_add.mp hdistinct).1, fun conn hc => ?_⟩
    rw [hmade]
    exact holder conn (Multiset.mem_add.mpr (.inl hc))
  | discounts conn hbooked hopen htotal hmade hconn =>
    rw [hbooked, Multiset.card_add, Multiset.card_singleton] at haccounted
    rw [hbooked, add_assoc, add_comm ({conn} : Multiset Nat), ← hopen] at hdistinct holder
    exact ⟨by omega, hdistinct, by rwa [hmade]⟩
  | closes conn hbooked hopen htotal hmade hconn =>
    rw [← hbooked, hopen, ← add_assoc] at hdistinct holder
    refine ⟨by rw [htotal, hbooked]; exact haccounted, (Multiset.nodup_add.mp hdistinct).1, fun c hc => ?_⟩
    rw [hmade]
    exact holder c (Multiset.mem_add.mpr (.inl hc))
  | grows f ok hop hp hq hroom hbooked hopen htotal hmade hconn =>
    rw [← hbooked, ← hopen] at hdistinct holder
    exact ⟨by rw [htotal, hbooked]; exact haccounted, hdistinct, by rwa [hmade]⟩
  | connects hbooked hopen htotal hmade hconn =>
    refine ⟨by rw [htotal, hbooked]; exact haccounted, ?_, fun c hc => ?_⟩
    · rw [hbooked, hopen, ← add_assoc, Multiset.nodup_add]
      refine ⟨hdistinct, Multiset.nodup_singleton _, ?_⟩
      rw [Multiset.disjoint_singleton]
      exact fun hin => Nat.lt_irrefl _ (holder _ hin)
    · rw [hbooked, hopen, ← add_assoc, Multiset.mem_add, Multiset.mem_singleton] at hc
      rw [hmade]
      rcases hc with hc | rfl
      · exact Nat.lt_succ_of_lt (holder c hc)
      · exact Nat.lt_succ_self _
  | counts conn hbooked hopen htotal hmade hconn =>
    rw [hopen, add_comm _ ({conn} : Multiset Nat), ← add_assoc, ← hbooked] at hdistinct holder
    refine ⟨?_, hdistinct, by rwa [hmade]⟩
    rw [hbooked, Multiset.card_add, Multiset.card_singleton, htotal, haccounted]

/-! ### The steps -/

variable {f : F}

theorem sums {t : MySQLConnectionPool F} {p : Point} (hpoint : t.point = Function.update s.point f p) :
    Shares.sum counted t.point + counted (s.point f) = Shares.sum counted s.point + counted p ∧
      Shares.sum uncounted t.point + uncounted (s.point f) = Shares.sum uncounted s.point + uncounted p ∧
        Shares.sum connecting t.point + connecting (s.point f) = Shares.sum connecting s.point + connecting p := by
  rw [hpoint]
  exact ⟨Shares.sum_move counted s.point f p, Shares.sum_move uncounted s.point f p,
    Shares.sum_move connecting s.point f p⟩

theorem turn_goto {p : Point} (running : Bool) (hcounted : counted p = counted (s.point f))
    (huncounted : uncounted p = uncounted (s.point f)) (hconn : connecting p ≤ connecting (s.point f)) :
    Turn s op ({ s with running := running }.goto f p) := by
  obtain ⟨h1, h2, h3⟩ := sums (s := s) (t := { s with running := running }.goto f p) rfl
  rw [hcounted] at h1
  rw [huncounted] at h2
  have hbooked : s.booked = ({ s with running := running }.goto f p).booked + 0 := by
    unfold booked
    rw [add_right_cancel h1, add_zero]
    rfl
  refine .leaves 0 hbooked (add_right_cancel h2) rfl rfl ?_
  rw [Multiset.card_zero]
  omega

variable {conn : Nat}

theorem turn_pop {rest : List Nat} (l : Scan) (hq : s.connections = conn :: rest)
    (hcounted : counted (s.point f) = 0) (huncounted : uncounted (s.point f) = 0) :
    Turn s op ({ s with connections := rest }.goto f (.idleCheck l conn)) := by
  obtain ⟨h1, h2, h3⟩ := sums (s := s) (t := { s with connections := rest }.goto f (.idleCheck l conn)) rfl
  rw [hcounted, add_zero] at h1
  rw [huncounted] at h2
  refine .leaves 0 ?_ (add_right_cancel h2) rfl rfl (by rw [Multiset.card_zero]; exact Nat.le_of_add_right_le h3.le)
  unfold booked
  rw [h1, hq, ← Multiset.cons_coe, ← Multiset.singleton_add]
  show _ = ↑rest + ↑(s.lent.map Prod.snd) + (Shares.sum counted s.point + {conn}) + 0
  abel

variable {l : Scan}

theorem turn_hand (hp : s.point f = .healthCheck l conn) : Turn s op (s.hand f conn) := by
  obtain ⟨h1, h2, h3⟩ := sums (s := s) (t := s.hand f conn) (f := f) (p := .out) rfl
  rw [hp] at h1 h2 h3
  simp only [counted, uncounted, connecting, add_zero] at h1 h2 h3
  refine .leaves 0 ?_ h2 rfl rfl h3.le
  unfold booked
  rw [← h1]
  show _ = ↑s.connections + (↑(conn :: s.lent.map Prod.snd) : Multiset Nat) + _ + 0
  rw [← Multiset.cons_coe, ← Multiset.singleton_add]
  abel

theorem turn_scan {ok : Bool} (hp : s.point f = .scan l) : Turn s (.run f ok) (s.scan f l) := by
  have hcounted : counted (s.point f) = 0 := by rw [hp]; rfl
  have huncounted : uncounted (s.point f) = 0 := by rw [hp]; rfl
  have hgoto : ∀ p, counted p = 0 → uncounted p = 0 → connecting p = 0 → Turn s (.run f ok) (s.goto f p) := fun p h1 h2 h3 =>
    turn_goto s.running (h1.trans hcounted.symm) (h2.trans huncounted.symm) (h3.trans_le (Nat.zero_le _))
  unfold scan
  cases hq : s.connections with
  | cons conn rest => exact turn_pop l hq hcounted huncounted
  | nil =>
    cases l with
    | waited => exact hgoto _ rfl rfl rfl
    | first =>
      dsimp only
      by_cases hroom : s.totalConnections < s.config.maxConnections
      · rw [if_pos hroom]
        obtain ⟨h1, h2, h3⟩ := sums (s := s) (t := s.goto f .grow) rfl
        rw [hp] at h1 h2 h3
        simp only [counted, uncounted, connecting, add_zero] at h1 h2 h3
        refine .grows f ok rfl hp hq hroom ?_ h2 rfl rfl h3
        unfold booked
        rw [h1]
        rfl
      · rw [if_neg hroom]
        split
        · exact hgoto _ rfl rfl rfl
        · exact hgoto _ rfl rfl rfl

theorem turn_wait (hp : s.point f = .wait) (timeout : Bool) : Turn s op (s.wait f timeout) := by
  have hcounted : counted (s.point f) = 0 := by rw [hp]; rfl
  have huncounted : uncounted (s.point f) = 0 := by rw [hp]; rfl
  have hout : Turn s op (s.goto f .out) := turn_goto s.running hcounted.symm huncounted.symm (Nat.zero_le _)
  unfold wait
  split
  · exact hout
  · cases hq : s.connections with
    | cons conn rest => exact turn_pop .waited hq hcounted huncounted
    | nil =>
      dsimp only
      split
      · exact hout
      · exact .leaves 0 (add_zero _).symm rfl rfl rfl (Nat.le_refl _)

theorem turn_checkIdleTimeout (hp : s.point f = .idleCheck l conn) (timeout : Bool) :
    Turn s op (s.checkIdleTimeout f l conn timeout) := by
  unfold checkIdleTimeout
  split
  · obtain ⟨h1, h2, h3⟩ := sums (s := s)
      (t := { s with totalConnections := s.totalConnections - 1 }.goto f (.expired l conn)) rfl
    rw [hp] at h1 h2 h3
    simp only [counted, uncounted, connecting, add_zero] at h1 h2 h3
    refine .discounts conn ?_ h2 rfl rfl h3
    unfold booked
    rw [← h1, ← add_assoc]
    rfl
  · refine turn_goto s.running ?_ ?_ ?_
    · rw [hp]; rfl
    · rw [hp]; rfl
    · exact Nat.zero_le _

theorem turn_checkConnection (hp : s.point f = .healthCheck l conn) (ping : Bool) :
    Turn s op (s.checkConnection f l conn ping) := by
  unfold checkConnection
  split
  · exact turn_hand hp
  · obtain ⟨h1, h2, h3⟩ := sums (s := s)
      (t := { s with totalConnections := s.totalConnections - 1 }.goto f (.replace l)) rfl
    rw [hp] at h1 h2 h3
    simp only [counted, uncounted, connecting, add_zero] at h1 h2 h3
    refine .leaves {conn} ?_ h2 rfl rfl h3.le
    unfold booked
    rw [← h1, ← add_assoc]
    rfl

theorem turn_connect {failed : Point} (hcounted : counted (s.point f) = 0) (huncounted : uncounted (s.point f) = 0)
    (hconn : connecting (s.point f) = 1) (hfailed : counted failed = 0 ∧ uncounted failed = 0 ∧ connecting failed = 0)
    (ok : Bool) : Turn s op (s.connect f failed ok) := by
  unfold connect
  split
  · obtain ⟨h1, h2, h3⟩ := sums (s := s) (t := { s with made := s.made + 1 }.goto f (.count s.made)) rfl
    rw [hcounted] at h1
    rw [huncounted] at h2
    rw [hconn] at h3
    simp only [counted, uncounted, connecting, add_zero] at h1 h2 h3
    refine .connects ?_ h2 rfl rfl h3.symm
    unfold booked
    rw [h1]
    rfl
  · obtain ⟨hfc, hfu, hfn⟩ := hfailed
    exact turn_goto s.running (hfc.trans hcounted.symm) (hfu.trans huncounted.symm) (hfn.trans_le (Nat.zero_le _))

theorem turn_release (hp : s.point f = .release conn) :
    Turn s op (s.releaseConnectionInternal f conn) := by
  unfold releaseConnectionInternal
  split
  · obtain ⟨h1, h2, h3⟩ := sums (s := s) (t := { s with totalConnections := s.totalConnections - 1 }.goto f .out) rfl
    rw [hp] at h1 h2 h3
    simp only [counted, uncounted, connecting, add_zero] at h1 h2 h3
    refine .leaves {conn} ?_ h2 rfl rfl (h3.le.trans (Nat.le_add_right _ _))
    unfold booked
    rw [← h1, ← add_assoc]
    rfl
  · obtain ⟨h1, h2, h3⟩ := sums (s := s) (t := { s with connections := s.connections ++ [conn] }.goto f .out) rfl
    rw [hp] at h1 h2 h3
    simp only [counted, uncounted, connecting, add_zero] at h1 h2 h3
    refine .leaves 0 ?_ h2 rfl rfl h3.le
    unfold booked
    rw [← h1]
    show _ = (↑(s.connections ++ [conn]) : Multiset Nat) + ↑(s.lent.map Prod.snd) + _ + 0
    rw [← Multiset.coe_add, Multiset.coe_singleton]
    abel

theorem turn_drain (hp : s.point f = .drain) : Turn s op (s.drain f) := by
  obtain ⟨h1, h2, h3⟩ := sums (s := s) (t := s.drain f) (f := f) (p := .out) rfl
  rw [hp] at h1 h2 h3
  simp only [counted, uncounted, connecting, add_zero] at h1 h2 h3
  refine .leaves ↑s.connections ?_ h2 rfl rfl (h3.le.trans (Nat.le_add_right _ _))
  unfold booked
  rw [h1]
  show _ = (↑([] : List Nat) : Multiset Nat) + ↑(s.lent.map Prod.snd) + _ + _
  rw [Multiset.coe_nil]
  abel

theorem turn_count (hp : s.point f = .count conn) :
    Turn s op ({ s with totalConnections := s.totalConnections + 1 }.hand f conn) := by
  obtain ⟨h1, h2, h3⟩ := sums (s := s) (t := { s with totalConnections := s.totalConnections + 1 }.hand f conn)
    (f := f) (p := .out) rfl
  rw [hp] at h1 h2 h3
  simp only [counted, uncounted, connecting, add_zero] at h1 h2 h3
  refine .counts conn ?_ h2.symm rfl rfl h3
  unfold booked
  rw [h1]
  show ↑s.connections + (↑(conn :: s.lent.map Prod.snd) : Multiset Nat) + _ = _
  rw [← Multiset.cons_coe, ← Multiset.singleton_add]
  abel

theorem turn_run {ok : Bool} (hrun : s.run f ok = some s') : Turn s (.run f ok) s' := by
  unfold run at hrun
  split at hrun
  case h_1 hp => cases hrun
  case h_2 l hp =>
    cases hrun
    exact turn_scan hp
  case h_3 l conn hp =>
    cases hrun
    exact turn_checkIdleTimeout hp ok
  case h_4 l conn hp =>
    cases hrun
    exact turn_checkConnection hp ok
  case h_5 l conn hp =>
    cases hrun
    obtain ⟨h1, h2, h3⟩ := sums (s := s) (t := s.goto f (.scan l)) rfl
    rw [hp] at h1 h2 h3
    simp only [counted, uncounted, connecting, add_zero] at h1 h2 h3
    refine .closes conn ?_ h2.symm rfl rfl h3
    unfold booked
    rw [h1]
    rfl
  case h_6 l hp =>
    cases hrun
    exact turn_connect (by rw [hp]; rfl) (by rw [hp]; rfl) (by rw [hp]; rfl) ⟨rfl, rfl, rfl⟩ ok
  case h_7 hp =>
    cases hrun
    exact turn_connect (by rw [hp]; rfl) (by rw [hp]; rfl) (by rw [hp]; rfl) ⟨rfl, rfl, rfl⟩ ok
  case h_8 conn hp =>
    cases hrun
    exact turn_count hp
  case h_9 hp =>
    cases hrun
    exact turn_wait hp ok
  case h_10 conn hp =>
    cases hrun
    exact turn_release hp
  case h_11 hp =>
    cases hrun
    exact turn_goto _ (by rw [hp]; rfl) (by rw [hp]; rfl) (Nat.zero_le _)
  case h_12 hp =>
    cases hrun
    exact turn_drain hp

theorem turn_step (hstep : s.step op = some s') : Turn s op s' := by
  cases op with
  | getConnection f =>
    obtain ⟨hp, hs⟩ := Option.ite_none_right_eq_some.mp hstep
    obtain rfl := Option.some.inj hs
    exact turn_goto _ (by rw [hp]; rfl) (by rw [hp]; rfl) (Nat.zero_le _)
  | releaseConnection f lease =>
    obtain ⟨⟨hp, hlease⟩, hs⟩ := Option.ite_none_right_eq_some.mp hstep
    obtain rfl := Option.some.inj hs
    obtain ⟨h1, h2, h3⟩ := sums (s := s) (t := { s with lent := s.lent.erase lease }.goto f (.release lease.2)) rfl
    rw [hp] at h1 h2 h3
    simp only [counted, uncounted, connecting, add_zero] at h1 h2 h3
    refine .leaves 0 ?_ h2 rfl rfl h3.le
    unfold booked
    have hperm : (↑(s.lent.map Prod.snd) : Multiset Nat) = {lease.2} + ↑((s.lent.erase lease).map Prod.snd) := by
      rw [Multiset.singleton_add, Multiset.cons_coe, Multiset.coe_eq_coe]
      exact (List.perm_cons_erase hlease).map Prod.snd
    rw [h1, hperm]
    show _ = ↑s.connections + (↑((s.lent.erase lease).map Prod.snd) : Multiset Nat) + _ + 0
    abel
  | close f =>
    obtain ⟨hp, hs⟩ := Option.ite_none_right_eq_some.mp hstep
    obtain rfl := Option.some.inj hs
    exact turn_goto _ (by rw [hp]; rfl) (by rw [hp]; rfl) (Nat.zero_le _)
  | run f ok => exact turn_run hstep

/-! ### The bound -/

/-- What is open, and what may soon be. -/
def Room (s : MySQLConnectionPool F) : Prop :=
  Multiset.card s.opened + Shares.sum connecting s.point ≤ s.config.maxConnections

omit [DecidableEq F] in
theorem opened_eq (s : MySQLConnectionPool F) : s.opened = s.booked + Shares.sum uncounted s.point := rfl

omit [Fintype F] in
theorem config_run {ok : Bool} (hrun : s.run f ok = some s') : s'.config = s.config := by
  unfold run at hrun
  split at hrun
  case h_1 hp => cases hrun
  case h_2 l hp =>
    cases hrun
    unfold scan
    split
    · rfl
    · repeat' split
      all_goals rfl
    · rfl
  case h_3 l conn hp =>
    cases hrun
    unfold checkIdleTimeout
    split
    · rfl
    · rfl
  case h_4 l conn hp =>
    cases hrun
    unfold checkConnection
    split
    · rfl
    · rfl
  case h_6 l hp | h_7 hp =>
    cases hrun
    unfold connect
    split
    · rfl
    · rfl
  case h_9 hp =>
    cases hrun
    unfold wait
    repeat' split
    all_goals rfl
  case h_10 conn hp =>
    cases hrun
    unfold releaseConnectionInternal
    split
    · rfl
    · rfl
  all_goals
    cases hrun
    rfl

omit [Fintype F] in
theorem config_step (hstep : s.step op = some s') : s'.config = s.config := by
  cases op with
  | getConnection f | releaseConnection f lease | close f =>
    obtain ⟨-, hs⟩ := Option.ite_none_right_eq_some.mp hstep
    obtain rfl := Option.some.inj hs
    rfl
  | run f ok => exact config_run hstep

theorem Room.step (h : s.Room) (hl : s.Ledger) (hun : s.Uncontended op) (hstep : s.step op = some s') : s'.Room := by
  unfold Room at h ⊢
  rw [config_step hstep]
  rw [opened_eq, Multiset.card_add] at h ⊢
  cases turn_step hstep with
  | leaves gone hbooked hopen htotal hmade hconn =>
    rw [hbooked, Multiset.card_add] at h
    rw [hopen]
    omega
  | discounts conn hbooked hopen htotal hmade hconn =>
    rw [hbooked, Multiset.card_add, Multiset.card_singleton] at h
    rw [hopen, Multiset.card_add, Multiset.card_singleton, hconn]
    omega
  | closes conn hbooked hopen htotal hmade hconn =>
    rw [hopen, Multiset.card_add, Multiset.card_singleton] at h
    rw [hbooked, hconn]
    omega
  | grows f ok hop hp hq hroom hbooked hopen htotal hmade hconn =>
    subst hop
    have hleft := hun hp hq hroom
    rw [hl.accounted] at hleft
    rw [hbooked, hopen, hconn]
    omega
  | connects hbooked hopen htotal hmade hconn =>
    rw [hbooked, hopen, Multiset.card_add, Multiset.card_singleton]
    omega
  | counts conn hbooked hopen htotal hmade hconn =>
    rw [hopen, Multiset.card_add, Multiset.card_singleton] at h
    rw [hbooked, Multiset.card_add, Multiset.card_singleton, hconn]
    omega

/-! ### The start -/

omit [Fintype F] [DecidableEq F] in
theorem create_spec (config : MySQLPoolConfig) (ok : Nat → Bool) : ∃ k ≤ config.minConnections,
    (Create config ok : MySQLConnectionPool F) = ⟨config, List.range k, true, k, fun _ => .out, [], k⟩ := by
  unfold Create
  induction config.minConnections with
  | zero => exact ⟨0, Nat.le_refl 0, rfl⟩
  | succ m ih =>
    obtain ⟨k, hk, heq⟩ := ih
    rw [List.range_succ, List.foldl_append, heq]
    show ∃ k' ≤ m + 1, (if ok m then _ else _) = _
    split
    · refine ⟨k + 1, Nat.succ_le_succ hk, ?_⟩
      rw [List.range_succ]
    · exact ⟨k, Nat.le_succ_of_le hk, rfl⟩

omit [DecidableEq F] in
theorem ledger_create (config : MySQLPoolConfig) (ok : Nat → Bool) : (Create config ok : MySQLConnectionPool F).Ledger := by
  obtain ⟨k, -, heq⟩ := create_spec (F := F) config ok
  have hcounted : Shares.sum counted (fun _ : F => Point.out) = 0 := Shares.sum_eq_zero fun _ => rfl
  have huncounted : Shares.sum uncounted (fun _ : F => Point.out) = 0 := Shares.sum_eq_zero fun _ => rfl
  have hbooked : (Create config ok : MySQLConnectionPool F).booked = ↑(List.range k) := by
    rw [heq, booked]
    show (↑(List.range k) : Multiset Nat) + (↑([] : List Nat) : Multiset Nat) + Shares.sum counted (fun _ : F => Point.out) = _
    rw [hcounted, Multiset.coe_nil, add_zero, add_zero]
  refine ⟨?_, ?_, ?_⟩
  · rw [hbooked, heq, Multiset.coe_card, List.length_range]
  · rw [hbooked, heq, huncounted, add_zero]
    exact Multiset.coe_nodup.mpr List.nodup_range
  · intro conn hc
    rw [hbooked, heq, huncounted, add_zero] at hc
    rw [heq]
    exact List.mem_range.mp (Multiset.mem_coe.mp hc)

omit [DecidableEq F] in
theorem room_create {config : MySQLPoolConfig} (hmin : config.minConnections ≤ config.maxConnections) (ok : Nat → Bool) :
    (Create config ok : MySQLConnectionPool F).Room := by
  have hl := ledger_create (F := F) config ok
  obtain ⟨k, hk, heq⟩ := create_spec (F := F) config ok
  have huncounted : Shares.sum uncounted (fun _ : F => Point.out) = 0 := Shares.sum_eq_zero fun _ => rfl
  have hconn : Shares.sum connecting (fun _ : F => Point.out) = 0 := Shares.sum_eq_zero fun _ => rfl
  unfold Room
  rw [opened_eq, Multiset.card_add, ← hl.accounted, heq, huncounted, hconn]
  exact Nat.le_trans hk hmin

/-! ## Top theorem -/

theorem Ledger.after (h : s.Ledger) (ops : List (PoolOp F)) : (s.after ops).Ledger := by
  induction ops generalizing s with
  | nil => exact h
  | cons op ops ih =>
    refine ih ?_
    show ((s.step op).getD s).Ledger
    cases hstep : s.step op with
    | none => exact h
    | some s' => exact (turn_step hstep).ledger h

theorem Room.after (h : s.Room) (hl : s.Ledger) (ops : List (PoolOp F)) (hun : s.Along Uncontended ops) :
    (s.after ops).Room := by
  induction ops generalizing s with
  | nil => exact h
  | cons op ops ih =>
    obtain ⟨hop, hrest⟩ := hun
    refine ih ?_ ?_ hrest
    · show ((s.step op).getD s).Room
      cases hstep : s.step op with
      | none => exact h
      | some s' => exact h.step hl hop hstep
    · show ((s.step op).getD s).Ledger
      cases hstep : s.step op with
      | none => exact hl
      | some s' => exact (turn_step hstep).ledger hl

omit [DecidableEq F] in
theorem Room.bounded (h : s.Room) : s.Bounded := Nat.le_trans (Nat.le_add_right _ _) h

theorem pool_balanced (config : MySQLPoolConfig) (ok : Nat → Bool) (ops : List (PoolOp F)) :
    ((Create config ok).after ops).Sound ∧
      (config.minConnections ≤ config.maxConnections → (Create config ok).Along Uncontended ops →
        ((Create config ok).after ops).Bounded) :=
  ⟨((ledger_create config ok).after ops).sound, fun hmin hun =>
    ((room_create hmin ok).after (ledger_create config ok) ops hun).bounded⟩

/-- One fiber takes a connection where there was none, and gives it back. -/
def takesAndReleases {F : Type} (a : F) : List (PoolOp F) :=
  [.getConnection a, .run a true, .run a true, .run a true, .releaseConnection a (a, 0), .run a true]

theorem pool_balanced_takesAndReleases : (Create ⟨0, 1⟩ (fun _ => true)).after (takesAndReleases (0 : Fin 2)) |>.Bounded := by
  refine (pool_balanced ⟨0, 1⟩ (fun _ => true) (takesAndReleases (0 : Fin 2))).2 (by decide) ?_
  refine ⟨trivial, fun _ _ _ => ?_, ?_⟩
  · decide
  · refine ⟨fun h => ?_, fun h => ?_, trivial, fun h => ?_, trivial⟩
    · cases h
    · cases h
    · cases h

/-- Two fibers look at the counter before either of them has counted its connection. -/
def growTogether {F : Type} (a b : F) : List (PoolOp F) :=
  [.getConnection a, .run a true, .getConnection b, .run b true, .run a true, .run b true, .run a true, .run b true]

/-- A broken connection is discounted, another fiber lets the pool grow, and the broken one is replaced. -/
def replaceTogether {F : Type} (a b : F) : List (PoolOp F) :=
  [.getConnection a, .run a true, .run a false, .run a false, .getConnection b, .run b true, .run b true, .run b true,
    .run a true, .run a true]

theorem pool_exceeded : ¬ ((Create ⟨0, 1⟩ fun _ => true).after (growTogether (0 : Fin 2) 1)).Bounded ∧
    ¬ ((Create ⟨1, 1⟩ fun _ => true).after (replaceTogether (0 : Fin 2) 1)).Bounded := by
  constructor
  · unfold Bounded
    decide
  · unfold Bounded
    decide

end MySQLConnectionPool

end Db
