import Mathlib.Data.Finset.Card
import Mathlib.Tactic.Common
import ZeroFrameworks.Lib.Runs

/-!
# The circuit breaker of RPC calls

A breaker counts failures while it is closed, refuses while it is open, and lets a few probes through when it is
half-open.  Outcomes come at any later time: the outcome of a call admitted by the closed breaker may be recorded
by an open or a half-open one.  `Breaker` keeps beside the breaker who was admitted when.

    config.Closes → Along (step config) Valid {} events → Along (step config) (Steady config) {} events →
      Contract config (events.foldl (step config) {})   (contract_run)
-/

namespace Rpc

/-! ## Algorithm -/

inductive RpcCircuitState where
  | closed
  | opened
  | halfOpen
  deriving DecidableEq, Repr

structure RpcCircuitBreakerConfig where
  failureThreshold : Int := 5
  successThreshold : Int := 2
  openDurationMs : UInt64 := 5000
  halfOpenMaxCalls : UInt64 := 3

structure RpcCircuitBreaker where
  state : RpcCircuitState := .closed
  failures : Int := 0
  successes : Int := 0
  halfOpenCalls : UInt64 := 0
  openedAt : UInt64 := 0
  deriving DecidableEq, Repr

namespace RpcCircuitBreaker

/-- `now` is the reading of `nowMs()`. -/
def transitionTo (now : UInt64) (b : RpcCircuitBreaker) : RpcCircuitState → RpcCircuitBreaker
  | .closed => { b with state := .closed, failures := 0, successes := 0, halfOpenCalls := 0 }
  -- the failures stay as they are
  | .opened => { b with state := .opened, openedAt := now, successes := 0, halfOpenCalls := 0 }
  | .halfOpen => { b with state := .halfOpen, failures := 0, successes := 0, halfOpenCalls := 0 }

def allowRequest (config : RpcCircuitBreakerConfig) (now : UInt64) (b : RpcCircuitBreaker) : Bool × RpcCircuitBreaker :=
  match b.state with
  | .closed => (true, b)
  | .opened =>
    if config.openDurationMs ≤ now - b.openedAt then
      (true, { b.transitionTo now .halfOpen with halfOpenCalls := 1 })
    else (false, b)
  | .halfOpen =>
    if b.halfOpenCalls < config.halfOpenMaxCalls then (true, { b with halfOpenCalls := b.halfOpenCalls + 1 })
    else (false, b)

def recordSuccess (config : RpcCircuitBreakerConfig) (now : UInt64) (b : RpcCircuitBreaker) : RpcCircuitBreaker :=
  match b.state with
  | .halfOpen =>
    let b' := { b with successes := b.successes + 1 }
    if config.successThreshold ≤ b'.successes then b'.transitionTo now .closed else b'
  | .closed => if 0 < b.failures then { b with failures := b.failures - 1 } else b
  | .opened => b

def recordFailure (config : RpcCircuitBreakerConfig) (now : UInt64) (b : RpcCircuitBreaker) : RpcCircuitBreaker :=
  if b.state = .halfOpen then b.transitionTo now .opened
  else
    -- an open breaker counts as well
    let b' := { b with failures := b.failures + 1 }
    if config.failureThreshold ≤ b'.failures then b'.transitionTo now .opened else b'

end RpcCircuitBreaker

/-! ## Specification -/

/-- A call on the breaker; an outcome is that of the admission with this number. -/
inductive BreakerCall where
  | allowRequest
  | recordSuccess (request : Nat)
  | recordFailure (request : Nat)

structure BreakerEvent where
  now : UInt64
  call : BreakerCall

/-- A breaker, and what happened to the requests. -/
structure Breaker where
  breaker : RpcCircuitBreaker := {}
  clock : UInt64 := 0
  /-- How many were admitted; the number of the next one. -/
  admitted : Nat := 0
  /-- Admitted, and without an outcome yet. -/
  pending : Finset Nat := ∅
  succeeded : Finset Nat := ∅
  /-- Admitted in the present half-open period. -/
  probes : Finset Nat := ∅
  /-- When the present open period began. -/
  openedTime : UInt64 := 0

namespace Breaker

/-- The next request is admitted, as a probe if the breaker is half-open then. -/
def grant (w : Breaker) (now : UInt64) (b : RpcCircuitBreaker) : Breaker :=
  { w with
    breaker := b
    clock := now
    admitted := w.admitted + 1
    pending := insert w.admitted w.pending
    probes := if b.state = .halfOpen then insert w.admitted w.probes else ∅ }

/-- The breaker takes an outcome; the probes count as long as the period lasts. -/
def recorded (w : Breaker) (now : UInt64) (request : Nat) (b : RpcCircuitBreaker) : Breaker :=
  { w with
    breaker := b
    clock := now
    pending := w.pending.erase request
    probes := if b.state = .halfOpen then w.probes else ∅
    openedTime := if w.breaker.state ≠ .opened ∧ b.state = .opened then now else w.openedTime }

def step (config : RpcCircuitBreakerConfig) (w : Breaker) (e : BreakerEvent) : Breaker :=
  match e.call with
  | .allowRequest =>
    let r := w.breaker.allowRequest config e.now
    if r.1 then w.grant e.now r.2 else { w with breaker := r.2, clock := e.now }
  | .recordSuccess request =>
    { w.recorded e.now request (w.breaker.recordSuccess config e.now) with succeeded := insert request w.succeeded }
  | .recordFailure request => w.recorded e.now request (w.breaker.recordFailure config e.now)

/-- The clock does not go back, and each admitted request has one outcome at most. -/
def Valid (w : Breaker) (e : BreakerEvent) : Prop :=
  w.clock ≤ e.now ∧ match e.call with
    | .allowRequest => True
    | .recordSuccess request | .recordFailure request => request ∈ w.pending

/-- No failure that an open breaker records makes it open again. -/
def Steady (config : RpcCircuitBreakerConfig) (w : Breaker) (e : BreakerEvent) : Prop :=
  match e.call with
  | .recordFailure _ => w.breaker.state = .opened → w.breaker.failures + 1 < config.failureThreshold
  | _ => True

structure Contract (config : RpcCircuitBreakerConfig) (w : Breaker) : Prop where
  /-- A half-open period admits so many. -/
  limit : w.probes.card ≤ config.halfOpenMaxCalls.toNat
  /-- An open breaker admits the first request that comes late enough. -/
  probe : w.breaker.state = .opened → ∀ now, w.clock ≤ now →
    w.openedTime.toNat + config.openDurationMs.toNat ≤ now.toNat → (w.breaker.allowRequest config now).1 = true
  /-- A half-open breaker whose probes all succeeded admits. -/
  escape : w.breaker.state = .halfOpen → w.probes ⊆ w.succeeded →
    ∀ now, (w.breaker.allowRequest config now).1 = true

end Breaker

/-- Thresholds and limit are at least one. -/
def RpcCircuitBreakerConfig.Positive (config : RpcCircuitBreakerConfig) : Prop :=
  1 ≤ config.failureThreshold ∧ 1 ≤ config.successThreshold ∧ 1 ≤ config.halfOpenMaxCalls

/-- The probes of a period are enough to close the breaker. -/
def RpcCircuitBreakerConfig.Closes (config : RpcCircuitBreakerConfig) : Prop :=
  config.successThreshold ≤ config.halfOpenMaxCalls.toNat

instance (config : RpcCircuitBreakerConfig) : Decidable config.Positive := inferInstanceAs (Decidable (_ ∧ _ ∧ _))

instance (config : RpcCircuitBreakerConfig) : Decidable config.Closes := inferInstanceAs (Decidable (_ ≤ _))

namespace Breaker

variable {config : RpcCircuitBreakerConfig} {w : Breaker} {e : BreakerEvent}

/-! ## Lemmas: the steps of the breaker -/

/-- What the counters of a breaker have to do with the requests. -/
structure Tracks (config : RpcCircuitBreakerConfig) (w : Breaker) : Prop where
  pending_lt : ∀ r ∈ w.pending, r < w.admitted
  succeeded_lt : ∀ r ∈ w.succeeded, r < w.admitted
  probes_lt : ∀ r ∈ w.probes, r < w.admitted
  idle : w.breaker.state ≠ .halfOpen → w.probes = ∅
  calls : w.breaker.state = .halfOpen →
    w.probes.card = w.breaker.halfOpenCalls.toNat ∧ w.breaker.halfOpenCalls ≤ config.halfOpenMaxCalls
  successes : w.breaker.state = .halfOpen →
    ((w.probes ∩ w.succeeded).card : Int) ≤ w.breaker.successes ∧ w.breaker.successes < config.successThreshold

/-- The breaker knows when it opened. -/
structure Punctual (w : Breaker) : Prop where
  openedAt : w.breaker.state = .opened → w.breaker.openedAt = w.openedTime
  clock : w.openedTime ≤ w.clock

theorem tracks_empty (config : RpcCircuitBreakerConfig) : Tracks config {} where
  pending_lt _ h := absurd h (Finset.notMem_empty _)
  succeeded_lt _ h := absurd h (Finset.notMem_empty _)
  probes_lt _ h := absurd h (Finset.notMem_empty _)
  idle _ := rfl
  calls h := by cases h
  successes h := by cases h

theorem punctual_empty : Punctual {} := ⟨fun h => (by cases h), UInt64.le_refl _⟩

theorem allowRequest_cases (config : RpcCircuitBreakerConfig) (now : UInt64) (b : RpcCircuitBreaker) :
    (b.state = .closed ∧ b.allowRequest config now = (true, b)) ∨
    (b.state = .opened ∧ config.openDurationMs ≤ now - b.openedAt ∧
      b.allowRequest config now = (true, { b.transitionTo now .halfOpen with halfOpenCalls := 1 })) ∨
    (b.state = .halfOpen ∧ b.halfOpenCalls < config.halfOpenMaxCalls ∧
      b.allowRequest config now = (true, { b with halfOpenCalls := b.halfOpenCalls + 1 })) ∨
    (b.state ≠ .closed ∧ b.allowRequest config now = (false, b)) := by
  unfold RpcCircuitBreaker.allowRequest
  cases hs : b.state with
  | closed => exact .inl ⟨rfl, rfl⟩
  | opened =>
    by_cases hlate : config.openDurationMs ≤ now - b.openedAt
    · exact .inr (.inl ⟨rfl, hlate, if_pos hlate⟩)
    · exact .inr (.inr (.inr ⟨by simp, if_neg hlate⟩))
  | halfOpen =>
    by_cases hroom : b.halfOpenCalls < config.halfOpenMaxCalls
    · exact .inr (.inr (.inl ⟨rfl, hroom, if_pos hroom⟩))
    · exact .inr (.inr (.inr ⟨by simp, if_neg hroom⟩))

variable {b : RpcCircuitBreaker} {now : UInt64}

/-- A success leaves a half-open breaker half-open below the threshold. -/
theorem recordSuccess_halfOpen
    (h : (b.recordSuccess config now).state = .halfOpen) : b.state = .halfOpen ∧
      b.recordSuccess config now = { b with successes := b.successes + 1 } ∧
      b.successes + 1 < config.successThreshold := by
  unfold RpcCircuitBreaker.recordSuccess at h ⊢
  cases hs : b.state with
  | closed =>
    rw [hs] at h
    simp only at h
    split at h
    · cases h
    · rw [hs] at h
      cases h
  | opened =>
    rw [hs] at h
    simp only [hs] at h
    cases h
  | halfOpen =>
    rw [hs] at h
    simp only at h ⊢
    split at h
    · cases h
    next hlt => exact ⟨trivial, if_neg hlt, Int.not_le.mp hlt⟩

theorem recordFailure_not_halfOpen (config : RpcCircuitBreakerConfig) (now : UInt64) (b : RpcCircuitBreaker) :
    (b.recordFailure config now).state ≠ .halfOpen := by
  unfold RpcCircuitBreaker.recordFailure
  split
  · exact fun h => (by cases h)
  next hne =>
    simp only
    split
    · exact fun h => (by cases h)
    · exact hne

variable {request : Nat}

theorem Tracks.recorded (h : Tracks config w)
    (hs : b.state ≠ .halfOpen) : Tracks config (w.recorded now request b) where
  pending_lt r hr := h.pending_lt r (Finset.mem_of_mem_erase hr)
  succeeded_lt := h.succeeded_lt
  probes_lt r hr := by
    rw [Breaker.recorded, if_neg hs] at hr
    cases hr
  idle _ := if_neg hs
  calls hb := absurd hb hs
  successes hb := absurd hb hs

/-- A success that leaves the period going. -/
theorem Tracks.succeeded (h : Tracks config w)
    (hr : request < w.admitted) (hs : b.state = .halfOpen → w.breaker.state = .halfOpen ∧
      b = { w.breaker with successes := w.breaker.successes + 1 } ∧ b.successes < config.successThreshold) :
    Tracks config { w.recorded now request b with succeeded := insert request w.succeeded } where
  pending_lt r hr := h.pending_lt r (Finset.mem_of_mem_erase hr)
  succeeded_lt r hmem := by
    rcases Finset.mem_insert.mp hmem with rfl | hmem
    · exact hr
    · exact h.succeeded_lt r hmem
  probes_lt r hmem := by
    have hsub : (w.recorded now request b).probes ⊆ w.probes := by
      unfold Breaker.recorded
      simp only
      split
      · exact Finset.Subset.refl _
      · exact Finset.empty_subset _
    exact h.probes_lt r (hsub hmem)
  idle hb := if_neg hb
  calls hb := by
    obtain ⟨hs, hb', -⟩ := hs hb
    obtain ⟨hcard, hle⟩ := h.calls hs
    refine ⟨(congrArg Finset.card (if_pos hb)).trans (hcard.trans ?_), ?_⟩
    · rw [Breaker.recorded, hb']
    · rw [Breaker.recorded, hb']
      exact hle
  successes hb := by
    obtain ⟨hs, hb', hlt⟩ := hs hb
    have hcount := (h.successes hs).1
    refine ⟨?_, hlt⟩
    have hprobes : (w.recorded now request b).probes = w.probes := if_pos hb
    have hone : (w.probes ∩ insert request w.succeeded).card ≤ (w.probes ∩ w.succeeded).card + 1 := by
      refine (Finset.card_le_card (t := insert request (w.probes ∩ w.succeeded)) fun r hr => ?_).trans
        (Finset.card_insert_le _ _)
      obtain ⟨hp, hr⟩ := Finset.mem_inter.mp hr
      rcases Finset.mem_insert.mp hr with rfl | hr
      · exact Finset.mem_insert_self _ _
      · exact Finset.mem_insert_of_mem (Finset.mem_inter.mpr ⟨hp, hr⟩)
    have hsucc : (w.recorded now request b).breaker.successes = w.breaker.successes + 1 := congrArg (·.successes) hb'
    simp only [hprobes, hsucc]
    omega

theorem Tracks.grant (h : Tracks config w)
    (hcalls : b.state = .halfOpen →
      w.probes.card + 1 = b.halfOpenCalls.toNat ∧ b.halfOpenCalls ≤ config.halfOpenMaxCalls)
    (hsuccesses : b.state = .halfOpen →
      ((w.probes ∩ w.succeeded).card : Int) ≤ b.successes ∧ b.successes < config.successThreshold) :
    Tracks config (w.grant now b) where
  pending_lt r hr := by
    rcases Finset.mem_insert.mp hr with rfl | hr
    · exact Nat.lt_succ_self _
    · exact Nat.lt_succ_of_lt (h.pending_lt r hr)
  succeeded_lt r hr := Nat.lt_succ_of_lt (h.succeeded_lt r hr)
  probes_lt r hr := by
    unfold Breaker.grant at hr
    simp only at hr
    split at hr
    · rcases Finset.mem_insert.mp hr with rfl | hr
      · exact Nat.lt_succ_self _
      · exact Nat.lt_succ_of_lt (h.probes_lt r hr)
    · cases hr
  idle hb := if_neg hb
  calls hb := by
    have hnew : w.admitted ∉ w.probes := fun hmem => Nat.lt_irrefl _ (h.probes_lt _ hmem)
    obtain ⟨hcard, hle⟩ := hcalls hb
    refine ⟨(congrArg Finset.card (if_pos hb)).trans ?_, hle⟩
    rw [Finset.card_insert_of_notMem hnew]
    exact hcard
  successes hb := by
    have hnew : w.admitted ∉ w.succeeded := fun hmem => Nat.lt_irrefl _ (h.succeeded_lt _ hmem)
    have hprobes : (w.grant now b).probes = insert w.admitted w.probes := if_pos hb
    rw [hprobes]
    show (((insert w.admitted w.probes) ∩ w.succeeded).card : Int) ≤ _ ∧ _
    rw [Finset.insert_inter_of_notMem hnew]
    exact hsuccesses hb

theorem Tracks.step (hp : config.Positive) (h : Tracks config w) (hv : w.Valid e) : Tracks config (w.step config e) := by
  obtain ⟨-, hthreshold, hmax⟩ := hp
  obtain ⟨now, call⟩ := e
  obtain ⟨-, hv⟩ := hv
  cases call with
  | recordFailure request => exact h.recorded (recordFailure_not_halfOpen _ _ _)
  | recordSuccess request =>
    refine h.succeeded (h.pending_lt _ hv) fun hb => ?_
    obtain ⟨hs, heq, hlt⟩ := recordSuccess_halfOpen hb
    exact ⟨hs, heq, by rw [heq]; exact hlt⟩
  | allowRequest =>
    unfold Breaker.step
    simp only
    rcases allowRequest_cases config now w.breaker with ⟨hs, hr⟩ | ⟨hs, -, hr⟩ | ⟨hs, hroom, hr⟩ | ⟨-, hr⟩
    · -- closed: the request is no probe
      rw [hr, if_pos rfl]
      exact h.grant (fun hb => by rw [hs] at hb; cases hb) fun hb => by rw [hs] at hb; cases hb
    · -- open for long enough: the first probe of a period
      have hnone := h.idle (by rw [hs]; simp)
      rw [hr, if_pos rfl]
      refine h.grant (fun _ => ⟨?_, hmax⟩) fun _ => ⟨?_, hthreshold⟩
      · rw [hnone]
        rfl
      · rw [hnone, Finset.empty_inter]
        exact Int.le_refl 0
    · obtain ⟨hcard, hle⟩ := h.calls hs
      have hlt := UInt64.lt_iff_toNat_lt.mp hroom
      have hnext : (w.breaker.halfOpenCalls + 1).toNat = w.breaker.halfOpenCalls.toNat + 1 := by
        rw [UInt64.toNat_add]
        exact Nat.mod_eq_of_lt (lt_of_le_of_lt hlt (UInt64.toNat_lt config.halfOpenMaxCalls))
      rw [hr, if_pos rfl]
      refine h.grant (fun _ => ⟨?_, ?_⟩) fun _ => h.successes hs
      · rw [hcard]
        exact hnext.symm
      · exact UInt64.le_iff_toNat_le.mpr (hnext.trans_le hlt)
    · rw [hr, if_neg Bool.false_ne_true]
      exact ⟨h.pending_lt, h.succeeded_lt, h.probes_lt, h.idle, h.calls, h.successes⟩

/-! ## Lemmas: the time of opening -/

theorem recordSuccess_opened {config : RpcCircuitBreakerConfig}
    (h : (b.recordSuccess config now).state = .opened) :
    b.state = .opened ∧ b.recordSuccess config now = b := by
  unfold RpcCircuitBreaker.recordSuccess at h ⊢
  cases hs : b.state with
  | closed =>
    rw [hs] at h
    simp only at h
    split at h
    · cases h
    · rw [hs] at h
      cases h
  | opened => exact ⟨rfl, rfl⟩
  | halfOpen =>
    rw [hs] at h
    simp only at h
    split at h
    · cases h
    · cases h

theorem recordFailure_opened (h : (b.recordFailure config now).state = .opened)
    (hsteady : b.state = .opened → b.failures + 1 < config.failureThreshold) :
    (b.recordFailure config now).openedAt = if b.state = .opened then b.openedAt else now := by
  unfold RpcCircuitBreaker.recordFailure at h ⊢
  split
  next hs => rw [if_neg (by rw [hs]; simp)]; rfl
  next hs =>
    rw [if_neg hs] at h
    simp only at h ⊢
    split
    next hle =>
      have hopen : b.state ≠ .opened := fun ho => absurd (hsteady ho) (Int.not_lt.mpr hle)
      rw [if_neg hopen]
      rfl
    next hgt =>
      rw [if_neg hgt] at h
      exact (if_pos h).symm

theorem Punctual.recorded (h : w.Punctual)
    (hle : w.openedTime ≤ now)
    (hb : b.state = .opened → b.openedAt = if w.breaker.state = .opened then w.breaker.openedAt else now) :
    (w.recorded now request b).Punctual where
  openedAt hs := by
    refine (hb hs).trans ?_
    by_cases hw : w.breaker.state = .opened
    · have hkept : (w.recorded now request b).openedTime = w.openedTime := if_neg fun hn => hn.1 hw
      rw [if_pos hw, hkept]
      exact h.openedAt hw
    · have hnew : (w.recorded now request b).openedTime = now := if_pos ⟨hw, hs⟩
      rw [if_neg hw, hnew]
  clock := by
    unfold Breaker.recorded
    simp only
    split
    · exact UInt64.le_refl now
    · exact hle

theorem Punctual.step (h : w.Punctual) (hv : w.Valid e) (hsteady : w.Steady config e) : (w.step config e).Punctual := by
  obtain ⟨now, call⟩ := e
  obtain ⟨hclock, -⟩ := hv
  have hle : w.openedTime ≤ now := UInt64.le_trans h.clock hclock
  cases call with
  | allowRequest =>
    unfold Breaker.step
    simp only
    rcases allowRequest_cases config now w.breaker with ⟨hs, hr⟩ | ⟨hs, -, hr⟩ | ⟨hs, -, hr⟩ | ⟨-, hr⟩
    · rw [hr, if_pos rfl]
      exact ⟨h.openedAt, hle⟩
    · rw [hr, if_pos rfl]
      exact ⟨fun hb => (by cases hb), hle⟩
    · rw [hr, if_pos rfl]
      exact ⟨h.openedAt, hle⟩
    · rw [hr, if_neg Bool.false_ne_true]
      exact ⟨h.openedAt, hle⟩
  | recordFailure request => exact h.recorded hle fun hb => recordFailure_opened hb hsteady
  | recordSuccess request =>
    have hrecorded : (w.recorded now request (w.breaker.recordSuccess config now)).Punctual :=
      h.recorded hle fun hb => by
        obtain ⟨hs, heq⟩ := recordSuccess_opened hb
        rw [heq, if_pos hs]
    exact ⟨hrecorded.openedAt, hrecorded.clock⟩

/-! ## Top theorem -/

theorem contract_of (h : Tracks config w) (hpunctual : w.Punctual)
    (hcloses : config.Closes) : Contract config w where
  limit := by
    by_cases hs : w.breaker.state = .halfOpen
    · obtain ⟨hcard, hle⟩ := h.calls hs
      rw [hcard]
      exact UInt64.le_iff_toNat_le.mp hle
    · rw [h.idle hs]
      exact Nat.zero_le _
  probe hs now hclock hlate := by
    have hle : w.breaker.openedAt ≤ now := by
      rw [hpunctual.openedAt hs]
      exact UInt64.le_trans hpunctual.clock hclock
    have hpassed : config.openDurationMs ≤ now - w.breaker.openedAt := by
      rw [UInt64.le_iff_toNat_le, UInt64.toNat_sub_of_le _ _ hle, hpunctual.openedAt hs]
      omega
    unfold RpcCircuitBreaker.allowRequest
    rw [hs]
    exact congrArg Prod.fst (if_pos hpassed)
  escape hs hall now := by
    obtain ⟨hcard, hle⟩ := h.calls hs
    obtain ⟨hcount, hlt⟩ := h.successes hs
    rw [Finset.inter_eq_left.mpr hall, hcard] at hcount
    have hroom : w.breaker.halfOpenCalls < config.halfOpenMaxCalls := by
      unfold RpcCircuitBreakerConfig.Closes at hcloses
      exact UInt64.lt_iff_toNat_lt.mpr (by omega)
    unfold RpcCircuitBreaker.allowRequest
    rw [hs]
    exact congrArg Prod.fst (if_pos hroom)

theorem contract_run (config : RpcCircuitBreakerConfig) (hp : config.Positive) (hcloses : config.Closes)
    (events : List BreakerEvent) (hv : Runs.Along (step config) Valid {} events)
    (hsteady : Runs.Along (step config) (Steady config) {} events) : Contract config (events.foldl (step config) {}) := by
  have hboth : Runs.Along (step config) (fun w e => w.Valid e ∧ w.Steady config e) {} events :=
    fun pre e post heq => ⟨hv pre e post heq, hsteady pre e post heq⟩
  obtain ⟨htracks, hpunctual⟩ := hboth.run (fun w => Tracks config w ∧ w.Punctual)
    (fun w e h he => ⟨h.1.step hp he.1, h.2.step he.1 he.2⟩) ⟨tracks_empty config, punctual_empty⟩
  exact contract_of htracks hpunctual hcloses

/-- One failure opens the breaker for 100 ms, one probe closes it. -/
def oneProbe : RpcCircuitBreakerConfig where
  failureThreshold := 1
  successThreshold := 1
  openDurationMs := 100
  halfOpenMaxCalls := 1

theorem contract_oneProbe : Contract oneProbe ([⟨0, .allowRequest⟩, ⟨0, .recordFailure 0⟩, ⟨100, .allowRequest⟩,
    ⟨101, .recordSuccess 1⟩].foldl (step oneProbe) {}) :=
  contract_run oneProbe (by decide) (by decide) _
    (Runs.along_cons.mpr ⟨⟨by decide, trivial⟩, Runs.along_cons.mpr ⟨⟨by decide, by decide⟩,
      Runs.along_cons.mpr ⟨⟨by decide, trivial⟩, Runs.along_cons.mpr ⟨⟨by decide, by decide⟩, Runs.along_nil⟩⟩⟩⟩)
    (Runs.along_cons.mpr ⟨trivial, Runs.along_cons.mpr ⟨fun h => (by cases h), Runs.along_cons.mpr ⟨trivial,
      Runs.along_cons.mpr ⟨trivial, Runs.along_nil⟩⟩⟩⟩)

/-- A failure that comes late opens the breaker again; and a single probe does not close one that asks for two. -/
theorem late_failure_reopens :
    (¬∀ (config : RpcCircuitBreakerConfig) (events : List BreakerEvent), config.Positive → config.Closes →
      Runs.Along (step config) Valid {} events → Contract config (events.foldl (step config) {})) ∧
    ¬∀ (config : RpcCircuitBreakerConfig) (events : List BreakerEvent), config.Positive →
      Runs.Along (step config) Valid {} events → Runs.Along (step config) (Steady config) {} events →
        Contract config (events.foldl (step config) {}) := by
  constructor
  · intro h
    have hlate := h oneProbe [⟨0, .allowRequest⟩, ⟨0, .allowRequest⟩, ⟨0, .recordFailure 0⟩, ⟨99, .recordFailure 1⟩]
      (by decide) (by decide) (Runs.along_cons.mpr ⟨⟨by decide, trivial⟩, Runs.along_cons.mpr ⟨⟨by decide, trivial⟩,
        Runs.along_cons.mpr ⟨⟨by decide, by decide⟩, Runs.along_cons.mpr ⟨⟨by decide, by decide⟩, Runs.along_nil⟩⟩⟩⟩)
    exact absurd (hlate.probe rfl 100 (by decide) (by decide)) (by decide)
  · intro h
    have htight := h { oneProbe with successThreshold := 2 }
      [⟨0, .allowRequest⟩, ⟨0, .recordFailure 0⟩, ⟨100, .allowRequest⟩, ⟨101, .recordSuccess 1⟩] (by decide)
      (Runs.along_cons.mpr ⟨⟨by decide, trivial⟩, Runs.along_cons.mpr ⟨⟨by decide, by decide⟩,
        Runs.along_cons.mpr ⟨⟨by decide, trivial⟩, Runs.along_cons.mpr ⟨⟨by decide, by decide⟩, Runs.along_nil⟩⟩⟩⟩)
      (Runs.along_cons.mpr ⟨trivial, Runs.along_cons.mpr ⟨fun h => (by cases h), Runs.along_cons.mpr ⟨trivial,
        Runs.along_cons.mpr ⟨trivial, Runs.along_nil⟩⟩⟩⟩)
    exact absurd (htight.escape rfl (by decide) 200) (by decide)

end Breaker

end Rpc
