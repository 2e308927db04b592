import ZeroFrameworks.Core.Scheduler

/-!
# Events of descriptors

`IOManager` keeps for each descriptor which of its two events are registered and who waits for them, and counts
the registered events.  A result of `epoll_wait` is handled later than it was fetched, so it may name an event
that is not registered any more.

    (new : IOManager C).States Correct ops ↔ (new : IOManager C).Along Unmixed ops   (events_kept_iff)

`Unmixed` says of each result that is handled that the events it names are all registered, or none of them.
-/

namespace Core

/-! ## Algorithm -/

inductive IoEvent where
  | read | write
deriving DecidableEq

instance : Fintype IoEvent := ⟨{.read, .write}, fun e => by cases e <;> decide⟩

/-- `waiter` stands for the scheduler and the fiber or callback of the context: it is the number of the
`addEvent` that put them there. -/
structure EventContext where
  waiter : Option Nat
  expireAt : Nat
  cancelFlag : Option Nat

/-- A result of `epoll_wait`: `EPOLLIN`, `EPOLLOUT`, and `EPOLLERR` or `EPOLLHUP`. -/
structure EpollResult (C : Type) where
  ctx : C
  epollIn : Bool
  epollOut : Bool
  epollErrHup : Bool
deriving DecidableEq

/-- Whether a result is among others. -/
instance decidableMemResults {C : Type} [DecidableEq C] (r : EpollResult C) (l : List (EpollResult C)) :
    Decidable (r ∈ l) :=
  inferInstanceAs (Decidable (r ∈ l))

/-- Whether a timed out event is among others. -/
instance decidableMemExpired {C : Type} [DecidableEq C] (item : (C × IoEvent) × Option Nat)
    (l : List ((C × IoEvent) × Option Nat)) : Decidable (item ∈ l) :=
  inferInstanceAs (Decidable (item ∈ l))

/-- The contexts `C` are those that a call finds in `m_fdContexts`.  `flags` are the ints that the cancel flags
point to, and `fetched` the results that wait to be handled.  `count`, `resumed` and `removed` record the waiters
that were added, resumed and taken away by `delEvent`. -/
structure IOManager (C : Type) where
  events : C × IoEvent → Bool
  context : C × IoEvent → EventContext
  pendingEventCount : Int
  nextIoExpire : Nat
  ioExpireDirty : Bool
  flags : Nat → Nat
  expired : List ((C × IoEvent) × Option Nat)
  fetched : List (EpollResult C)
  aborted : Bool
  count : Nat
  resumed : List Nat
  removed : List Nat

namespace IOManager

variable {C : Type} [DecidableEq C]

def ecanceled : Nat := 125

def etimedout : Nat := 110

/-- `(uint64_t)-1`. -/
def noExpire : Nat := 2 ^ 64 - 1

def new : IOManager C :=
  ⟨fun _ => false, fun _ => ⟨none, 0, none⟩, 0, noExpire, false, fun _ => 0, [], [], false, 0, [], []⟩

def setContext (k : C × IoEvent) (ctx : EventContext) (s : IOManager C) : IOManager C :=
  { s with context := Function.update s.context k ctx }

def setEvent (k : C × IoEvent) (on : Bool) (s : IOManager C) : IOManager C :=
  { s with events := Function.update s.events k on }

def onIoWaitAdded (expireAt : Nat) (s : IOManager C) : IOManager C :=
  if expireAt = 0 then s
  else if s.nextIoExpire = noExpire ∨ expireAt < s.nextIoExpire then
    { s with nextIoExpire := expireAt, ioExpireDirty := false }
  else s

def onIoWaitRemoved (expireAt : Nat) (s : IOManager C) : IOManager C :=
  if expireAt ≠ 0 ∧ s.nextIoExpire = expireAt then { s with ioExpireDirty := true } else s

/-- `FdContext::triggerEvent`.  The assertion ends the program.  The thread that the waiter is scheduled for is left
out. -/
def triggerEvent (k : C × IoEvent) (s : IOManager C) : IOManager C :=
  if s.events k then
    { (s.setEvent k false).setContext k { s.context k with waiter := none } with
      resumed := (s.context k).waiter.toList ++ s.resumed }
  else { s with aborted := true }

def setFlag (flag : Option Nat) (s : IOManager C) : IOManager C :=
  match flag with
  | some a => if s.flags a = 0 then { s with flags := Function.update s.flags a ecanceled } else s
  | none => s

/-- A cancelled waiter is told so, unless a timeout has told it. -/
def clear (cancelled : Bool) (k : C × IoEvent) (s : IOManager C) : IOManager C :=
  (if cancelled then s.setFlag (s.context k).cancelFlag else s).setContext k
    { s.context k with expireAt := 0, cancelFlag := none }

/-- An event is over: its context is cleared, its waiter scheduled and the count lowered. -/
def finish (cancelled : Bool) (k : C × IoEvent) (s : IOManager C) : IOManager C :=
  let s' := (s.clear cancelled k).triggerEvent k
  if s'.aborted then s'
  else { s' with pendingEventCount := s'.pendingEventCount - 1 }.onIoWaitRemoved (s.context k).expireAt

/-- The locked section of `addEvent`, `none` where its own assertion fails.  `ok`: `epoll_ctl` succeeds. -/
def addEvent (k : C × IoEvent) (now : Nat) (timeout : Option Nat) (cancelFlag : Option Nat) (ok : Bool)
    (s : IOManager C) : Option (IOManager C) :=
  if s.events k then none
  else if !ok then some s
  else if (s.context k).waiter.isSome then none
  else
    let expireAt := match timeout with
      | some ms => (now + ms) % 2 ^ 64
      | none => 0
    some (({ s.setEvent k true with pendingEventCount := s.pendingEventCount + 1, count := s.count + 1 }.setContext k
      ⟨some s.count, expireAt, if expireAt = 0 then none else cancelFlag⟩).onIoWaitAdded expireAt)

def delEvent (k : C × IoEvent) (ok : Bool) (s : IOManager C) : IOManager C :=
  if s.events k && ok then
    ({ s.setEvent k false with
      pendingEventCount := s.pendingEventCount - 1
      removed := (s.context k).waiter.toList ++ s.removed }.setContext k ⟨none, 0, none⟩).onIoWaitRemoved
        (s.context k).expireAt
  else s

def cancelEvent (k : C × IoEvent) (ok : Bool) (s : IOManager C) : IOManager C :=
  if s.events k && ok then s.finish true k else s

def cancelAll (c : C) (ok : Bool) (s : IOManager C) : IOManager C :=
  if (s.events (c, .read) || s.events (c, .write)) && ok then
    let s := if s.events (c, .read) then s.finish true (c, .read) else s
    if s.events (c, .write) then s.finish true (c, .write) else s
  else s

/-- The events that a result stands for when it is handled. -/
def realEvents (s : IOManager C) (r : EpollResult C) : IoEvent → Bool
  | .read => r.epollIn || r.epollErrHup && s.events (r.ctx, .read)
  | .write => r.epollOut || r.epollErrHup && s.events (r.ctx, .write)

/-- The handling of one result in `idle`. -/
def handle (r : EpollResult C) (ok : Bool) (s : IOManager C) : IOManager C :=
  let real := s.realEvents r
  if s.events (r.ctx, .read) && real .read || s.events (r.ctx, .write) && real .write then
    if ok then
      let s := if real .read then s.finish false (r.ctx, .read) else s
      if s.aborted then s
      else if real .write then s.finish false (r.ctx, .write) else s
    else s
  else s

inductive IoOp (C : Type) where
  | addEvent (k : C × IoEvent) (now : Nat) (timeout : Option Nat) (cancelFlag : Option Nat) (ok : Bool)
  | delEvent (k : C × IoEvent) (ok : Bool)
  | cancelEvent (k : C × IoEvent) (ok : Bool)
  | cancelAll (c : C) (ok : Bool)
  /-- `epoll_wait` gives a result. -/
  | fetch (r : EpollResult C)
  | handle (r : EpollResult C) (ok : Bool)
  /-- `checkIoExpired` finds an event expired, and later cancels it. -/
  | expire (k : C × IoEvent) (now : Nat)
  | cancelExpired (item : (C × IoEvent) × Option Nat) (ok : Bool)

/-- A result names events that were registered when it was fetched. -/
def fetchable (s : IOManager C) (r : EpollResult C) : Bool :=
  (!r.epollIn || s.events (r.ctx, .read)) && (!r.epollOut || s.events (r.ctx, .write)) &&
    (s.events (r.ctx, .read) || s.events (r.ctx, .write))

def step (s : IOManager C) (op : IoOp C) : Option (IOManager C) :=
  if s.aborted then none
  else match op with
    | .addEvent k now timeout cancelFlag ok => s.addEvent k now timeout cancelFlag ok
    | .delEvent k ok => some (s.delEvent k ok)
    | .cancelEvent k ok => some (s.cancelEvent k ok)
    | .cancelAll c ok => some (s.cancelAll c ok)
    | .fetch r => if s.fetchable r then some { s with fetched := r :: s.fetched } else none
    | .handle r ok => if r ∈ s.fetched then some ({ s with fetched := s.fetched.erase r }.handle r ok) else none
    | .expire k now =>
      if s.events k ∧ (s.context k).expireAt ≠ 0 ∧ (s.context k).expireAt ≤ now then
        some { s with expired := (k, (s.context k).cancelFlag) :: s.expired }
      else none
    | .cancelExpired item ok =>
      if item ∈ s.expired then
        let s := { s with expired := s.expired.erase item }
        let s := match item.2 with
          | some a => { s with flags := Function.update s.flags a etimedout }
          | none => s
        some (s.cancelEvent item.1 ok)
      else none

/-! ## Specification -/

variable [Fintype C]

/-- The waiters of the registered events. -/
def waiting (s : IOManager C) : Multiset Nat := ∑ k, if s.events k then ↑(s.context k).waiter.toList else 0

/-- `once`: a waiter that was added still waits, or was resumed once, or was removed. -/
structure Correct (s : IOManager C) : Prop where
  asserted : s.aborted = false
  pending : s.pendingEventCount = (Finset.univ.filter fun k => s.events k = true).card
  waits : ∀ k, (s.context k).waiter.isSome = s.events k
  once : s.waiting + ↑s.resumed + ↑s.removed = Multiset.range s.count

/-- A result stands for registered events only, or for none of them. -/
def UnmixedResult (s : IOManager C) (r : EpollResult C) : Prop :=
  (∀ e, s.realEvents r e = true → s.events (r.ctx, e) = true) ∨ ∀ e, s.realEvents r e = true → s.events (r.ctx, e) = false

/-- `ok`: the handling does not stop at `epoll_ctl`. -/
def Unmixed (s : IOManager C) : IoOp C → Prop
  | .handle r ok => r ∈ s.fetched → ok = true → s.UnmixedResult r
  | _ => True

def Along (P : IOManager C → IoOp C → Prop) (s : IOManager C) : List (IoOp C) → Prop
  | [] => True
  | op :: ops => P s op ∧ ∀ s' ∈ s.step op, s'.Along P ops

/-- `P` holds of every state that a run goes through. -/
def States (P : IOManager C → Prop) (s : IOManager C) : List (IoOp C) → Prop
  | [] => P s
  | op :: ops => P s ∧ ∀ s' ∈ s.step op, s'.States P ops

/-! ## Lemmas -/

/-- All of `Correct` but for the assertion. -/
structure Balanced (s : IOManager C) : Prop where
  pending : s.pendingEventCount = (Finset.univ.filter fun k => s.events k = true).card
  waits : ∀ k, (s.context k).waiter.isSome = s.events k
  once : s.waiting + ↑s.resumed + ↑s.removed = Multiset.range s.count

variable {s s' : IOManager C} {k : C × IoEvent} {ctx : EventContext} {b : Bool}

theorem waiting_update (hevents : s'.events = Function.update s.events k b)
    (hcontext : s'.context = Function.update s.context k ctx) :
    s'.waiting + (if s.events k then ↑(s.context k).waiter.toList else 0) =
      s.waiting + if b then ↑ctx.waiter.toList else 0 := by
  have hsum := Shares.sum_update_add (fun k => if s.events k then (↑(s.context k).waiter.toList : Multiset Nat) else 0) k
    (if b then ↑ctx.waiter.toList else 0)
  rw [waiting, waiting, ← hsum]
  congr 1
  apply Finset.sum_congr rfl
  intro k' _
  rw [hevents, hcontext]
  by_cases hk : k' = k
  · subst hk
    rw [Function.update_self, Function.update_self, Function.update_self]
  · rw [Function.update_of_ne hk, Function.update_of_ne hk, Function.update_of_ne hk]

theorem registered_update (hevents : s'.events = Function.update s.events k b) :
    (Finset.univ.filter fun k => s'.events k = true).card + (if s.events k then 1 else 0) =
      (Finset.univ.filter fun k => s.events k = true).card + if b then 1 else 0 := by
  have hsum := Shares.sum_update_add (fun k => if s.events k then 1 else 0) k (if b then 1 else 0)
  rw [Finset.card_filter, Finset.card_filter, ← hsum]
  congr 1
  apply Finset.sum_congr rfl
  intro k' _
  rw [hevents]
  by_cases hk : k' = k
  · subst hk
    rw [Function.update_self, Function.update_self]
  · rw [Function.update_of_ne hk, Function.update_of_ne hk]

omit [Fintype C] in
theorem waits_update (h : ∀ k, (s.context k).waiter.isSome = s.events k)
    (hevents : s'.events = Function.update s.events k b) (hcontext : s'.context = Function.update s.context k ctx)
    (hctx : ctx.waiter.isSome = b) (k' : C × IoEvent) : (s'.context k').waiter.isSome = s'.events k' := by
  rw [hevents, hcontext]
  by_cases hk : k' = k
  · subst hk
    rw [Function.update_self, Function.update_self, hctx]
  · rw [Function.update_of_ne hk, Function.update_of_ne hk]
    exact h k'

theorem Balanced.off (h : s.Balanced) (hk : s.events k = true) (hevents : s'.events = Function.update s.events k false)
    (hcontext : s'.context = Function.update s.context k ctx) (hctx : ctx.waiter = none)
    (hpending : s'.pendingEventCount = s.pendingEventCount - 1) (hcount : s'.count = s.count)
    (hlogs : (↑s'.resumed + ↑s'.removed : Multiset Nat) = ↑(s.context k).waiter.toList + (↑s.resumed + ↑s.removed)) :
    s'.Balanced := by
  constructor
  · have hcard := registered_update hevents
    have := h.pending
    rw [hk] at hcard
    simp at hcard
    omega
  · exact waits_update h.waits hevents hcontext (by rw [hctx]; rfl)
  · have hwaiting := waiting_update hevents hcontext
    rw [hk] at hwaiting
    simp only [if_true, Bool.false_eq_true, if_false, add_zero] at hwaiting
    rw [hcount, ← h.once, ← hwaiting, add_assoc, hlogs]
    abel

theorem Balanced.on (h : s.Balanced) (hk : s.events k = false) (hevents : s'.events = Function.update s.events k true)
    (hcontext : s'.context = Function.update s.context k ctx) (hctx : ctx.waiter = some s.count)
    (hpending : s'.pendingEventCount = s.pendingEventCount + 1) (hcount : s'.count = s.count + 1)
    (hresumed : s'.resumed = s.resumed) (hremoved : s'.removed = s.removed) : s'.Balanced := by
  constructor
  · have hcard := registered_update hevents
    have := h.pending
    rw [hk] at hcard
    simp at hcard
    omega
  · exact waits_update h.waits hevents hcontext (by rw [hctx]; rfl)
  · have hwaiting := waiting_update hevents hcontext
    rw [hk, hctx] at hwaiting
    simp only [if_true, Bool.false_eq_true, if_false, add_zero] at hwaiting
    rw [hcount, Multiset.range_succ, ← h.once, hwaiting, hresumed, hremoved, ← Multiset.singleton_add]
    show s.waiting + {s.count} + _ + _ = _
    abel

omit [DecidableEq C] in
/-- Nothing changes that the books are about. -/
theorem Balanced.congr (h : s.Balanced) (hevents : s'.events = s.events)
    (hcontext : ∀ k, (s'.context k).waiter = (s.context k).waiter)
    (hpending : s'.pendingEventCount = s.pendingEventCount) (hcount : s'.count = s.count)
    (hresumed : s'.resumed = s.resumed) (hremoved : s'.removed = s.removed) : s'.Balanced := by
  constructor
  · rw [hpending, hevents]
    exact h.pending
  · intro k
    rw [hcontext, hevents]
    exact h.waits k
  · have hwaiting : s'.waiting = s.waiting := by
      unfold waiting
      rw [hevents]
      simp only [hcontext]
    rw [hwaiting, hresumed, hremoved, hcount]
    exact h.once

omit [DecidableEq C] in
theorem Balanced.onIoWaitRemoved (h : s.Balanced) (expireAt : Nat) : (s.onIoWaitRemoved expireAt).Balanced := by
  unfold IOManager.onIoWaitRemoved
  split
  · exact ⟨h.pending, h.waits, h.once⟩
  · exact h

omit [DecidableEq C] in
theorem Balanced.onIoWaitAdded (h : s.Balanced) (expireAt : Nat) : (s.onIoWaitAdded expireAt).Balanced := by
  unfold IOManager.onIoWaitAdded
  split
  · exact h
  · split
    · exact ⟨h.pending, h.waits, h.once⟩
    · exact h

omit [Fintype C] in
/-- Clearing the deadline and the flag of a context leaves the books alone. -/
theorem clear_spec (s : IOManager C) (cancelled : Bool) (k : C × IoEvent) :
    (s.clear cancelled k).events = s.events ∧ (s.clear cancelled k).aborted = s.aborted ∧
      (s.clear cancelled k).pendingEventCount = s.pendingEventCount ∧ (s.clear cancelled k).count = s.count ∧
      (s.clear cancelled k).resumed = s.resumed ∧ (s.clear cancelled k).removed = s.removed ∧
      ∀ k', ((s.clear cancelled k).context k').waiter = (s.context k').waiter := by
  have hwaiter : ∀ k', (Function.update s.context k { s.context k with expireAt := 0, cancelFlag := none } k').waiter =
      (s.context k').waiter := by
    intro k'
    by_cases hk : k' = k
    · subst hk
      rw [Function.update_self]
    · rw [Function.update_of_ne hk]
  cases cancelled with
  | false => exact ⟨rfl, rfl, rfl, rfl, rfl, rfl, hwaiter⟩
  | true =>
    simp only [clear, if_true, setFlag]
    split
    · split
      · exact ⟨rfl, rfl, rfl, rfl, rfl, rfl, hwaiter⟩
      · exact ⟨rfl, rfl, rfl, rfl, rfl, rfl, hwaiter⟩
    · exact ⟨rfl, rfl, rfl, rfl, rfl, rfl, hwaiter⟩

omit [DecidableEq C] [Fintype C] in
theorem onIoWaitRemoved_frame (s : IOManager C) (expireAt : Nat) :
    s.onIoWaitRemoved expireAt = { s with ioExpireDirty := s.ioExpireDirty || decide (expireAt ≠ 0 ∧ s.nextIoExpire = expireAt) } := by
  unfold onIoWaitRemoved
  split
  next h => rw [decide_eq_true h, Bool.or_true]
  next h => rw [decide_eq_false h, Bool.or_false]

theorem finish_on (h : s.Balanced) (hab : s.aborted = false) (hk : s.events k = true) (cancelled : Bool) :
    (s.finish cancelled k).Balanced ∧ (s.finish cancelled k).aborted = false ∧
      (s.finish cancelled k).events = Function.update s.events k false := by
  obtain ⟨hevents, haborted, hpending, hcount, hresumed, hremoved, hwaiter⟩ := clear_spec s cancelled k
  have hclear : (s.clear cancelled k).Balanced := h.congr hevents hwaiter hpending hcount hresumed hremoved
  have hon : (s.clear cancelled k).events k = true := by rw [hevents, hk]
  unfold finish triggerEvent
  simp only [hon, if_true, setContext, setEvent]
  rw [if_neg (by rw [haborted, hab]; simp)]
  refine ⟨Balanced.onIoWaitRemoved ?_ _, ?_, ?_⟩
  · refine hclear.off (k := k) hon rfl rfl rfl rfl rfl ?_
    show (↑(((s.clear cancelled k).context k).waiter.toList ++ (s.clear cancelled k).resumed) : Multiset Nat) + _ = _
    rw [← Multiset.coe_add, add_assoc]
  · rw [onIoWaitRemoved_frame]
    exact haborted.trans hab
  · rw [onIoWaitRemoved_frame]
    show Function.update (s.clear cancelled k).events k false = _
    rw [hevents]

theorem finish_off (h : s.Balanced) (hk : s.events k = false) (cancelled : Bool) :
    (s.finish cancelled k).Balanced ∧ (s.finish cancelled k).aborted = true := by
  obtain ⟨hevents, haborted, hpending, hcount, hresumed, hremoved, hwaiter⟩ := clear_spec s cancelled k
  have hclear : (s.clear cancelled k).Balanced := h.congr hevents hwaiter hpending hcount hresumed hremoved
  have hoff : (s.clear cancelled k).events k = false := by rw [hevents, hk]
  unfold finish triggerEvent
  simp only [hoff, Bool.false_eq_true, if_false, if_true]
  exact ⟨⟨hclear.pending, hclear.waits, hclear.once⟩, trivial⟩

/-! ### Calls -/

omit [DecidableEq C] [Fintype C] in
theorem onIoWaitAdded_aborted (s : IOManager C) (expireAt : Nat) : (s.onIoWaitAdded expireAt).aborted = s.aborted := by
  unfold onIoWaitAdded
  split
  · rfl
  · split <;> rfl

theorem Balanced.addEvent (h : s.Balanced) {now : Nat} {timeout cancelFlag : Option Nat} {ok : Bool}
    (hadd : s.addEvent k now timeout cancelFlag ok = some s') : s'.Balanced ∧ s'.aborted = s.aborted := by
  unfold IOManager.addEvent at hadd
  obtain ⟨hk, hadd⟩ := Option.ite_none_left_eq_some.mp hadd
  split at hadd
  · cases hadd
    exact ⟨h, rfl⟩
  · obtain ⟨-, hadd⟩ := Option.ite_none_left_eq_some.mp hadd
    cases hadd
    refine ⟨Balanced.onIoWaitAdded ?_ _, onIoWaitAdded_aborted ..⟩
    exact h.on (k := k) (Bool.not_eq_true _ ▸ hk) rfl rfl rfl rfl rfl rfl rfl

theorem Balanced.delEvent (h : s.Balanced) (ok : Bool) :
    (s.delEvent k ok).Balanced ∧ (s.delEvent k ok).aborted = s.aborted := by
  unfold IOManager.delEvent
  split
  next hk =>
    obtain ⟨hk, -⟩ := Bool.and_eq_true_iff.mp hk
    refine ⟨Balanced.onIoWaitRemoved ?_ _, by rw [onIoWaitRemoved_frame]; rfl⟩
    refine h.off hk rfl rfl rfl rfl rfl ?_
    show _ + (↑((s.context k).waiter.toList ++ s.removed) : Multiset Nat) = _
    rw [← Multiset.coe_add]
    exact add_left_comm _ _ _
  next => exact ⟨h, rfl⟩

theorem Balanced.cancelEvent (h : s.Balanced) (hab : s.aborted = false) (ok : Bool) :
    (s.cancelEvent k ok).Balanced ∧ (s.cancelEvent k ok).aborted = false := by
  unfold IOManager.cancelEvent
  split
  next hk =>
    obtain ⟨hbal, hab', -⟩ := finish_on h hab (Bool.and_eq_true_iff.mp hk).1 true
    exact ⟨hbal, hab'⟩
  next => exact ⟨h, hab⟩

theorem Balanced.cancelAll (h : s.Balanced) (hab : s.aborted = false) (c : C) (ok : Bool) :
    (s.cancelAll c ok).Balanced ∧ (s.cancelAll c ok).aborted = false := by
  have hwrite : ∀ s : IOManager C, s.Balanced → s.aborted = false →
      (if s.events (c, .write) then s.finish true (c, .write) else s).Balanced ∧
        (if s.events (c, .write) then s.finish true (c, .write) else s).aborted = false := by
    intro s h hab
    split
    next hk =>
      obtain ⟨hbal, hab', -⟩ := finish_on h hab hk true
      exact ⟨hbal, hab'⟩
    next => exact ⟨h, hab⟩
  unfold IOManager.cancelAll
  split
  · refine hwrite _ ?_ ?_
    all_goals
      split
      next hk => first | exact (finish_on h hab hk true).1 | exact (finish_on h hab hk true).2.1
      next => first | exact h | exact hab
  · exact ⟨h, hab⟩

/-! ### Results -/

theorem handle_spec (h : s.Balanced) (hab : s.aborted = false) (r : EpollResult C) (ok : Bool) :
    (s.handle r ok).Balanced ∧ ((s.handle r ok).aborted = false ↔ (ok = true → s.UnmixedResult r)) := by
  unfold handle
  dsimp only
  split
  next hsome =>
    cases ok with
    | false => exact ⟨h, by simp [hab]⟩
    | true =>
      rw [if_pos rfl]
      by_cases hread : s.realEvents r .read = true
      · rw [if_pos hread]
        by_cases hr : s.events (r.ctx, .read) = true
        · obtain ⟨hbal, hab', hev⟩ := finish_on h hab hr false
          rw [if_neg (by rw [hab']; simp)]
          by_cases hwrite : s.realEvents r .write = true
          · rw [if_pos hwrite]
            have hkeep : (s.finish false (r.ctx, .read)).events (r.ctx, .write) = s.events (r.ctx, .write) := by
              rw [hev, Function.update_of_ne (by simp)]
            by_cases hw : s.events (r.ctx, .write) = true
            · obtain ⟨hbal', hab'', -⟩ := finish_on hbal hab' (hkeep.trans hw) false
              refine ⟨hbal', iff_of_true hab'' fun _ => .inl ?_⟩
              rintro (_ | _) _
              · exact hr
              · exact hw
            · -- The write event that the result names is gone.
              obtain ⟨hbal', hab''⟩ := finish_off hbal (hkeep.trans (Bool.not_eq_true _ ▸ hw)) false
              refine ⟨hbal', iff_of_false (by rw [hab'']; simp) fun hun => ?_⟩
              rcases hun rfl with hall | hnone
              · exact hw (hall .write hwrite)
              · rw [hnone .read hread] at hr
                cases hr
          · rw [if_neg hwrite]
            refine ⟨hbal, iff_of_true hab' fun _ => .inl ?_⟩
            rintro (_ | _) hreal
            · exact hr
            · exact absurd hreal hwrite
        · -- The read event that the result names is gone.
          obtain ⟨hbal, hab'⟩ := finish_off h (Bool.not_eq_true _ ▸ hr) false
          rw [if_pos hab']
          refine ⟨hbal, iff_of_false (by rw [hab']; simp) fun hun => ?_⟩
          have hw : s.events (r.ctx, .write) = true ∧ s.realEvents r .write = true := by simpa [hr] using hsome
          rcases hun rfl with hall | hnone
          · exact hr (hall .read hread)
          · have := hnone .write hw.2
            rw [hw.1] at this
            cases this
      · have hw : s.events (r.ctx, .write) = true ∧ s.realEvents r .write = true := by simpa [hread] using hsome
        obtain ⟨hbal, hab', -⟩ := finish_on h hab hw.1 false
        rw [if_neg hread, if_neg (by rw [hab]; simp), if_pos hw.2]
        refine ⟨hbal, iff_of_true hab' fun _ => .inl ?_⟩
        rintro (_ | _) hreal
        · exact absurd hreal hread
        · exact hw.1
  next hnone =>
    refine ⟨h, iff_of_true hab fun _ => .inr ?_⟩
    rintro (_ | _) hreal
    · simp only [Bool.or_eq_true, Bool.and_eq_true, not_or, not_and] at hnone
      exact Bool.not_eq_true _ ▸ fun hon => hnone.1 hon hreal
    · simp only [Bool.or_eq_true, Bool.and_eq_true, not_or, not_and] at hnone
      exact Bool.not_eq_true _ ▸ fun hon => hnone.2 hon hreal

/-- A step keeps the books, and it fails the assertion if it handles a mixed result. -/
theorem step_spec {op : IoOp C} (h : s.Balanced) (hab : s.aborted = false) (hstep : s.step op = some s') :
    s'.Balanced ∧ (s'.aborted = false ↔ s.Unmixed op) := by
  obtain ⟨-, hstep⟩ := Option.ite_none_left_eq_some.mp hstep
  cases op with
  | addEvent k now timeout cancelFlag ok =>
    obtain ⟨hbal, hab'⟩ := h.addEvent hstep
    exact ⟨hbal, iff_of_true (hab'.trans hab) trivial⟩
  | delEvent k ok =>
    cases hstep
    obtain ⟨hbal, hab'⟩ := h.delEvent (k := k) ok
    exact ⟨hbal, iff_of_true (hab'.trans hab) trivial⟩
  | cancelEvent k ok =>
    cases hstep
    obtain ⟨hbal, hab'⟩ := h.cancelEvent (k := k) hab ok
    exact ⟨hbal, iff_of_true hab' trivial⟩
  | cancelAll c ok =>
    cases hstep
    obtain ⟨hbal, hab'⟩ := h.cancelAll hab c ok
    exact ⟨hbal, iff_of_true hab' trivial⟩
  | fetch r =>
    obtain ⟨-, hstep⟩ := Option.ite_none_right_eq_some.mp hstep
    cases hstep
    exact ⟨⟨h.pending, h.waits, h.once⟩, iff_of_true hab trivial⟩
  | handle r ok =>
    obtain ⟨hmem, hstep⟩ := Option.ite_none_right_eq_some.mp hstep
    cases hstep
    obtain ⟨hbal, hiff⟩ := handle_spec (s := { s with fetched := s.fetched.erase r }) ⟨h.pending, h.waits, h.once⟩ hab r ok
    exact ⟨hbal, hiff.trans ⟨fun hun _ => hun, fun hun => hun hmem⟩⟩
  | expire k now =>
    obtain ⟨-, hstep⟩ := Option.ite_none_right_eq_some.mp hstep
    cases hstep
    exact ⟨⟨h.pending, h.waits, h.once⟩, iff_of_true hab trivial⟩
  | cancelExpired item ok =>
    obtain ⟨-, hstep⟩ := Option.ite_none_right_eq_some.mp hstep
    cases hstep
    obtain ⟨k, flag⟩ := item
    cases flag with
    | none =>
      obtain ⟨hbal, hab'⟩ := Balanced.cancelEvent (s := { s with expired := s.expired.erase (k, none) }) (k := k)
        ⟨h.pending, h.waits, h.once⟩ hab ok
      exact ⟨hbal, iff_of_true hab' trivial⟩
    | some a =>
      obtain ⟨hbal, hab'⟩ := Balanced.cancelEvent (s := { s with
        expired := s.expired.erase (k, some a), flags := Function.update s.flags a etimedout }) (k := k)
        ⟨h.pending, h.waits, h.once⟩ hab ok
      exact ⟨hbal, iff_of_true hab' trivial⟩

omit [Fintype C] in
/-- A result that cannot be handled is no matter. -/
theorem unmixed_of_none {op : IoOp C} (hab : s.aborted = false) (hstep : s.step op = none) : s.Unmixed op := by
  unfold step at hstep
  rw [if_neg (by rw [hab]; simp)] at hstep
  cases op with
  | handle r ok =>
    intro hmem
    simp [hmem] at hstep
  | _ => trivial

/-! ## Top theorem -/

theorem states_correct_iff (ops : List (IoOp C)) (h : s.Balanced) (hab : s.aborted = false) :
    s.States Correct ops ↔ s.Along Unmixed ops := by
  induction ops generalizing s with
  | nil => exact iff_of_true ⟨hab, h.pending, h.waits, h.once⟩ trivial
  | cons op ops ih =>
    have hcorrect : s.Correct := ⟨hab, h.pending, h.waits, h.once⟩
    cases hstep : s.step op with
    | none =>
      refine iff_of_true ⟨hcorrect, ?_⟩ ⟨unmixed_of_none hab hstep, ?_⟩
      all_goals simp [hstep]
    | some s1 =>
      obtain ⟨hbal, hiff⟩ := step_spec h hab hstep
      have hstates : s.States Correct (op :: ops) ↔ s1.States Correct ops := by
        simp [States, hstep, hcorrect]
      have halong : s.Along Unmixed (op :: ops) ↔ s.Unmixed op ∧ s1.Along Unmixed ops := by
        simp [Along, hstep]
      rw [hstates, halong, ← hiff]
      constructor
      · intro hrun
        have hab1 : s1.aborted = false := by
          cases ops with
          | nil => exact hrun.asserted
          | cons => exact hrun.1.asserted
        exact ⟨hab1, (ih hbal hab1).mp hrun⟩
      · rintro ⟨hab1, hrun⟩
        exact (ih hbal hab1).mpr hrun

theorem events_kept_iff (ops : List (IoOp C)) :
    (new : IOManager C).States Correct ops ↔ (new : IOManager C).Along Unmixed ops := by
  refine states_correct_iff ops ⟨?_, ?_, ?_⟩ rfl
  · simp [new]
  · intro k
    rfl
  · simp [new, waiting]

/-- Both events of a descriptor are reported, and the read event is cancelled before the report is handled. -/
def staleRead : List (IoOp (Fin 1)) :=
  [.addEvent (0, .read) 0 none none true, .addEvent (0, .write) 0 none none true, .fetch ⟨0, true, true, false⟩,
    .cancelEvent (0, .read) true, .handle ⟨0, true, true, false⟩ true]

theorem assertion_fails : ¬ (new : IOManager (Fin 1)).States Correct staleRead := by
  intro h
  have hend := ((((h.2 _ rfl).2 _ rfl).2 _ rfl).2 _ rfl).2 _ rfl
  exact absurd hend.asserted (by decide)

end IOManager

end Core
