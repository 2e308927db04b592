import ZeroFrameworks.Core.IoFlags
import ZeroFrameworks.Core.TimerRuns
import ZeroFrameworks.Kv.Bytes

/-!
# The idle loop and its deadlines

A worker with nothing to run waits in `epoll_wait` until the earliest deadline of a timer or of an I/O waiter, but
for three seconds at most.  The earliest I/O deadline is cached.  Expired waiters are looked for when `epoll_wait`
gives nothing.

    every round Heeded → every round Honoured   (idle_honours)
-/

namespace Core

namespace IOManager

/-! ## Algorithm -/

variable {n : Nat}

/-- One of the two deadlines of a context, in the loop of `refreshNextIoExpire`. -/
def earlier (next expireAt : Nat) : Nat :=
  if expireAt ≠ 0 ∧ (next = noExpire ∨ expireAt < next) then expireAt else next

/-- The contexts are those of `m_fdContexts`, in their order. -/
def refreshNextIoExpire (s : IOManager (Fin n)) : IOManager (Fin n) :=
  { s with
    nextIoExpire := (List.finRange n).foldl
      (fun next c => earlier (earlier next (s.context (c, .read)).expireAt) (s.context (c, .write)).expireAt) noExpire
    ioExpireDirty := false }

def refreshed (s : IOManager (Fin n)) : IOManager (Fin n) := if s.ioExpireDirty then s.refreshNextIoExpire else s

def getNextIoExpire (now : Nat) (s : IOManager (Fin n)) : Nat × IOManager (Fin n) :=
  let s := s.refreshed
  (if s.nextIoExpire = noExpire then noExpire else s.nextIoExpire - now, s)

/-- What `checkIoExpired` collects. -/
def expiredItems (now : Nat) (s : IOManager (Fin n)) : List ((Fin n × IoEvent) × Option Nat) :=
  ((List.finRange n).flatMap fun c => [(c, IoEvent.read), (c, IoEvent.write)]).filterMap fun k =>
    if s.events k ∧ (s.context k).expireAt ≠ 0 ∧ (s.context k).expireAt ≤ now then some (k, (s.context k).cancelFlag)
    else none

/-- `ctl`: the `epoll_ctl` of the cancelling succeeds. -/
def checkIoExpired (now : Nat) (ctl : Fin n × IoEvent → Bool) (s : IOManager (Fin n)) : IOManager (Fin n) :=
  let s := s.refreshed
  if s.nextIoExpire = noExpire ∨ now < s.nextIoExpire then s
  else (s.expiredItems now).foldl
    (fun s item => (Waits.writeFlag item.2 etimedout s).cancelEvent item.1 (ctl item.1)) s

end IOManager

/-- The times at which the timers of the set are due, in its order. -/
structure TimerSet where
  next : List Nat
  sorted : next.Pairwise (· ≤ ·)
  bound : ∀ t ∈ next, t < 2 ^ 64

namespace TimerSet

def getNextTimer (now : Nat) (s : TimerSet) : Nat :=
  match s.next with
  | [] => 2 ^ 64 - 1
  | first :: _ => first - now

end TimerSet

/-- A turn of the loop of `idle`.  `interrupts` are the times at which `epoll_wait` was interrupted and is called
again.  It returns at time `returned`, with the pipe if `tickled`, and with results, which are handled with
`epoll_ctl` succeeding or not. -/
structure IdleRound (n : Nat) where
  now : Nat
  stopping : Bool
  interrupts : List Nat
  returned : Nat
  tickled : Bool
  results : List (EpollResult (Fin n) × Bool)
  checked : Nat
  ctl : Fin n × IoEvent → Bool

structure IdleWorker (n : Nat) where
  iom : IOManager (Fin n)
  timers : TimerSet

/-- Between the turns of `idle` the worker runs fibers. -/
inductive IdleOp (n : Nat) where
  | addEvent (k : Fin n × IoEvent) (now : Nat) (timeout : Option Nat) (cancelFlag : Option Nat) (ok : Bool)
  | delEvent (k : Fin n × IoEvent) (ok : Bool)
  | cancelEvent (k : Fin n × IoEvent) (ok : Bool)
  | cancelAll (c : Fin n) (ok : Bool)
  | setTimers (timers : TimerSet)
  | round (r : IdleRound n)

namespace IdleWorker

variable {n : Nat}

def new : IdleWorker n := ⟨.new, ⟨[], .nil, fun _ h => by cases h⟩⟩

/-- What `stopping(timeout)` leaves in `timeout`. -/
def nextTimeout (now : Nat) (s : IdleWorker n) : Nat :=
  let timeout := s.timers.getNextTimer now
  let io := (s.iom.getNextIoExpire now).1
  if timeout = 2 ^ 64 - 1 then io
  else if io ≠ 2 ^ 64 - 1 then min timeout io
  else timeout

/-- The comparison is made on an `int`, and so is the call of `epoll_wait`. -/
def epollTimeout (timeout : Nat) : Int :=
  Kv.i32 (if timeout ≠ 2 ^ 64 - 1 then (if 3000 < Kv.i32 timeout then 3000 else timeout) else 3000)

/-- The results are of distinct descriptors, and of events that are registered. -/
def possible (s : IdleWorker n) (r : IdleRound n) : Bool :=
  decide ((r.now :: r.interrupts ++ [r.returned, r.checked]).Pairwise (· ≤ ·)) &&
    decide (r.results.Pairwise fun a b => a.1.ctx ≠ b.1.ctx) && r.results.all fun res => s.iom.fetchable res.1

/-- The turn, up to the yield; `none` when `idle` ends. -/
def round (r : IdleRound n) (s : IdleWorker n) : Option (IdleWorker n) :=
  if s.nextTimeout r.now = 2 ^ 64 - 1 ∧ s.iom.pendingEventCount = 0 ∧ r.stopping = true then none
  else
    let iom := (s.iom.getNextIoExpire r.now).2
    let iom := r.results.foldl (fun iom res => iom.handle res.1 res.2) iom
    some { s with iom := if r.results.isEmpty ∧ r.tickled = false then iom.checkIoExpired r.checked r.ctl else iom }

def step (s : IdleWorker n) : IdleOp n → Option (IdleWorker n)
  | .addEvent k now timeout cancelFlag ok =>
    (s.iom.addEvent k now timeout cancelFlag ok).map fun iom => { s with iom := iom }
  | .delEvent k ok => some { s with iom := s.iom.delEvent k ok }
  | .cancelEvent k ok => some { s with iom := s.iom.cancelEvent k ok }
  | .cancelAll c ok => some { s with iom := s.iom.cancelAll c ok }
  | .setTimers timers => some { s with timers := timers }
  | .round r => if s.possible r then s.round r else none

/-! ## Specification -/

/-- An event is registered with a deadline. -/
def Waits (s : IdleWorker n) (k : Fin n × IoEvent) : Prop :=
  s.iom.events k = true ∧ (s.iom.context k).expireAt ≠ 0

def Deadline (s : IdleWorker n) (d : Nat) : Prop :=
  d ∈ s.timers.next ∨ ∃ k, s.Waits k ∧ (s.iom.context k).expireAt = d

/-- The cache is not later than a deadline. -/
def Cached (s : IdleWorker n) : Prop :=
  s.iom.ioExpireDirty = false → ∀ k, s.Waits k → s.iom.nextIoExpire ≤ (s.iom.context k).expireAt

/-- The timeouts that the turn gives to `epoll_wait`, and who still waits at its end. -/
structure Prompt (s : IdleWorker n) (r : IdleRound n) (s' : IdleWorker n) : Prop where
  timeout : ∀ t ∈ r.now :: r.interrupts, 0 ≤ epollTimeout (s.nextTimeout r.now) ∧
    epollTimeout (s.nextTimeout r.now) ≤ 3000 ∧ ∀ d, s.Deadline d → epollTimeout (s.nextTimeout r.now) ≤ ((d - t : Nat) : Int)
  expired : ∀ k, s'.Waits k → r.returned < (s'.iom.context k).expireAt

def Honoured (s : IdleWorker n) (op : IdleOp n) (s' : IdleWorker n) : Prop :=
  s'.Cached ∧ match op with
    | .round r => s.Prompt r s'
    | _ => True

/-- The result is handled and stands for the event. -/
def Delivers (s : IdleWorker n) (r : IdleRound n) (k : Fin n × IoEvent) : Prop :=
  ∃ res ∈ r.results, res.2 = true ∧ res.1.ctx = k.1 ∧ s.iom.realEvents res.1 k.2 = true

/-- `signed`: the time to the earliest deadline is not negative as an `int`.  `uninterrupted`: a wait that is
interrupted is not given too long a timeout again.  `marked`: no deadline is the value that stands for none.
`checked`: a turn that delivers anything delivers every event that is late, and one that delivers nothing can cancel
them. -/
structure Heeded (s : IdleWorker n) (r : IdleRound n) : Prop where
  signed : ∀ d, s.Deadline d → (∀ d', s.Deadline d' → d ≤ d') → d - r.now = 2 ^ 64 - 1 ∨ (d - r.now) % 2 ^ 32 < 2 ^ 31
  uninterrupted : ∀ t ∈ r.interrupts, ∀ d, s.Deadline d → t = r.now ∨ d ≤ r.now ∨ t + 3000 ≤ d
  marked : ∀ k, s.Waits k → (s.iom.context k).expireAt = IOManager.noExpire →
    r.now + 3000 ≤ IOManager.noExpire ∧ r.returned < IOManager.noExpire
  checked : ∀ k, s.Waits k → (s.iom.context k).expireAt ≤ r.returned →
    if r.results.isEmpty ∧ r.tickled = false then r.ctl k = true else s.Delivers r k

def Minds (s : IdleWorker n) (op : IdleOp n) (_ : IdleWorker n) : Prop :=
  match op with
  | .round r => s.Heeded r
  | _ => True

/-- `P` holds of every step that a run takes. -/
def Along (P : IdleWorker n → IdleOp n → IdleWorker n → Prop) (s : IdleWorker n) : List (IdleOp n) → Prop
  | [] => True
  | op :: ops => ∀ s' ∈ s.step op, P s op s' ∧ s'.Along P ops

end IdleWorker

/-! ## Lemmas -/

namespace IOManager

section

variable {C : Type} [DecidableEq C] {s s' s'' : IOManager C} {k : C × IoEvent} {off off' : C × IoEvent → Prop}

/-- The events of `off` are over, and the others are as they were. -/
structure Ends (off : C × IoEvent → Prop) (s s' : IOManager C) : Prop where
  gone : ∀ k, off k → s'.events k = false ∧ s'.context k = ⟨none, 0, none⟩
  same : ∀ k, ¬ off k → s'.events k = s.events k ∧ s'.context k = s.context k
  next : s'.nextIoExpire = s.nextIoExpire
  clean : s'.ioExpireDirty = false → s.ioExpireDirty = false ∧
    ∀ k, off k → (s.context k).expireAt ≠ 0 → s.nextIoExpire ≠ (s.context k).expireAt
  aborted : s'.aborted = s.aborted

omit [DecidableEq C] in
theorem Ends.refl (s : IOManager C) : Ends (fun _ => False) s s :=
  ⟨fun _ h => h.elim, fun _ _ => ⟨rfl, rfl⟩, rfl, fun h => ⟨h, fun _ h => h.elim⟩, rfl⟩

omit [DecidableEq C] in
theorem Ends.trans (h : Ends off s s') (h' : Ends off' s' s'') : Ends (fun k => off k ∨ off' k) s s'' := by
  refine ⟨fun k hk => ?_, fun k hk => ?_, h'.next.trans h.next, fun hclean => ?_, h'.aborted.trans h.aborted⟩
  · by_cases hoff' : off' k
    · exact h'.gone k hoff'
    · obtain ⟨h1, h2⟩ := h'.same k hoff'
      obtain ⟨h3, h4⟩ := h.gone k (hk.resolve_right hoff')
      exact ⟨h1.trans h3, h2.trans h4⟩
  · obtain ⟨hoff, hoff'⟩ := not_or.mp hk
    obtain ⟨h1, h2⟩ := h'.same k hoff'
    obtain ⟨h3, h4⟩ := h.same k hoff
    exact ⟨h1.trans h3, h2.trans h4⟩
  · obtain ⟨hclean', hother'⟩ := h'.clean hclean
    obtain ⟨hclean'', hother⟩ := h.clean hclean'
    refine ⟨hclean'', fun k hk hne => ?_⟩
    by_cases hoff : off k
    · exact hother k hoff hne
    · have hctx := (h.same k hoff).2
      rw [← h.next, ← hctx]
      exact hother' k (hk.resolve_left hoff) (by rw [hctx]; exact hne)

omit [DecidableEq C] in
theorem Ends.congr (h : Ends off s s') (hoff : ∀ k, off k ↔ off' k) : Ends off' s s' := by
  obtain rfl : off = off' := funext fun k => propext (hoff k)
  exact h

theorem Ends.one (hevents : s'.events = Function.update s.events k false)
    (hcontext : s'.context = Function.update s.context k ⟨none, 0, none⟩) (hnext : s'.nextIoExpire = s.nextIoExpire)
    (hdirty : s'.ioExpireDirty =
      (s.ioExpireDirty || decide ((s.context k).expireAt ≠ 0 ∧ s.nextIoExpire = (s.context k).expireAt)))
    (haborted : s'.aborted = s.aborted) : Ends (· = k) s s' := by
  refine ⟨?_, fun k' hne => ?_, hnext, fun hclean => ?_, haborted⟩
  · rintro k' rfl
    rw [hevents, hcontext]
    exact ⟨Function.update_self .., Function.update_self ..⟩
  · rw [hevents, hcontext]
    exact ⟨Function.update_of_ne hne _ _, Function.update_of_ne hne _ _⟩
  · rw [hdirty] at hclean
    obtain ⟨hdirty, hother⟩ := Bool.or_eq_false_iff.mp hclean
    refine ⟨hdirty, ?_⟩
    rintro k' rfl hne heq
    exact of_decide_eq_false hother ⟨hne, heq⟩

theorem ends_finish (hk : s.events k = true) (hab : s.aborted = false) (cancelled : Bool) :
    Ends (· = k) s (s.finish cancelled k) := by
  obtain ⟨pending, hfin⟩ := Waits.finish_frame hk hab cancelled
  rw [hfin]
  exact .one rfl rfl rfl rfl rfl

theorem ends_cancelEvent (hab : s.aborted = false) (ok : Bool) :
    Ends (fun k' => k' = k ∧ s.events k = true ∧ ok = true) s (s.cancelEvent k ok) := by
  unfold IOManager.cancelEvent
  split
  next h =>
    obtain ⟨hk, hok⟩ := Bool.and_eq_true_iff.mp h
    exact (ends_finish hk hab true).congr fun k' => ⟨fun he => ⟨he, hk, hok⟩, fun he => he.1⟩
  next h =>
    refine (Ends.refl s).congr fun k' => ⟨fun he => he.elim, fun he => h ?_⟩
    rw [he.2.1, he.2.2]
    rfl

theorem ends_delEvent (ok : Bool) : ∃ off, Ends off s (s.delEvent k ok) := by
  unfold IOManager.delEvent
  split
  next h =>
    refine ⟨(· = k), ?_⟩
    rw [IOManager.onIoWaitRemoved_frame]
    exact .one rfl rfl rfl rfl rfl
  next => exact ⟨_, Ends.refl s⟩

theorem ends_cancelAll (hab : s.aborted = false) (c : C) (ok : Bool) : ∃ off, Ends off s (s.cancelAll c ok) := by
  have hone : ∀ (s : IOManager C) k, s.aborted = false →
      ∃ off, Ends off s (if s.events k = true then s.finish true k else s) := by
    intro s k hab
    split
    next hk => exact ⟨_, ends_finish hk hab true⟩
    next => exact ⟨_, Ends.refl s⟩
  unfold IOManager.cancelAll
  split
  · obtain ⟨off, h⟩ := hone s (c, .read) hab
    obtain ⟨off', h'⟩ := hone _ (c, .write) (h.aborted.trans hab)
    exact ⟨_, h.trans h'⟩
  · exact ⟨_, Ends.refl s⟩

omit [DecidableEq C] in
theorem registered_of_real {r : EpollResult C} (hr : s.fetchable r = true) {e : IoEvent}
    (he : s.realEvents r e = true) : s.events (r.ctx, e) = true := by
  simp only [fetchable, Bool.and_eq_true, Bool.or_eq_true, Bool.not_eq_true'] at hr
  cases e with
  | read =>
    rcases Bool.or_eq_true_iff.mp he with hin | herr
    · exact hr.1.1.resolve_left (by rw [hin]; simp)
    · exact (Bool.and_eq_true_iff.mp herr).2
  | write =>
    rcases Bool.or_eq_true_iff.mp he with hout | herr
    · exact hr.1.2.resolve_left (by rw [hout]; simp)
    · exact (Bool.and_eq_true_iff.mp herr).2

/-- A result that names registered events is delivered to them. -/
theorem ends_handle (hab : s.aborted = false) {r : EpollResult C} (hr : s.fetchable r = true) (ok : Bool) :
    Ends (fun k => ok = true ∧ r.ctx = k.1 ∧ s.realEvents r k.2 = true) s (s.handle r ok) := by
  unfold IOManager.handle
  dsimp only
  by_cases hread : s.realEvents r .read = true
  · have hr' := registered_of_real hr hread
    have hends := ends_finish hr' hab false
    have hab' : (s.finish false (r.ctx, .read)).aborted = false := hends.aborted.trans hab
    rw [if_pos (by rw [hread, hr']; rfl), if_pos hread]
    cases ok with
    | false => exact (Ends.refl s).congr fun k => by simp
    | true =>
      rw [if_pos rfl, if_neg (by rw [hab']; simp)]
      by_cases hwrite : s.realEvents r .write = true
      · have hw : (s.finish false (r.ctx, .read)).events (r.ctx, .write) = true :=
          (hends.same _ (by simp)).1.trans (registered_of_real hr hwrite)
        rw [if_pos hwrite]
        refine (hends.trans (ends_finish hw hab' false)).congr fun k => ?_
        obtain ⟨c, e⟩ := k
        cases e with
        | read => simp [hread, eq_comm]
        | write => simp [hwrite, eq_comm]
      · rw [if_neg hwrite]
        refine hends.congr fun k => ?_
        obtain ⟨c, e⟩ := k
        cases e with
        | read => simp [hread, eq_comm]
        | write => simp [hwrite]
  · by_cases hwrite : s.realEvents r .write = true
    · have hw := registered_of_real hr hwrite
      rw [if_pos (by rw [hwrite, hw, Bool.and_self, Bool.or_true])]
      cases ok with
      | false => exact (Ends.refl s).congr fun k => by simp
      | true =>
        rw [if_pos rfl, if_neg hread, if_neg (by rw [hab]; simp), if_pos hwrite]
        refine (ends_finish hw hab false).congr fun k => ?_
        obtain ⟨c, e⟩ := k
        cases e with
        | read => simp [hread]
        | write => simp [hwrite, eq_comm]
    · rw [if_neg (by simp [hread, hwrite])]
      refine (Ends.refl s).congr fun k => ?_
      obtain ⟨c, e⟩ := k
      cases e with
      | read => simp [hread]
      | write => simp [hwrite]

theorem ends_results (results : List (EpollResult C × Bool)) (hab : s.aborted = false)
    (hdistinct : results.Pairwise fun a b => a.1.ctx ≠ b.1.ctx) (hfetch : ∀ res ∈ results, s.fetchable res.1 = true) :
    Ends (fun k => ∃ res ∈ results, res.2 = true ∧ res.1.ctx = k.1 ∧ s.realEvents res.1 k.2 = true) s
      (results.foldl (fun iom res => iom.handle res.1 res.2) s) := by
  induction results generalizing s with
  | nil => exact (Ends.refl s).congr fun k => by simp
  | cons res results ih =>
    rw [List.pairwise_cons] at hdistinct
    have hone := ends_handle hab (hfetch res List.mem_cons_self) res.2
    -- the other results are of other descriptors
    have hevents : ∀ res' ∈ results, ∀ e, (s.handle res.1 res.2).events (res'.1.ctx, e) = s.events (res'.1.ctx, e) := by
      intro res' hm e
      exact (hone.same _ fun hoff => hdistinct.1 res' hm hoff.2.1).1
    have hfetch' : ∀ res' ∈ results, (s.handle res.1 res.2).fetchable res'.1 = true := by
      intro res' hm
      have hold := hfetch res' (List.mem_cons_of_mem _ hm)
      unfold fetchable at hold ⊢
      rw [hevents res' hm, hevents res' hm]
      exact hold
    have hreal : ∀ res' ∈ results, ∀ e, (s.handle res.1 res.2).realEvents res'.1 e = s.realEvents res'.1 e := by
      intro res' hm e
      cases e with
      | read => rw [realEvents, realEvents, hevents res' hm]
      | write => rw [realEvents, realEvents, hevents res' hm]
    refine (hone.trans (ih (hone.aborted.trans hab) hdistinct.2 hfetch')).congr fun k => ?_
    constructor
    · rintro (h | ⟨res', hm, hok, hctx, he⟩)
      · exact ⟨res, List.mem_cons_self, h⟩
      · rw [hreal res' hm] at he
        exact ⟨res', List.mem_cons_of_mem _ hm, hok, hctx, he⟩
    · rintro ⟨res', hm, hok, hctx, he⟩
      rcases List.mem_cons.mp hm with rfl | hm
      · exact .inl ⟨hok, hctx, he⟩
      · rw [← hreal res' hm] at he
        exact .inr ⟨res', hm, hok, hctx, he⟩

end

/-! ### The cache -/

variable {n : Nat} {s s' : IOManager (Fin n)} {k : Fin n × IoEvent} {off : Fin n × IoEvent → Prop}

/-- The cache is not later than any deadline, and is one of them unless it is dirty. -/
structure Accounted (s : IOManager (Fin n)) : Prop where
  asserted : s.aborted = false
  registered : ∀ k, (s.context k).expireAt ≠ 0 → s.events k = true
  bound : ∀ k, (s.context k).expireAt < 2 ^ 64
  lower : ∀ k, (s.context k).expireAt ≠ 0 → s.nextIoExpire ≤ (s.context k).expireAt
  exact : s.ioExpireDirty = false →
    s.nextIoExpire = noExpire ∨ ∃ k, (s.context k).expireAt ≠ 0 ∧ (s.context k).expireAt = s.nextIoExpire

theorem accounted_new : (new : IOManager (Fin n)).Accounted :=
  ⟨rfl, fun _ h => absurd rfl h, fun _ => Nat.two_pow_pos 64, fun _ h => absurd rfl h, fun _ => .inl rfl⟩

theorem Accounted.ends (h : s.Accounted) (he : Ends off s s') : s'.Accounted := by
  have hcontext : ∀ k, (s'.context k).expireAt ≠ 0 → ¬ off k ∧ s'.context k = s.context k := by
    intro k hne
    by_cases hoff : off k
    · rw [(he.gone k hoff).2] at hne
      exact absurd rfl hne
    · exact ⟨hoff, (he.same k hoff).2⟩
  refine ⟨he.aborted.trans h.asserted, fun k hne => ?_, fun k => ?_, fun k hne => ?_, fun hclean => ?_⟩
  · obtain ⟨hoff, hctx⟩ := hcontext k hne
    rw [hctx] at hne
    rw [(he.same k hoff).1]
    exact h.registered k hne
  · by_cases hne : (s'.context k).expireAt = 0
    · rw [hne]
      decide
    · rw [(hcontext k hne).2]
      exact h.bound k
  · obtain ⟨-, hctx⟩ := hcontext k hne
    rw [hctx] at hne ⊢
    rw [he.next]
    exact h.lower k hne
  · obtain ⟨hclean', hother⟩ := he.clean hclean
    rw [he.next]
    refine (h.exact hclean').imp id ?_
    rintro ⟨k, hne, heq⟩
    have hoff : ¬ off k := fun hoff => hother k hoff hne heq.symm
    refine ⟨k, ?_, ?_⟩
    · rw [(he.same k hoff).2]
      exact hne
    · rw [(he.same k hoff).2]
      exact heq

/-- A new waiter, before the cache knows of it. -/
theorem Accounted.addEvent (h : s.Accounted) {now : Nat} {timeout flag : Option Nat} {ok : Bool}
    (hadd : s.addEvent k now timeout flag ok = some s') : s'.Accounted := by
  rcases Waits.addEvent_frame hadd with rfl | ⟨hk, expireAt, hexpire, rfl⟩
  · exact h
  have hlt : expireAt < 2 ^ 64 := by
    rw [hexpire]
    cases timeout with
    | none => exact Nat.two_pow_pos 64
    | some ms => exact Nat.mod_lt _ (Nat.two_pow_pos 64)
  have hzero : (s.context k).expireAt = 0 := by
    by_contra hne
    have hon := h.registered k hne
    rw [hk] at hon
    cases hon
  generalize hctx : (⟨some s.count, expireAt, if expireAt = 0 then none else flag⟩ : EventContext) = ctx
  have hctx' : ctx.expireAt = expireAt := by rw [← hctx]
  have hself : (Function.update s.context k ctx k).expireAt = expireAt := by rw [Function.update_self, hctx']
  have hother : ∀ k' ≠ k, Function.update s.context k ctx k' = s.context k' := fun k' hne => Function.update_of_ne hne _ _
  have hreg : ∀ k', (Function.update s.context k ctx k').expireAt ≠ 0 → Function.update s.events k true k' = true := by
    intro k' hne
    by_cases hk' : k' = k
    · rw [hk', Function.update_self]
    · rw [hother k' hk'] at hne
      rw [Function.update_of_ne hk']
      exact h.registered k' hne
  have hbound : ∀ k', (Function.update s.context k ctx k').expireAt < 2 ^ 64 := by
    intro k'
    by_cases hk' : k' = k
    · rw [hk', hself]
      exact hlt
    · rw [hother k' hk']
      exact h.bound k'
  -- the waiter that the cache is about is not the new one
  have hexact : s.ioExpireDirty = false → s.nextIoExpire = noExpire ∨
      ∃ k', (Function.update s.context k ctx k').expireAt ≠ 0 ∧
        (Function.update s.context k ctx k').expireAt = s.nextIoExpire := by
    intro hclean
    refine (h.exact hclean).imp id ?_
    rintro ⟨k', hne, heq⟩
    have hk' : k' ≠ k := fun hk' => hne (hk' ▸ hzero)
    refine ⟨k', ?_, ?_⟩
    · rw [hother k' hk']
      exact hne
    · rw [hother k' hk']
      exact heq
  have hlower : ∀ next, (expireAt ≠ 0 → next ≤ expireAt) →
      (∀ k', (s.context k').expireAt ≠ 0 → next ≤ (s.context k').expireAt) →
      ∀ k', (Function.update s.context k ctx k').expireAt ≠ 0 → next ≤ (Function.update s.context k ctx k').expireAt := by
    intro next hnew hold k' hne
    by_cases hk' : k' = k
    · rw [hk', hself] at hne ⊢
      exact hnew hne
    · rw [hother k' hk'] at hne ⊢
      exact hold k' hne
  unfold onIoWaitAdded
  split
  next he => exact ⟨h.asserted, hreg, hbound, hlower _ (fun hne => absurd he hne) h.lower, hexact⟩
  next he =>
    split
    next hearly =>
      refine ⟨h.asserted, hreg, hbound, hlower _ (fun _ => Nat.le_refl _) fun k' hne => ?_, fun _ => .inr ⟨k, ?_, hself⟩⟩
      · have hle := h.lower k' hne
        show expireAt ≤ _
        rcases hearly with hno | hlt'
        · have hno' : s.nextIoExpire = 2 ^ 64 - 1 := hno
          omega
        · have hlt'' : expireAt < s.nextIoExpire := hlt'
          omega
      · show (Function.update s.context k ctx k).expireAt ≠ 0
        rw [hself]
        exact he
    next hlate =>
      exact ⟨h.asserted, hreg, hbound, hlower _ (fun _ => Nat.le_of_not_lt fun hlt' => hlate (.inr hlt')) h.lower, hexact⟩

/-! ### Refreshing -/

theorem earlier_spec {next expireAt : Nat} (hn : next < 2 ^ 64) (he : expireAt < 2 ^ 64) :
    earlier next expireAt ≤ next ∧ (expireAt ≠ 0 → earlier next expireAt ≤ expireAt) ∧
      (earlier next expireAt = next ∨ expireAt ≠ 0 ∧ expireAt = earlier next expireAt) := by
  unfold earlier noExpire
  split
  next h => omega
  next h => omega

/-- What the loop finds is not later than what it has seen, and is one of it. -/
theorem foldl_earlier (hb : ∀ k, (s.context k).expireAt < 2 ^ 64) (cs : List (Fin n)) {next : Nat} (hn : next < 2 ^ 64) :
    let found := cs.foldl (fun next c => earlier (earlier next (s.context (c, .read)).expireAt)
      (s.context (c, .write)).expireAt) next
    found ≤ next ∧ (∀ c ∈ cs, ∀ e, (s.context (c, e)).expireAt ≠ 0 → found ≤ (s.context (c, e)).expireAt) ∧
      (found = next ∨ ∃ k, (s.context k).expireAt ≠ 0 ∧ (s.context k).expireAt = found) := by
  induction cs generalizing next with
  | nil =>
    refine ⟨Nat.le_refl _, ?_, .inl rfl⟩
    intro c hc
    cases hc
  | cons c cs ih =>
    obtain ⟨h1, h2, h3⟩ := earlier_spec hn (hb (c, .read))
    have hn' : earlier next (s.context (c, .read)).expireAt < 2 ^ 64 := Nat.lt_of_le_of_lt h1 hn
    obtain ⟨h4, h5, h6⟩ := earlier_spec hn' (hb (c, .write))
    obtain ⟨h7, h8, h9⟩ := ih (Nat.lt_of_le_of_lt h4 hn')
    rw [List.foldl_cons]
    refine ⟨Nat.le_trans h7 (Nat.le_trans h4 h1), ?_, ?_⟩
    · intro c' hc' e hne
      rcases List.mem_cons.mp hc' with rfl | hc'
      · cases e with
        | read => exact Nat.le_trans h7 (Nat.le_trans h4 (h2 hne))
        | write => exact Nat.le_trans h7 (h5 hne)
      · exact h8 c' hc' e hne
    · rcases h9 with h9 | h9
      · rw [h9]
        rcases h6 with h6 | ⟨hne, h6⟩
        · rw [h6]
          exact h3.imp id fun h => ⟨_, h.1, h.2⟩
        · exact .inr ⟨_, hne, h6⟩
      · exact .inr h9

theorem accounted_refresh (h : s.Accounted) : s.refreshNextIoExpire.Accounted := by
  have hno : noExpire < 2 ^ 64 := by decide
  obtain ⟨-, h2, h3⟩ := foldl_earlier h.bound (List.finRange n) hno
  exact ⟨h.asserted, h.registered, h.bound, fun k hne => h2 k.1 (List.mem_finRange _) k.2 hne, fun _ => h3⟩

theorem accounted_refreshed (h : s.Accounted) : s.refreshed.Accounted ∧ s.refreshed.ioExpireDirty = false ∧
    s.refreshed.events = s.events ∧ s.refreshed.context = s.context := by
  unfold refreshed
  split
  · exact ⟨accounted_refresh h, rfl, rfl, rfl⟩
  next hclean => exact ⟨h, Bool.not_eq_true _ ▸ hclean, rfl, rfl⟩

/-! ### Expiry -/

theorem ends_writeFlag (s : IOManager (Fin n)) (flag : Option Nat) (value : Nat) :
    Ends (fun _ => False) s (Waits.writeFlag flag value s) := by
  cases flag with
  | none => exact Ends.refl s
  | some a => exact ⟨fun _ h => h.elim, fun _ _ => ⟨rfl, rfl⟩, rfl, fun h => ⟨h, fun _ h => h.elim⟩, rfl⟩

theorem ends_expired (ctl : Fin n × IoEvent → Bool) (items : List ((Fin n × IoEvent) × Option Nat))
    (hab : s.aborted = false) :
    ∃ off, Ends off s (items.foldl (fun s item => (Waits.writeFlag item.2 etimedout s).cancelEvent item.1 (ctl item.1)) s) ∧
      ∀ item ∈ items, s.events item.1 = true → ctl item.1 = true → off item.1 := by
  induction items generalizing s with
  | nil => exact ⟨_, Ends.refl s, fun item hi => by cases hi⟩
  | cons item items ih =>
    have hflag := ends_writeFlag s item.2 etimedout
    have hone := hflag.trans (ends_cancelEvent (k := item.1) (hflag.aborted.trans hab) (ctl item.1))
    obtain ⟨off, hrest, hall⟩ := ih (hone.aborted.trans hab)
    refine ⟨_, hone.trans hrest, fun item' hi hon hctl => ?_⟩
    by_cases heq : item'.1 = item.1
    · refine .inl (.inr ⟨heq, ?_, ?_⟩)
      · rw [(hflag.same _ id).1, ← heq]
        exact hon
      · rw [← heq]
        exact hctl
    · refine .inr (hall item' ?_ ?_ hctl)
      · rcases List.mem_cons.mp hi with rfl | hi
        · exact absurd rfl heq
        · exact hi
      · rw [(hone.same item'.1 fun hoff => heq (hoff.resolve_left id).1).1]
        exact hon

theorem mem_expiredItems {now : Nat} (hk : s.events k = true) (hne : (s.context k).expireAt ≠ 0)
    (hle : (s.context k).expireAt ≤ now) : (k, (s.context k).cancelFlag) ∈ s.expiredItems now := by
  unfold expiredItems
  rw [List.mem_filterMap]
  refine ⟨k, ?_, if_pos ⟨hk, hne, hle⟩⟩
  rw [List.mem_flatMap]
  obtain ⟨c, e⟩ := k
  refine ⟨c, List.mem_finRange c, ?_⟩
  cases e with
  | read => exact List.mem_cons_self
  | write => exact List.mem_cons_of_mem _ List.mem_cons_self

/-- Who is late and can be cancelled is cancelled. -/
theorem checkIoExpired_spec (h : s.Accounted) (now : Nat) (ctl : Fin n × IoEvent → Bool) :
    ∃ off, Ends off s.refreshed (s.checkIoExpired now ctl) ∧ ∀ k, s.events k = true → (s.context k).expireAt ≠ 0 →
      (s.context k).expireAt ≤ now → (s.context k).expireAt ≠ noExpire → ctl k = true → off k := by
  obtain ⟨hacc, -, hevents, hcontext⟩ := accounted_refreshed h
  unfold checkIoExpired
  dsimp only
  split
  next hearly =>
    refine ⟨_, Ends.refl _, fun k hk hne hle hno hctl => ?_⟩
    have hlow := hacc.lower k (by rw [hcontext]; exact hne)
    have hbound := h.bound k
    rw [hcontext] at hlow
    unfold noExpire at hearly hno
    omega
  next hlate =>
    obtain ⟨off, hends, hall⟩ := ends_expired ctl (s.refreshed.expiredItems now) hacc.asserted
    refine ⟨off, hends, fun k hk hne hle hno hctl => ?_⟩
    rw [← hcontext] at hne hle
    rw [← hevents] at hk
    exact hall _ (mem_expiredItems hk hne hle) hk hctl

end IOManager

namespace IdleWorker

variable {n : Nat} {s s' : IdleWorker n} {r : IdleRound n}

/-! ### The timers -/

/-- The times of a timer manager, in the order of its set. -/
def timersOf {C : Type} {m : TimerManager C} {a : Agenda C} {pending : List Nat} (h : Holds m a pending) : TimerSet where
  next := m.timers.map m.nextOf
  sorted := by
    rw [List.pairwise_map]
    have hlive : ∀ id ∈ m.timers, ∃ t, m.timer id = some t := by
      intro id hid
      obtain ⟨e, he⟩ := Option.ne_none_iff_exists'.mp ((h.members id).mp hid).1
      obtain ⟨⟨t, ht, -⟩, -⟩ := h.active id e he
      exact ⟨t, ht⟩
    refine List.Pairwise.imp_of_mem ?_ h.sorted
    intro x y hx hy hxy
    obtain ⟨tx, htx⟩ := hlive x hx
    obtain ⟨ty, hty⟩ := hlive y hy
    rw [key_eq m htx, key_eq m hty, Prod.Lex.toLex_lt_toLex] at hxy
    obtain hlt | ⟨heq, -⟩ := hxy
    · exact Nat.le_of_lt hlt
    · exact Nat.le_of_eq heq
  bound := by
    intro t ht
    obtain ⟨id, hid, rfl⟩ := List.mem_map.mp ht
    obtain ⟨e, he⟩ := Option.ne_none_iff_exists'.mp ((h.members id).mp hid).1
    rw [h.nextOf_eq he]
    exact (h.active id e he).2.2

theorem getNextTimer_timersOf {C : Type} {m : TimerManager C} {a : Agenda C} {pending : List Nat}
    (h : Holds m a pending) (now : Nat) : (timersOf h).getNextTimer now = (m.getNextTimer now).1 := by
  unfold TimerSet.getNextTimer TimerManager.getNextTimer
  show (match m.timers.map m.nextOf with
    | [] => 2 ^ 64 - 1
    | first :: _ => first - now) = _
  cases m.timers with
  | nil => rfl
  | cons first rest => rfl

/-! ### The timeout -/

theorem getNextTimer_spec (timers : TimerSet) (now : Nat) :
    (timers.getNextTimer now = 2 ^ 64 - 1 ∧ ∀ d ∈ timers.next, d = 2 ^ 64 - 1 ∧ now = 0) ∨
      timers.getNextTimer now ≠ 2 ^ 64 - 1 ∧
        ∃ d ∈ timers.next, (∀ d' ∈ timers.next, d ≤ d') ∧ timers.getNextTimer now = d - now := by
  obtain ⟨next, sorted, bound⟩ := timers
  cases next with
  | nil => exact .inl ⟨rfl, fun d hd => by cases hd⟩
  | cons first rest =>
    have hmin : ∀ d' ∈ first :: rest, first ≤ d' := by
      intro d' hd'
      rcases List.mem_cons.mp hd' with rfl | hd'
      · exact Nat.le_refl _
      · exact (List.pairwise_cons.mp sorted).1 d' hd'
    by_cases hall : first - now = 2 ^ 64 - 1
    · refine .inl ⟨hall, fun d hd => ?_⟩
      have h1 := hmin d hd
      have h2 := bound d hd
      have h3 := bound first List.mem_cons_self
      omega
    · exact .inr ⟨hall, first, List.mem_cons_self, hmin, rfl⟩

/-- The refreshed cache is the earliest deadline of a waiter. -/
theorem getNextIoExpire_spec (h : s.iom.Accounted) (now : Nat) :
    ((s.iom.getNextIoExpire now).1 = 2 ^ 64 - 1 ∧ ∀ k, s.Waits k → (s.iom.context k).expireAt = 2 ^ 64 - 1) ∨
      (s.iom.getNextIoExpire now).1 ≠ 2 ^ 64 - 1 ∧ ∃ k, s.Waits k ∧
        (∀ k', s.Waits k' → (s.iom.context k).expireAt ≤ (s.iom.context k').expireAt) ∧
          (s.iom.getNextIoExpire now).1 = (s.iom.context k).expireAt - now := by
  obtain ⟨hacc, hclean, hevents, hcontext⟩ := IOManager.accounted_refreshed h
  unfold IOManager.getNextIoExpire
  dsimp only
  by_cases hno : s.iom.refreshed.nextIoExpire = IOManager.noExpire
  · rw [if_pos hno]
    refine .inl ⟨rfl, fun k hk => ?_⟩
    have hlow := hacc.lower k (by rw [hcontext]; exact hk.2)
    have hbound := h.bound k
    rw [hcontext, hno] at hlow
    unfold IOManager.noExpire at hlow
    omega
  · rw [if_neg hno]
    obtain ⟨k, hne, heq⟩ := (hacc.exact hclean).resolve_left hno
    have hon := hacc.registered k hne
    rw [hcontext] at hne heq
    rw [hevents] at hon
    have hbound := h.bound k
    refine .inr ⟨?_, k, ⟨hon, hne⟩, fun k' hk' => ?_, ?_⟩
    · rw [← heq] at hno ⊢
      unfold IOManager.noExpire at hno
      omega
    · have hlow := hacc.lower k' (by rw [hcontext]; exact hk'.2)
      rw [hcontext] at hlow
      rw [heq]
      exact hlow
    · rw [heq]

/-- The timeout is the time to the earliest deadline, if there is one that can be told from none. -/
theorem nextTimeout_spec (h : s.iom.Accounted) (now : Nat) :
    (s.nextTimeout now = 2 ^ 64 - 1 ∧ (∀ d ∈ s.timers.next, d = 2 ^ 64 - 1 ∧ now = 0) ∧
        ∀ k, s.Waits k → (s.iom.context k).expireAt = 2 ^ 64 - 1) ∨
      ∃ d, s.Deadline d ∧ (∀ d', s.Deadline d' → d ≤ d') ∧ s.nextTimeout now = d - now := by
  have hio : ∀ k, s.Waits k → (s.iom.context k).expireAt < 2 ^ 64 := fun k _ => h.bound k
  unfold nextTimeout
  dsimp only
  rcases getNextTimer_spec s.timers now with ⟨ht, htimers⟩ | ⟨ht, first, hfirst, htimers, hteq⟩
  · rw [if_pos ht]
    rcases getNextIoExpire_spec h now with ⟨hi, hwaits⟩ | ⟨hi, k, hk, hwaits, hieq⟩
    · exact .inl ⟨hi, htimers, hwaits⟩
    · refine .inr ⟨_, .inr ⟨k, hk, rfl⟩, ?_, hieq⟩
      rintro d' (hd' | ⟨k', hk', rfl⟩)
      · rw [(htimers d' hd').1]
        exact Nat.le_sub_one_of_lt (hio k hk)
      · exact hwaits k' hk'
  · rw [if_neg ht]
    rcases getNextIoExpire_spec h now with ⟨hi, hwaits⟩ | ⟨hi, k, hk, hwaits, hieq⟩
    · rw [if_neg (not_not.mpr hi)]
      refine .inr ⟨first, .inl hfirst, ?_, hteq⟩
      rintro d' (hd' | ⟨k', hk', rfl⟩)
      · exact htimers d' hd'
      · rw [hwaits k' hk']
        exact Nat.le_sub_one_of_lt (s.timers.bound first hfirst)
    · rw [if_pos hi, hteq, hieq]
      by_cases hle : first ≤ (s.iom.context k).expireAt
      · refine .inr ⟨first, .inl hfirst, ?_, by omega⟩
        rintro d' (hd' | ⟨k', hk', rfl⟩)
        · exact htimers d' hd'
        · exact Nat.le_trans hle (hwaits k' hk')
      · refine .inr ⟨_, .inr ⟨k, hk, rfl⟩, ?_, by omega⟩
        rintro d' (hd' | ⟨k', hk', rfl⟩)
        · have := htimers d' hd'
          omega
        · exact hwaits k' hk'

theorem i32_of_mod_lt {m : Nat} (h : m % 2 ^ 32 < 2 ^ 31) : Kv.i32 m = ((m % 2 ^ 32 : Nat) : Int) := by
  unfold Kv.i32
  rw [Int.bmod_def]
  omega

/-- A timeout that is not negative as an `int` is given as it is, up to three seconds. -/
theorem epollTimeout_spec {timeout : Nat} (h : timeout = 2 ^ 64 - 1 ∨ timeout % 2 ^ 32 < 2 ^ 31) :
    0 ≤ epollTimeout timeout ∧ epollTimeout timeout ≤ 3000 ∧ epollTimeout timeout ≤ timeout := by
  have h3000 : Kv.i32 3000 = 3000 := by decide
  unfold epollTimeout
  by_cases hnone : timeout = 2 ^ 64 - 1
  · rw [if_neg (not_not.mpr hnone), h3000]
    omega
  · have hint := i32_of_mod_lt (h.resolve_left hnone)
    rw [if_pos hnone]
    split
    next hbig =>
      rw [h3000]
      omega
    next hsmall =>
      omega

/-! ### Steps and runs -/

theorem cached_of_accounted (h : s.iom.Accounted) : s.Cached := fun _ k hk => h.lower k hk.2

theorem fetchable_refreshed (h : s.iom.Accounted) (res : EpollResult (Fin n)) :
    s.iom.refreshed.fetchable res = s.iom.fetchable res ∧
      ∀ e, s.iom.refreshed.realEvents res e = s.iom.realEvents res e := by
  obtain ⟨-, -, hevents, -⟩ := IOManager.accounted_refreshed h
  refine ⟨by unfold IOManager.fetchable; rw [hevents], fun e => ?_⟩
  cases e with
  | read => rw [IOManager.realEvents, IOManager.realEvents, hevents]
  | write => rw [IOManager.realEvents, IOManager.realEvents, hevents]

theorem round_spec (h : s.iom.Accounted) (hposs : s.possible r = true) (hround : s.round r = some s') :
    s'.timers = s.timers ∧ ∃ off, IOManager.Ends off s.iom.refreshed s'.iom ∧
      if r.results.isEmpty ∧ r.tickled = false then
        ∀ k, s.Waits k → (s.iom.context k).expireAt ≤ r.checked → (s.iom.context k).expireAt ≠ IOManager.noExpire →
          r.ctl k = true → off k
      else ∀ k, s.Delivers r k → off k := by
  obtain ⟨-, hround⟩ := Option.ite_none_left_eq_some.mp hround
  obtain rfl := Option.some.inj hround
  refine ⟨rfl, ?_⟩
  obtain ⟨hacc, hclean, hevents, hcontext⟩ := IOManager.accounted_refreshed h
  have hresults : ∀ k, s.Delivers r k ↔ ∃ res ∈ r.results, res.2 = true ∧ res.1.ctx = k.1 ∧
      s.iom.refreshed.realEvents res.1 k.2 = true := by
    intro k
    simp only [(fetchable_refreshed h _).2]
    rfl
  simp only [possible, Bool.and_eq_true, decide_eq_true_eq, List.all_eq_true] at hposs
  obtain ⟨⟨-, hdistinct⟩, hfetch⟩ := hposs
  have hends := IOManager.ends_results r.results hacc.asserted hdistinct fun res hres => by
    rw [(fetchable_refreshed h res.1).1]
    exact hfetch res hres
  show ∃ off, IOManager.Ends off s.iom.refreshed (if r.results.isEmpty ∧ r.tickled = false then
      (r.results.foldl (fun iom res => iom.handle res.1 res.2) s.iom.refreshed).checkIoExpired r.checked r.ctl
    else r.results.foldl (fun iom res => iom.handle res.1 res.2) s.iom.refreshed) ∧ _
  by_cases hquiet : r.results.isEmpty ∧ r.tickled = false
  · simp only [if_pos hquiet]
    rw [List.isEmpty_iff.mp hquiet.1, List.foldl_nil]
    obtain ⟨off, hoff, hall⟩ := IOManager.checkIoExpired_spec hacc r.checked r.ctl
    have hsame : s.iom.refreshed.refreshed = s.iom.refreshed := by
      rw [IOManager.refreshed, hclean]
      rfl
    rw [hsame] at hoff
    refine ⟨off, hoff, fun k hk hle hno hctl => ?_⟩
    refine hall k ?_ ?_ ?_ ?_ hctl
    · rw [hevents]
      exact hk.1
    · rw [hcontext]
      exact hk.2
    · rw [hcontext]
      exact hle
    · rw [hcontext]
      exact hno
  · simp only [if_neg hquiet]
    exact ⟨_, hends, fun k hk => (hresults k).mp hk⟩

theorem accounted_step (h : s.iom.Accounted) {op : IdleOp n} (hstep : s.step op = some s') : s'.iom.Accounted := by
  cases op with
  | addEvent k now timeout cancelFlag ok =>
    obtain ⟨iom, hadd, rfl⟩ := Option.map_eq_some_iff.mp hstep
    exact h.addEvent hadd
  | delEvent k ok =>
    cases hstep
    obtain ⟨off, hoff⟩ := IOManager.ends_delEvent (s := s.iom) (k := k) ok
    exact h.ends hoff
  | cancelEvent k ok =>
    cases hstep
    exact h.ends (IOManager.ends_cancelEvent h.asserted ok)
  | cancelAll c ok =>
    cases hstep
    obtain ⟨off, hoff⟩ := IOManager.ends_cancelAll h.asserted c ok
    exact h.ends hoff
  | setTimers timers =>
    cases hstep
    exact h
  | round r =>
    obtain ⟨hposs, hround⟩ := Option.ite_none_right_eq_some.mp hstep
    obtain ⟨-, off, hoff, -⟩ := round_spec h hposs hround
    exact (IOManager.accounted_refreshed h).1.ends hoff

theorem timeout_of_heeded (h : s.iom.Accounted) (hheed : s.Heeded r) {t : Nat} (ht : t ∈ r.now :: r.interrupts) :
    0 ≤ epollTimeout (s.nextTimeout r.now) ∧ epollTimeout (s.nextTimeout r.now) ≤ 3000 ∧
      ∀ d, s.Deadline d → epollTimeout (s.nextTimeout r.now) ≤ ((d - t : Nat) : Int) := by
  have hlate : ∀ d, s.Deadline d → t = r.now ∨ d ≤ r.now ∨ t + 3000 ≤ d := by
    intro d hd
    rcases List.mem_cons.mp ht with rfl | ht
    · exact .inl rfl
    · exact hheed.uninterrupted t ht d hd
  rcases nextTimeout_spec h r.now with ⟨hnone, htimers, hwaits⟩ | ⟨d, hd, hmin, heq⟩
  · obtain ⟨h1, h2, h3⟩ := epollTimeout_spec (.inl hnone)
    refine ⟨h1, h2, fun d hd => ?_⟩
    have hlate' := hlate d hd
    have hfar : d = 2 ^ 64 - 1 ∧ r.now + 3000 ≤ d := by
      rcases hd with hd | ⟨k, hk, rfl⟩
      · have := htimers d hd
        omega
      · have hmark := (hheed.marked k hk (hwaits k hk)).1
        rw [hwaits k hk]
        exact ⟨rfl, hmark⟩
    omega
  · obtain ⟨h1, h2, h3⟩ := epollTimeout_spec (hheed.signed d hd hmin)
    rw [heq]
    refine ⟨h1, h2, fun d' hd' => ?_⟩
    have hle := hmin d' hd'
    have := hlate d' hd'
    omega

theorem honoured_of_minds (h : s.iom.Accounted) {op : IdleOp n} (hstep : s.step op = some s') (hminds : s.Minds op s') :
    s.Honoured op s' := by
  refine ⟨cached_of_accounted (accounted_step h hstep), ?_⟩
  cases op with
  | round r =>
    obtain ⟨hposs, hround⟩ := Option.ite_none_right_eq_some.mp hstep
    have hheed : s.Heeded r := hminds
    refine ⟨fun t ht => timeout_of_heeded h hheed ht, fun k hk => ?_⟩
    obtain ⟨-, off, hoff, hover⟩ := round_spec h hposs hround
    obtain ⟨-, -, hevents, hcontext⟩ := IOManager.accounted_refreshed h
    have hnot : ¬ off k := fun hk' => by
      have hon := hk.1
      rw [(hoff.gone k hk').1] at hon
      cases hon
    have hctx : s'.iom.context k = s.iom.context k := by rw [(hoff.same k hnot).2, hcontext]
    have hwaits : s.Waits k := by
      refine ⟨?_, ?_⟩
      · rw [← hevents, ← (hoff.same k hnot).1]
        exact hk.1
      · rw [← hctx]
        exact hk.2
    rw [hctx]
    by_contra hle
    have hle' : (s.iom.context k).expireAt ≤ r.returned := Nat.le_of_not_lt hle
    have hcheck := hheed.checked k hwaits hle'
    by_cases hquiet : r.results.isEmpty ∧ r.tickled = false
    · rw [if_pos hquiet] at hcheck hover
      have hlater : r.returned ≤ r.checked := by
        simp only [possible, Bool.and_eq_true, decide_eq_true_eq] at hposs
        have hlast := (List.pairwise_append.mp hposs.1.1).2.1
        exact List.rel_of_pairwise_cons hlast List.mem_cons_self
      refine hnot (hover k hwaits (Nat.le_trans hle' hlater) (fun hno => ?_) hcheck)
      have := (hheed.marked k hwaits hno).2
      omega
    · rw [if_neg hquiet] at hcheck hover
      exact hnot (hover k hcheck)
  | _ => trivial

/-! ## Top theorem -/

theorem along_honoured (h : s.iom.Accounted) (ops : List (IdleOp n)) (hminds : s.Along Minds ops) : s.Along Honoured ops := by
  induction ops generalizing s with
  | nil => trivial
  | cons op ops ih =>
    intro s' hs
    obtain ⟨hop, hrest⟩ := hminds s' hs
    exact ⟨honoured_of_minds h hs hop, ih (accounted_step h hs) hrest⟩

theorem idle_honours (ops : List (IdleOp n)) (hminds : (new : IdleWorker n).Along Minds ops) :
    (new : IdleWorker n).Along Honoured ops := along_honoured IOManager.accounted_new ops hminds

/-- A waiter with nothing else in the way is woken by its deadline. -/
def quietTurn {n : Nat} (c : Fin n) : List (IdleOp n) :=
  [.addEvent (c, .read) 0 (some 10) none true, .round ⟨0, false, [], 10, false, [], 10, fun _ => true⟩]

/-- The same with the pipe. -/
def busyTurn {n : Nat} (c : Fin n) : List (IdleOp n) :=
  [.addEvent (c, .read) 0 (some 10) none true, .round ⟨0, false, [], 10, true, [], 10, fun _ => true⟩]

/-- A timer that is due in `2 ^ 31` milliseconds. -/
def farTimer : List (IdleOp 1) :=
  [.setTimers ⟨[2 ^ 31], List.pairwise_singleton _ _, by decide⟩,
    .round ⟨0, false, [], 0, false, [], 0, fun _ => true⟩]

/-- A wait of three seconds that is interrupted after two, with a timer due by then. -/
def interruptedTurn : List (IdleOp 1) :=
  [.setTimers ⟨[3000], List.pairwise_singleton _ _, by decide⟩,
    .round ⟨0, false, [2000], 5000, false, [], 5000, fun _ => true⟩]

theorem idle_honours_quietTurn : (new : IdleWorker 1).Along Honoured (quietTurn 0) := by
  refine idle_honours (quietTurn 0) ?_
  intro s1 h₁
  obtain rfl := Option.some.inj h₁
  refine ⟨trivial, fun s2 h₂ => ⟨?_, trivial⟩⟩
  have hten : ∀ k, Waits ((new : IdleWorker 1).step (.addEvent (0, .read) 0 (some 10) none true) |>.get rfl) k →
      k = (0, .read) := by
    rintro ⟨c, e⟩ hk
    obtain rfl : c = 0 := Subsingleton.elim _ _
    cases e with
    | read => rfl
    | write => cases hk.1
  have hdue : ∀ d, Deadline ((new : IdleWorker 1).step (.addEvent (0, .read) 0 (some 10) none true) |>.get rfl) d →
      d = 10 := by
    rintro d (hd | ⟨k, hk, rfl⟩)
    · cases hd
    · rw [hten k hk]
      rfl
  refine ⟨fun d hd _ => ?_, fun t ht => (by cases ht), fun k hk hmark => ?_, fun k hk _ => ?_⟩
  · rw [hdue d hd]
    exact .inr (by decide)
  · have := hdue _ (.inr ⟨k, hk, rfl⟩)
    exact absurd (this.symm.trans hmark) (by decide)
  · rfl

/-- The timeout is negative, or is given again in full, and a late waiter is left registered by a wake-up. -/
theorem deadline_missed : ¬ (new : IdleWorker 1).Along Honoured farTimer ∧
    ¬ (new : IdleWorker 1).Along Honoured (busyTurn 0) ∧ ¬ (new : IdleWorker 1).Along Honoured interruptedTurn := by
  refine ⟨fun h => ?_, fun h => ?_, fun h => ?_⟩
  · have hprompt := ((h _ rfl).2 _ rfl).1.2
    have hneg := (hprompt.timeout 0 List.mem_cons_self).1
    revert hneg
    decide
  · have hprompt := ((h _ rfl).2 _ rfl).1.2
    have hlate := hprompt.expired (0, .read) ⟨rfl, by decide⟩
    revert hlate
    decide
  · have hprompt := ((h _ rfl).2 _ rfl).1.2
    have hlong := (hprompt.timeout 2000 (List.mem_cons_of_mem _ List.mem_cons_self)).2.2 3000 (.inl List.mem_cons_self)
    revert hlong
    decide

end IdleWorker

end Core
