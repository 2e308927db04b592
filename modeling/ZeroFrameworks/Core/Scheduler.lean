import ZeroFrameworks.Lib.Shares

/-!
# The coroutine scheduler

`Scheduler::run` as a system of workers.  A `Point` says where a worker stands in its loop, and each locked
section, each change of a counter and each switch between fibers is one step.  `IOManager` gives `idle`,
`tickle` and `stopping`: an idle worker waits in `epoll_wait` on a pipe, and a tickle writes a byte to it.

    takeFirst skip l = some (ft, before, after) → l = before ++ ft :: after   (takeFirst_some)
    s'.waiting + (what w held) = s.waiting + (what w holds)   (waiting_change)
-/

namespace Core

/-! ## Algorithm -/

inductive FiberState where
  | init | hold | exec | term | ready | except
deriving DecidableEq

inductive Task where
  | fiber (f : Nat)
  | cb
deriving DecidableEq

/-- An entry of a task list.  `ticket` is the number of the `schedule` call that made it. -/
structure FiberAndThread (W : Type) where
  ticket : Nat
  task : Task
  thread : Option W
deriving DecidableEq

inductive Point (W : Type) where
  | top
  /-- The local list gave nothing. -/
  | look
  /-- The lists have been looked at, and the tickle for the others is still to come. -/
  | fetched (tickleMe : Bool) (ft : Option (FiberAndThread W))
  | taken (ft : FiberAndThread W)
  | running (f : Nat) (cb : Bool)
  /-- The fiber has swapped out, and is still counted as active. -/
  | back (f : Nat) (cb : Bool)
  | settle (f : Nat) (cb : Bool)
  | empty
  | check
  | wait
  /-- `epoll_wait` has returned, with the pipe among its results or not. -/
  | handling (tickled : Bool)
  | leaveIdle
  | exited
deriving DecidableEq

namespace Point

variable {W : Type}

def hand : Point W → Option (FiberAndThread W)
  | .fetched _ ft => ft
  | .taken ft => some ft
  | _ => none

/-- The fiber that the worker is on, and if it is the one that its callbacks run in. -/
def stack : Point W → Option (Nat × Bool)
  | .running f cb | .back f cb | .settle f cb => some (f, cb)
  | _ => none

/-- Between dequeue and completion. -/
def busy : Point W → Bool
  | .fetched _ ft => ft.isSome
  | .taken _ | .running .. | .back .. => true
  | _ => false

end Point

/-- What `Scheduler` knows of tasks and fibers.  `resumed` and `count` are not of the program: they record
which entries have been run, and how many there have been. -/
structure Tasks (W : Type) where
  state : Nat → FiberState
  made : Nat
  fibers : List (FiberAndThread W)
  localFibers : W → List (FiberAndThread W)
  cbFiber : W → Option Nat
  point : W → Point W
  active : Int
  resumed : List (FiberAndThread W × W)
  count : Nat

namespace Tasks

variable {W : Type} [DecidableEq W]

def new : Tasks W := ⟨fun _ => .init, 0, [], fun _ => [], fun _ => none, fun _ => .top, 0, [], 0⟩

def goto (w : W) (p : Point W) (s : Tasks W) : Tasks W := { s with point := Function.update s.point w p }

def setState (f : Nat) (st : FiberState) (s : Tasks W) : Tasks W := { s with state := Function.update s.state f st }

def setCbFiber (w : W) (c : Option Nat) (s : Tasks W) : Tasks W := { s with cbFiber := Function.update s.cbFiber w c }

def executing (s : Tasks W) : Task → Bool
  | .fiber f => s.state f = .exec
  | .cb => false

def scheduleLocal (w : W) (task : Task) (s : Tasks W) : Tasks W :=
  { s with
    localFibers := Function.update s.localFibers w (s.localFibers w ++ [⟨s.count, task, some w⟩])
    count := s.count + 1 }

def scheduleNoLock (task : Task) (thread : Option W) (s : Tasks W) : Tasks W :=
  { s with fibers := s.fibers ++ [⟨s.count, task, thread⟩], count := s.count + 1 }

/-- The first entry that is not skipped, and the list without it. -/
def takeFirst (skip : FiberAndThread W → Bool) :
    List (FiberAndThread W) → Option (FiberAndThread W × List (FiberAndThread W) × List (FiberAndThread W))
  | [] => none
  | ft :: l =>
    if skip ft then (takeFirst skip l).map fun r => (r.1, ft :: r.2.1, r.2.2) else some (ft, [], l)

def foreign (w : W) (ft : FiberAndThread W) : Bool := ft.thread ≠ none ∧ ft.thread ≠ some w

/-- The worker has `ft`, and leaves `q` of the common list and `l` of its own. -/
def take (w : W) (q l : List (FiberAndThread W)) (tickleMe : Bool) (ft : FiberAndThread W) (s : Tasks W) : Tasks W :=
  { s with fibers := q, localFibers := Function.update s.localFibers w l, active := s.active + 1 }.goto w
    (.fetched tickleMe (some ft))

def fetchLocalTask (w : W) (s : Tasks W) : Tasks W :=
  match takeFirst (fun ft => s.executing ft.task) (s.localFibers w) with
  | none => s.goto w .look
  | some (ft, before, after) => s.take w s.fibers (before ++ after) false ft

/-- The locked look at `m_fibers`. -/
def fetchTask (w : W) (s : Tasks W) : Tasks W :=
  match takeFirst (fun ft => foreign w ft || s.executing ft.task) s.fibers with
  | none => s.goto w (.fetched (s.fibers.any (foreign w)) none)
  | some (ft, before, after) =>
    s.take w (before ++ after) (s.localFibers w) (before.any (foreign w) || !after.isEmpty) ft

/-- `Fiber::swapIn` for the entry in the worker's hand. -/
def swapIn (w : W) (ft : FiberAndThread W) (f : Nat) (cb : Bool) (s : Tasks W) : Tasks W :=
  { s.setState f .exec with resumed := (ft, w) :: s.resumed }.goto w (.running f cb)

def runTask (w : W) (ft : FiberAndThread W) (s : Tasks W) : Tasks W :=
  match ft.task with
  | .fiber f =>
    if s.state f ≠ .term ∧ s.state f ≠ .except then s.swapIn w ft f false
    else { s with active := s.active - 1 }.goto w .top
  | .cb =>
    match s.cbFiber w with
    | some c => (s.setState c .init).swapIn w ft c true
    | none => ({ s with made := s.made + 1 }.setCbFiber w (some s.made)).swapIn w ft s.made true

/-- What `run` does with a fiber that has swapped out. -/
def settle (w : W) (f : Nat) (s : Tasks W) : Bool → Tasks W
  | false =>
    if s.state f = .ready then (s.scheduleLocal w (.fiber f)).goto w .top
    else if s.state f ≠ .term ∧ s.state f ≠ .except then (s.setState f .hold).goto w .top
    else s.goto w .top
  | true =>
    if s.state f = .ready then ((s.scheduleLocal w (.fiber f)).setCbFiber w none).goto w .top
    else if s.state f = .except ∨ s.state f = .term then (s.setState f .init).goto w .top
    else ((s.setState f .hold).setCbFiber w none).goto w .top

end Tasks

/-- How a running fiber comes back to `run`. -/
inductive Outcome where
  | yieldToHold | yieldToReady | term | except
deriving DecidableEq

def Outcome.state : Outcome → FiberState
  | .yieldToHold => .exec
  | .yieldToReady => .ready
  | .term => .term
  | .except => .except

inductive Event (W : Type) where
  | newFiber
  | schedule (caller : Option W) (task : Task) (thread : Option W)
  | scheduleAll (caller : Option W) (tasks : List Task)
  | tickle (caller : Option W)
  | stop
  | leave (w : W) (outcome : Outcome)
  /-- `quiet`: no timer and no event is pending. -/
  | stopping (w : W) (quiet : Bool)
  | epollWait (w : W) (tickled : Bool)
  | step (w : W)
deriving DecidableEq

/-- `bytes` are in the pipe and `ready` is its edge.  Inside `schedule` and still to tickle are the workers of
`calling` and `outside` further threads. -/
structure Scheduler (W : Type) extends Tasks W where
  idleTerm : W → Bool
  idle : Int
  autoStop : Bool
  stop : Bool
  bytes : Nat
  ready : Bool
  calling : W → Bool
  outside : Nat

namespace Scheduler

variable {W : Type} [Fintype W] [DecidableEq W]

def new : Scheduler W := ⟨.new, fun _ => false, 0, false, false, 0, false, fun _ => false, 0⟩

/-- `IOManager::tickle`. -/
def tickle (s : Scheduler W) : Scheduler W :=
  if 0 < s.idle then { s with bytes := s.bytes + 1, ready := true } else s

/-- A worker runs code that calls `schedule` in a fiber or while it handles what `epoll_wait` gave. -/
def callable (s : Scheduler W) : Option W → Bool
  | none => true
  | some w => !s.calling w && match s.point w with
    | .running .. | .handling _ => true
    | _ => false

/-- The caller tickles when it has released the lock. -/
def owe (s : Scheduler W) (needTickle : Bool) : Option W → Scheduler W
  | none => if needTickle then { s with outside := s.outside + 1 } else s
  | some w => if needTickle then { s with calling := Function.update s.calling w true } else s

def schedule (s : Scheduler W) (caller : Option W) (task : Task) (thread : Option W) : Scheduler W :=
  match caller with
  | some w =>
    if thread = some w then { s with toTasks := s.scheduleLocal w task }
    else { s with toTasks := s.scheduleNoLock task thread }.owe s.fibers.isEmpty caller
  | none => { s with toTasks := s.scheduleNoLock task thread }.owe s.fibers.isEmpty caller

def scheduleAll (s : Scheduler W) (caller : Option W) (tasks : List Task) : Scheduler W :=
  { s with toTasks := tasks.foldl (fun s task => s.scheduleNoLock task none) s.toTasks }.owe
    (s.fibers.isEmpty && !tasks.isEmpty) caller

def isStopping (s : Scheduler W) (w : W) (quiet : Bool) : Bool :=
  quiet && s.autoStop && s.stop && s.fibers.isEmpty && (s.localFibers w).isEmpty && s.active = 0

/-- One step of a worker's own code. -/
def stepWorker (s : Scheduler W) (w : W) : Option (Scheduler W) :=
  match s.point w with
  | .top => some { s with toTasks := s.fetchLocalTask w }
  | .look => some { s with toTasks := s.fetchTask w }
  | .fetched tickleMe ft =>
    let s := if tickleMe then s.tickle else s
    match ft with
    | some ft => some { s with toTasks := s.goto w (.taken ft) }
    | none => some { s with toTasks := s.goto w .empty }
  | .taken ft => some { s with toTasks := s.runTask w ft }
  | .back f cb => some { s with toTasks := { s.toTasks with active := s.active - 1 }.goto w (.settle f cb) }
  | .settle f cb => some { s with toTasks := s.toTasks.settle w f cb }
  | .empty =>
    if s.idleTerm w then some { s with toTasks := s.goto w .exited }
    else some { s with toTasks := s.goto w .check, idle := s.idle + 1 }
  | .handling true => some { s with toTasks := s.goto w (.handling false), bytes := 0 }
  | .handling false => some { s with toTasks := s.goto w .leaveIdle }
  | .leaveIdle => some { s with toTasks := s.goto w .top, idle := s.idle - 1 }
  | .running .. | .check | .wait | .exited => none

def step (s : Scheduler W) : Event W → Option (Scheduler W)
  | .newFiber => some { s with made := s.made + 1 }
  | .schedule caller task thread => if s.callable caller then some (s.schedule caller task thread) else none
  | .scheduleAll caller tasks => if s.callable caller then some (s.scheduleAll caller tasks) else none
  | .tickle none => if 0 < s.outside then some { s.tickle with outside := s.outside - 1 } else none
  | .tickle (some w) =>
    if s.calling w then some { s.tickle with calling := Function.update s.calling w false } else none
  | .stop => some { s with autoStop := true, stop := true, outside := s.outside + Fintype.card W }
  | .leave w outcome =>
    match s.point w with
    | .running f cb =>
      if s.calling w then none
      else some { s with toTasks := (s.setState f outcome.state).goto w (.back f cb) }
    | _ => none
  | .stopping w quiet =>
    if s.point w = .check then
      if s.isStopping w quiet then
        some { s with toTasks := s.goto w .leaveIdle, idleTerm := Function.update s.idleTerm w true }
      else some { s with toTasks := s.goto w .wait }
    else none
  | .epollWait w tickled =>
    if s.point w = .wait ∧ (tickled = true → s.ready = true ∧ 0 < s.bytes) then
      some { s with toTasks := s.goto w (.handling tickled), ready := s.ready && !tickled }
    else none
  | .step w => if s.calling w then none else s.stepWorker w

/-- The states a run goes through, `none` as soon as an event is not possible. -/
def run (s : Scheduler W) : List (Event W) → Option (Scheduler W)
  | [] => some s
  | e :: es => (s.step e).bind fun s' => s'.run es

/-- `P` holds of every event of a run, in the state that it finds. -/
def Along (P : Scheduler W → Event W → Prop) (s : Scheduler W) : List (Event W) → Prop
  | [] => True
  | e :: es => P s e ∧ ∀ s' ∈ s.step e, s'.Along P es

instance Along.decidable (P : Scheduler W → Event W → Prop) [∀ s e, Decidable (P s e)] :
    (es : List (Event W)) → (s : Scheduler W) → Decidable (s.Along P es)
  | [], _ => inferInstanceAs (Decidable True)
  | e :: es, s =>
    have := Along.decidable P es
    inferInstanceAs (Decidable (P s e ∧ ∀ s' ∈ s.step e, s'.Along P es))

end Scheduler

/-! ## Lemmas -/

namespace Tasks

variable {W : Type}

/-! ### The look at a list -/

variable {ft : FiberAndThread W}

theorem takeFirst_some {skip : FiberAndThread W → Bool} {l before after : List (FiberAndThread W)}
    (h : takeFirst skip l = some (ft, before, after)) :
    l = before ++ ft :: after ∧ skip ft = false ∧ ∀ x ∈ before, skip x = true := by
  induction l generalizing before with
  | nil => cases h
  | cons y l ih =>
    unfold takeFirst at h
    split at h
    next hskip =>
      obtain ⟨r, hr, heq⟩ := Option.map_eq_some_iff.mp h
      obtain ⟨rfl, rfl, rfl⟩ : r.1 = ft ∧ y :: r.2.1 = before ∧ r.2.2 = after := by
        simpa only [Prod.mk.injEq] using heq
      obtain ⟨hl, hft, hbefore⟩ := ih hr
      refine ⟨by rw [hl, List.cons_append], hft, ?_⟩
      intro x hx
      rcases List.mem_cons.mp hx with rfl | hx
      · exact hskip
      · exact hbefore x hx
    next hskip =>
      cases h
      exact ⟨rfl, by simpa using hskip, by simp⟩

theorem takeFirst_none {skip : FiberAndThread W → Bool} {l : List (FiberAndThread W)}
    (h : takeFirst skip l = none) : ∀ x ∈ l, skip x = true := by
  induction l with
  | nil => simp
  | cons y l ih =>
    unfold takeFirst at h
    split at h
    next hskip =>
      have hl := ih (Option.map_eq_none_iff.mp h)
      intro x hx
      rcases List.mem_cons.mp hx with rfl | hx
      · exact hskip
      · exact hl x hx
    next => cases h

/-! ### Entries that wait to be run -/

variable [Fintype W]

/-- What the worker has to itself. -/
def held (s : Tasks W) (w : W) : Multiset (FiberAndThread W) := ↑(s.localFibers w) + ↑(s.point w).hand.toList

def waiting (s : Tasks W) : Multiset (FiberAndThread W) := ↑s.fibers + ∑ w, s.held w

/-- How many entries there are for a fiber. -/
def tickets (s : Tasks W) (f : Nat) : Nat := s.waiting.countP fun ft => ft.task = .fiber f

theorem mem_waiting {s : Tasks W} :
    ft ∈ s.waiting ↔ ft ∈ s.fibers ∨ ∃ w, ft ∈ s.localFibers w ∨ (s.point w).hand = some ft := by
  have hsum : ft ∈ ∑ w, s.held w ↔ ∃ w, ft ∈ s.localFibers w ∨ (s.point w).hand = some ft := by
    rw [Multiset.mem_sum]
    simp only [Finset.mem_univ, true_and, held, Multiset.mem_add, Multiset.mem_coe, Option.mem_toList]
  rw [waiting, Multiset.mem_add, Multiset.mem_coe, hsum]

theorem tickets_pos {s : Tasks W} {f : Nat} (h : ft ∈ s.waiting) (hf : ft.task = .fiber f) :
    0 < s.tickets f := Multiset.countP_pos.mpr ⟨ft, h, hf⟩

variable [DecidableEq W]

theorem waiting_change (s s' : Tasks W) (w : W) (l : List (FiberAndThread W)) (p : Point W)
    (hlocal : s'.localFibers = Function.update s.localFibers w l) (hpoint : s'.point = Function.update s.point w p) :
    s'.waiting + (↑s.fibers + s.held w) = s.waiting + (↑s'.fibers + (↑l + ↑p.hand.toList)) := by
  have hheld : s'.held = Function.update s.held w (↑l + ↑p.hand.toList) := by
    funext w'
    unfold held
    rw [hlocal, hpoint]
    by_cases hw : w' = w
    · subst hw
      rw [Function.update_self, Function.update_self, Function.update_self]
    · rw [Function.update_of_ne hw, Function.update_of_ne hw, Function.update_of_ne hw]
  have hsum := Shares.sum_update_add s.held w (↑l + ↑p.hand.toList)
  unfold waiting
  rw [hheld]
  calc (↑s'.fibers + ∑ x, Function.update s.held w (↑l + ↑p.hand.toList) x) + (↑s.fibers + s.held w)
      = (↑s'.fibers + ↑s.fibers) + (∑ x, Function.update s.held w (↑l + ↑p.hand.toList) x + s.held w) := by abel
    _ = (↑s'.fibers + ↑s.fibers) + (∑ x, s.held x + (↑l + ↑p.hand.toList)) := by rw [hsum]
    _ = (↑s.fibers + ∑ x, s.held x) + (↑s'.fibers + (↑l + ↑p.hand.toList)) := by abel

theorem waiting_goto (s : Tasks W) (w : W) (p : Point W) :
    (s.goto w p).waiting + ↑(s.point w).hand.toList = s.waiting + ↑p.hand.toList := by
  have h := waiting_change s (s.goto w p) w (s.localFibers w) p (Function.update_eq_self w s.localFibers).symm rfl
  have hs : (s.goto w p).waiting + ↑(s.point w).hand.toList + (↑s.fibers + ↑(s.localFibers w)) =
      (s.goto w p).waiting + (↑s.fibers + (↑(s.localFibers w) + ↑(s.point w).hand.toList)) := by abel
  have hs' : s.waiting + (↑s.fibers + (↑(s.localFibers w) + ↑p.hand.toList)) =
      s.waiting + ↑p.hand.toList + (↑s.fibers + ↑(s.localFibers w)) := by abel
  exact add_right_cancel (hs.trans (h.trans hs'))

end Tasks

namespace Scheduler

variable {W : Type}

@[simp] theorem tickle_toTasks (s : Scheduler W) : s.tickle.toTasks = s.toTasks := by
  unfold tickle
  split <;> rfl

@[simp] theorem owe_toTasks [DecidableEq W] (s : Scheduler W) (need : Bool) (caller : Option W) :
    (s.owe need caller).toTasks = s.toTasks := by
  unfold owe
  cases caller <;> cases need <;> rfl

variable [Fintype W] [DecidableEq W]

theorem along_last {P : Scheduler W → Event W → Prop} {s s' : Scheduler W} {e : Event W}
    {es : List (Event W)} (h : s.Along P (es ++ [e])) (hrun : s.run es = some s') : P s' e := by
  induction es generalizing s with
  | nil => cases hrun; exact h.1
  | cons x es ih =>
    obtain ⟨s1, hstep, hrun⟩ := Option.bind_eq_some_iff.mp hrun
    exact ih (h.2 s1 hstep) hrun

end Scheduler

end Core
