import Mathlib.Algebra.Ring.Nat
import Mathlib.Data.Prod.Lex
import Mathlib.Logic.Function.Basic
import ZeroFrameworks.Lib.OrderedSet

/-!
# Timers

`TimerManager` keeps the active timers in a `std::set` that is ordered by the time a timer is due and then
by its address.  The time is a field of the timer, so a timer leaves the set before its time changes.

Timers are named by numbers in the order in which they are made; `addr` is the address the allocator gave
the object.  A timer is active as long as it has a callback.  Times are `uint64_t` milliseconds.
-/

namespace Core

variable {C : Type}

/-! ## Data -/

structure Timer (C : Type) where
  recurring : Bool
  ms : Nat
  next : Nat
  cb : Option C
  addr : Nat

structure TimerManager (C : Type) where
  timer : Nat → Option (Timer C)
  count : Nat
  timers : List Nat
  tickled : Bool
  previouseTime : Nat

namespace TimerManager

/-- The constructor, at clock reading `now`. -/
def new (now : Nat) : TimerManager C := ⟨fun _ => none, 0, [], false, now⟩

/-! ## Algorithm -/

/-- What `Timer::Comparator` compares. -/
def key (s : TimerManager C) (id : Nat) : ℕ ×ₗ ℕ :=
  match s.timer id with
  | some t => toLex (t.next, t.addr)
  | none => toLex (0, 0)

def setTimer (id : Nat) (t : Timer C) (s : TimerManager C) : TimerManager C :=
  { s with timer := Function.update s.timer id (some t) }

def insertTimer (id : Nat) (s : TimerManager C) : TimerManager C :=
  { s with timers := OrderedSet.insert s.key id s.timers }

def eraseTimer (id : Nat) (s : TimerManager C) : TimerManager C :=
  { s with timers := OrderedSet.erase s.key id s.timers }

/-- `addTimer(val, lock)`: whether `onTimerInsertedAtFront` is called. -/
def addToSet (id : Nat) (s : TimerManager C) : Bool × TimerManager C :=
  let s := s.insertTimer id
  let atFront := decide (s.timers.head? = some id) && !s.tickled
  (atFront, { s with tickled := s.tickled || atFront })

def addTimer (now ms : Nat) (cb : C) (recurring : Bool) (addr : Nat) (s : TimerManager C) : Nat × TimerManager C :=
  let id := s.count
  let t : Timer C := ⟨recurring, ms, (now + ms) % 2 ^ 64, some cb, addr⟩
  (id, (({ s with count := s.count + 1 }.setTimer id t).addToSet id).2)

def cancel (id : Nat) (s : TimerManager C) : Bool × TimerManager C :=
  match s.timer id with
  | some t =>
    if t.cb.isSome then (true, (s.setTimer id { t with cb := none }).eraseTimer id)
    else (false, s)
  | none => (false, s)

def refresh (id now : Nat) (s : TimerManager C) : Bool × TimerManager C :=
  match s.timer id with
  | some t =>
    if t.cb.isNone then (false, s)
    else if OrderedSet.contains s.key id s.timers then
      (true, ((s.eraseTimer id).setTimer id { t with next := (now + t.ms) % 2 ^ 64 }).insertTimer id)
    else (false, s)
  | none => (false, s)

def reset (id ms : Nat) (fromNow : Bool) (now : Nat) (s : TimerManager C) : Bool × TimerManager C :=
  match s.timer id with
  | some t =>
    if ms = t.ms ∧ fromNow = false then (true, s)
    else if t.cb.isNone then (false, s)
    else if OrderedSet.contains s.key id s.timers then
      let start := if fromNow then now else (t.next + (2 ^ 64 - t.ms)) % 2 ^ 64
      (true, (((s.eraseTimer id).setTimer id { t with ms := ms, next := (start + ms) % 2 ^ 64 }).addToSet id).2)
    else (false, s)
  | none => (false, s)

def hour : Nat := 60 * 60 * 1000

def detectClockRollover (now : Nat) (s : TimerManager C) : Bool :=
  decide (now < s.previouseTime) && decide (now < (s.previouseTime + (2 ^ 64 - hour)) % 2 ^ 64)

def nextOf (s : TimerManager C) (id : Nat) : Nat := ((s.timer id).map Timer.next).getD 0

/-- The timers that stay in the set: those from the iterator `it` on.  `addr` is the address of the timer
that is made for the search. -/
def remaining (now addr : Nat) (s : TimerManager C) : List Nat :=
  if s.detectClockRollover now then []
  else (OrderedSet.lowerBound s.key (toLex (now, addr)) s.timers).dropWhile fun id => decide (s.nextOf id = now)

/-- The timers that fire, in the order of the set. -/
def expired (now addr : Nat) (s : TimerManager C) : List Nat :=
  match s.timers with
  | [] => []
  | first :: _ =>
    if !s.detectClockRollover now && decide (now < s.nextOf first) then []
    else s.timers.take (s.timers.length - (s.remaining now addr).length)

/-- The loop over the expired timers. -/
def fire (now : Nat) (s : TimerManager C) (id : Nat) : TimerManager C :=
  match s.timer id with
  | some t =>
    if t.recurring then (s.setTimer id { t with next := (now + t.ms) % 2 ^ 64 }).insertTimer id
    else s.setTimer id { t with cb := none }
  | none => s

def listExpiredCb (now addr : Nat) (s : TimerManager C) : List (Option C) × TimerManager C :=
  match s.timers with
  | [] => ([], s)
  | first :: _ =>
    let s' := { s with previouseTime := now }
    if !s.detectClockRollover now && decide (now < s.nextOf first) then ([], s')
    else
      let ids := s.expired now addr
      (ids.map fun id => (s.timer id).bind Timer.cb,
        ids.foldl (fire now) { s' with timers := s.remaining now addr })

/-- Milliseconds to the next timer; `~0` when there is none. -/
def getNextTimer (now : Nat) (s : TimerManager C) : Nat × TimerManager C :=
  let s' := { s with tickled := false }
  match s.timers with
  | [] => (2 ^ 64 - 1, s')
  | first :: _ => (s.nextOf first - now, s')

end TimerManager

end Core
